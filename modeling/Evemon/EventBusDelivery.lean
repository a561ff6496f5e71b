import Evemon.EventBusSubscriptions
import Mathlib.Data.List.Flatten
import Mathlib.Data.List.Perm.Basic

-- Which subscriber is called for which event, over whole runs.
namespace Evemon.EventBus

open List Nat

abbrev Key := Nat × Subscription

def Call.key (call : Call) : Key := (call.idle.serial, call.subscription)

def keysOf (idle : Idle) (subs : List Subscription) : List Key := subs.map fun sub => (idle.serial, sub)

def Dispatch.keys (record : Dispatch) : List Key := keysOf record.idle record.matched

def Bus.owed (bus : Bus) : List Key :=
  match bus.running with
  | none => []
  | some (idle, left) => keysOf idle left

structure Idle.Sound (idle : Idle) : Prop where
  type : idle.event.type = idle.published.type
  content : idle.event.content = idle.published.content
  since : ∀ sub ∈ idle.since, sub.generation = idle.generation

structure Idle.Queued (idle : Idle) (generation : Nat) : Prop where
  sound : idle.Sound
  added : idle.generation ≤ idle.returned
  before : idle.returned ≤ generation

structure Dispatch.Sound (record : Dispatch) : Prop where
  idle : record.idle.Queued record.generation
  matched : record.matched = record.table.filter fun sub =>
    record.idle.generation = record.generation && sub.type = record.idle.event.type
  nodup : record.table.Nodup
  current : ∀ sub ∈ record.table, sub.generation = record.generation

def Idle.source (idle : Idle) : Event × Nat × List Subscription := (idle.published, idle.generation, idle.since)

-- Every copied event is with its publisher, in the queue of the main loop or dispatched.
def Bus.flight (bus : Bus) : List Idle := bus.publishing ++ (bus.queue ++ bus.dispatches.map Dispatch.idle)

structure Ledger (bus : Bus) : Prop where
  registered : Registered bus
  publishing : ∀ idle ∈ bus.publishing, idle.Sound ∧ idle.generation ≤ bus.generation
  queue : ∀ idle ∈ bus.queue, idle.Queued bus.generation
  dispatches : ∀ record ∈ bus.dispatches, record.Sound
  serials : bus.dispatches.map (fun record => record.idle.serial) ++ bus.queue.map Idle.serial = List.range bus.added
  keys : bus.calls.map Call.key ++ bus.owed = bus.dispatches.flatMap Dispatch.keys
  calls : ∀ call ∈ bus.calls, ∃ record ∈ bus.dispatches, call.idle = record.idle ∧ call.subscription ∈ record.matched
  running : ∀ idle left, bus.running = some (idle, left) →
    ∃ record ∈ bus.dispatches, idle = record.idle ∧ ∀ sub ∈ left, sub ∈ record.matched
  accounted : (bus.flight.map Idle.source).Perm bus.accepted

theorem ledger_start : Ledger {} where
  registered := registered_start
  publishing := forall_mem_nil _
  queue := forall_mem_nil _
  dispatches := forall_mem_nil _
  serials := rfl
  keys := rfl
  calls := forall_mem_nil _
  running _ _ held := nomatch held
  accounted := .refl _

theorem table_nodup {bus} (registered : Registered bus) : bus.table.Nodup := by
  apply List.Nodup.filterMap _ (nodup_finRange maxSubscriptions)
  intro slot other sub here there
  exact registered.unique slot other sub sub here there rfl

theorem table_current {bus} (registered : Registered bus) (sub : Subscription) (listed : sub ∈ bus.table) :
    sub.generation = bus.generation := by
  obtain ⟨slot, held⟩ := (mem_table bus sub).mp listed
  exact registered.current slot sub held

theorem queued_later {idle : Idle} {generation later : Nat} (queued : idle.Queued generation)
    (grows : generation ≤ later) : idle.Queued later :=
  ⟨queued.sound, queued.added, queued.before.trans grows⟩

section

structure FlightKept (bus after : Bus) : Prop where
  publishing : after.publishing = bus.publishing
  queue : after.queue = bus.queue
  running : after.running = bus.running
  added : after.added = bus.added
  dispatches : after.dispatches = bus.dispatches
  calls : after.calls = bus.calls
  accepted : after.accepted = bus.accepted
  generation : bus.generation ≤ after.generation

variable (bus : Bus)

theorem subscribe_flight (type : EventType) (cb : Option Nat) : FlightKept bus (eventBusSubscribe type cb bus).2 := by
  obtain same | ⟨_, _, _, same⟩ := subscribe_cases bus type cb
  · rw [same]
    exact ⟨rfl, rfl, rfl, rfl, rfl, rfl, rfl, le_refl _⟩
  · rw [same]
    exact ⟨rfl, rfl, rfl, rfl, rfl, rfl, rfl, le_refl _⟩

theorem unsubscribe_flight (id : Int) : FlightKept bus (eventBusUnsubscribe id bus) := by
  unfold eventBusUnsubscribe
  split <;> exact ⟨rfl, rfl, rfl, rfl, rfl, rfl, rfl, le_refl _⟩

theorem ledger_flight {after} (ledger : Ledger bus) (registered : Registered after) (kept : FlightKept bus after) :
    Ledger after where
  registered := registered
  publishing idle mem := by
    rw [kept.publishing] at mem
    have held := ledger.publishing idle mem
    exact ⟨held.1, held.2.trans kept.generation⟩
  queue idle mem := by
    rw [kept.queue] at mem
    exact queued_later (ledger.queue idle mem) kept.generation
  dispatches := kept.dispatches ▸ ledger.dispatches
  serials := by
    rw [kept.dispatches, kept.queue, kept.added]
    exact ledger.serials
  keys := by
    rw [kept.calls, Bus.owed, kept.running, kept.dispatches]
    exact ledger.keys
  calls := by
    rw [kept.calls, kept.dispatches]
    exact ledger.calls
  running := by
    rw [kept.running, kept.dispatches]
    exact ledger.running
  accounted := by
    rw [Bus.flight, kept.publishing, kept.queue, kept.dispatches, kept.accepted]
    exact ledger.accounted

theorem ledger_publish {event} {grants} (ledger : Ledger bus) : Ledger (bus.step (.publish event grants)) := by
  have registered := registered_kept bus (publish_table bus event grants) ledger.registered
  obtain same | ⟨copy, copied, same⟩ := publish_cases bus event grants
  · rw [same]
    exact ledger
  rw [same] at registered ⊢
  refine { ledger with registered, publishing := fun idle mem => ?_, accounted := ?_ }
  · rcases mem_append.mp mem with old | _ | ⟨_, ⟨⟩⟩
    · exact ledger.publishing idle old
    · have same := event_to_idle_content copy copied
      exact ⟨⟨same.1, same.2, table_current ledger.registered⟩, le_refl _⟩
  · rw [Bus.flight, append_assoc, singleton_append]
    exact (perm_middle.map _).trans ((ledger.accounted.cons _).trans (perm_append_singleton _ _).symm)

theorem ledger_add {index} (ledger : Ledger bus) : Ledger (idleAdd index bus) := by
  have registered := registered_kept bus (add_table bus index) ledger.registered
  unfold idleAdd at registered ⊢
  split at registered
  · exact ledger
  · rename_i idle found
    have held := ledger.publishing idle (mem_of_getElem? found)
    refine { ledger with
      registered, publishing := fun other mem => ?_, queue := fun other mem => ?_, serials := ?_, accounted := ?_ }
    · exact ledger.publishing other (mem_of_mem_eraseIdx mem)
    · rcases mem_append.mp mem with old | _ | ⟨_, ⟨⟩⟩
      · exact ledger.queue other old
      · exact ⟨⟨held.1.type, held.1.content, held.1.since⟩, held.2, le_refl _⟩
    · rw [map_append, ← append_assoc, ledger.serials, range_succ]
      rfl
    · obtain ⟨inside, rfl⟩ := List.getElem?_eq_some_iff.mp found
      have taken := (getElem_cons_eraseIdx_perm inside).map Idle.source
      refine Perm.trans ?_ ledger.accounted
      simp only [Bus.flight, map_append, append_assoc, map_cons, singleton_append] at taken ⊢
      refine Perm.trans ?_ (taken.append_right _)
      rw [← append_assoc]
      exact perm_middle.trans (.of_eq (by rw [cons_append, append_assoc]; rfl))

theorem ledger_dispatch (ledger : Ledger bus) : Ledger (dispatchOnMain bus) := by
  have registered := registered_kept bus (dispatch_table bus) ledger.registered
  obtain same | ⟨idle, queue, stopped, waiting, same⟩ := dispatch_cases bus
  · rw [same]
    exact ledger
  rw [same] at registered ⊢
  have owed : bus.owed = [] := by rw [Bus.owed, stopped]
  have queued := ledger.queue idle (by rw [waiting]; exact mem_cons_self)
  constructor
  · exact registered
  · exact ledger.publishing
  · intro other mem
    exact ledger.queue other (by rw [waiting]; exact mem_cons_of_mem _ mem)
  · intro record mem
    rcases mem_append.mp mem with old | _ | ⟨_, ⟨⟩⟩
    · exact ledger.dispatches record old
    · exact ⟨queued, rfl, table_nodup ledger.registered, table_current ledger.registered⟩
  · have serials := ledger.serials
    rw [waiting] at serials
    simpa using serials
  · have keys := ledger.keys
    rw [owed, append_nil] at keys
    rw [flatMap_append, ← keys]
    simp [Bus.owed, Dispatch.keys]
  · intro call made
    obtain ⟨record, mem, held⟩ := ledger.calls call made
    exact ⟨record, mem_append_left _ mem, held⟩
  · intro other left started
    cases started
    exact ⟨_, mem_append_right _ (mem_singleton.mpr rfl), rfl, fun _ mem => mem⟩
  · refine Perm.trans ?_ ledger.accounted
    rw [Bus.flight, Bus.flight, waiting]
    apply Perm.map
    dsimp only
    rw [map_append, ← append_assoc, ← append_assoc, cons_append]
    refine (perm_append_singleton _ _).trans (Perm.trans ?_ perm_middle.symm)
    rw [append_assoc]

theorem ledger_call (ledger : Ledger bus) : Ledger (callNext bus) := by
  have registered := registered_kept bus (call_table bus) ledger.registered
  have keys := ledger.keys
  unfold callNext at registered ⊢
  split at registered
  · rename_i idle sub rest waiting
    obtain ⟨record, mem, same, matched⟩ := ledger.running idle (sub :: rest) waiting
    refine { ledger with registered, keys := ?_, calls := fun call made => ?_, running := fun other left held => ?_ }
    · rw [Bus.owed, waiting] at keys
      rw [← keys]
      simp [Bus.owed, keysOf, Call.key]
    · rcases mem_append.mp made with old | _ | ⟨_, ⟨⟩⟩
      · exact ledger.calls call old
      · exact ⟨record, mem, same, matched sub mem_cons_self⟩
    · cases held
      exact ⟨record, mem, same, fun sub later => matched sub (mem_cons_of_mem _ later)⟩
  · rename_i idle waiting
    refine { ledger with registered, keys := ?_, running := fun _ _ held => nomatch held }
    rw [Bus.owed, waiting] at keys
    exact keys
  · exact ledger

theorem ledger_step (action : Action) (ledger : Ledger bus) : Ledger (bus.step action) := by
  have registered := registered_step bus action ledger.registered
  cases action with
  | init | destroy => exact ledger_flight bus ledger registered ⟨rfl, rfl, rfl, rfl, rfl, rfl, rfl, le_succ _⟩
  | subscribe type cb => exact ledger_flight bus ledger registered (subscribe_flight bus type cb)
  | unsubscribe id => exact ledger_flight bus ledger registered (unsubscribe_flight bus id)
  | publish event grants => exact ledger_publish bus ledger
  | add index => exact ledger_add bus ledger
  | dispatch => exact ledger_dispatch bus ledger
  | call => exact ledger_call bus ledger

end

section

variable (bus : Bus) (ledger : Ledger bus)

include ledger

theorem serials_increase : bus.dispatches.Pairwise fun first second => first.idle.serial < second.idle.serial := by
  have sorted : (List.range bus.added).Pairwise (· < ·) := pairwise_lt_range
  rw [← ledger.serials] at sorted
  exact pairwise_map.mp (pairwise_append.mp sorted).1

theorem keys_nodup : (bus.calls.map Call.key ++ bus.owed).Nodup := by
  rw [ledger.keys, nodup_flatMap]
  constructor
  · intro record mem
    have sound := ledger.dispatches record mem
    have matched : record.matched.Nodup := by
      rw [sound.matched]
      exact sound.nodup.filter _
    exact matched.map fun first second same => (Prod.mk.inj same).2
  · apply (serials_increase bus ledger).imp
    intro first second before key here there
    obtain ⟨_, _, rfl⟩ := mem_map.mp here
    obtain ⟨_, _, same⟩ := mem_map.mp there
    have serial := (Prod.mk.inj same).1
    omega

theorem calls_ordered : bus.calls.Pairwise fun earlier later => earlier.idle.serial ≤ later.idle.serial := by
  have sorted : (bus.dispatches.flatMap Dispatch.keys).Pairwise fun earlier later => earlier.1 ≤ later.1 := by
    rw [pairwise_flatMap]
    constructor
    · intro record _
      exact pairwise_map.mpr (pairwise_of_forall fun _ _ => le_refl _)
    · apply (serials_increase bus ledger).imp
      intro first second before earlier here later there
      obtain ⟨_, _, rfl⟩ := mem_map.mp here
      obtain ⟨_, _, rfl⟩ := mem_map.mp there
      exact before.le
  rw [← ledger.keys] at sorted
  have called := (pairwise_append.mp sorted).1
  rwa [pairwise_map] at called

variable (record : Dispatch)

theorem lasting_matched (mem : record ∈ bus.dispatches) (sub : Subscription) (published : sub ∈ record.idle.since)
    (there : sub ∈ record.table) (type : sub.type = record.idle.published.type) : sub ∈ record.matched := by
  have sound := ledger.dispatches record mem
  have generation : record.idle.generation = record.generation :=
    (sound.idle.sound.since sub published).symm.trans (sound.current sub there)
  rw [sound.matched, mem_filter]
  simp [there, generation, type, sound.idle.sound.type]

theorem lasting_once (mem : record ∈ bus.dispatches) (sub : Subscription) (published : sub ∈ record.idle.since)
    (there : sub ∈ record.table) (type : sub.type = record.idle.published.type) :
    (bus.calls.map Call.key).count (record.idle.serial, sub) + bus.owed.count (record.idle.serial, sub) = 1 := by
  rw [← count_append]
  apply count_eq_one_of_mem (keys_nodup bus ledger)
  rw [ledger.keys, mem_flatMap]
  exact ⟨record, mem, mem_map_of_mem (lasting_matched bus ledger record mem sub published there type)⟩

theorem matched_same (mem : record ∈ bus.dispatches) {sub : Subscription} (matched : sub ∈ record.matched) :
    sub.type = record.idle.published.type ∧
    record.idle.returned = record.generation ∧ sub.generation = record.idle.returned := by
  have sound := ledger.dispatches record mem
  rw [sound.matched, mem_filter, Bool.and_eq_true, decide_eq_true_eq, decide_eq_true_eq] at matched
  obtain ⟨listed, generation, type⟩ := matched
  have added := sound.idle.added
  have before := sound.idle.before
  have returned : record.idle.returned = record.generation := by omega
  exact ⟨type.trans sound.idle.sound.type, returned, (sound.current sub listed).trans returned.symm⟩

end

theorem owed_drained (bus : Bus) : (callNext^[bus.owed.length] bus).owed = [] := by
  generalize size : bus.owed.length = length
  induction length generalizing bus with
  | zero => exact length_eq_zero_iff.mp size
  | succ length ih =>
    rw [Function.iterate_succ_apply]
    apply ih
    unfold callNext
    split
    · rename_i idle sub rest waiting
      rw [Bus.owed, waiting] at size
      simpa [Bus.owed, keysOf] using size
    · rename_i idle waiting
      rw [Bus.owed, waiting] at size
      cases size
    · rename_i stopped
      rw [Bus.owed, stopped] at size
      cases size

-- The main loop comes back to the queue once what it owes is paid.
def Bus.round (bus : Bus) : Bus := dispatchOnMain (callNext^[bus.owed.length + 1] bus)

theorem calls_waiting (count : Nat) (bus : Bus) :
    (callNext^[count] bus).queue = bus.queue ∧ (callNext^[count] bus).dispatches = bus.dispatches := by
  induction count generalizing bus with
  | zero => exact ⟨rfl, rfl⟩
  | succ count ih =>
    have same : (callNext bus).queue = bus.queue ∧ (callNext bus).dispatches = bus.dispatches := by
      unfold callNext
      split <;> exact ⟨rfl, rfl⟩
    rw [Function.iterate_succ_apply, ← same.1, ← same.2]
    exact ih (callNext bus)

theorem calls_stop (bus : Bus) : (callNext^[bus.owed.length + 1] bus).running = none := by
  rw [Function.iterate_succ_apply']
  have paid := owed_drained bus
  generalize callNext^[bus.owed.length] bus = last at paid
  unfold callNext
  split
  · rename_i idle sub rest waiting
    rw [Bus.owed, waiting] at paid
    cases paid
  · rfl
  · assumption

theorem round_takes (bus : Bus) (idle : Idle) (rest : List Idle) (waiting : bus.queue = idle :: rest) :
    bus.round.queue = rest ∧ ∃ record, record.idle = idle ∧ bus.round.dispatches = bus.dispatches ++ [record] := by
  obtain ⟨queue, dispatches⟩ := calls_waiting (bus.owed.length + 1) bus
  have stopped := calls_stop bus
  rw [waiting] at queue
  rw [← dispatches, Bus.round]
  generalize callNext^[bus.owed.length + 1] bus = ready at stopped queue
  rw [dispatchOnMain, stopped, queue]
  exact ⟨rfl, _, rfl, rfl⟩

-- `accounted`: no accepted publish is lost or doubled. `handed` and `taken`: a publisher's turn
-- queues its event, a round of the main loop dispatches the head of the queue. `once` and
-- `finishes`: who subscribed before the publish and stays until the dispatch has been called once
-- or is owed its one call, and all that is owed is paid. `isolated`: no call for an event whose
-- publish returned before the last reset before its dispatch.
structure Delivered (bus : Bus) : Prop where
  accounted : (bus.flight.map Idle.source).Perm bus.accepted
  handed : ∀ index idle, bus.publishing[index]? = some idle →
    ∃ last, (bus.step (.add index)).queue = bus.queue ++ [last] ∧ last.source = idle.source
  taken : ∀ idle rest, bus.queue = idle :: rest →
    bus.round.queue = rest ∧ ∃ record, record.idle = idle ∧ bus.round.dispatches = bus.dispatches ++ [record]
  queued : bus.dispatches.map (fun record => record.idle.serial) ++ bus.queue.map Idle.serial = List.range bus.added
  once : ∀ record ∈ bus.dispatches, ∀ sub ∈ record.idle.since, sub ∈ record.table →
    sub.type = record.idle.published.type →
      (bus.calls.map Call.key).count (record.idle.serial, sub) + bus.owed.count (record.idle.serial, sub) = 1
  finishes : (callNext^[bus.owed.length] bus).owed = []
  ordered : bus.calls.Pairwise fun earlier later => earlier.idle.serial ≤ later.idle.serial
  payload : ∀ call ∈ bus.calls, call.idle.event.content = call.idle.published.content
  type : ∀ call ∈ bus.calls, call.subscription.type = call.idle.published.type
  isolated : ∀ call ∈ bus.calls, call.subscription.generation = call.idle.returned ∧
    ∃ record ∈ bus.dispatches, record.idle = call.idle ∧ call.idle.returned = record.generation

theorem ledger_delivered (bus : Bus) (ledger : Ledger bus) : Delivered bus where
  accounted := ledger.accounted
  handed index idle waiting := by
    rw [Bus.step, idleAdd, waiting]
    exact ⟨_, rfl, rfl⟩
  taken := round_takes bus
  queued := ledger.serials
  once := lasting_once bus ledger
  finishes := owed_drained bus
  ordered := calls_ordered bus ledger
  payload call made := by
    obtain ⟨record, mem, same, _⟩ := ledger.calls call made
    rw [same]
    exact (ledger.dispatches record mem).idle.sound.content
  type call made := by
    obtain ⟨record, mem, same, matched⟩ := ledger.calls call made
    rw [same]
    exact (matched_same bus ledger record mem matched).1
  isolated call made := by
    obtain ⟨record, mem, same, matched⟩ := ledger.calls call made
    obtain ⟨_, returned, generation⟩ := matched_same bus ledger record mem matched
    rw [same]
    exact ⟨generation, record, mem, rfl, returned⟩

theorem events_delivered (bus : Bus) (reached : Runs.Reachable (· = {}) (fun _ _ => True) Bus.step bus) :
    Delivered bus := by
  have ledger : Ledger bus := by
    apply Runs.invariant Ledger _ (fun state action held _ => ledger_step state action held) bus reached
    intro state initial
    rw [initial]
    exact ledger_start
  exact ledger_delivered bus ledger

theorem events_delivered_destroyed : Delivered (runOf (serving ++ [.destroy, .call])) :=
  events_delivered _ (run_of_reachable _ _ (by decide +kernel))

theorem called_after_destroy : (runOf (serving ++ [.destroy, .call])).calls.map
    (fun call => (call.subscription.id, call.idle.returned, call.generation)) = [(1, 0, 0), (2, 0, 1)] := by
  decide +kernel

end Evemon.EventBus
