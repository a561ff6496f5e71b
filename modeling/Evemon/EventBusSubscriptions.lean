import Evemon.EventBus
import Evemon.Lib.Runs

namespace Evemon.EventBus

open List Function Nat

section

theorem mem_table (bus : Bus) (sub : Subscription) : sub ∈ bus.table ↔ ∃ slot, bus.subs slot = some sub := by
  simp [Bus.table, mem_filterMap]

structure Registered (bus : Bus) : Prop where
  known : ∀ slot sub, bus.subs slot = some sub → sub ∈ bus.issued
  numbered : ∀ sub ∈ bus.issued, sub.token < bus.issued.length
  positive : ∀ slot sub, bus.subs slot = some sub → 0 < sub.id
  below : ∀ slot sub, bus.subs slot = some sub → sub.id < bus.nextSubId
  unique : ∀ slot other first second, bus.subs slot = some first → bus.subs other = some second →
    first.id = second.id → slot = other
  current : ∀ slot sub, bus.subs slot = some sub → sub.generation = bus.generation
  counting : 0 < bus.nextSubId

theorem registered_start : Registered {} where
  known _ _ held := nomatch held
  numbered := forall_mem_nil _
  positive _ _ held := nomatch held
  below _ _ held := nomatch held
  unique _ _ _ _ held := nomatch held
  current _ _ held := nomatch held
  counting := one_pos

variable (bus : Bus) (registered : Registered bus)

theorem subscribe_cases (type : EventType) (cb : Option Nat) :
    eventBusSubscribe type cb bus = (0, bus) ∨ ∃ slot callback, bus.subs slot = none ∧ eventBusSubscribe type cb bus =
        (bus.nextSubId, { bus with
            subs := update bus.subs slot (some (bus.fresh type callback))
            nextSubId := bus.nextSubId + 1
            issued := bus.issued ++ [bus.fresh type callback] }) := by
  unfold eventBusSubscribe
  cases cb with
  | none => exact .inl rfl
  | some callback =>
    cases found : freeSlot bus with
    | none => exact .inl rfl
    | some slot =>
      refine .inr ⟨slot, callback, ?_, rfl⟩
      simpa using List.find?_some found

variable (id : Int) (slot : Fin maxSubscriptions)

theorem slot_found (found : slotOf id bus = some slot) : ∃ sub, bus.subs slot = some sub ∧ (sub.id : Int) = id := by
  have identified := List.find?_some found
  cases held : bus.subs slot with
  | none =>
    rw [held] at identified
    cases identified
  | some sub =>
    rw [held] at identified
    exact ⟨sub, rfl, by simpa using identified⟩

variable {sub : Subscription}

theorem slot_missing (missing : slotOf id bus = none) {slot} (held : bus.subs slot = some sub) : (sub.id : Int) ≠ id := by
  have nothing := List.find?_eq_none.mp missing slot (mem_finRange slot)
  simpa [held] using nothing

def revoking (id : Int) (bus : Bus) : List Subscription := bus.revoked ++ bus.issued.filter fun sub => sub.id = id

theorem unsubscribe_cases : (id ≤ 0 ∧ eventBusUnsubscribe id bus = bus) ∨
      (slotOf id bus = none ∧ eventBusUnsubscribe id bus = { bus with revoked := revoking id bus }) ∨
      ∃ slot, slotOf id bus = some slot ∧ eventBusUnsubscribe id bus =
        { bus with subs := update bus.subs slot none, revoked := revoking id bus } := by
  unfold eventBusUnsubscribe
  by_cases negative : id ≤ 0
  · exact .inl ⟨negative, if_pos negative⟩
  rw [if_neg negative]
  cases found : slotOf id bus with
  | none => exact .inr (.inl ⟨rfl, rfl⟩)
  | some slot => exact .inr (.inr ⟨slot, rfl, rfl⟩)

variable {other : Fin maxSubscriptions}

theorem update_none_held {slot} (held : update bus.subs slot none other = some sub) :
    other ≠ slot ∧ bus.subs other = some sub := by
  by_cases same : other = slot
  · rw [same, update_self] at held
    cases held
  · rw [update_of_ne same] at held
    exact ⟨same, held⟩

theorem unsubscribe_held (sub : Subscription)
    (held : (eventBusUnsubscribe id bus).subs slot = some sub) : bus.subs slot = some sub := by
  obtain ⟨_, same⟩ | ⟨_, same⟩ | ⟨freed, _, same⟩ := unsubscribe_cases bus id
  · rwa [same] at held
  · rwa [same] at held
  · rw [same] at held
    exact (update_none_held bus held).2

theorem unsubscribe_counts :
    (eventBusUnsubscribe id bus).issued = bus.issued ∧ (eventBusUnsubscribe id bus).nextSubId = bus.nextSubId := by
  unfold eventBusUnsubscribe
  split <;> exact ⟨rfl, rfl⟩

theorem unsubscribe_freed (held : bus.subs slot = some sub) (freed : (eventBusUnsubscribe id bus).subs slot = none) :
    (sub.id : Int) = id := by
  obtain ⟨_, same⟩ | ⟨_, same⟩ | ⟨other, found, same⟩ := unsubscribe_cases bus id
  · rw [same, held] at freed
    cases freed
  · rw [same, held] at freed
    cases freed
  · by_cases here : slot = other
    · obtain ⟨stored, there, identified⟩ := slot_found bus id other found
      rw [here, there] at held
      cases held
      exact identified
    · rw [same] at freed
      change update bus.subs other none slot = none at freed
      rw [update_of_ne here, held] at freed
      cases freed

include registered

theorem unsubscribe_gone (id : Int) (slot : Fin maxSubscriptions) (sub : Subscription)
    (held : (eventBusUnsubscribe id bus).subs slot = some sub) : (sub.id : Int) ≠ id := by
  have before := unsubscribe_held bus id slot sub held
  obtain ⟨negative, _⟩ | ⟨missing, _⟩ | ⟨freed, found, same⟩ := unsubscribe_cases bus id
  · have positive := registered.positive slot sub before
    omega
  · exact slot_missing bus id missing before
  · intro identified
    obtain ⟨stored, there, other⟩ := slot_found bus id freed found
    rw [same] at held
    apply (update_none_held bus held).1
    exact registered.unique slot freed sub stored before there (by omega)

theorem registered_fewer {after : Bus} (fewer : ∀ slot sub, after.subs slot = some sub → bus.subs slot = some sub)
    (issued : after.issued = bus.issued) (next : after.nextSubId = bus.nextSubId)
    (generation : after.generation = bus.generation) : Registered after where
  known slot sub held := issued ▸ registered.known slot sub (fewer slot sub held)
  numbered := issued ▸ registered.numbered
  positive slot sub held := registered.positive slot sub (fewer slot sub held)
  below slot sub held := next ▸ registered.below slot sub (fewer slot sub held)
  unique slot other first second here there := registered.unique slot other first second (fewer _ _ here) (fewer _ _ there)
  current slot sub held := generation ▸ registered.current slot sub (fewer slot sub held)
  counting := next ▸ registered.counting

theorem registered_cleared {after : Bus} (empty : ∀ slot, after.subs slot = none) (issued : after.issued = bus.issued)
    (counting : 0 < after.nextSubId) : Registered after where
  known slot _ held := nomatch (empty slot).symm.trans held
  numbered := issued ▸ registered.numbered
  positive slot _ held := nomatch (empty slot).symm.trans held
  below slot _ held := nomatch (empty slot).symm.trans held
  unique slot _ _ _ held := nomatch (empty slot).symm.trans held
  current slot _ held := nomatch (empty slot).symm.trans held
  counting := counting

omit registered in
theorem fresh_token {bus : Bus} (numbered : ∀ sub ∈ bus.issued, sub.token < bus.issued.length) (type : EventType)
    (callback : Nat) : bus.fresh type callback ∉ bus.issued := fun known => lt_irrefl _ (numbered _ known)

omit registered in
theorem update_some_held {slot} {new} (held : update bus.subs slot (some new) other = some sub) :
    (other = slot ∧ sub = new) ∨ (other ≠ slot ∧ bus.subs other = some sub) := by
  by_cases same : other = slot
  · rw [same, update_self] at held
    exact .inl ⟨same, (Option.some.inj held).symm⟩
  · rw [update_of_ne same] at held
    exact .inr ⟨same, held⟩

theorem registered_subscribed {type : EventType} {callback : Nat} {slot : Fin maxSubscriptions} : Registered
      { bus with
        subs := update bus.subs slot (some (bus.fresh type callback))
        nextSubId := bus.nextSubId + 1
        issued := bus.issued ++ [bus.fresh type callback] } where
  known other sub held := by
    obtain ⟨_, rfl⟩ | ⟨_, before⟩ := update_some_held bus held
    · exact mem_append_right _ (mem_singleton.mpr rfl)
    · exact mem_append_left _ (registered.known other sub before)
  numbered sub mem := by
    rw [length_append, length_singleton]
    rcases mem_append.mp mem with old | _ | ⟨_, ⟨⟩⟩
    · exact lt_succ_of_lt (registered.numbered sub old)
    · exact lt_succ_self _
  positive other sub held := by
    obtain ⟨_, rfl⟩ | ⟨_, before⟩ := update_some_held bus held
    · exact registered.counting
    · exact registered.positive other sub before
  below other sub held := by
    obtain ⟨_, rfl⟩ | ⟨_, before⟩ := update_some_held bus held
    · exact lt_succ_self _
    · exact lt_succ_of_lt (registered.below other sub before)
  unique here there first second firstHeld secondHeld same := by
    obtain ⟨atHere, rfl⟩ | ⟨_, firstBefore⟩ := update_some_held bus firstHeld
    · obtain ⟨atThere, _⟩ | ⟨_, secondBefore⟩ := update_some_held bus secondHeld
      · rw [atHere, atThere]
      · exact absurd (registered.below there second secondBefore) (by rw [← same]; exact lt_irrefl _)
    · obtain ⟨_, rfl⟩ | ⟨_, secondBefore⟩ := update_some_held bus secondHeld
      · exact absurd (registered.below here first firstBefore) (by rw [same]; exact lt_irrefl _)
      · exact registered.unique here there first second firstBefore secondBefore same
  current other sub held := by
    obtain ⟨_, rfl⟩ | ⟨_, before⟩ := update_some_held bus held
    · rfl
    · exact registered.current other sub before
  counting := succ_pos _

theorem registered_subscribe (type : EventType) (cb : Option Nat) : Registered (eventBusSubscribe type cb bus).2 := by
  obtain same | ⟨slot, callback, _, same⟩ := subscribe_cases bus type cb
  · rw [same]
    exact registered
  · rw [same]
    exact registered_subscribed bus registered

theorem registered_unsubscribe (id : Int) : Registered (eventBusUnsubscribe id bus) := by
  have held := unsubscribe_held bus id
  obtain ⟨_, same⟩ | ⟨_, same⟩ | ⟨freed, _, same⟩ := unsubscribe_cases bus id
  · rw [same]
    exact registered
  · rw [same]
    exact registered_fewer bus registered (fun _ _ here => here) rfl rfl rfl
  · rw [same] at held ⊢
    exact registered_fewer bus registered held rfl rfl rfl

end

section

structure TableKept (bus after : Bus) : Prop where
  subs : after.subs = bus.subs
  nextSubId : after.nextSubId = bus.nextSubId
  generation : after.generation = bus.generation
  issued : after.issued = bus.issued
  revoked : after.revoked = bus.revoked

variable (bus : Bus)

theorem publish_cases (event : Event) (grants : Grants) :
    bus.step (.publish event grants) = bus ∨
      ∃ copy, eventToIdle grants event = some copy ∧ bus.step (.publish event grants) =
        { bus with
          publishing := bus.publishing ++ [⟨copy, bus.generation, event, bus.table, 0, 0⟩]
          accepted := bus.accepted ++ [(event, bus.generation, bus.table)] } := by
  rw [Bus.step, eventBusPublish]
  cases eventToIdle grants event with
  | none =>
    left
    simp only [Option.isSome_none, Bool.false_eq_true, if_false, append_nil]
  | some copy => exact .inr ⟨copy, rfl, rfl⟩

theorem publish_table (event : Event) (grants : Grants) : TableKept bus (bus.step (.publish event grants)) := by
  obtain same | ⟨_, _, same⟩ := publish_cases bus event grants
  · rw [same]
    exact ⟨rfl, rfl, rfl, rfl, rfl⟩
  · rw [same]
    exact ⟨rfl, rfl, rfl, rfl, rfl⟩

theorem add_table (index : Nat) : TableKept bus (idleAdd index bus) := by
  unfold idleAdd
  split <;> exact ⟨rfl, rfl, rfl, rfl, rfl⟩

theorem dispatch_table : TableKept bus (dispatchOnMain bus) := by
  unfold dispatchOnMain
  split <;> exact ⟨rfl, rfl, rfl, rfl, rfl⟩

theorem call_table : TableKept bus (callNext bus) := by
  unfold callNext
  split <;> exact ⟨rfl, rfl, rfl, rfl, rfl⟩

theorem registered_kept {after} (kept : TableKept bus after) (registered : Registered bus) : Registered after := by
  apply registered_fewer bus registered _ kept.issued kept.nextSubId kept.generation
  intro slot sub held
  rwa [← kept.subs]

theorem registered_step (action : Action) (registered : Registered bus) : Registered (bus.step action) := by
  cases action with
  | init => exact registered_cleared bus registered (fun _ => rfl) rfl one_pos
  | destroy => exact registered_cleared bus registered (fun _ => rfl) rfl registered.counting
  | subscribe type cb => exact registered_subscribe bus registered type cb
  | unsubscribe id => exact registered_unsubscribe bus registered id
  | publish event grants => exact registered_kept bus (publish_table bus event grants) registered
  | add index => exact registered_kept bus (add_table bus index) registered
  | dispatch => exact registered_kept bus (dispatch_table bus) registered
  | call => exact registered_kept bus (call_table bus) registered

end

def runOf (actions : List Action) : Bus := actions.foldl Bus.step {}

theorem run_of_reachable (allowed : Bus → Action → Prop) [∀ bus action, Decidable (allowed bus action)]
    (actions : List Action) (passed : Runs.follows (fun bus action => decide (allowed bus action)) Bus.step actions {}) :
    Runs.Reachable (· = {}) allowed Bus.step (runOf actions) := by
  apply Runs.reachable_follows _ (fun _ _ => of_decide_eq_true) actions _ _ passed
  exact .start _ rfl

def InitOnce (bus : Bus) : Action → Prop
  | .init => bus.nextSubId = 1
  | _ => True

structure Counted (bus : Bus) : Prop where
  registered : Registered bus
  earlier : ∀ sub ∈ bus.issued, sub.id < bus.nextSubId
  distinct : (bus.issued.map Subscription.id).Nodup
  positive : ∀ sub ∈ bus.issued, 0 < sub.id

theorem counted_start : Counted {} := ⟨registered_start, forall_mem_nil _, nodup_nil, forall_mem_nil _⟩

theorem counted_same (bus after : Bus) (registered : Registered after) (issued : after.issued = bus.issued)
    (next : after.nextSubId = bus.nextSubId) (counted : Counted bus) : Counted after := by
  constructor
  · exact registered
  · rw [issued, next]
    exact counted.earlier
  · rw [issued]
    exact counted.distinct
  · rw [issued]
    exact counted.positive

theorem counted_subscribe (bus : Bus) (type : EventType) (cb : Option Nat) (counted : Counted bus) :
    Counted (eventBusSubscribe type cb bus).2 := by
  have registered := registered_subscribe bus counted.registered type cb
  obtain same | ⟨slot, callback, _, same⟩ := subscribe_cases bus type cb
  · rw [same]
    exact counted
  rw [same] at registered ⊢
  constructor
  · exact registered
  · intro sub mem
    rcases mem_append.mp mem with old | _ | ⟨_, ⟨⟩⟩
    · exact Nat.lt_succ_of_lt (counted.earlier sub old)
    · exact Nat.lt_succ_self _
  · simp only [map_append, map_cons, map_nil]
    refine counted.distinct.append (nodup_singleton _) (disjoint_singleton.mpr fun old => ?_)
    obtain ⟨sub, mem, same⟩ := mem_map.mp old
    exact Nat.ne_of_lt (counted.earlier sub mem) same
  · intro sub mem
    rcases mem_append.mp mem with old | _ | ⟨_, ⟨⟩⟩
    · exact counted.positive sub old
    · exact counted.registered.counting

theorem counted_step (bus : Bus) (action : Action) (counted : Counted bus) (taken : InitOnce bus action) :
    Counted (bus.step action) := by
  have registered := registered_step bus action counted.registered
  cases action with
  | init => exact counted_same bus _ registered rfl taken.symm counted
  | destroy => exact counted_same bus _ registered rfl rfl counted
  | subscribe type cb => exact counted_subscribe bus type cb counted
  | unsubscribe id =>
    have kept := unsubscribe_counts bus id
    exact counted_same bus _ registered kept.1 kept.2 counted
  | publish event grants =>
    have kept := publish_table bus event grants
    exact counted_same bus _ registered kept.issued kept.nextSubId counted
  | add index =>
    have kept := add_table bus index
    exact counted_same bus _ registered kept.issued kept.nextSubId counted
  | dispatch =>
    have kept := dispatch_table bus
    exact counted_same bus _ registered kept.issued kept.nextSubId counted
  | call =>
    have kept := call_table bus
    exact counted_same bus _ registered kept.issued kept.nextSubId counted

-- `repeated`: the next subscribe. `removes`: any unsubscribe.
structure IdsUnique (bus : Bus) : Prop where
  distinct : (bus.issued.map Subscription.id).Nodup
  repeated : ∀ type cb, (eventBusSubscribe type cb bus).1 ∉ bus.issued.map Subscription.id
  removes : ∀ (id : Int) slot sub, bus.subs slot = some sub → (eventBusUnsubscribe id bus).subs slot = none →
    sub.id = id ∧ sub ∈ bus.issued ∧ ∀ other ∈ bus.issued, other.id = id → other = sub

theorem counted_unique {bus} (counted : Counted bus) : IdsUnique bus where
  distinct := counted.distinct
  repeated type cb returned := by
    obtain ⟨sub, mem, same⟩ := mem_map.mp returned
    obtain failed | ⟨_, _, _, made⟩ := subscribe_cases bus type cb
    · rw [failed] at same
      have positive := counted.positive sub mem
      omega
    · rw [made] at same
      have below := counted.earlier sub mem
      omega
  removes id slot sub held freed := by
    have identified := unsubscribe_freed bus id slot held freed
    have known := counted.registered.known slot sub held
    refine ⟨identified, known, fun other mem same => ?_⟩
    exact inj_on_of_nodup_map counted.distinct mem known (by omega)

theorem ids_not_reused (bus : Bus) (reached : Runs.Reachable (· = {}) InitOnce Bus.step bus) : IdsUnique bus := by
  have counted : Counted bus := by
    apply Runs.invariant Counted _ counted_step bus reached
    intro state initial
    rw [initial]
    exact counted_start
  exact counted_unique counted

instance (bus : Bus) : (action : Action) → Decidable (InitOnce bus action)
  | .init => inferInstanceAs (Decidable (bus.nextSubId = 1))
  | .destroy | .subscribe _ _ | .unsubscribe _ | .publish _ _ | .add _ | .dispatch | .call => isTrue trivial

def subscribing : List Action := [.init, .subscribe .custom (some 0), .destroy, .subscribe .custom (some 1)]

theorem ids_not_reused_destroyed : IdsUnique (runOf subscribing) :=
  ids_not_reused _ (run_of_reachable InitOnce subscribing (by decide +kernel))

def switching : List Action := [.init, .subscribe .custom (some 0), .destroy, .init, .subscribe .custom (some 1)]

theorem old_id_removes_new : (runOf switching).issued.map Subscription.id = [1, 1] ∧
    (runOf switching).table.map Subscription.callback = [1] ∧
    (eventBusUnsubscribe 1 (runOf switching)).table = [] := by decide +kernel

section

def Bus.pending (bus : Bus) : List Subscription := (bus.running.map Prod.snd).getD []

def NotPending (bus : Bus) : Action → Prop
  | .unsubscribe id => ∀ sub ∈ bus.pending, (sub.id : Int) ≠ id
  | _ => True

structure Silent (bus : Bus) : Prop where
  registered : Registered bus
  known : ∀ sub ∈ bus.revoked, sub ∈ bus.issued
  removed : ∀ sub ∈ bus.revoked, ∀ slot, bus.subs slot ≠ some sub
  dropped : ∀ sub ∈ bus.revoked, sub ∉ bus.pending
  past : ∀ call ∈ bus.calls, call.revoked = false

theorem silent_start : Silent {} :=
  ⟨registered_start, forall_mem_nil _, forall_mem_nil _, forall_mem_nil _, forall_mem_nil _⟩

variable (bus : Bus) (silent : Silent bus)

structure Passive (bus after : Bus) : Prop where
  revoked : after.revoked = bus.revoked
  issued : ∀ sub ∈ bus.issued, sub ∈ after.issued
  subs : ∀ slot sub, after.subs slot = some sub → bus.subs slot = some sub ∨ sub ∉ bus.issued
  pending : ∀ sub ∈ after.pending, sub ∈ bus.pending ∨ sub ∈ bus.table
  calls : after.calls = bus.calls

theorem subscribe_passive (registered : Registered bus) (type : EventType) (cb : Option Nat) :
    Passive bus (eventBusSubscribe type cb bus).2 := by
  obtain same | ⟨slot, callback, _, same⟩ := subscribe_cases bus type cb
  · rw [same]
    exact ⟨rfl, fun _ mem => mem, fun _ _ held => .inl held, fun _ mem => .inl mem, rfl⟩
  · rw [same]
    refine ⟨rfl, fun _ mem => mem_append_left _ mem, ?_, fun _ mem => .inl mem, rfl⟩
    intro other sub held
    obtain ⟨_, rfl⟩ | ⟨_, before⟩ := update_some_held bus held
    · exact .inr (fresh_token registered.numbered type callback)
    · exact .inl before

theorem cleared_passive {generation next : Nat} :
    Passive bus { bus with subs := fun _ => none, generation := generation, nextSubId := next } :=
  ⟨rfl, fun _ mem => mem, fun _ _ held => (nomatch held), fun _ mem => .inl mem, rfl⟩

theorem kept_passive {after} (kept : TableKept bus after)
    (pending : ∀ sub ∈ after.pending, sub ∈ bus.pending ∨ sub ∈ bus.table) (calls : after.calls = bus.calls) :
    Passive bus after :=
  ⟨kept.revoked, fun _ mem => kept.issued ▸ mem, fun _ _ held => .inl (kept.subs ▸ held), pending, calls⟩

theorem publish_passive (event : Event) (grants : Grants) : Passive bus (bus.step (.publish event grants)) := by
  have kept := publish_table bus event grants
  obtain same | ⟨_, _, same⟩ := publish_cases bus event grants
  · rw [same] at kept ⊢
    exact kept_passive bus kept (fun _ mem => .inl mem) rfl
  · rw [same] at kept ⊢
    exact kept_passive bus kept (fun _ mem => .inl mem) rfl

theorem add_passive (index : Nat) : Passive bus (idleAdd index bus) := by
  have kept := add_table bus index
  unfold idleAdd at kept ⊢
  split at kept <;> exact kept_passive bus kept (fun _ mem => .inl mem) rfl

theorem dispatch_cases :
    dispatchOnMain bus = bus ∨ ∃ idle queue, bus.running = none ∧ bus.queue = idle :: queue ∧ dispatchOnMain bus =
      { bus with
        queue
        running := some (idle, matching idle bus)
        dispatches := bus.dispatches ++ [⟨idle, bus.generation, bus.table, matching idle bus⟩] } := by
  unfold dispatchOnMain
  split
  · rename_i idle queue stopped waiting
    exact .inr ⟨idle, queue, stopped, waiting, rfl⟩
  · exact .inl rfl

theorem dispatch_passive : Passive bus (dispatchOnMain bus) := by
  have kept := dispatch_table bus
  obtain same | ⟨idle, queue, _, _, same⟩ := dispatch_cases bus
  · rw [same] at kept ⊢
    exact kept_passive bus kept (fun _ mem => .inl mem) rfl
  · rw [same] at kept ⊢
    exact kept_passive bus kept (fun _ mem => .inr (mem_of_mem_filter mem)) rfl

include silent

theorem silent_passive {after} (registered : Registered after) (passive : Passive bus after) : Silent after where
  registered := registered
  known sub revoked := passive.issued sub (silent.known sub (passive.revoked ▸ revoked))
  removed sub revoked slot held := by
    rw [passive.revoked] at revoked
    obtain before | fresh := passive.subs slot sub held
    · exact silent.removed sub revoked slot before
    · exact fresh (silent.known sub revoked)
  dropped sub revoked mem := by
    rw [passive.revoked] at revoked
    obtain before | listed := passive.pending sub mem
    · exact silent.dropped sub revoked before
    · obtain ⟨slot, held⟩ := (mem_table bus sub).mp listed
      exact silent.removed sub revoked slot held
  past := passive.calls ▸ silent.past

theorem silent_unsubscribe {id} (taken : NotPending bus (.unsubscribe id)) :
    Silent (eventBusUnsubscribe id bus) := by
  have registered := registered_unsubscribe bus silent.registered id
  by_cases negative : id ≤ 0
  · rw [eventBusUnsubscribe, if_pos negative]
    exact silent
  have revokes : (eventBusUnsubscribe id bus).revoked = revoking id bus := by
    rw [eventBusUnsubscribe, if_neg negative]
    rfl
  have same : (eventBusUnsubscribe id bus).issued = bus.issued := (unsubscribe_counts bus id).1
  have running : (eventBusUnsubscribe id bus).pending = bus.pending := by
    rw [eventBusUnsubscribe, if_neg negative]
    rfl
  have calls : (eventBusUnsubscribe id bus).calls = bus.calls := by
    rw [eventBusUnsubscribe, if_neg negative]
  constructor
  · exact registered
  · intro sub revoked
    rw [same]
    obtain old | new := mem_append.mp (revokes ▸ revoked)
    · exact silent.known sub old
    · exact mem_of_mem_filter new
  · intro sub revoked slot held
    obtain old | new := mem_append.mp (revokes ▸ revoked)
    · exact silent.removed sub old slot (unsubscribe_held bus id slot sub held)
    · exact unsubscribe_gone bus silent.registered id slot sub held (of_decide_eq_true (mem_filter.mp new).2)
  · intro sub revoked mem
    rw [running] at mem
    obtain old | new := mem_append.mp (revokes ▸ revoked)
    · exact silent.dropped sub old mem
    · exact taken sub mem (of_decide_eq_true (mem_filter.mp new).2)
  · rw [calls]
    exact silent.past

theorem silent_call : Silent (callNext bus) := by
  have registered := registered_kept bus (call_table bus) silent.registered
  unfold callNext at registered ⊢
  split at registered
  · rename_i idle sub rest waiting
    have pending : bus.pending = sub :: rest := by
      rw [Bus.pending, waiting]
      rfl
    refine ⟨registered, silent.known, silent.removed, fun other revoked mem => ?_, fun call made => ?_⟩
    · apply silent.dropped other revoked
      rw [pending]
      exact mem_cons_of_mem _ mem
    · rcases mem_append.mp made with old | _ | ⟨_, ⟨⟩⟩
      · exact silent.past call old
      · apply decide_eq_false
        intro revoked
        apply silent.dropped sub revoked
        rw [pending]
        exact mem_cons_self
  · exact ⟨registered, silent.known, silent.removed, fun _ _ mem => (not_mem_nil mem), silent.past⟩
  · exact silent

end

section

variable (bus : Bus)

theorem silent_step (action : Action) (silent : Silent bus) (taken : NotPending bus action) :
    Silent (bus.step action) := by
  have registered := registered_step bus action silent.registered
  cases action with
  | init | destroy => exact silent_passive bus silent registered (cleared_passive bus)
  | subscribe type cb => exact silent_passive bus silent registered (subscribe_passive bus silent.registered type cb)
  | unsubscribe id => exact silent_unsubscribe bus silent taken
  | publish event grants => exact silent_passive bus silent registered (publish_passive bus event grants)
  | add index => exact silent_passive bus silent registered (add_passive bus index)
  | dispatch => exact silent_passive bus silent registered (dispatch_passive bus)
  | call => exact silent_call bus silent

theorem unsubscribed_not_called (reached : Runs.Reachable (· = {}) NotPending Bus.step bus) :
    ∀ call ∈ bus.calls, call.revoked = false := by
  have silent : Silent bus := by
    apply Runs.invariant Silent _ silent_step bus reached
    intro state initial
    rw [initial]
    exact silent_start
  exact silent.past

instance (bus : Bus) : (action : Action) → Decidable (NotPending bus action)
  | .unsubscribe id => inferInstanceAs (Decidable (∀ sub ∈ bus.pending, (sub.id : Int) ≠ id))
  | .init | .destroy | .subscribe _ _ | .publish _ _ | .add _ | .dispatch | .call => isTrue trivial

def serving : List Action :=
  [.subscribe .custom (some 0), .subscribe .custom (some 1), .publish (.custom none) {}, .add 0, .dispatch, .call]

theorem unsubscribed_not_called_self : (runOf (serving ++ [.unsubscribe 1, .call])).calls.length = 2 ∧
    ∀ call ∈ (runOf (serving ++ [.unsubscribe 1, .call])).calls, call.revoked = false :=
  ⟨by decide +kernel, unsubscribed_not_called _ (run_of_reachable NotPending _ (by decide +kernel))⟩

theorem unsubscribed_called : (runOf (serving ++ [.unsubscribe 2, .call])).calls.map
    (fun call => (call.subscription.id, call.revoked)) = [(1, false), (2, true)] := by decide +kernel

end

end Evemon.EventBus
