import Evemon.EventRing
import Evemon.Lib.Runs

-- Any number of subscribers of one event ring.
namespace Evemon.Ipc

open Runs RingLog List Function UInt64 Nat Option

-- One call of the encoder: what it counted as dropped, the records it met and the bytes it wrote.
structure Batch where
  dropped : UInt64
  events : List Event
  bytes : Bytes

-- `start` and `seen` count the events recorded before the subscription and before the last batch.
structure Subscriber where
  cursor : UInt64
  start : Nat
  seen : Nat
  batches : List Batch

structure EventStream where
  events : QueryEvents
  log : List Event
  subscribers : List Subscriber

inductive StreamAction where
  | record (payload : Option Payload)
  | subscribe
  | deliver (who : Nat) (heap : Heap)

def Subscriber.delivered (sub : Subscriber) : List Event := sub.batches.flatMap Batch.events

def Subscriber.lost (sub : Subscriber) : Nat := (sub.batches.map fun batch => batch.dropped.toNat).sum

def Subscriber.receive (sub : Subscriber) (e : QueryEvents) (seen : Nat) (heap : Heap) : Subscriber :=
  let encoded := (queryEventsEncode e sub.cursor).run (writerStart heap)
  { sub with
    cursor := encoded.1, seen
    batches := sub.batches ++ [⟨e.dropped sub.cursor, e.batch sub.cursor, encoded.2.buf.data⟩] }

def EventStream.step (s : EventStream) : StreamAction → EventStream
  | .record payload =>
    { s with events := recordEvent payload s.events, log := s.log ++ (payload.map Payload.event).toList }
  | .subscribe =>
    { s with subscribers := s.subscribers ++ [⟨queryEventsLatest s.events, s.log.length, s.log.length, []⟩] }
  | .deliver who heap =>
    { s with subscribers := s.subscribers.modify who (·.receive s.events s.log.length heap) }

def EventStream.Fresh (s : EventStream) : Prop := s = ⟨QueryEvents.start, [], []⟩

def Provisioned (_ : EventStream) : StreamAction → Prop
  | .deliver _ heap => ∀ index, heap.grant index = true
  | _ => True

def Streamed (s : EventStream) : Prop := Reachable EventStream.Fresh Provisioned EventStream.step s

variable {s : EventStream}

theorem Streamed.step (streamed : Streamed s) (action : StreamAction) (allowed : Provisioned s action) :
    Streamed (s.step action) :=
  Reachable.step s action streamed allowed

theorem streamed_fresh : Streamed ⟨QueryEvents.start, [], []⟩ := Reachable.start _ rfl

structure RingInv (e : QueryEvents) (log : List Event) : Prop where
  sequence : e.sequence = UInt64.ofNat log.length
  bounded : ∀ slot, (e.ring slot).data.Bounded
  retains : Retains (fun slot => (e.ring slot).data.event) log

theorem ring_slot_of_nat (index : Nat) : (ringSlot (UInt64.ofNat index)).val = index % eventRing := by
  change (UInt64.ofNat index).toNat % eventRing = index % eventRing
  rw [toNat_ofNat', eventRing]
  exact mod_mod_of_dvd index (by decide)

variable {e : QueryEvents} {log : List Event}

theorem record_event_ring (payload : Option Payload) (inv : RingInv e log) :
    RingInv (recordEvent payload e) (log ++ (payload.map Payload.event).toList) := by
  cases payload with
  | none =>
    rw [map_none, toList_none, append_nil]
    exact inv
  | some data =>
    have slot : (ringSlot e.sequence).val = log.length % eventRing := by rw [inv.sequence, ring_slot_of_nat]
    refine ⟨?_, ?_, ?_⟩
    · simp only [recordEvent, inv.sequence, map_some, toList_some, length_append, length_singleton, ofNat_add]
      rfl
    · intro other
      by_cases here : other = ringSlot e.sequence
      · subst here
        simp only [recordEvent, update_self]
        exact clamped_bounded data
      · simp only [recordEvent, update_of_ne here]
        exact inv.bounded other
    · have pushed := retains_push inv.retains data.event slot
      have same : (fun other => ((recordEvent (some data) e).ring other).data.event) =
          update (fun other => (e.ring other).data.event) (ringSlot e.sequence) data.event := by
        funext other
        by_cases here : other = ringSlot e.sequence
        · subst here
          simp only [recordEvent, update_self, clamped_event]
        · simp only [recordEvent, update_of_ne here]
      rw [same]
      exact pushed

theorem sent_events_log (inv : RingInv e log) (count first : Nat) (recent : log.length ≤ first + eventRing)
    (recorded : first + count ≤ log.length) :
    sentEvents e.ring (UInt64.ofNat first) count = (log.drop first).take count := by
  induction count generalizing first with
  | zero => rfl
  | succ count ih =>
    have inside : first < log.length := by omega
    have next : UInt64.ofNat first + 1 = UInt64.ofNat (first + 1) := by
      rw [ofNat_add]
      rfl
    have here := inv.retains (ringSlot (UInt64.ofNat first)) first inside recent (ring_slot_of_nat first)
    rw [sentEvents, next, ih (first + 1) (by omega) (by omega), drop_eq_getElem_cons inside, take_succ_cons]
    exact congrArg (· :: _) here

def Batch.Published (batch : Batch) : Prop :=
  ∀ (bus : List Event) (heap : Heap), (∀ index, heap.grant index = true) →
    (ipcGetU64.run (readerStart batch.bytes heap)).1 = batch.dropped ∧
      ((queryEventsDispatch bus).run (readerStart batch.bytes heap)).1 = (none, bus ++ batch.events)

structure Accounted (log : List Event) (sub : Subscriber) : Prop where
  inOrder : Picks log sub.start sub.seen sub.delivered
  counted : sub.delivered.length + sub.lost = sub.seen - sub.start
  published : ∀ batch ∈ sub.batches, batch.Published

structure SubscriberInv (log : List Event) (sub : Subscriber) : Prop extends Accounted log sub where
  cursor : sub.cursor.toNat = sub.seen
  started : sub.start ≤ sub.seen
  recorded : sub.seen ≤ log.length

structure StreamInv (s : EventStream) : Prop where
  ring : RingInv s.events s.log
  subscribers : s.log.length < 2 ^ 64 → ∀ sub ∈ s.subscribers, SubscriberInv s.log sub

theorem subscriber_log_append {sub} (inv : SubscriberInv log sub) {more : List Event} :
    SubscriberInv (log ++ more) sub where
  inOrder := inv.inOrder.log_append inv.recorded more
  counted := inv.counted
  published := inv.published
  cursor := inv.cursor
  started := inv.started
  recorded := by
    have recorded := inv.recorded
    rw [length_append]
    omega

theorem receive_inv (e : QueryEvents) (log : List Event) (sub : Subscriber) (heap : Heap) (ring : RingInv e log)
    (few : log.length < 2 ^ 64) (granted : ∀ index, heap.grant index) (inv : SubscriberInv log sub) :
    SubscriberInv log (sub.receive e log.length heap) := by
  have number : e.sequence.toNat = log.length := by
    rw [ring.sequence]
    exact UInt64.toNat_ofNat_of_lt' few
  have cursor := inv.cursor
  have started := inv.started
  have recorded := inv.recorded
  have first := first_to_nat e sub.cursor
  have dropped := dropped_to_nat e sub.cursor
  have batch : e.batch sub.cursor = (log.drop (e.first sub.cursor).toNat).take (log.length - (e.first sub.cursor).toNat) := by
    rw [QueryEvents.batch, batch_count, number]
    have sent := sent_events_log ring (log.length - (e.first sub.cursor).toNat) (e.first sub.cursor).toNat
      (by rw [eventRing]; omega) (by omega)
    rwa [UInt64.ofNat_toNat] at sent
  have delivered : (sub.receive e log.length heap).delivered = sub.delivered ++ e.batch sub.cursor := by
    simp [Subscriber.receive, Subscriber.delivered]
  have lost : (sub.receive e log.length heap).lost = sub.lost + (e.dropped sub.cursor).toNat := by
    simp [Subscriber.receive, Subscriber.lost]
  refine ⟨⟨?_, ?_, ?_⟩, number, ?_, Nat.le_refl _⟩
  · rw [delivered, batch]
    change Picks log sub.start log.length _
    exact inv.inOrder.segment started (by omega) (by omega) (Nat.le_refl _)
  · have counted := inv.counted
    have length := batch_length e sub.cursor
    rw [delivered, lost, length_append]
    change _ = log.length - sub.start
    omega
  · intro one mem
    rcases mem_append.mp mem with old | _ | ⟨_, ⟨⟩⟩
    · exact inv.published one old
    · intro bus client clientGranted
      obtain ⟨_, bytes⟩ := encoded_batch e ring.bounded sub.cursor heap granted
      simp only [bytes]
      exact dispatched_batch _ bus clientGranted (batch_few e sub.cursor) (sent_events_short ring.bounded)
  · change sub.start ≤ log.length
    omega

theorem step_inv (s : EventStream) (action : StreamAction) (inv : StreamInv s) (allowed : Provisioned s action) :
    StreamInv (s.step action) := by
  cases action with
  | record payload =>
    refine ⟨record_event_ring payload inv.ring, fun few sub mem => ?_⟩
    simp only [EventStream.step, length_append] at few
    exact subscriber_log_append (inv.subscribers (by omega) sub mem)
  | subscribe =>
    refine ⟨inv.ring, fun few sub mem => ?_⟩
    rcases mem_append.mp mem with old | _ | ⟨_, ⟨⟩⟩
    · exact inv.subscribers few sub old
    · refine ⟨⟨picks_nil, (Nat.sub_self _).symm, by simp⟩, ?_, Nat.le_refl _, Nat.le_refl _⟩
      change s.events.sequence.toNat = s.log.length
      rw [inv.ring.sequence]
      exact UInt64.toNat_ofNat_of_lt' few
  | deliver who heap =>
    refine ⟨inv.ring, fun few sub mem => ?_⟩
    obtain ⟨position, inside, same⟩ := getElem_of_mem mem
    simp only [EventStream.step, length_modify] at inside
    have before := inv.subscribers few (s.subscribers[position]) (getElem_mem inside)
    simp only [EventStream.step, getElem_modify] at same
    rw [← same]
    split
    · exact receive_inv _ _ _ heap inv.ring few allowed before
    · exact before

theorem streamed_inv (streamed : Streamed s) : StreamInv s := by
  refine invariant StreamInv (fun fresh start => ?_) step_inv s streamed
  rw [EventStream.Fresh] at start
  subst start
  exact ⟨⟨rfl, fun _ => trivial, retains_nil⟩, fun _ _ mem => by cases mem⟩

theorem event_stream_accounted (s : EventStream) (streamed : Streamed s) (few : s.log.length < 2 ^ 64) :
    ∀ sub ∈ s.subscribers, Accounted s.log sub :=
  fun sub mem => ((streamed_inv streamed).subscribers few sub mem).toAccounted

def sampleExec : Payload := .childExec ⟨42, 1, ⟨[47, 115, 104], by decide, by decide⟩⟩

def sampleStream : EventStream :=
  [.subscribe, .record (some sampleExec), .record none, .deliver 0 allGranted].foldl EventStream.step
    ⟨QueryEvents.start, [], []⟩

theorem sample_streamed : Streamed sampleStream :=
  (((streamed_fresh.step .subscribe trivial).step (.record (some sampleExec)) trivial).step (.record none) trivial).step
    (.deliver 0 allGranted) fun _ => rfl

theorem event_stream_accounted_exec : ∃ sub ∈ sampleStream.subscribers,
    sub.delivered.length + sub.lost = 1 ∧ Accounted sampleStream.log sub := by
  refine ⟨_, mem_cons_self, by decide +kernel, ?_⟩
  exact event_stream_accounted sampleStream sample_streamed (by decide +kernel) _ mem_cons_self

theorem streamed_records (count : Nat) : ∃ s, Streamed s ∧ s.log.length = count ∧ s.subscribers = [] := by
  induction count with
  | zero => exact ⟨_, streamed_fresh, rfl, rfl⟩
  | succ count ih =>
    obtain ⟨s, streamed, length, none⟩ := ih
    refine ⟨_, streamed.step (.record (some sampleExec)) trivial, ?_, none⟩
    simp [EventStream.step, length]

theorem sequence_wrap_unaccounted : ∃ s, Streamed s ∧ s.log.length = 2 ^ 64 ∧ ∃ sub ∈ s.subscribers,
    sub.start = 2 ^ 64 - 1 ∧ sub.seen = 2 ^ 64 ∧ sub.delivered = [] ∧ sub.lost = 0 := by
  obtain ⟨s, streamed, length, none⟩ := streamed_records (2 ^ 64 - 1)
  have last : s.events.sequence = 18446744073709551615 := by
    rw [(streamed_inv streamed).ring.sequence, length]
    rfl
  let e := recordEvent (some sampleExec) s.events
  have wrapped : e.sequence = 0 := by
    change s.events.sequence + 1 = 0
    rw [last]
    rfl
  have total : s.log.length + 1 = 2 ^ 64 := by
    rw [length]
    decide
  have nothing : e.batch s.events.sequence = [] := by
    rw [← length_eq_zero_iff, batch_length, wrapped]
    exact Nat.zero_sub _
  have unreported : (e.dropped s.events.sequence).toNat = 0 := by
    rw [dropped_to_nat, wrapped, UInt64.toNat_zero]
    omega
  let final := ((s.step .subscribe).step (.record (some sampleExec))).step (.deliver 0 allGranted)
  have subscribers : final.subscribers =
      [(Subscriber.mk s.events.sequence s.log.length s.log.length []).receive e (s.log.length + 1) allGranted] := by
    simp only [final, EventStream.step, none, nil_append, length_append]
    rfl
  refine ⟨final, ?_, ?_, _, by rw [subscribers]; exact mem_cons_self, length, total, ?_, ?_⟩
  · exact ((streamed.step .subscribe trivial).step (.record (some sampleExec)) trivial).step (.deliver 0 allGranted)
      fun _ => rfl
  · simp only [final, EventStream.step, length_append]
    exact total
  · simp only [Subscriber.receive, Subscriber.delivered, nil_append, flatMap_singleton]
    exact nothing
  · simp only [Subscriber.receive, Subscriber.lost, nil_append, map_singleton, sum_singleton]
    exact unreported

end Evemon.Ipc
