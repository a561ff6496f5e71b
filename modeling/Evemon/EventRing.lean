import Evemon.EventFrame
import Evemon.Lib.RingLog
import Evemon.WireParse

-- record_event, query_events_latest and query_events_encode of the event ring, and what
-- query_events_dispatch makes of a batch.
namespace Evemon.Ipc

open Prog BigEndian List

structure WritePayload where
  pid : Int32
  tgid : Int32
  fd : Int32
  len : UInt64
  truncated : Int32
  data : Bytes
  full : data.length = fdWriteMax

-- The type of an event and the payload it points to. The bus hands record_event no other type.
inductive Payload where
  | fdWrite (write : WritePayload)
  | childExec (exec : Exec)

structure EventRecord where
  sequence : UInt64
  data : Payload

structure QueryEvents where
  sequence : UInt64
  ring : Fin eventRing → EventRecord

def QueryEvents.start : QueryEvents := ⟨0, fun _ => ⟨0, .childExec ⟨0, 0, .empty 256⟩⟩⟩

def ringSlot (sequence : UInt64) : Fin eventRing := ⟨sequence.toNat % eventRing, Nat.mod_lt _ (by decide)⟩

def WritePayload.clamped (w : WritePayload) : WritePayload :=
  if w.len.toNat > fdWriteMax then { w with len := 4096 } else w

def Payload.clamped : Payload → Payload
  | .fdWrite w => .fdWrite w.clamped
  | .childExec x => .childExec x

def recordEvent (payload : Option Payload) (e : QueryEvents) : QueryEvents :=
  match payload with
  | none => e
  | some data =>
    let sequence := e.sequence + 1
    { sequence, ring := Function.update e.ring (ringSlot e.sequence) ⟨sequence, data.clamped⟩ }

def queryEventsLatest (e : QueryEvents) : UInt64 := e.sequence

def putRecord (r : EventRecord) : Wire Unit :=
  match r.data with
  | .fdWrite w => do
      ipcPutU32 1
      ipcPutU32 w.pid.toUInt32
      ipcPutU32 w.tgid.toUInt32
      ipcPutU32 w.fd.toUInt32
      ipcPutU32 w.truncated.toUInt32
      ipcPutU32 w.len.toUInt32
      ipcPutBytes (w.data.take w.len.toNat)
  | .childExec x => do
      ipcPutU32 2
      ipcPutU32 x.pid.toUInt32
      ipcPutU32 x.ppid.toUInt32
      ipcPutString x.path.bytes

def putRecords (ring : Fin eventRing → EventRecord) (i : UInt64) : Nat → Wire Unit
  | 0 => pure ()
  | count + 1 => do
      putRecord (ring (ringSlot i))
      putRecords ring (i + 1) count

def QueryEvents.oldest (e : QueryEvents) : UInt64 := if e.sequence > 256 then e.sequence - 256 else 0

def QueryEvents.dropped (e : QueryEvents) (cursor : UInt64) : UInt64 :=
  if cursor < e.oldest then e.oldest - cursor else 0

def QueryEvents.first (e : QueryEvents) (cursor : UInt64) : UInt64 :=
  let cursor := if cursor < e.oldest then e.oldest else cursor
  if cursor > e.sequence then e.sequence else cursor

def queryEventsEncode (e : QueryEvents) (cursor : UInt64) : Wire UInt64 := do
  ipcPutU64 (e.dropped cursor)
  ipcPutU32 (e.sequence - e.first cursor).toUInt32
  putRecords e.ring (e.first cursor) (e.sequence - e.first cursor).toNat
  pure e.sequence

section

-- An event as the bus of a client has it: the bytes of a write are those before `len`.
def Payload.event : Payload → Event
  | .fdWrite w => .fdWrite ⟨w.pid, w.tgid, w.fd, w.truncated, w.data.take w.len.toNat⟩
  | .childExec x => .childExec x

variable (payload : Payload)

theorem clamped_event : payload.clamped.event = payload.event := by
  cases payload with
  | childExec x => rfl
  | fdWrite w =>
    have full := w.full
    by_cases long : w.len.toNat > fdWriteMax
    · have whole : (4096 : UInt64).toNat = fdWriteMax := by decide
      simp only [Payload.clamped, WritePayload.clamped, if_pos long, Payload.event, whole]
      rw [take_of_length_le (by omega), take_of_length_le (by omega)]
    · simp only [Payload.clamped, WritePayload.clamped, if_neg long]

def Payload.Bounded : Payload → Prop
  | .fdWrite w => w.len.toNat ≤ fdWriteMax
  | .childExec _ => True

theorem clamped_bounded : payload.clamped.Bounded := by
  cases payload with
  | childExec x => trivial
  | fdWrite w =>
    change w.clamped.len.toNat ≤ fdWriteMax
    unfold WritePayload.clamped
    split
    · exact Nat.le_refl _
    · rename_i short
      exact Nat.not_lt.mp short

def eventBytes : Event → Bytes
  | .fdWrite w => encode32 1 ++ (encode32 w.pid.toUInt32 ++ (encode32 w.tgid.toUInt32 ++ (encode32 w.fd.toUInt32 ++ (
      encode32 w.truncated.toUInt32 ++ (encode32 (UInt32.ofNat w.data.length) ++ w.data)))))
  | .childExec x => encode32 2 ++ (encode32 x.pid.toUInt32 ++ (encode32 x.ppid.toUInt32 ++ stringBytes x.path.bytes))

def Event.Short : Event → Prop
  | .fdWrite w => w.data.length ≤ fdWriteMax
  | .childExec _ => True

theorem bounded_short {payload : Payload} (bounded : payload.Bounded) : payload.event.Short := by
  cases payload with
  | childExec x => trivial
  | fdWrite w =>
    have short : w.len.toNat ≤ fdWriteMax := bounded
    exact Nat.le_trans (length_take_le _ _) short

variable {event : Event}

theorem event_bytes_length (short : event.Short) : (eventBytes event).length ≤ 4120 := by
  cases event with
  | fdWrite w =>
    have short : w.data.length ≤ 4096 := short
    simp only [eventBytes, length_append, encode32_length]
    omega
  | childExec x =>
    have short := x.path.short
    simp only [eventBytes, length_append, encode32_length, string_bytes_length]
    omega

theorem put_record_adds {r : EventRecord} (bounded : r.data.Bounded) : Adds (putRecord r) (eventBytes r.data.event) := by
  unfold putRecord
  cases same : r.data with
  | fdWrite w =>
    rw [same] at bounded
    have short : w.len.toNat ≤ fdWriteMax := bounded
    have length : UInt32.ofNat (w.data.take w.len.toNat).length = w.len.toUInt32 := by
      rw [length_take, Nat.min_eq_left (by rw [w.full]; exact short)]
      rfl
    simp only [Payload.event, eventBytes, length]
    iterate 5 refine adds_bind (ipc_put_u32_adds _) fun _ => ?_
    exact adds_bind (ipc_put_u32_adds _) fun _ => ipc_put_bytes_adds
  | childExec x =>
    iterate 3 refine adds_bind (ipc_put_u32_adds _) fun _ => ?_
    exact ipc_put_string_adds _

variable {grant : Nat → Bool} {known : Prop}

theorem copy_sticky (len : UInt32) (event : Bytes → Event) : Keeps Failed (do
    let buf ← Prog.inspect WireState.buf
    if len.toNat > fdWriteMax ∨ len.toNat > sizeSub buf.data.length buf.pos then
      setError .EPROTO
      pure (event [])
    else
      touch buf.pos len.toNat
      advance len.toNat
      pure (event (window buf len.toNat)) : Wire Event) := by
  intro state lost
  simp only [↓run_inspect_bind, run_ite, run_bind]
  split
  · rfl
  · exact lost

theorem copy_gets {data : Bytes} (len : UInt32) {event : Bytes → Event} (length : len.toNat = data.length)
    (short : data.length ≤ fdWriteMax) : Gets grant known (do
      let buf ← Prog.inspect WireState.buf
      if len.toNat > fdWriteMax ∨ len.toNat > sizeSub buf.data.length buf.pos then
        setError .EPROTO
        pure (event [])
      else
        touch buf.pos len.toNat
        advance len.toNat
        pure (event (window buf len.toNat)) : Wire Event) data True (· = event data) := by
  refine gets_always (copy_sticky len event) ?_ fun state later available => ?_
  · intro state
    simp only [↓run_inspect_bind, run_ite, run_bind]
    split
    · rfl
    · rfl
  · have left := available.left_length
    rw [length_append] at left
    simp only [↓run_inspect_bind, run_ite, run_bind]
    rw [if_neg (by omega)]
    simp only [run_pure, length]
    refine ⟨?_, @advanced_ahead state data later _ available⟩
    unfold window
    rw [available.left, take_left]

theorem get_fd_write_sticky : Keeps Failed getFdWrite := by
  iterate 5 refine keeps_bind ipc_get_u32_sticky fun _ => ?_
  exact copy_sticky _ fun data => .fdWrite ⟨_, _, _, _, data⟩

theorem get_fd_write_gets (w : FdWrite) (short : w.data.length ≤ fdWriteMax) : Gets grant known getFdWrite
    (encode32 w.pid.toUInt32 ++ (encode32 w.tgid.toUInt32 ++ (encode32 w.fd.toUInt32 ++ (
    encode32 w.truncated.toUInt32 ++ (encode32 (UInt32.ofNat w.data.length) ++ w.data))))) True (· = .fdWrite w) := by
  refine parses_step (ipc_get_u32_gets _) fun pid => ?_
  refine parses_step (ipc_get_u32_gets _) fun tgid => ?_
  refine parses_step (ipc_get_u32_gets _) fun fd => ?_
  refine parses_step (ipc_get_u32_gets _) fun truncated => ?_
  refine parses_step (ipc_get_u32_gets _) fun len => ?_
  refine parses_of_known (copy_sticky len fun data => .fdWrite ⟨_, _, _, _, data⟩) fun read => ?_
  have length : len.toNat = w.data.length := by
    rw [read.2]
    exact UInt32.toNat_ofNat_of_lt' (Nat.lt_of_le_of_lt short (by decide))
  simp only [read.1]
  exact @copy_gets _ _ w.data len (fun data => .fdWrite { w with data := data }) length short

theorem get_exec_sticky : Keeps Failed getExec := by
  iterate 2 refine keeps_bind ipc_get_u32_sticky fun _ => ?_
  exact keeps_bind (ipc_get_fixed_sticky _) fun _ => keeps_pure _

theorem get_event_gets (short : event.Short) : Gets grant known getEvent (eventBytes event) True (· = event) := by
  have sticky : ∀ type : UInt32, Keeps Failed (if type = 1 then getFdWrite else if type = 2 then getExec else do
      setError .EPROTO
      pure (.childExec ⟨0, 0, .empty 256⟩) : Wire Event) := fun type =>
    keeps_ite get_fd_write_sticky (keeps_ite get_exec_sticky fun _ _ => rfl)
  cases event with
  | fdWrite w =>
    refine parses_step (ipc_get_u32_gets 1) fun type => parses_of_known (sticky type) fun read => ?_
    rw [if_pos read.2]
    exact get_fd_write_gets w short
  | childExec x =>
    refine parses_step (ipc_get_u32_gets 2) fun type => parses_of_known (sticky type) fun read => ?_
    rw [if_neg (by rw [read.2]; decide), if_pos read.2]
    iterate 2 refine parses_step (ipc_get_u32_gets _) fun _ => ?_
    refine parses_last (ipc_get_fixed_gets _ (by decide)) fun read _ same => ?_
    simp only [read, same]
    rfl

end

section

def sentEvents (ring : Fin eventRing → EventRecord) (i : UInt64) : Nat → List Event
  | 0 => []
  | count + 1 => (ring (ringSlot i)).data.event :: sentEvents ring (i + 1) count

def QueryEvents.batch (e : QueryEvents) (cursor : UInt64) : List Event :=
  sentEvents e.ring (e.first cursor) (e.sequence - e.first cursor).toNat

def batchBytes (dropped : UInt64) (events : List Event) : Bytes :=
  encode64 dropped ++ (encode32 (UInt32.ofNat events.length) ++ events.flatMap eventBytes)

variable (e : QueryEvents) (cursor : UInt64) {ring : Fin eventRing → EventRecord}

theorem sent_events_length (i : UInt64) (count : Nat) : (sentEvents ring i count).length = count := by
  induction count generalizing i with
  | zero => rfl
  | succ count ih => rw [sentEvents, length_cons, ih]

variable {i : UInt64} {count : Nat}

theorem sent_events_short (bounded : ∀ slot, (ring slot).data.Bounded) :
    ∀ event ∈ sentEvents ring i count, event.Short := by
  induction count generalizing i with
  | zero => simp [sentEvents]
  | succ count ih =>
    rw [sentEvents, forall_mem_cons]
    exact ⟨bounded_short (bounded _), ih⟩

theorem put_records_adds (bounded : ∀ slot, (ring slot).data.Bounded) :
    Adds (putRecords ring i count) ((sentEvents ring i count).flatMap eventBytes) := by
  induction count generalizing i with
  | zero => exact fills_pure
  | succ count ih =>
    rw [sentEvents, flatMap_cons]
    exact adds_bind (put_record_adds (bounded _)) fun _ => ih

theorem oldest_to_nat : e.oldest.toNat = e.sequence.toNat - 256 := by
  unfold QueryEvents.oldest
  split
  · rename_i many
    have bound : (256 : UInt64) ≤ e.sequence := UInt64.le_of_lt many
    rw [UInt64.toNat_sub_of_le _ _ bound]
    rfl
  · rename_i few
    have bound := Nat.not_lt.mp (fun less => few (UInt64.lt_iff_toNat_lt.mpr less))
    change e.sequence.toNat ≤ 256 at bound
    simp only [UInt64.toNat_zero]
    omega

theorem first_to_nat : (e.first cursor).toNat = min (max cursor.toNat (e.sequence.toNat - 256)) e.sequence.toNat := by
  have oldest := oldest_to_nat e
  unfold QueryEvents.first
  simp only [gt_iff_lt, UInt64.lt_iff_toNat_lt]
  split
  · rw [if_neg (by omega)]
    omega
  · split
    · omega
    · omega

theorem dropped_to_nat : (e.dropped cursor).toNat = e.sequence.toNat - 256 - cursor.toNat := by
  have oldest := oldest_to_nat e
  unfold QueryEvents.dropped
  split
  · rename_i behind
    rw [UInt64.toNat_sub_of_le _ _ (UInt64.le_of_lt behind), oldest]
  · rename_i recent
    rw [UInt64.lt_iff_toNat_lt, oldest] at recent
    simp only [UInt64.toNat_zero]
    omega

theorem batch_count : (e.sequence - e.first cursor).toNat = e.sequence.toNat - (e.first cursor).toNat := by
  have first := first_to_nat e cursor
  exact UInt64.toNat_sub_of_le _ _ (UInt64.le_iff_toNat_le.mpr (by omega))

theorem batch_length : (e.batch cursor).length = e.sequence.toNat - (e.first cursor).toNat := by
  rw [QueryEvents.batch, sent_events_length, batch_count]

theorem batch_few : (e.batch cursor).length ≤ eventRing := by
  have first := first_to_nat e cursor
  rw [batch_length, eventRing]
  omega

theorem batch_bytes_length (dropped : UInt64) {events : List Event} (few : events.length ≤ eventRing)
    (short : ∀ event ∈ events, event.Short) : (batchBytes dropped events).length ≤ ipcLimit := by
  have flat : (events.flatMap eventBytes).length ≤ events.length * 4120 := by
    clear few
    induction events with
    | nil => simp
    | cons event rest ih =>
      rw [forall_mem_cons] at short
      have here := event_bytes_length short.1
      have others := ih short.2
      rw [flatMap_cons, length_append, length_cons]
      omega
  rw [eventRing] at few
  simp only [batchBytes, length_append, encode64_length, encode32_length, ipcLimit]
  omega

theorem query_events_encode_adds (bounded : ∀ slot, (e.ring slot).data.Bounded) (cursor : UInt64) :
    Adds (queryEventsEncode e cursor) (batchBytes (e.dropped cursor) (e.batch cursor)) := by
  have count : UInt32.ofNat (e.batch cursor).length = (e.sequence - e.first cursor).toUInt32 := by
    rw [QueryEvents.batch, sent_events_length]
    rfl
  rw [batchBytes, count, ← append_nil ((e.batch cursor).flatMap eventBytes)]
  refine adds_bind ipc_put_u64_adds fun _ => ?_
  refine adds_bind (ipc_put_u32_adds _) fun _ => ?_
  exact adds_bind (put_records_adds bounded) fun _ => fills_pure

theorem encoded_batch (bounded : ∀ slot, (e.ring slot).data.Bounded) (cursor : UInt64) (heap : Heap)
    (granted : ∀ index, heap.grant index) : ((queryEventsEncode e cursor).run (writerStart heap)).2.buf.error = none ∧
    ((queryEventsEncode e cursor).run (writerStart heap)).2.buf.data = batchBytes (e.dropped cursor) (e.batch cursor) := by
  have fits := batch_bytes_length (e.dropped cursor) (batch_few e cursor) (sent_events_short bounded)
  have filled := query_events_encode_adds e bounded cursor (writerStart heap) [] (writer_start_filled heap granted) fits
  exact ⟨filled.clear, filled.holds⟩

theorem dispatched_batch {dropped} (events bus : List Event) {heap : Heap}
    (granted : ∀ index, heap.grant index) (few : events.length ≤ eventRing) (short : ∀ event ∈ events, event.Short) :
    (ipcGetU64.run (readerStart (batchBytes dropped events) heap)).1 = dropped ∧
    ((queryEventsDispatch bus).run (readerStart (batchBytes dropped events) heap)).1 = (none, bus ++ events) := by
  have fits := batch_bytes_length dropped few short
  have start : Reading heap.grant (readerStart (batchBytes dropped events) heap)
      (encode64 dropped ++ (encode32 (UInt32.ofNat events.length) ++ (events.flatMap eventBytes ++ []))) := by
    rw [append_nil]
    exact ⟨⟨rfl, Nat.zero_le _, rfl⟩, rfl, fits⟩
  generalize readerStart (batchBytes dropped events) heap = state at start ⊢
  obtain ⟨lost, afterDropped⟩ := (@ipc_get_u64_gets _ True _).complete trivial granted trivial _ _ start
  obtain ⟨count, afterCount⟩ := (@ipc_get_u32_gets _ True _).complete trivial granted trivial _ _ afterDropped
  have number : (UInt32.ofNat events.length).toNat = events.length :=
    UInt32.toNat_ofNat_of_lt' (Nat.lt_of_le_of_lt few (by decide))
  have loop := @get_until_error_gets Event heap.grant True Event getEvent eventBytes (fun _ => True) id events
    fun event mem => get_event_gets (short event mem)
  obtain ⟨records, afterAll⟩ := loop.complete trivial granted (fun _ _ => trivial) _ _ (malloc_reading afterCount)
  have done := unread_done ⟨afterAll.clear, afterAll.bounded, afterAll.left, by rw [afterAll.heap]; exact granted⟩
  have asked : (malloc.run (ipcGetU32.run (ipcGetU64.run state).2).2).1 := by
    rw [← afterCount.heap] at granted
    exact granted _
  rw [map_id] at records
  refine ⟨lost, ?_⟩
  simp only [queryEventsDispatch, ↓run_inspect_bind, run_bind, run_ite, run_pure]
  rw [count, number, if_neg (by omega), if_pos asked, if_pos done, records]

end

end Evemon.Ipc
