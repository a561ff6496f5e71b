import Evemon.Frame

-- A buffer that is only written to: what any sequence of puts leaves in it, and what ipc_send makes of it.
namespace Evemon.Ipc

open Prog BigEndian List

-- The answers of send: none is EINTR or EAGAIN, 0 any other failure. They end where the deadline expires.
structure Moved where
  answers : List (Option Nat)
  source : Bytes
  target : Bytes
  done : Bool

-- A call moves no more than what is left to move and what is there.
def transfer : List (Option Nat) → Nat → Bytes → Bytes → Moved
  | answers, 0, source, target => ⟨answers, source, target, true⟩
  | [], _ + 1, source, target => ⟨[], source, target, false⟩
  | none :: answers, left + 1, source, target => transfer answers (left + 1) source target
  | some most :: answers, left + 1, source, target =>
    let count := min most (min (left + 1) source.length)
    if count = 0 then ⟨answers, source, target, false⟩
    else transfer answers (left + 1 - count) (source.drop count) (target ++ source.take count)

def ipcSend (type : UInt16) (id : UInt32) (body : IpcBuf) (answers : List (Option Nat)) (wire : Bytes) : Moved :=
  if body.error.isSome ∨ body.data.length > ipcLimit then ⟨answers, body.data, wire, false⟩
  else
    let header := ipcHeaderWrite type id (UInt32.ofNat body.data.length)
    let sent := transfer answers ipcHeaderSize header wire
    if sent.done then transfer sent.answers body.data.length body.data sent.target else sent

inductive Put where
  | bytes (data : Bytes)
  | u32 (value : UInt32)
  | u64 (value : UInt64)
  | f64 (value : Float)
  | string (s : Bytes)

def Put.run : Put → Wire Unit
  | .bytes data => ipcPutBytes data
  | .u32 value => ipcPutU32 value
  | .u64 value => ipcPutU64 value
  | .f64 value => ipcPutF64 value
  | .string s => ipcPutString s

def Put.encoding : Put → Bytes
  | .bytes data => data
  | .u32 value => encode32 value
  | .u64 value => encode64 value
  | .f64 value => encode64 value.toBits
  | .string s => stringBytes s

def putAll (puts : List Put) (state : WireState) : WireState := ((puts.forM Put.run).run state).2

structure Buffered (state : WireState) (bytes : Bytes) : Prop where
  room : state.buf.data.length ≤ state.buf.cap
  limit : state.buf.cap ≤ ipcLimit
  part : state.buf.data <+: bytes
  whole : state.buf.error = none → state.buf.data = bytes

def Latched (data : Bytes) (state : WireState) : Prop := Failed state ∧ state.buf.data = data

-- No put leaves the invariant, so there is nothing to give up for.
abbrev Appends (prog : Wire Unit) (bytes : Bytes) : Prop := Emits (fun _ => False) Buffered prog bytes

variable {data : Bytes}

theorem put_bytes_latched (bytes : Bytes) : Keeps (Latched data) (ipcPutBytes bytes) := by
  intro state latched
  rwa [put_bytes_stopped bytes latched.1]

theorem buffered_stopped {state after} {before bytes : Bytes} (inv : Buffered state before)
    (stopped : Failed after ∧ after.buf.data = state.buf.data ∧ after.buf.cap = state.buf.cap) :
    Buffered after (before ++ bytes) := by
  obtain ⟨set, data, cap⟩ := stopped
  refine ⟨by rw [data, cap]; exact inv.room, cap ▸ inv.limit, data ▸ inv.part.trans (prefix_append _ _), ?_⟩
  intro clear
  simp [Failed, clear] at set

theorem put_bytes_appends (bytes : Bytes) : Appends (ipcPutBytes bytes) bytes where
  sticky _ lost := lost
  writes state before inv := by
    right
    obtain stopped | ⟨_, clear, data, _, bounds⟩ := put_bytes_cases bytes rfl (inv.room.trans inv.limit)
    · exact buffered_stopped inv stopped
    · rw [inv.whole clear] at data
      exact ⟨(bounds inv.limit).1, (bounds inv.limit).2, data ▸ prefix_rfl, fun _ => data⟩

theorem put_appends (put : Put) : Appends put.run put.encoding := by
  cases put with
  | bytes bytes => exact put_bytes_appends bytes
  | u32 value => exact put_bytes_appends _
  | u64 value | f64 value => exact emits_bind (put_bytes_appends _) (put_bytes_appends _)
  | string s =>
    change Appends (ipcPutString s) (stringBytes s)
    unfold ipcPutString
    split
    · exact ⟨fun _ lost => lost, fun _ _ inv => .inr (buffered_stopped inv ⟨rfl, rfl, rfl⟩)⟩
    · exact emits_bind (put_bytes_appends _) (put_bytes_appends _)

theorem put_latched (put : Put) : Keeps (Latched data) put.run := by
  cases put with
  | bytes bytes => exact put_bytes_latched bytes
  | u32 value => exact put_bytes_latched _
  | u64 value | f64 value => exact keeps_bind (put_bytes_latched _) fun _ => put_bytes_latched _
  | string s =>
    exact keeps_ite (fun _ latched => ⟨rfl, latched.2⟩) (keeps_bind (put_bytes_latched _) fun _ => put_bytes_latched _)

theorem wire_buffer_sound (heap : Heap) (puts more : List Put) :
    Buffered (putAll puts (writerStart heap)) (puts.flatMap Put.encoding) ∧ (Failed (putAll puts (writerStart heap)) →
    Latched (putAll puts (writerStart heap)).buf.data (putAll more (putAll puts (writerStart heap))) ∧
    ∀ type id answers wire, ipcSend type id (putAll puts (writerStart heap)).buf answers wire =
    ⟨answers, (putAll puts (writerStart heap)).buf.data, wire, false⟩) := by
  have start : Buffered (writerStart heap) [] := ⟨Nat.le_refl _, Nat.zero_le _, prefix_rfl, fun _ => rfl⟩
  refine ⟨((emits_for_m put_appends puts).writes _ _ start).resolve_left id, fun lost => ⟨?_, ?_⟩⟩
  · exact keeps_for_m (fun put => put_latched put) more _ ⟨lost, rfl⟩
  · intro type id answers wire
    rw [ipcSend, if_pos (.inl lost)]

-- granted is the answer of malloc, which is asked only for a body that is not empty.
def ipcReceive (answers : List (Option Nat)) (granted : Bool) (wire : Bytes) : Option IpcHeader × Moved :=
  let first := transfer answers ipcHeaderSize wire []
  match if first.done then ipcHeaderRead first.target else none with
  | none => (none, { first with done := false })
  | some header =>
    if header.size ≠ 0 ∧ granted = false then (none, { first with done := false })
    else (some header, transfer first.answers header.size.toNat first.source [])

-- Answers without a failure that let so many bytes pass before the deadline.
abbrev Supply (bytes : Nat) := { answers : List (Option Nat) // some 0 ∉ answers ∧ bytes ≤ answers.countP Option.isSome }

theorem transfer_supplied {answers : List (Option Nat)} {left : Nat} (more : Nat) (source target : Bytes)
    (supplied : some 0 ∉ answers ∧ left + more ≤ answers.countP Option.isSome) (there : left ≤ source.length) :
    ∃ rest : Supply more,
    transfer answers left source target = ⟨rest.val, source.drop left, target ++ source.take left, true⟩ := by
  fun_induction transfer answers left source target with
  | case1 answers => exact ⟨⟨answers, supplied.1, by omega⟩, by simp⟩
  | case2 => simp at supplied
  | case3 _ _ _ _ ih => exact ih (by simpa using supplied) there
  | case4 most =>
    have positive : most ≠ 0 := fun zero => supplied.1 (zero ▸ mem_cons_self)
    omega
  | case5 most answers left source target count moved ih =>
    obtain ⟨sound, enough⟩ := supplied
    rw [countP_cons_of_pos rfl] at enough
    obtain ⟨rest, run⟩ := ih ⟨fun mem => sound (mem_cons_of_mem _ mem), by omega⟩ (by rw [length_drop]; omega)
    have whole : count + (left + 1 - count) = left + 1 := by omega
    exact ⟨rest, by rw [run, drop_drop, append_assoc, ← take_add, whole]⟩

theorem frame_survives (type : UInt16) (id : UInt32) (body : Body)
    (sends receives : Supply (ipcHeaderSize + body.val.length)) (before later : Bytes) :
    ∃ stream, (∃ rest, ipcSend type id { data := body.val } sends.val before = ⟨rest, [], before ++ stream, true⟩) ∧
      ∃ rest, ipcReceive receives.val true (stream ++ later) =
        (some ⟨type, id, UInt32.ofNat body.val.length⟩, ⟨rest, later, body.val, true⟩) := by
  have size : (UInt32.ofNat body.val.length).toNat = body.val.length :=
    UInt32.toNat_ofNat_of_lt' (Nat.lt_of_le_of_lt body.property (by decide))
  have known := header_write_length type id (UInt32.ofNat body.val.length)
  have read := @header_read_write type id _ (size.trans_le body.property) []
  rw [append_nil] at read
  rw [ipcSend, if_neg (by simpa using body.property)]
  generalize ipcHeaderWrite .. = head at *
  refine ⟨head ++ body.val, ?_, ?_⟩
  · obtain ⟨rest, header⟩ := transfer_supplied _ head before sends.property known.ge
    obtain ⟨last, moved⟩ := transfer_supplied 0 body.val (before ++ head) rest.property le_rfl
    rw [take_of_length_le known.le] at header
    simp only [header, if_true, moved]
    exact ⟨last, by simp⟩
  · obtain ⟨rest, header⟩ := transfer_supplied _ (head ++ (body.val ++ later)) [] receives.property (by simp [known])
    obtain ⟨last, moved⟩ := transfer_supplied 0 (body.val ++ later) [] rest.property (by simp)
    rw [take_left' known, drop_left' known, nil_append] at header
    rw [take_left, drop_left, nil_append] at moved
    refine ⟨last, ?_⟩
    simp [ipcReceive, header, read, size, moved]

end Evemon.Ipc
