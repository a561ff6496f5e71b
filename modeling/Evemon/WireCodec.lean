import Evemon.Lib.FloatFormat
import Evemon.WireReader

namespace Evemon.Ipc

open Prog BigEndian List Nat

def Failed (state : WireState) : Prop := state.buf.error.isSome = true

structure Written (state : WireState) (bytes : Bytes) : Prop where
  clear : state.buf.error = none
  holds : state.buf.data = bytes
  bounded : bytes.length ≤ ipcLimit

abbrev Puts (prog : Wire Unit) (bytes : Bytes) : Prop := Emits Failed Written prog bytes

def writerStart (heap : Heap) : WireState := ⟨{}, heap, []⟩

theorem writer_start_written (heap : Heap) : Written (writerStart heap) [] := ⟨rfl, rfl, zero_le _⟩

theorem grown_cap_bounds {cap needed : Nat} (fits : needed ≤ ipcLimit) :
    needed ≤ grownCap cap needed ∧ grownCap cap needed ≤ ipcLimit := by
  unfold grownCap
  split <;> dsimp only <;> split <;> split <;> omega

theorem put_bytes_stopped (bytes : Bytes) {state} (lost : Failed state) : ((ipcPutBytes bytes).run state).2 = state := by
  unfold ipcPutBytes
  unfold Failed at lost
  simp only [↓run_inspect_bind, if_pos lost]
  rfl

-- Either an error is set and nothing was written, or all of the bytes were.
theorem put_bytes_cases (bytes : Bytes) {state after : WireState} (run : ((ipcPutBytes bytes).run state).2 = after)
    (bounded : state.buf.data.length ≤ ipcLimit) :
    Failed after ∧ after.buf.data = state.buf.data ∧ after.buf.cap = state.buf.cap ∨
    after.buf.error = none ∧ state.buf.error = none ∧ after.buf.data = state.buf.data ++ bytes ∧
    after.buf.data.length ≤ ipcLimit ∧
    (state.buf.cap ≤ ipcLimit → after.buf.data.length ≤ after.buf.cap ∧ after.buf.cap ≤ ipcLimit) := by
  subst run
  cases clear : state.buf.error with
  | some code =>
    rw [put_bytes_stopped bytes (by simp [Failed, clear])]
    exact .inl ⟨by simp [Failed, clear], rfl, rfl⟩
  | none =>
    have size : (state.buf.data ++ bytes).length = state.buf.data.length + bytes.length := length_append
    unfold ipcPutBytes
    simp only [↓run_inspect_bind, run_ite, run_bind]
    rw [if_neg (by simp [clear]), size_sub_exact bounded]
    split
    · exact .inl ⟨rfl, rfl, rfl⟩
    · have fits : state.buf.data.length + bytes.length ≤ ipcLimit := by omega
      split
      · split
        · obtain ⟨enough, small⟩ := @grown_cap_bounds state.buf.cap _ fits
          exact .inr ⟨clear, trivial, rfl, size.trans_le fits, fun _ => ⟨size.trans_le enough, small⟩⟩
        · exact .inl ⟨rfl, rfl, rfl⟩
      · rename_i room
        exact .inr ⟨clear, trivial, rfl, size.trans_le fits, fun limit => ⟨size.trans_le (le_of_not_gt room), limit⟩⟩

theorem ipc_put_bytes_puts {bytes} : Puts (ipcPutBytes bytes) bytes where
  sticky state lost := by rwa [put_bytes_stopped bytes lost]
  writes state before written := by
    obtain ⟨clear, holds, bounded⟩ := written
    obtain stopped | ⟨after, _, data, fits, _⟩ := put_bytes_cases bytes rfl (holds ▸ bounded)
    · exact .inl stopped.1
    · rw [holds] at data
      exact .inr ⟨after, data, data ▸ fits⟩

variable (value : UInt32)

theorem ipc_put_u32_puts : Puts (ipcPutU32 value) (encode32 value) := ipc_put_bytes_puts

theorem ipc_put_u64_puts {value} : Puts (ipcPutU64 value) (encode64 value) :=
  emits_bind (ipc_put_u32_puts _) (ipc_put_u32_puts _)

theorem ipc_put_f64_puts {value} : Puts (ipcPutF64 value) (encode64 value.toBits) := ipc_put_u64_puts

def stringBytes (s : Bytes) : Bytes := encode32 (UInt32.ofNat s.length) ++ s

@[simp] theorem string_bytes_length (s : Bytes) : (stringBytes s).length = 4 + s.length := by
  simp [stringBytes]

variable (s : Bytes)

theorem ipc_put_string_puts : Puts (ipcPutString s) (stringBytes s) := by
  by_cases long : s.length > ipcLimit
  · unfold ipcPutString
    rw [if_pos long]
    exact ⟨fun _ _ => rfl, fun _ _ _ => .inl rfl⟩
  · unfold ipcPutString
    rw [if_neg long]
    exact emits_bind (ipc_put_u32_puts _) ipc_put_bytes_puts

variable {prog : Wire Unit} {bytes : Bytes}

theorem puts_unless_failed (puts : Puts prog bytes) :
    Puts (do
      let failed ← hasError
      if failed then pure () else prog) bytes where
  sticky state lost := by
    unfold Failed at lost
    simp only [hasError, ↓run_inspect_bind, lost, if_true]
    exact lost
  writes state before written := by
    simp only [hasError, ↓run_inspect_bind, written.clear, Option.isSome_none, Bool.false_eq_true, if_false]
    exact puts.writes state before written

variable {α : Type}

theorem put_until_error_puts {item : α → Wire Unit} {bytes : α → Bytes}
    (each : ∀ value, Puts (item value) (bytes value)) (values : List α) :
    Puts (putUntilError item values) (values.flatMap bytes) := by
  induction values with
  | nil => exact emits_pure
  | cons value rest ih =>
    exact puts_unless_failed (emits_bind (each value) ih)

structure Filled (state : WireState) (bytes : Bytes) : Prop extends Written state bytes where
  granted : ∀ index, state.heap.grant index = true

abbrev Adds {α : Type} (prog : Wire α) (bytes : Bytes) : Prop := Fills (·.length ≤ ipcLimit) Filled prog bytes

theorem writer_start_filled (heap : Heap) (granted : ∀ index, heap.grant index) : Filled (writerStart heap) [] :=
  ⟨writer_start_written heap, granted⟩

theorem adds_bind {β : Type} {first} {next : α → Wire β} {head tail} (atFirst : Adds first head)
    (atNext : ∀ value, Adds (next value) tail) : Adds (first >>= next) (head ++ tail) := by
  refine fills_bind (fun front back fits => ?_) atFirst atNext
  rw [length_append] at fits
  omega

theorem ipc_put_bytes_adds {bytes} : Adds (ipcPutBytes bytes) bytes := by
  intro state before filled fits
  obtain ⟨⟨clear, holds, bounded⟩, granted⟩ := filled
  have appended : state.buf.data ++ bytes = before ++ bytes := by rw [holds]
  have asked : (malloc.run state).1 := granted _
  unfold ipcPutBytes
  simp only [↓run_inspect_bind, run_ite, run_bind]
  have enough : ¬ bytes.length > sizeSub ipcLimit state.buf.data.length := by
    rw [holds, size_sub_exact bounded]
    rw [length_append] at fits
    omega
  rw [if_neg (by simp [clear]), if_neg enough, if_pos asked]
  split
  · exact ⟨⟨clear, appended, fits⟩, granted⟩
  · exact ⟨⟨clear, appended, fits⟩, granted⟩

theorem ipc_put_u32_adds : Adds (ipcPutU32 value) (encode32 value) := ipc_put_bytes_adds

theorem ipc_put_u64_adds {value} : Adds (ipcPutU64 value) (encode64 value) :=
  adds_bind (ipc_put_u32_adds _) fun _ => ipc_put_u32_adds _

theorem ipc_put_string_adds : Adds (ipcPutString s) (stringBytes s) := by
  intro state before filled fits
  have short : ¬ s.length > ipcLimit := by
    rw [length_append, string_bytes_length] at fits
    omega
  unfold ipcPutString
  rw [if_neg short]
  exact adds_bind (ipc_put_u32_adds _) (fun _ => ipc_put_bytes_adds) state before filled fits

theorem reported_bytes {code} {heap} (puts : Puts prog bytes) (accepted : ((do
      prog
      let failed ← hasError
      pure (if failed then some code else none) : Wire (Option α)).run (writerStart heap)).1 = none) :
    ((do
      prog
      let failed ← hasError
      pure (if failed then some code else none) : Wire (Option α)).run (writerStart heap)).2.buf.data = bytes ∧
    bytes.length ≤ ipcLimit := by
  rcases puts.writes (writerStart heap) [] (writer_start_written heap) with lost | written
  · rw [Failed] at lost
    simp [hasError, run_bind, lost] at accepted
  · exact ⟨written.holds, written.bounded⟩

structure Ahead (state : WireState) (input : Bytes) : Prop where
  clear : state.buf.error = none
  bounded : state.buf.pos ≤ state.buf.data.length
  left : state.buf.data.drop state.buf.pos = input

variable {state : WireState} {input : Bytes}

theorem Ahead.left_length (ahead : Ahead state input) : sizeSub state.buf.data.length state.buf.pos = input.length := by
  rw [size_sub_exact ahead.bounded, ← ahead.left, length_drop]

theorem advanced_ahead {state} {head later : Bytes} {reads : List (Nat × Nat)}
    (available : Ahead state (head ++ later)) :
    Ahead { state with buf := { state.buf with pos := state.buf.pos + head.length, reads := reads } } later := by
  have size := congrArg List.length available.left
  have bounded := available.bounded
  simp only [length_drop, length_append] at size
  refine ⟨available.clear, ?_, ?_⟩
  · simp only
    omega
  · rw [← drop_drop, available.left, drop_left]

theorem byte_at_left {buf : IpcBuf} (offset : Nat) (left : buf.data.drop buf.pos = input) :
    byteAt buf (buf.pos + offset) = input.getD offset 0 := by
  simp [byteAt, ← left, getD_eq_getElem?_getD, List.getElem?_drop]

variable {later : Bytes}

theorem read_u32_ahead {state} (available : Ahead state (encode32 value ++ later)) :
    (readU32.run state).1 = value ∧ Ahead (readU32.run state).2 later ∧ (readU32.run state).2.heap = state.heap := by
  have left := available.left_length
  have enough : ¬ (state.buf.error.isSome || decide (sizeSub state.buf.data.length state.buf.pos < 4)) := by
    simp [available.clear, left]
  have byte := fun offset => byte_at_left offset available.left
  simp only [readU32]
  rw [if_neg enough]
  refine ⟨?_, advanced_ahead available, rfl⟩
  have first := byte 0
  rw [add_zero] at first
  rw [first, byte 1, byte 2, byte 3]
  exact decode32_encode32

theorem string_size_ahead {state} (fits : s.length < 2 ^ 32) (nulFree : 0 ∉ s)
    (available : Ahead state (stringBytes s ++ later)) :
    (stringSize.run state).1 = s.length ∧ Ahead (stringSize.run state).2 (s ++ later) ∧
    (stringSize.run state).2.heap = state.heap := by
  unfold stringBytes at available
  obtain ⟨size, rest, heap⟩ := @read_u32_ahead _ (s ++ later) state available
  have left := rest.left_length
  have sizeNat : (readU32.run state).1.toNat = s.length := by
    rw [size, UInt32.toNat_ofNat_of_lt' fits]
  have fitsLeft : ¬ ((readU32.run state).2.buf.error.isSome || decide ((readU32.run state).1.toNat >
      sizeSub (readU32.run state).2.buf.data.length (readU32.run state).2.buf.pos)) := by
    simp [rest.clear, left, sizeNat]
  have text : window (readU32.run state).2.buf (readU32.run state).1.toNat = s := by
    unfold window
    rw [rest.left, sizeNat, take_left]
  have noNul : ¬ (window (readU32.run state).2.buf (readU32.run state).1.toNat).contains 0 := by
    rw [text]
    simpa using nulFree
  simp only [stringSize, ↓run_inspect_bind, run_bind, run_ite]
  rw [if_neg fitsLeft, if_neg noNul]
  exact ⟨sizeNat, ⟨rest.clear, rest.bounded, rest.left⟩, heap⟩

variable (later)

theorem read_string_ahead {s later : Bytes} (fits : s.length < 2 ^ 32) (nulFree : 0 ∉ s)
    (available : Ahead state (stringBytes s ++ later)) :
    (state.heap.grant state.heap.asked = false ∧ Failed (readString.run state).2) ∨
    ((readString.run state).1 = some s ∧ Ahead (readString.run state).2 later) := by
  obtain ⟨size, rest, heap⟩ := string_size_ahead s fits nulFree available
  have asked : (malloc.run (stringSize.run state).2).1 = state.heap.grant state.heap.asked := by
    rw [← heap]
    rfl
  simp only [readString, ↓run_inspect_bind, run_bind, run_ite]
  rw [if_neg (by simp [rest.clear]), asked]
  cases state.heap.grant state.heap.asked with
  | false => exact .inl ⟨rfl, rfl⟩
  | true =>
    refine .inr ⟨?_, ?_⟩
    · simp only [if_true, run_pure, window, rest.left, size, take_left]
    · simp only [if_true, size]
      exact advanced_ahead ⟨rest.clear, rest.bounded, rest.left⟩

theorem read_fixed_ahead {capacity : Nat} {text : FixedStr capacity} {later : Bytes}
    (fits : 0 < capacity ∧ capacity ≤ 2 ^ 32) (available : Ahead state (stringBytes text.bytes ++ later)) :
    ((readFixed capacity).run state).1 = text ∧ Ahead ((readFixed capacity).run state).2 later := by
  have short := text.short
  obtain ⟨size, rest, _⟩ := string_size_ahead text.bytes (by omega) text.nulFree available
  have copied : window (stringSize.run state).2.buf (stringSize.run state).1 = text.bytes := by
    unfold window
    rw [rest.left, size, take_left]
  simp only [readFixed, ↓run_inspect_bind, run_bind, run_ite, run_dite]
  rw [if_neg (by simp [rest.clear, size]; omega)]
  simp only [copied]
  rw [dif_pos ⟨text.short, text.nulFree⟩]
  refine ⟨rfl, ?_⟩
  simp only [size]
  exact @advanced_ahead (stringSize.run state).2 text.bytes later _ rest

structure Unread (state : WireState) (input : Bytes) : Prop where
  clear : state.buf.error = none
  bounded : state.buf.pos ≤ state.buf.data.length
  left : state.buf.data.drop state.buf.pos = input
  granted : ∀ index, state.heap.grant index = true

theorem Unread.ahead (unread : Unread state input) : Ahead state input :=
  ⟨unread.clear, unread.bounded, unread.left⟩

theorem Unread.left_length (unread : Unread state input) :
    sizeSub state.buf.data.length state.buf.pos = input.length := unread.ahead.left_length

theorem Ahead.unread {before after} {later} (ahead : Ahead after later)
    (unread : Unread before input) (heap : after.heap.grant = before.heap.grant) : Unread after later :=
  ⟨ahead.clear, ahead.bounded, ahead.left, by rw [heap]; exact unread.granted⟩

theorem called_consumes (isEmpty : α → Bool) (getter : Wire α) (input : Bytes) (post : α → Prop)
    (consumed : Consumes Unread getter input post) : Consumes Unread (called isEmpty getter) input post := by
  intro state later available
  obtain ⟨value, rest⟩ := consumed state later available
  exact ⟨value, ⟨rest.clear, rest.bounded, rest.left, rest.granted⟩⟩

theorem read_u32_consumes : Consumes Unread readU32 (encode32 value) (· = value) := by
  intro state later available
  obtain ⟨same, rest, _⟩ := read_u32_ahead value available.ahead
  exact ⟨same, rest.unread available (read_u32_rest state ⟨rfl, rfl⟩).2⟩

theorem read_u64_consumes (value : UInt64) : Consumes Unread readU64 (encode64 value) (· = value) := by
  refine consumes_value (read_u32_consumes _) ?_
  exact consumes_value (read_u32_consumes _) (consumes_pure _ (decode64_halves value))

theorem ipc_get_u32_consumes : Consumes Unread ipcGetU32 (encode32 value) (· = value) :=
  called_consumes _ _ _ _ (read_u32_consumes value)

theorem ipc_get_u64_consumes {value} : Consumes Unread ipcGetU64 (encode64 value) (· = value) :=
  called_consumes _ _ _ _ (read_u64_consumes value)

theorem ipc_get_f64_consumes (value : Finite) : Consumes Unread ipcGetF64 (encode64 value.val.toBits) (· = value) := by
  apply called_consumes
  rw [← append_nil (encode64 value.val.toBits)]
  refine consumes_value (read_u64_consumes _) ?_
  have same := Float.ofBits_toBits value.val
  rw [dif_pos (by rw [same]; exact value.property)]
  exact consumes_pure _ (Subtype.ext same)

theorem reject_if_consumes {condition : Bool} {code} (refuted : condition = false) :
    Consumes Unread (rejectIf condition code) [] (· = ()) := by
  rw [refuted]
  exact consumes_pure () rfl

theorem has_error_consumes : Consumes Unread hasError [] (· = false) :=
  fun _ _ available => ⟨by simp [hasError, available.clear], available⟩

theorem malloc_consumes : Consumes Unread malloc [] (·) :=
  fun _ _ available => ⟨available.granted _, ⟨available.clear, available.bounded, available.left, available.granted⟩⟩

theorem ipc_get_string_consumes (fits : s.length < 2 ^ 32) (nulFree : 0 ∉ s) :
    Consumes Unread ipcGetString (stringBytes s) (· = some s) := by
  apply called_consumes
  intro state later available
  rcases read_string_ahead fits nulFree available.ahead with ⟨refused, _⟩ | ⟨same, rest⟩
  · rw [available.granted] at refused
    cases refused
  · exact ⟨same, rest.unread available (read_string_rest state ⟨rfl, rfl⟩).2⟩

theorem ipc_get_fixed_consumes (capacity : Nat) (text : FixedStr capacity) (some : 0 < capacity)
    (fits : capacity ≤ 2 ^ 32) : Consumes Unread (ipcGetFixed capacity) (stringBytes text.bytes) (· = text) := by
  apply called_consumes
  intro state later available
  obtain ⟨same, rest⟩ := read_fixed_ahead ⟨some, fits⟩ available.ahead
  exact ⟨same, rest.unread available (read_fixed_rest capacity state ⟨rfl, rfl⟩).2⟩

theorem unread_done {state} (finished : Unread state []) : ipcDone state.buf := by
  have size := congrArg List.length finished.left
  have bounded := finished.bounded
  simp only [length_drop, length_nil] at size
  simp only [ipcDone, finished.clear, Option.isNone_none, Bool.true_and, beq_iff_eq]
  omega

theorem reader_start_unread (body : Bytes) (heap : Heap) (granted : ∀ index, heap.grant index) :
    Unread (readerStart body heap) body :=
  ⟨rfl, zero_le _, rfl, granted⟩

end Evemon.Ipc
