import Evemon.Wire

namespace Evemon.Ipc

open Prog List

structure CursorInv (body : Bytes) (state : WireState) : Prop where
  same : state.buf.data = body
  bounded : state.buf.pos ≤ body.length
  inside : ∀ range ∈ state.buf.reads, range.1 + range.2 ≤ body.length

structure LatchInv (state : WireState) : Prop where
  reported : ∀ call ∈ state.calls, call.failed = true → state.buf.error.isSome = true
  latched : state.calls.Pairwise fun earlier later =>
    earlier.failed = true → later.failed = true ∧ later.empty = true

structure ReaderInv (body : Bytes) (state : WireState) : Prop where
  cursor : CursorInv body state
  latch : LatchInv state

def readerStart (body : Bytes) (heap : Heap) : WireState := ⟨{ data := body }, heap, []⟩

theorem reader_start_inv (body : Bytes) (heap : Heap) : ReaderInv body (readerStart body heap) :=
  ⟨⟨rfl, Nat.zero_le _, by simp [readerStart]⟩, ⟨by simp [readerStart], List.Pairwise.nil⟩⟩

structure Getter {α : Type} (body : Bytes) (isEmpty : α → Bool) (getter : Wire α) : Prop where
  cursor : Keeps (CursorInv body) getter
  sticky : ∀ state, state.buf.error.isSome = true →
    (getter.run state).2.buf.error.isSome = true ∧ isEmpty (getter.run state).1 = true
  silent : ∀ state, (getter.run state).2.calls = state.calls

theorem called_keeps {α : Type} {body} {isEmpty : α → Bool} {getter}
    (spec : Getter body isEmpty getter) : Keeps (ReaderInv body) (called isEmpty getter) := by
  intro state inv
  have moved := spec.cursor state inv.cursor
  refine ⟨⟨moved.same, moved.bounded, moved.inside⟩, ?_, ?_⟩
  · intro call mem failed
    simp only [called, spec.silent state, mem_append, mem_singleton] at mem ⊢
    rcases mem with earlier | same
    · exact (spec.sticky state (inv.latch.reported call earlier failed)).1
    · simpa only [same] using failed
  · simp only [called, spec.silent state]
    rw [pairwise_append]
    refine ⟨inv.latch.latched, pairwise_singleton _ _, ?_⟩
    intro earlier mem later same failed
    cases mem_singleton.mp same
    exact spec.sticky state (inv.latch.reported earlier mem failed)

section

variable {body : Bytes}

theorem set_error_cursor (code : Errno) : Keeps (CursorInv body) (setError code) :=
  fun _ inv => ⟨inv.same, inv.bounded, inv.inside⟩

theorem malloc_cursor : Keeps (CursorInv body) malloc :=
  fun _ inv => ⟨inv.same, inv.bounded, inv.inside⟩

theorem touch_advance_cursor {state} {count : Nat} (inv : CursorInv body state)
    (fits : count ≤ body.length - state.buf.pos) :
    CursorInv body ((advance count).run ((touch state.buf.pos count).run state).2).2 := by
  have bounded := inv.bounded
  refine ⟨inv.same, ?_, ?_⟩
  · simp only [advance, touch, run_modify]
    omega
  · intro range mem
    simp only [advance, touch, run_modify, mem_append, mem_singleton] at mem
    rcases mem with earlier | same
    · exact inv.inside range earlier
    · subst same
      simp only
      omega

end

section

-- Reading a value leaves the record of the calls and the answers of malloc alone.
def Rest (calls : List GetterCall) (grant : Nat → Bool) (state : WireState) : Prop :=
  state.calls = calls ∧ state.heap.grant = grant

variable {body : Bytes} {state : WireState} {calls : List GetterCall} {grant : Nat → Bool}

theorem read_u32_sticky (failed : state.buf.error.isSome) :
    (readU32.run state).2.buf.error.isSome ∧ (readU32.run state).1 = 0 := by
  simp [readU32, failed]

variable (state)

theorem read_u32_rest : Keeps (Rest calls grant) readU32 := by
  intro state rest
  unfold readU32
  dsimp only
  split <;> exact rest

theorem read_u32_cursor : Keeps (CursorInv body) readU32 := by
  intro state inv
  unfold readU32
  dsimp only
  split
  · exact ⟨inv.same, inv.bounded, inv.inside⟩
  · rename_i healthy
    have enough : ¬ sizeSub state.buf.data.length state.buf.pos < 4 := by
      intro short
      simp [short] at healthy
    rw [inv.same, size_sub_exact inv.bounded] at enough
    have bounded := inv.bounded
    refine ⟨inv.same, by simp only; omega, ?_⟩
    intro range mem
    simp only [mem_append, mem_singleton] at mem
    rcases mem with earlier | same
    · exact inv.inside range earlier
    · subst same
      simp only
      omega

theorem read_u32_getter : Getter body (· == 0) readU32 := by
  refine ⟨read_u32_cursor, ?_, fun state => (read_u32_rest state ⟨rfl, rfl⟩).1⟩
  intro state failed
  have sticky := read_u32_sticky failed
  exact ⟨sticky.1, by simp [sticky.2]⟩

theorem read_u64_sticky (failed : state.buf.error.isSome) :
    (readU64.run state).2.buf.error.isSome ∧ (readU64.run state).1 = 0 := by
  have high := read_u32_sticky failed
  have low := read_u32_sticky high.1
  refine ⟨low.1, ?_⟩
  change BigEndian.decode64 (readU32.run state).1 (readU32.run (readU32.run state).2).1 = 0
  rw [high.2, low.2]
  rfl

theorem read_u64_rest : Keeps (Rest calls grant) readU64 :=
  keeps_bind read_u32_rest fun _ => keeps_bind read_u32_rest fun _ => keeps_pure _

theorem read_u64_cursor : Keeps (CursorInv body) readU64 :=
  keeps_bind read_u32_cursor fun _ =>
    keeps_bind read_u32_cursor fun _ => keeps_pure _

theorem read_u64_getter : Getter body (· == 0) readU64 := by
  refine ⟨read_u64_cursor, ?_, fun state => (read_u64_rest state ⟨rfl, rfl⟩).1⟩
  intro state failed
  have sticky := read_u64_sticky state failed
  exact ⟨sticky.1, by simp [sticky.2]⟩

theorem read_f64_getter : Getter body (fun value : Finite => value.val.toBits == 0) readF64 := by
  refine ⟨?_, ?_, ?_⟩
  · refine keeps_bind read_u64_cursor fun bits => keeps_dite (fun _ => keeps_pure _) fun _ => ?_
    exact keeps_bind (set_error_cursor .EPROTO) fun _ => keeps_pure _
  · intro state failed
    have sticky := read_u64_sticky state failed
    simp only [readF64, run_bind, run_dite, sticky.2]
    rw [dif_pos (by decide)]
    exact ⟨sticky.1, by simp only [run_pure]; decide⟩
  · intro state
    simp only [readF64, run_bind, run_dite]
    split <;> exact (read_u64_rest state ⟨rfl, rfl⟩).1

theorem string_size_sticky (failed : state.buf.error.isSome) :
    (stringSize.run state).2.buf.error.isSome ∧ (stringSize.run state).1 = 0 := by
  have sticky := (read_u32_sticky failed).1
  simp [stringSize, sticky, setError]

theorem string_size_rest : Keeps (Rest calls grant) stringSize := by
  intro state rest
  simp only [stringSize, ↓run_inspect_bind, run_bind, run_ite]
  split
  · exact read_u32_rest state rest
  · split <;> exact read_u32_rest state rest

theorem string_size_spec (inv : CursorInv body state) : CursorInv body (stringSize.run state).2 ∧
    ((stringSize.run state).2.buf.error = none →
    (stringSize.run state).1 ≤ body.length - (stringSize.run state).2.buf.pos ∧
    0 ∉ window (stringSize.run state).2.buf (stringSize.run state).1) := by
  have moved := read_u32_cursor state inv
  simp only [stringSize, ↓run_inspect_bind, run_bind, run_ite]
  split
  · exact ⟨⟨moved.same, moved.bounded, moved.inside⟩, fun clear => by simp [setError] at clear⟩
  · rename_i healthy
    have fits : (readU32.run state).1.toNat ≤ body.length - (readU32.run state).2.buf.pos := by
      rw [moved.same, size_sub_exact moved.bounded] at healthy
      simp only [Bool.or_eq_true, decide_eq_true_eq, not_or] at healthy
      omega
    have touched : CursorInv body ((touch (readU32.run state).2.buf.pos (readU32.run state).1.toNat).run (readU32.run state).2).2 := by
      refine ⟨moved.same, moved.bounded, ?_⟩
      intro range mem
      simp only [touch, run_modify, mem_append, mem_singleton] at mem
      rcases mem with earlier | same
      · exact moved.inside range earlier
      · subst same
        have bounded := moved.bounded
        simp only
        omega
    split
    · exact ⟨⟨touched.same, touched.bounded, touched.inside⟩, fun clear => by simp [setError] at clear⟩
    · rename_i noNul
      refine ⟨touched, fun _ => ⟨fits, ?_⟩⟩
      simpa [touch, window] using noNul

theorem string_copy_cursor (inv : CursorInv body state) (clear : (stringSize.run state).2.buf.error = none) :
    CursorInv body ((advance (stringSize.run state).1).run
    ((touch (stringSize.run state).2.buf.pos (stringSize.run state).1).run (stringSize.run state).2).2).2 := by
  obtain ⟨moved, accepted⟩ := string_size_spec state inv
  exact touch_advance_cursor moved (accepted clear).1

theorem read_string_rest : Keeps (Rest calls grant) readString := by
  intro state rest
  simp only [readString, ↓run_inspect_bind, run_bind, run_ite]
  split
  · exact string_size_rest state rest
  · split <;> exact string_size_rest state rest

theorem read_fixed_rest (capacity : Nat) : Keeps (Rest calls grant) (readFixed capacity) := by
  intro state rest
  simp only [readFixed, ↓run_inspect_bind, run_bind, run_ite, run_dite]
  split
  · exact string_size_rest state rest
  · split <;> exact string_size_rest state rest

theorem read_string_getter (body : Bytes) : Getter body Option.isNone readString := by
  refine ⟨?_, ?_, ?_⟩
  · intro state inv
    simp only [readString, ↓run_inspect_bind, run_bind, run_ite]
    split
    · exact (string_size_spec state inv).1
    · rename_i healthy
      have clear : (stringSize.run state).2.buf.error = none := by simpa using healthy
      have copied := string_copy_cursor state inv clear
      split
      · exact ⟨copied.same, copied.bounded, copied.inside⟩
      · have moved := (string_size_spec state inv).1
        exact ⟨moved.same, moved.bounded, moved.inside⟩
  · intro state failed
    have sticky := (string_size_sticky state failed).1
    simp only [readString, ↓run_inspect_bind, run_bind, sticky, if_true, run_pure]
    exact ⟨trivial, rfl⟩
  · exact fun state => (read_string_rest state ⟨rfl, rfl⟩).1

theorem read_fixed_getter (body : Bytes) (capacity : Nat) :
    Getter body (fun text : FixedStr capacity => text.bytes.isEmpty) (readFixed capacity) := by
  refine ⟨?_, ?_, ?_⟩
  · intro state inv
    simp only [readFixed, ↓run_inspect_bind, run_bind, run_ite]
    split
    · have moved := (string_size_spec state inv).1
      exact ⟨moved.same, moved.bounded, moved.inside⟩
    · rename_i healthy
      have clear : (stringSize.run state).2.buf.error = none := by
        cases read : (stringSize.run state).2.buf.error with
        | none => rfl
        | some code => simp [read] at healthy
      have copied := string_copy_cursor state inv clear
      split <;> exact copied
  · intro state failed
    have sticky := (string_size_sticky state failed).1
    simp only [readFixed, ↓run_inspect_bind, run_bind, sticky, Bool.true_or, if_true, run_pure]
    exact ⟨rfl, rfl⟩
  · exact fun state => (read_fixed_rest capacity state ⟨rfl, rfl⟩).1

-- What no getter, no allocation and no report of an error breaks.
structure Preserved (inv : WireState → Prop) : Prop where
  u32 : Keeps inv ipcGetU32
  u64 : Keeps inv ipcGetU64
  f64 : Keeps inv ipcGetF64
  string : Keeps inv ipcGetString
  fixed (capacity : Nat) : Keeps inv (ipcGetFixed capacity)
  alloc : Keeps inv malloc
  error (code : Errno) : Keeps inv (setError code)

theorem reader_preserved {body} : Preserved (ReaderInv body) where
  u32 := called_keeps read_u32_getter
  u64 := called_keeps read_u64_getter
  f64 := called_keeps read_f64_getter
  string := called_keeps (read_string_getter body)
  fixed capacity := called_keeps (read_fixed_getter body capacity)
  alloc state inv := ⟨malloc_cursor state inv.cursor, inv.latch.reported, inv.latch.latched⟩
  error code state inv := ⟨set_error_cursor code state inv.cursor, fun _ _ _ => rfl, inv.latch.latched⟩

end

end Evemon.Ipc
