import Evemon.WireCodec

namespace Evemon.Ipc

open Prog BigEndian List

structure Reading (grant : Nat → Bool) (state : WireState) (input : Bytes) : Prop extends Ahead state input where
  heap : state.heap.grant = grant
  fits : input.length ≤ ipcLimit

variable {later : Bytes}

theorem Reading.advance {grant : Nat → Bool} {before after} {input : Bytes}
    (reading : Reading grant before (input ++ later)) (ahead : Ahead after later)
    (heap : after.heap.grant = before.heap.grant) : Reading grant after later := by
  have fits := reading.fits
  rw [length_append] at fits
  exact ⟨ahead, heap.trans reading.heap, by omega⟩

abbrev Gets {α : Type} (grant : Nat → Bool) (known : Prop) (prog : Wire α) (input : Bytes) (valid : Prop)
    (post : α → Prop) : Prop :=
  Parses Failed (Reading grant) (∀ index, grant index = true) known prog input valid post

theorem Ahead.healthy {state} {input} (ahead : Ahead state input) : ¬ Failed state := by
  unfold Failed
  rw [ahead.clear]
  simp

section

variable {α : Type} {grant : Nat → Bool} {known : Prop}

variable {prog : Wire α} {input : Bytes} (capacity : Nat) (state : WireState) {post : α → Prop}

theorem gets_always (sticky : Keeps Failed prog) (heap : ∀ state, (prog.run state).2.heap.grant = state.heap.grant)
    (reads : ∀ state later, Ahead state (input ++ later) → post (prog.run state).1 ∧ Ahead (prog.run state).2 later) :
    Gets grant known prog input True post := by
  have reading : ∀ state later, Reading grant state (input ++ later) →
      post (prog.run state).1 ∧ Reading grant (prog.run state).2 later := by
    intro state later available
    obtain ⟨holds, rest⟩ := reads state later available.toAhead
    exact ⟨holds, available.advance rest (heap state)⟩
  exact ⟨sticky, fun _ state later available => .inr ⟨trivial, reading state later available⟩,
    fun _ _ _ state later available => reading state later available⟩

variable {valid : Prop}

theorem gets_of_fits (sticky : Keeps Failed prog)
    (gets : input.length ≤ ipcLimit → Gets grant known prog input valid post) :
    Gets grant known prog input valid post := by
  have head : ∀ state later, Reading grant state (input ++ later) → input.length ≤ ipcLimit := by
    intro state later available
    have fits := available.fits
    rw [length_append] at fits
    omega
  exact ⟨sticky, fun reached state later available => (gets (head state later available)).sound reached state later available,
    fun reached prepared accepted state later available =>
      (gets (head state later available)).complete reached prepared accepted state later available⟩

theorem gets_refused (lost : ∀ state, Failed (prog.run state).2) (refuted : known → ¬ valid) :
    Gets grant known prog input valid post where
  sticky state _ := lost state
  sound _ state _ _ := .inl (lost state)
  complete reached _ accepted := absurd accepted (refuted reached)

theorem called_gets (isEmpty : α → Bool) {getter} {input}
    (gets : Gets grant known getter input valid post) : Gets grant known (called isEmpty getter) input valid post where
  sticky := gets.sticky
  sound reached state later available := by
    rcases gets.sound reached state later available with lost | ⟨accepted, holds, rest⟩
    · exact .inl lost
    · exact .inr ⟨accepted, holds, ⟨rest.clear, rest.bounded, rest.left⟩, rest.heap, rest.fits⟩
  complete reached prepared accepted state later available := by
    obtain ⟨holds, rest⟩ := gets.complete reached prepared accepted state later available
    exact ⟨holds, ⟨rest.clear, rest.bounded, rest.left⟩, rest.heap, rest.fits⟩

variable (value : UInt32)

theorem read_u32_gets : Gets grant known readU32 (encode32 value) True (· = value) := by
  refine gets_always (fun state lost => (read_u32_sticky lost).1) (fun state => (read_u32_rest state ⟨rfl, rfl⟩).2)
    fun state later available => ?_
  obtain ⟨same, rest, _⟩ := read_u32_ahead value available
  exact ⟨same, rest⟩

theorem ipc_get_u32_gets : Gets grant known ipcGetU32 (encode32 value) True (· = value) :=
  called_gets _ (read_u32_gets value)

theorem ipc_get_u32_sticky : Keeps Failed ipcGetU32 := fun _ lost => (read_u32_sticky lost).1

theorem read_u64_gets (value : UInt64) : Gets grant known readU64 (encode64 value) True (· = value) := by
  refine parses_step (read_u32_gets _) fun high => ?_
  refine parses_last (read_u32_gets _) fun read low same => ?_
  rw [read.2, same]
  exact decode64_halves value

theorem ipc_get_u64_gets (value : UInt64) : Gets grant known ipcGetU64 (encode64 value) True (· = value) :=
  called_gets _ (read_u64_gets value)

theorem reject_if_sticky {condition} {code} : Keeps Failed (rejectIf condition code) := by
  intro state lost
  cases condition with
  | true => rfl
  | false => exact lost

theorem reject_if_gets (condition : Bool) (code : Errno) :
    Gets grant known (rejectIf condition code) [] (condition = false) (· = ()) := by
  cases condition with
  | true => exact gets_refused (fun _ => rfl) fun _ => by simp
  | false => exact (parses_pure () fun _ => rfl).valid_iff fun _ => by simp

theorem ipc_get_f64_gets (value : Float) :
    Gets grant known ipcGetF64 (encode64 value.toBits) (value.isFinite) (·.val = value) := by
  have same := Float.ofBits_toBits value
  apply called_gets
  rw [← append_nil (encode64 value.toBits)]
  refine parses_step (read_u64_gets _) fun bits => ?_
  have opened : known ∧ bits = value.toBits → Float.ofBits bits = value := by
    intro read
    rw [read.2]
    exact same
  by_cases finite : (Float.ofBits bits).isFinite
  · rw [dif_pos finite]
    refine (parses_pure (⟨Float.ofBits bits, finite⟩ : Finite) opened).valid_iff fun read => ?_
    rw [opened read] at finite
    exact iff_of_true trivial finite
  · rw [dif_neg finite]
    refine gets_refused (fun _ => rfl) fun read => ?_
    rwa [opened read] at finite

theorem read_string_sticky : Keeps Failed readString := fun state lost => ((read_string_getter []).sticky state lost).1

theorem ipc_get_string_gets (s : Bytes) (nulFree : 0 ∉ s) :
    Gets grant known ipcGetString (stringBytes s) True (· = some s) := by
  apply called_gets
  refine gets_of_fits read_string_sticky fun fits => ?_
  have short : s.length < 2 ^ 32 := by
    rw [string_bytes_length, ipcLimit] at fits
    omega
  refine ⟨read_string_sticky, ?_, ?_⟩
  · intro _ state later available
    rcases read_string_ahead short nulFree available.toAhead with ⟨_, lost⟩ | ⟨same, rest⟩
    · exact .inl lost
    · exact .inr ⟨trivial, same, available.advance rest (read_string_rest state ⟨rfl, rfl⟩).2⟩
  · intro _ granted _ state later available
    rcases read_string_ahead short nulFree available.toAhead with ⟨refused, _⟩ | ⟨same, rest⟩
    · rw [available.heap, granted] at refused
      cases refused
    · exact ⟨same, available.advance rest (read_string_rest state ⟨rfl, rfl⟩).2⟩

theorem ipc_get_fixed_sticky : Keeps Failed (ipcGetFixed capacity) :=
  fun state lost => ((read_fixed_getter [] capacity).sticky state lost).1

theorem ipc_get_fixed_gets {text : FixedStr capacity} (fits : 0 < capacity ∧ capacity ≤ 2 ^ 32) :
    Gets grant known (ipcGetFixed capacity) (stringBytes text.bytes) True (· = text) := by
  apply called_gets
  exact gets_always (ipc_get_fixed_sticky capacity) (fun state => (read_fixed_rest capacity state ⟨rfl, rfl⟩).2)
    fun _ _ => read_fixed_ahead fits

theorem unless_failed_lost {prog : Wire α} {fallback} {state} (lost : Failed state) :
    (do let failed ← hasError; if failed then pure fallback else prog : Wire α).run state = (fallback, state) := by
  unfold Failed at lost
  simp only [hasError, ↓run_inspect_bind, lost, if_true, run_pure]

variable {fallback : α}

theorem unless_failed_healthy {prog : Wire α} {state} (healthy : ¬ Failed state) :
    (do let failed ← hasError; if failed then pure fallback else prog : Wire α).run state = prog.run state := by
  unfold Failed at healthy
  simp only [hasError, ↓run_inspect_bind, if_neg healthy]

theorem gets_unless_failed {input} (gets : Gets grant known prog input valid post) :
    Gets grant known (do let failed ← hasError; if failed then pure fallback else prog) input valid post where
  sticky state lost := by
    rw [unless_failed_lost lost]
    exact lost
  sound reached state later available := by
    rw [unless_failed_healthy available.healthy]
    exact gets.sound reached state later available
  complete reached prepared accepted state later available := by
    rw [unless_failed_healthy available.healthy]
    exact gets.complete reached prepared accepted state later available

variable (item : Wire α)

theorem get_until_error_sticky (count : Nat) : Keeps Failed (getUntilError item count) := by
  intro state lost
  cases count with
  | zero => exact lost
  | succ count =>
    rw [getUntilError, unless_failed_lost lost]
    exact lost

theorem get_until_error_healthy (each : ∀ state, ¬ Failed (item.run state).2 → post (item.run state).1) (count : Nat)
    (state : WireState) (healthy : ¬ Failed ((getUntilError item count).run state).2) :
    ((getUntilError item count).run state).1.length = count ∧
    ∀ value ∈ ((getUntilError item count).run state).1, post value := by
  induction count generalizing state with
  | zero => exact ⟨rfl, fun _ mem => by cases mem⟩
  | succ count ih =>
    by_cases lost : Failed state
    · rw [getUntilError, unless_failed_lost lost] at healthy
      exact absurd lost healthy
    rw [getUntilError, unless_failed_healthy lost] at healthy ⊢
    simp only [run_bind, run_pure] at healthy ⊢
    obtain ⟨length, others⟩ := ih (item.run state).2 healthy
    have first := each state fun failed => healthy (get_until_error_sticky item count _ failed)
    refine ⟨by rw [length_cons, length], fun value mem => ?_⟩
    rcases mem_cons.mp mem with here | later
    · rw [here]
      exact first
    · exact others value later

theorem get_until_error_gets {β : Type} {item} {bytes : α → Bytes} {valid : α → Prop} {result : α → β}
    (values : List α) (each : ∀ value ∈ values, Gets grant True item (bytes value) (valid value) (· = result value)) :
    Gets grant known (getUntilError item values.length) (values.flatMap bytes) (∀ value ∈ values, valid value)
    (· = values.map result) := by
  induction values generalizing known with
  | nil =>
    have done : Gets grant known (pure [] : Wire (List β)) [] True (· = []) := parses_pure [] fun _ => rfl
    exact done.valid_iff fun _ => by simp
  | cons value rest ih =>
    have first := (each value mem_cons_self).under fun _ : known => trivial
    have others := fun other mem => each other (mem_cons_of_mem _ mem)
    have pair := parses_bind first fun head =>
      @parses_last _ _ _ _ _ _ _ _ _ (fun items => head :: items) _ _ _ (· = result value :: rest.map result)
        (ih others) fun read items same => by rw [read.2, same]
    exact (gets_unless_failed pair).valid_iff fun _ => by simp

theorem malloc_reading {state} {input} (available : Reading grant state input) :
    Reading grant (malloc.run state).2 input :=
  ⟨⟨available.clear, available.bounded, available.left⟩, available.heap, available.fits⟩

theorem gets_allocated {prog refused : Wire α} {input} (gets : Gets grant known prog input valid post)
    (lost : ∀ state, Failed (refused.run state).2) :
    Gets grant known (do let granted ← malloc; if granted then prog else refused) input valid post := by
  have ran : ∀ state : WireState, (do let granted ← malloc; if granted then prog else refused : Wire α).run state =
      if state.heap.grant state.heap.asked then prog.run (malloc.run state).2
      else refused.run (malloc.run state).2 := by
    intro state
    simp only [run_bind, run_ite]
    rfl
  refine ⟨?_, ?_, ?_⟩
  · intro state failed
    rw [ran]
    split
    · exact gets.sticky _ failed
    · exact lost _
  · intro reached state later available
    rw [ran]
    split
    · exact gets.sound reached _ later (malloc_reading available)
    · exact .inl (lost _)
  · intro reached prepared accepted state later available
    rw [ran, if_pos (by rw [available.heap]; exact prepared _)]
    exact gets.complete reached prepared accepted _ later (malloc_reading available)

end

structure Coded {α β : Type} (put : α → Wire Unit) (get : Wire β) (minimum : Nat) (bytes : α → Bytes)
    (valid : α → Prop) (result : α → β) : Prop where
  puts : ∀ value, Puts (put value) (bytes value)
  gets : ∀ grant value, Gets grant True get (bytes value) (valid value) (· = result value)
  least : ∀ value, minimum ≤ (bytes value).length

theorem items_bytes_min {α : Type} {bytes : α → Bytes} {minimum : Nat} (least : ∀ value, minimum ≤ (bytes value).length)
    (values : List α) : values.length * minimum ≤ (values.flatMap bytes).length := by
  induction values with
  | nil => simp
  | cons value rest ih =>
    have first := least value
    rw [flatMap_cons, length_append, length_cons, Nat.add_mul]
    omega

theorem reader_start_reading {body : Bytes} (heap : Heap) (fits : body.length ≤ ipcLimit) :
    Reading heap.grant (malloc.run (readerStart body heap)).2 (body ++ []) := by
  rw [append_nil]
  exact ⟨⟨rfl, Nat.zero_le _, rfl⟩, rfl, fits⟩

theorem done_healthy {buf} (done : ipcDone buf) : buf.error = none := by
  simp only [ipcDone, Bool.and_eq_true, Option.isNone_iff_eq_none] at done
  exact done.1

theorem run_checked {α : Type} (prog : Wire α) (state : WireState) :
    ((do
      let granted ← malloc
      if granted then
        let value ← prog
        let done ← Prog.inspect fun state => ipcDone state.buf
        pure (if done then some value else none)
      else pure none : Wire (Option α)).run state).1 =
    if state.heap.grant state.heap.asked then
      if ipcDone (prog.run (malloc.run state).2).2.buf then some (prog.run (malloc.run state).2).1 else none
    else none := by
  have asked : (malloc.run state).1 = state.heap.grant state.heap.asked := rfl
  simp only [run_bind, run_ite, run_inspect, run_pure, asked]
  split
  · rfl
  · rfl

end Evemon.Ipc
