import Mathlib.Data.List.Infix

-- Machines that read a list letter by letter and write some letters at each step.
namespace Transducer

open List

variable {σ α β : Type} (step : σ → α → σ × List β)

def final (state : σ) : List α → σ
  | [] => state
  | letter :: rest => final (step state letter).1 rest

def emit (state : σ) : List α → List β
  | [] => []
  | letter :: rest => (step state letter).2 ++ emit (step state letter).1 rest

theorem emit_append (state : σ) (input more : List α) :
    emit step state (input ++ more) = emit step state input ++ emit step (final step state input) more := by
  induction input generalizing state with
  | nil => rfl
  | cons letter rest ih => rw [cons_append, emit, emit, final, ih, append_assoc]

section

variable (start : σ)

def emitEach (pieces : List (List α)) : List β := pieces.flatMap (emit step start)

variable (pieces : List (List α)) (piece : List α)

theorem emit_each_concat :
    emitEach step start (pieces ++ [piece]) = emitEach step start pieces ++ emit step start piece := by
  simp [emitEach]

theorem emit_concat : emit step start (pieces ++ [piece]).flatten =
    emit step start pieces.flatten ++ emit step (final step start pieces.flatten) piece := by
  rw [flatten_append, flatten_singleton, emit_append]

theorem emit_each_flatten (back : ∀ earlier, earlier <+: pieces → final step start earlier.flatten = start)
    (earlier : List (List α)) (read : earlier <+: pieces) :
    emitEach step start earlier = emit step start earlier.flatten := by
  induction earlier using List.reverseRecOn with
  | nil => rfl
  | append_singleton before piece ih =>
    have sooner := (prefix_append before [piece]).trans read
    rw [emit_each_concat, emit_concat, ih sooner, back before sooner]

-- Reading every piece from the start gives what reading them through gives, for every next piece,
-- if some piece tells each other state apart from the start.
theorem emit_each_iff (told : ∀ state, state ≠ start → ∃ piece, emit step state piece ≠ emit step start piece) :
    (∀ earlier next, earlier <+: pieces →
    emitEach step start (earlier ++ [next]) = emit step start (earlier ++ [next]).flatten) ↔
    ∀ earlier, earlier <+: pieces → final step start earlier.flatten = start := by
  constructor
  · intro same earlier read
    have before : emitEach step start earlier = emit step start earlier.flatten := by
      induction earlier using List.reverseRecOn with
      | nil => rfl
      | append_singleton sooner last _ => exact same sooner last ((prefix_append sooner [last]).trans read)
    by_contra outside
    obtain ⟨piece, differs⟩ := told _ outside
    have whole := same earlier piece read
    rw [emit_each_concat, emit_concat, before] at whole
    exact differs (append_cancel_left whole).symm
  · intro back earlier next read
    rw [emit_each_concat, emit_concat, emit_each_flatten step start pieces back earlier read, back earlier read]

end

end Transducer
