import Mathlib.Logic.Relation

-- Runs of a machine whose step is a function of the state and the action. `allowed` says which
-- actions a run may take where, so that one machine is studied under several assumptions.
namespace Runs

variable {σ α : Type}

inductive Reachable (start : σ → Prop) (allowed : σ → α → Prop) (step : σ → α → σ) : σ → Prop where
  | start (state : σ) (initial : start state) : Reachable start allowed step state
  | step (state : σ) (action : α) (earlier : Reachable start allowed step state) (taken : allowed state action) :
      Reachable start allowed step (step state action)

variable {start : σ → Prop} {allowed : σ → α → Prop} {step : σ → α → σ}

theorem invariant (inv : σ → Prop) (initially : ∀ state, start state → inv state)
    (kept : ∀ state action, inv state → allowed state action → inv (step state action)) (state : σ)
    (reached : Reachable start allowed step state) : inv state := by
  induction reached with
  | start state initial => exact initially state initial
  | step state action earlier taken ih => exact kept state action ih taken

theorem weaken {wider : σ → α → Prop} (implied : ∀ state action, allowed state action → wider state action)
    {state} (reached : Reachable start allowed step state) : Reachable start wider step state := by
  induction reached with
  | start state initial => exact .start state initial
  | step state action earlier taken ih => exact .step state action ih (implied state action taken)

def follows (check : σ → α → Bool) (step : σ → α → σ) : List α → σ → Bool
  | [], _ => true
  | action :: rest, state => check state action && follows check step rest (step state action)

theorem reachable_follows (check : σ → α → Bool) (sound : ∀ state action, check state action → allowed state action)
    (actions : List α) (state : σ) (reached : Reachable start allowed step state)
    (passed : follows check step actions state) : Reachable start allowed step (actions.foldl step state) := by
  induction actions generalizing state with
  | nil => exact reached
  | cons action rest ih =>
    simp only [follows, Bool.and_eq_true] at passed
    exact ih _ (.step state action reached (sound state action passed.1)) passed.2

end Runs
