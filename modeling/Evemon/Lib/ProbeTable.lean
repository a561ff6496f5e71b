import Mathlib.Logic.Function.Basic

-- Hash tables with a fixed number of slots and linear probing. A full table drops what is
-- stored into it.
namespace ProbeTable

variable {size : Nat} {κ ν : Type}

abbrev Table (size : Nat) (κ ν : Type) := Fin size → Option (κ × ν)

def empty : Table size κ ν := fun _ => none

def following (slot : Fin size) : Fin size :=
  ⟨(slot.val + 1) % size, Nat.mod_lt _ (Nat.zero_lt_of_lt slot.isLt)⟩

def probe (table : Table size κ ν) (stops : κ → Bool) : Nat → Fin size → Option (Fin size)
  | 0, _ => none
  | fuel + 1, slot =>
    match table slot with
    | none => some slot
    | some (key, _) => if stops key then some slot else probe table stops fuel (following slot)

section

variable [DecidableEq κ] (home : κ → Fin size)

def locate (table : Table size κ ν) (key : κ) : Option (Fin size) :=
  probe table (fun other => decide (other = key)) size (home key)

def find (table : Table size κ ν) (key : κ) : Option ν :=
  ((locate home table key).bind table).map Prod.snd

def store (table : Table size κ ν) (key : κ) (value : ν) : Table size κ ν :=
  match locate home table key with
  | none => table
  | some slot => Function.update table slot (some (key, value))

def append (table : Table size κ ν) (key : κ) (value : ν) : Table size κ ν :=
  match probe table (fun _ => false) size (home key) with
  | none => table
  | some slot => Function.update table slot (some (key, value))

end

def retain (keep : κ → Bool) (table : Table size κ ν) : Table size κ ν :=
  fun slot => (table slot).filter fun entry => keep entry.1

section

def Everywhere (holds : ν → Prop) (table : Table size κ ν) : Prop :=
  ∀ slot key value, table slot = some (key, value) → holds value

variable (holds : ν → Prop)

theorem empty_everywhere : Everywhere holds (empty : Table size κ ν) := by
  intro slot key value filled
  cases filled

theorem update_everywhere (table : Table size κ ν) (slot : Fin size) (key : κ) (value : ν)
    (all : Everywhere holds table) (new : holds value) :
    Everywhere holds (Function.update table slot (some (key, value))) := by
  intro other otherKey otherValue filled
  by_cases same : other = slot
  · subst same
    rw [Function.update_self] at filled
    obtain ⟨-, rfl⟩ := Prod.mk.inj (Option.some.inj filled)
    exact new
  · rw [Function.update_of_ne same] at filled
    exact all other otherKey otherValue filled

theorem retain_everywhere (keep : κ → Bool) (table : Table size κ ν) (all : Everywhere holds table) :
    Everywhere holds (retain keep table) := by
  intro slot key value filled
  exact all slot key value (Option.filter_eq_some_iff.mp filled).1

end

end ProbeTable
