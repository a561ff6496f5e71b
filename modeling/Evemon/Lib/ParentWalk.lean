import Evemon.Lib.AncestorStack
import Mathlib.Data.Finset.Card

-- Walks along a partial function from a key to its parent, which may run in circles. A walk writes
-- down a mark of each key and stops where there is no parent or a mark comes again.
namespace ParentWalk

open List

open AncestorStack (ancestor ancestor_add)

variable {κ μ : Type} (next : κ → Option κ) (mark : κ → μ)

def walk [DecidableEq μ] : Nat → List μ → Option κ → List κ × Option κ
  | 0, _, key => ([], key)
  | _ + 1, _, none => ([], none)
  | fuel + 1, marks, some key =>
    if mark key ∈ marks then ([], some key)
    else
      let rest := walk fuel (mark key :: marks) (next key)
      (key :: rest.1, rest.2)

structure Walked (visited : List κ) (key : Option κ) (out : List κ × Option κ) : Prop where
  fresh : ∀ found ∈ out.1, found ∉ visited
  nodup : out.1.Nodup
  climbed : ∀ found ∈ out.1, ∃ steps, key.bind (ancestor next steps) = some found
  begins : ∀ first, key = some first → first ∈ out.1 ∨ out.2 = some first
  onward : ∀ found ∈ out.1, ∀ up, next found = some up → up ∈ out.1 ∨ out.2 = some up
  meets : ∀ met, out.2 = some met → met ∈ visited ∨ met ∈ out.1
  ends : out.2 = none → ∃ steps, key.bind (ancestor next steps) = none
  lasts : ∀ met, out.2 = some met → key ≠ none ∧ ∀ found ∈ out.1, next found ≠ none

variable {visited : List κ}

theorem walked_end : Walked next visited none ([], none) where
  fresh := fun _ listed => (nomatch listed)
  nodup := .nil
  climbed := fun _ listed => (nomatch listed)
  begins := fun _ absent => (nomatch absent)
  onward := fun _ listed => (nomatch listed)
  meets := fun _ absent => (nomatch absent)
  ends := fun _ => ⟨0, rfl⟩
  lasts := fun _ absent => (nomatch absent)

theorem walked_met {key : κ} (met : key ∈ visited) : Walked next visited (some key) ([], some key) where
  fresh := fun _ listed => (nomatch listed)
  nodup := .nil
  climbed := fun _ listed => (nomatch listed)
  begins := fun _ same => .inr same
  onward := fun _ listed => (nomatch listed)
  meets := fun _ same => .inl (Option.some.inj same ▸ met)
  ends := fun absent => (nomatch absent)
  lasts := fun _ _ => ⟨fun absent => (nomatch absent), fun _ listed => (nomatch listed)⟩

theorem walked_step {key : κ} {out} (unmet : key ∉ visited)
    (rest : Walked next (key :: visited) (next key) out) : Walked next visited (some key) (key :: out.1, out.2) where
  fresh := by
    intro found listed
    cases mem_cons.mp listed with
    | inl same => exact same ▸ unmet
    | inr later => exact fun early => rest.fresh found later (mem_cons_of_mem _ early)
  nodup := nodup_cons.mpr ⟨fun later => rest.fresh key later mem_cons_self, rest.nodup⟩
  climbed := by
    intro found listed
    cases mem_cons.mp listed with
    | inl same => exact ⟨0, by rw [same]; rfl⟩
    | inr later =>
      obtain ⟨steps, reached⟩ := rest.climbed found later
      exact ⟨steps + 1, reached⟩
  begins := fun first same => .inl (Option.some.inj same ▸ mem_cons_self)
  onward := by
    intro found listed up above
    have kept : up ∈ out.1 ∨ out.2 = some up := by
      cases mem_cons.mp listed with
      | inl same => exact rest.begins up (same ▸ above)
      | inr later => exact rest.onward found later up above
    exact kept.imp_left (mem_cons_of_mem _)
  meets := by
    intro met stopped
    cases rest.meets met stopped with
    | inl early =>
      cases mem_cons.mp early with
      | inl same => exact .inr (same ▸ mem_cons_self)
      | inr earlier => exact .inl earlier
    | inr later => exact .inr (mem_cons_of_mem _ later)
  ends := by
    intro stopped
    obtain ⟨steps, ended⟩ := rest.ends stopped
    exact ⟨steps + 1, ended⟩
  lasts := by
    intro met stopped
    obtain ⟨goesOn, later⟩ := rest.lasts met stopped
    constructor
    · exact fun absent => (nomatch absent)
    · intro found listed
      cases mem_cons.mp listed with
      | inl same => exact same ▸ goesOn
      | inr among => exact later found among

section

-- The keys are among finitely many, on which the mark tells them apart.
variable [DecidableEq κ] [DecidableEq μ] {keys : List κ} (parents : ∀ key up, next key = some up → up ∈ keys)
  (distinct : ∀ first ∈ keys, ∀ second ∈ keys, mark first = mark second → first = second)

include parents distinct

theorem walk_walked {fuel : Nat} (visited : List κ) (key : Option κ) (known : ∀ old ∈ visited, old ∈ keys)
    (starts : ∀ first, key = some first → first ∈ keys) (enough : (keys.toFinset \ visited.toFinset).card < fuel) :
    Walked next visited key (walk next mark fuel (visited.map mark) key) := by
  induction fuel generalizing visited key with
  | zero => exact absurd enough (Nat.not_lt_zero _)
  | succ fuel ih =>
    cases key with
    | none => exact walked_end next
    | some key =>
      have among : key ∈ keys := starts key rfl
      by_cases met : key ∈ visited
      · rw [walk, if_pos (mem_map_of_mem met)]
        exact walked_met next met
      · have unmarked : mark key ∉ visited.map mark := by
          intro marked
          obtain ⟨old, early, same⟩ := mem_map.mp marked
          exact met (distinct old (known old early) key among same ▸ early)
        rw [walk, if_neg unmarked]
        apply walked_step next met
        apply ih (key :: visited) (next key)
        · exact forall_mem_cons.mpr ⟨among, known⟩
        · exact fun first above => parents key first above
        · have fewer : keys.toFinset \ (key :: visited).toFinset ⊂ keys.toFinset \ visited.toFinset := by
            apply Finset.ssubset_iff_of_subset ?_ |>.mpr
            · exact ⟨key, by simp [among, met]⟩
            · intro other
              simp only [Finset.mem_sdiff, mem_toFinset, mem_cons, not_or]
              exact fun here => ⟨here.1, here.2.2⟩
          exact Nat.lt_of_lt_of_le (Finset.card_lt_card fewer) (Nat.le_of_lt_succ enough)

variable (fuel : Nat) (key : κ)

theorem walk_from (known : key ∈ keys) (enough : keys.length < fuel) :
    Walked next [key] (next key) (walk next mark fuel [mark key] (next key)) := by
  apply walk_walked next mark parents distinct [key] (next key)
  · exact fun old listed => mem_singleton.mp listed ▸ known
  · exact fun first above => parents key first above
  · calc (keys.toFinset \ [key].toFinset).card ≤ keys.toFinset.card := Finset.card_le_card Finset.sdiff_subset
      _ ≤ keys.length := toFinset_card_le keys
      _ < fuel := enough

theorem mem_walk (known : key ∈ keys) (enough : keys.length < fuel) (found : κ) :
    found ∈ (walk next mark fuel [mark key] (next key)).1 ↔
    found ≠ key ∧ ∃ steps, ancestor next steps key = some found := by
  have walked := walk_from next mark parents distinct fuel key known enough
  constructor
  · intro listed
    obtain ⟨steps, reached⟩ := walked.climbed found listed
    exact ⟨fun same => walked.fresh found listed (same ▸ mem_cons_self), steps + 1, reached⟩
  · rintro ⟨other, steps, reached⟩
    -- the keys passed and the key itself are closed under going up
    have closed (steps : Nat) (lower top : κ)
        (inside : lower = key ∨ lower ∈ (walk next mark fuel [mark key] (next key)).1)
        (up : ancestor next steps lower = some top) :
        top = key ∨ top ∈ (walk next mark fuel [mark key] (next key)).1 := by
      induction steps generalizing lower with
      | zero => exact Option.some.inj up ▸ inside
      | succ steps ih =>
        cases above : next lower with
        | none => rw [ancestor, above] at up; cases up
        | some higher =>
          rw [ancestor, above] at up
          apply ih higher _ up
          have onward : higher ∈ (walk next mark fuel [mark key] (next key)).1 ∨
              (walk next mark fuel [mark key] (next key)).2 = some higher := by
            cases inside with
            | inl same => exact walked.begins higher (same ▸ above)
            | inr listed => exact walked.onward lower listed higher above
          cases onward with
          | inl listed => exact .inr listed
          | inr stopped => exact (walked.meets higher stopped).imp_left mem_singleton.mp
    exact (closed steps key found (.inl rfl) reached).resolve_left other

theorem walk_ends (known : key ∈ keys) (enough : keys.length < fuel) :
    (walk next mark fuel [mark key] (next key)).2 = none ↔ ∃ steps, ancestor next steps key = none := by
  have walked := walk_from next mark parents distinct fuel key known enough
  constructor
  · intro stopped
    obtain ⟨steps, ended⟩ := walked.ends stopped
    exact ⟨steps + 1, ended⟩
  · rintro ⟨steps, ended⟩
    cases stopped : (walk next mark fuel [mark key] (next key)).2 with
    | none => rfl
    | some met =>
      obtain ⟨goesOn, lasting⟩ := walked.lasts met stopped
      -- above the keys passed and the key itself there is always one more
      have endless (steps : Nat) : ∃ top, ancestor next steps key = some top := by
        induction steps with
        | zero => exact ⟨key, rfl⟩
        | succ steps ih =>
          obtain ⟨top, reached⟩ := ih
          have inside := (mem_walk next mark parents distinct fuel key known enough top).mpr
          have further : next top ≠ none := by
            by_cases same : top = key
            · exact same ▸ goesOn
            · exact lasting top (inside ⟨same, steps, reached⟩)
          obtain ⟨higher, above⟩ := Option.ne_none_iff_exists'.mp further
          refine ⟨higher, ?_⟩
          rw [ancestor_add next steps 1 key top reached, ancestor, above]
          rfl
      obtain ⟨top, reached⟩ := endless steps
      rw [reached] at ended
      cases ended

end

section

variable {next} (steps : Nat)

theorem ancestor_stays (more : Nat) (key : κ) (ended : ancestor next steps key = none) :
    ancestor next (steps + more) key = none := by
  induction steps generalizing key with
  | zero => cases ended
  | succ steps ih =>
    rw [Nat.succ_add, ancestor]
    cases above : next key with
    | none => rfl
    | some higher =>
      rw [ancestor, above] at ended
      exact ih higher ended

theorem reach_steps (key top : κ) (up : Relation.TransGen (fun lower upper => next lower = some upper) key top) :
    ∃ steps, 0 < steps ∧ ancestor next steps key = some top := by
  induction up with
  | single above => exact ⟨1, Nat.one_pos, by rw [ancestor, above]; rfl⟩
  | tail _ above ih =>
    obtain ⟨steps, _, reached⟩ := ih
    refine ⟨steps + 1, Nat.succ_pos _, ?_⟩
    rw [ancestor_add next steps 1 _ _ reached, ancestor, above]
    rfl

theorem steps_reach (key top : κ) (reached : ancestor next (steps + 1) key = some top) :
    Relation.TransGen (fun lower upper => next lower = some upper) key top := by
  induction steps generalizing key with
  | zero =>
    rw [ancestor] at reached
    cases above : next key with
    | none => rw [above] at reached; cases reached
    | some higher => rw [above] at reached; exact .single (above.trans reached)
  | succ steps ih =>
    rw [ancestor] at reached
    cases above : next key with
    | none => rw [above] at reached; cases reached
    | some higher => rw [above] at reached; exact .head above (ih higher reached)

theorem acyclic_of_end {key} (ended : ancestor next steps key = none) :
    ¬ Relation.TransGen (fun lower upper => next lower = some upper) key key := by
  intro circle
  obtain ⟨length, positive, back⟩ := reach_steps key key circle
  have rounds (count : Nat) : ancestor next (length * count) key = some key := by
    induction count with
    | zero => rfl
    | succ count ih => rw [Nat.mul_succ, ancestor_add next _ length key key ih, back]
  have far : steps ≤ length * steps := Nat.le_mul_of_pos_left steps positive
  have gone := ancestor_stays steps (length * steps - steps) key ended
  rw [Nat.add_sub_cancel' far, rounds] at gone
  cases gone

end

end ParentWalk
