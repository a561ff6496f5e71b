import Mathlib.Data.Finset.Card

-- The search of a graph with one growing list: what has been found, and, from a position on, what
-- is still to be expanded.
namespace Worklist

open List

variable {κ : Type} [DecidableEq κ]

def absorb (result fresh : List κ) : List κ :=
  fresh.foldl (fun result key => if key ∈ result then result else result ++ [key]) result

def search (children : κ → List κ) : Nat → Nat → List κ → List κ
  | 0, _, result => result
  | fuel + 1, position, result =>
    match result[position]? with
    | none => result
    | some key => search children fuel (position + 1) (absorb result (children key))

variable (result fresh : List κ)

theorem absorb_cons (key : κ) :
    absorb result (key :: fresh) = absorb (if key ∈ result then result else result ++ [key]) fresh := by
  rw [absorb, foldl_cons]
  rfl

theorem mem_absorb (found : κ) : found ∈ absorb result fresh ↔ found ∈ result ∨ found ∈ fresh := by
  induction fresh generalizing result with
  | nil => simp [absorb]
  | cons key fresh ih =>
    rw [absorb_cons, ih]
    by_cases listed : key ∈ result
    · rw [if_pos listed, mem_cons]
      constructor
      · exact fun here => here.imp_right .inr
      · rintro (old | rfl | later)
        · exact .inl old
        · exact .inl listed
        · exact .inr later
    · rw [if_neg listed, mem_append, mem_singleton, mem_cons, or_assoc]

theorem absorb_nodup (nodup : result.Nodup) : (absorb result fresh).Nodup := by
  induction fresh generalizing result with
  | nil => exact nodup
  | cons key fresh ih =>
    rw [absorb_cons]
    apply ih
    by_cases listed : key ∈ result
    · rwa [if_pos listed]
    · rw [if_neg listed]
      exact nodup.append (nodup_singleton key) (disjoint_singleton.mpr listed)

theorem absorb_extends : result <+: absorb result fresh := by
  induction fresh generalizing result with
  | nil => exact prefix_rfl
  | cons key fresh ih =>
    rw [absorb_cons]
    by_cases listed : key ∈ result
    · rw [if_pos listed]
      exact ih result
    · rw [if_neg listed]
      exact (prefix_append result [key]).trans (ih _)

variable (children : κ → List κ)

structure Searched (start : κ) (position : Nat) (result : List κ) : Prop where
  nodup : result.Nodup
  began : start ∈ result
  reached : ∀ found ∈ result, Relation.ReflTransGen (fun upper lower => lower ∈ children upper) start found
  expanded : ∀ earlier < position, ∀ key, result[earlier]? = some key → ∀ child ∈ children key, child ∈ result

omit [DecidableEq κ] in
theorem searched_start (start : κ) : Searched children start 0 [start] where
  nodup := nodup_singleton start
  began := mem_cons_self
  reached := fun _ listed => mem_singleton.mp listed ▸ .refl
  expanded := fun _ before => absurd before (Nat.not_lt_zero _)

variable {position : Nat} {key : κ}

theorem searched_step {start} {result} (searched : Searched children start position result)
    (next : result[position]? = some key) : Searched children start (position + 1) (absorb result (children key)) where
  nodup := absorb_nodup result _ searched.nodup
  began := (mem_absorb result _ start).mpr (.inl searched.began)
  reached := by
    intro found listed
    cases (mem_absorb result _ found).mp listed with
    | inl old => exact searched.reached found old
    | inr new => exact (searched.reached key (mem_of_getElem? next)).tail new
  expanded := by
    intro earlier before other there child below
    have old : result[earlier]? = some other := by
      have bound : earlier < result.length :=
        Nat.lt_of_le_of_lt (Nat.le_of_lt_succ before) (List.getElem?_eq_some_iff.mp next).1
      obtain ⟨more, grown⟩ := absorb_extends result (children key)
      rwa [← grown, List.getElem?_append_left bound] at there
    apply (mem_absorb result _ child).mpr
    by_cases current : earlier = position
    · have same : other = key := Option.some.inj ((current ▸ old).symm.trans next)
      exact .inr (same ▸ below)
    · exact .inl (searched.expanded earlier (by omega) other old child below)

section

variable {keys : List κ} (bounded : ∀ key, ∀ child ∈ children key, child ∈ keys)

include bounded

omit [DecidableEq κ] in
theorem result_bounded {start} {result} (searched : Searched children start position result) :
    result.length ≤ keys.length + 1 := by
  have within : result ⊆ start :: keys := by
    intro found listed
    cases (searched.reached found listed).cases_tail with
    | inl same => exact same ▸ mem_cons_self
    | inr last =>
      obtain ⟨upper, _, below⟩ := last
      exact mem_cons_of_mem _ (bounded upper found below)
  exact (searched.nodup.subperm within).length_le

theorem search_expands (fuel : Nat) (start : κ) (position : Nat) (result : List κ)
    (searched : Searched children start position result) (enough : keys.length + 1 ≤ position + fuel) :
    ∃ last, Searched children start last (search children fuel position result) ∧
    (search children fuel position result).length ≤ last := by
  induction fuel generalizing position result with
  | zero =>
    exact ⟨position, searched, (result_bounded children bounded searched).trans enough⟩
  | succ fuel ih =>
    cases next : result[position]? with
    | none =>
      rw [search, next]
      exact ⟨position, searched, List.getElem?_eq_none_iff.mp next⟩
    | some key =>
      rw [search, next]
      apply ih (position + 1) _ (searched_step children searched next)
      omega

theorem search_spec (fuel : Nat) (start : κ) (enough : keys.length + 1 ≤ fuel) :
    (search children fuel 0 [start]).Nodup ∧ ∀ found, found ∈ search children fuel 0 [start] ↔
    Relation.ReflTransGen (fun upper lower => lower ∈ children upper) start found := by
  obtain ⟨last, searched, complete⟩ := search_expands children bounded fuel start 0 [start]
    (searched_start children start) (by omega)
  refine ⟨searched.nodup, fun found => ⟨searched.reached found, ?_⟩⟩
  intro reached
  induction reached with
  | refl => exact searched.began
  | tail _ below ih =>
    obtain ⟨earlier, there⟩ := mem_iff_getElem?.mp ih
    have bound := (List.getElem?_eq_some_iff.mp there).1
    exact searched.expanded earlier (Nat.lt_of_lt_of_le bound complete) _ there _ below

end

section

variable (edge : κ → κ → Prop) (start : κ)

-- A list that grows by keys with an edge from the start or from a key listed before.
inductive Grown : List κ → Prop where
  | begin : Grown []
  | add {keys : List κ} {upper lower : κ} (grown : Grown keys) (new : lower ∉ keys) (below : edge upper lower)
      (known : upper = start ∨ upper ∈ keys) : Grown (keys ++ [lower])

variable {edge start} {keys : List κ}

omit [DecidableEq κ] in
theorem grown_nodup (grown : Grown edge start keys) : keys.Nodup := by
  induction grown with
  | begin => exact nodup_nil
  | add _ new _ _ ih =>
    rw [← concat_eq_append]
    exact ih.concat new

omit [DecidableEq κ] in
theorem grown_reached (grown : Grown edge start keys) (key : κ) (mem : key ∈ keys) : Relation.TransGen edge start key := by
  induction grown generalizing key with
  | begin => cases mem
  | add _ _ below known ih =>
    rcases mem_append.mp mem with old | _ | ⟨_, ⟨⟩⟩
    · exact ih key old
    · rcases known with rfl | listed
      · exact .single below
      · exact (ih _ listed).tail below

omit [DecidableEq κ] in
theorem grown_after (grown : Grown edge start keys) {before later : List κ} (place : keys = before ++ key :: later) :
    ∃ upper, edge upper key ∧ (upper = start ∨ upper ∈ before) := by
  induction grown generalizing later with
  | begin => simp at place
  | add _ _ below known ih =>
    rcases eq_nil_or_concat later with rfl | ⟨front, last, rfl⟩
    · obtain ⟨rfl, same⟩ := append_inj' place rfl
      obtain rfl := (cons.inj same).1
      exact ⟨_, below, known⟩
    · rw [concat_eq_append, ← cons_append, ← append_assoc] at place
      exact ih (append_inj' place rfl).1

end

end Worklist
