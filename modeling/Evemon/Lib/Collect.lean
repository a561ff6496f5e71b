import Mathlib.Data.List.Induction
import Mathlib.Data.List.Nodup

-- Collecting a list into one item for each key: the first item with a key opens an entry, and the
-- later ones are joined into it where it stands.
namespace Collect

open List

variable {α κ : Type}

def absorb (same : α → α → Bool) (join : α → α → α) (item : α) : List α → List α
  | [] => [item]
  | head :: tail => if same head item then join head item :: tail else head :: absorb same join item tail

def collect (same : α → α → Bool) (join : α → α → α) (items : List α) : List α :=
  items.foldl (fun entries item => absorb same join item entries) []

def leads [DecidableEq κ] (first second : κ) : List κ → Bool
  | [] => false
  | head :: tail => if head = first then true else if head = second then false else leads first second tail

section

variable [DecidableEq κ] {same : α → α → Bool} {join : α → α → α} {key : α → κ}

theorem collect_append (items : List α) (item : α) :
    collect same join (items ++ [item]) = absorb same join item (collect same join items) := by
  simp only [collect, foldl_append, foldl_cons, foldl_nil]

variable {holds : α → Prop}

theorem absorb_all (joined : ∀ a b, same a b → holds a → holds b → holds (join a b)) {item} {entries : List α}
    (atItem : holds item) (atEntries : ∀ entry ∈ entries, holds entry) :
    ∀ entry ∈ absorb same join item entries, holds entry := by
  induction entries with
  | nil => simpa only [absorb, mem_singleton, forall_eq] using atItem
  | cons head tail ih =>
    obtain ⟨atHead, atTail⟩ := forall_mem_cons.mp atEntries
    by_cases present : same head item
    · rw [absorb, if_pos present]
      exact forall_mem_cons.mpr ⟨joined head item present atHead atItem, atTail⟩
    · rw [absorb, if_neg present]
      exact forall_mem_cons.mpr ⟨atHead, ih atTail⟩

theorem collect_all (joined : ∀ a b, same a b → holds a → holds b → holds (join a b)) {items : List α}
    (atItems : ∀ item ∈ items, holds item) : ∀ entry ∈ collect same join items, holds entry := by
  induction items using List.reverseRecOn with
  | nil => simp [collect]
  | append_singleton items item ih =>
    rw [collect_append]
    refine absorb_all joined (atItems item (by simp)) (ih fun earlier mem => ?_)
    exact atItems earlier (mem_append_left _ mem)

variable (keyed : ∀ a b, same a b = true ↔ key a = key b) (stable : ∀ a b, key a = key b → key (join a b) = key a)

include keyed stable

theorem absorb_keys (item : α) (entries : List α) : (absorb same join item entries).map key =
    if key item ∈ entries.map key then entries.map key else entries.map key ++ [key item] := by
  induction entries with
  | nil => simp [absorb]
  | cons head tail ih =>
    by_cases present : key head = key item
    · simp [absorb, (keyed head item).mpr present, stable head item present, present]
    · have absent : same head item = false := Bool.eq_false_iff.mpr fun found => present ((keyed _ _).mp found)
      have other : ¬ key item = key head := fun equal => present equal.symm
      simp only [absorb, absent, Bool.false_eq_true, if_false, map_cons, ih, mem_cons, other, false_or]
      split <;> simp

theorem collect_keys_append (items : List α) (item : α) : (collect same join (items ++ [item])).map key =
    if key item ∈ (collect same join items).map key then (collect same join items).map key
    else (collect same join items).map key ++ [key item] := by
  rw [collect_append, absorb_keys keyed stable]

theorem collect_keys_nodup (items : List α) : ((collect same join items).map key).Nodup := by
  induction items using List.reverseRecOn with
  | nil => simp [collect]
  | append_singleton items item ih =>
    rw [collect_keys_append keyed stable]
    split
    · exact ih
    · rename_i fresh
      exact ih.append (nodup_singleton _) (disjoint_singleton.mpr fresh)

theorem mem_collect_keys (items : List α) (wanted : κ) :
    wanted ∈ (collect same join items).map key ↔ wanted ∈ items.map key := by
  induction items using List.reverseRecOn with
  | nil => simp [collect]
  | append_singleton items item ih =>
    rw [collect_keys_append keyed stable, map_append, mem_append, ← ih]
    split
    · rename_i present
      constructor
      · exact .inl
      · rintro (old | new)
        · exact old
        · simp only [map_cons, map_nil, mem_singleton] at new
          exact new ▸ present
    · simp

variable {bit : α → Bool} {wanted : κ}

theorem exists_absorb (collects : ∀ a b, key a = wanted → key b = wanted → bit (join a b) = (bit a || bit b)) (item : α)
    (entries : List α) : (∃ entry ∈ absorb same join item entries, key entry = wanted ∧ bit entry) ↔
    (∃ entry ∈ entries, key entry = wanted ∧ bit entry) ∨ (key item = wanted ∧ bit item) := by
  induction entries with
  | nil => simp [absorb]
  | cons head tail ih =>
    by_cases present : key head = key item
    · have found := (keyed head item).mpr present
      simp only [absorb, found, if_true, exists_mem_cons_iff, stable head item present]
      by_cases here : key head = wanted
      · rw [collects head item here (present ▸ here), Bool.or_eq_true]
        simp only [here, present ▸ here, true_and]
        exact or_right_comm
      · simp only [here, present ▸ here, false_and, false_or, or_false]
    · have absent : same head item = false := Bool.eq_false_iff.mpr fun equal => present ((keyed _ _).mp equal)
      simp only [absorb, absent, Bool.false_eq_true, if_false, exists_mem_cons_iff, ih]
      exact or_assoc.symm

theorem exists_collect (collects : ∀ a b, key a = wanted → key b = wanted → bit (join a b) = (bit a || bit b))
    (items : List α) : (∃ entry ∈ collect same join items, key entry = wanted ∧ bit entry) ↔
    ∃ item ∈ items, key item = wanted ∧ bit item := by
  induction items using List.reverseRecOn with
  | nil => simp [collect]
  | append_singleton items item ih =>
    rw [collect_append, exists_absorb keyed stable collects, ih]
    simp only [mem_append, mem_singleton, or_and_right, exists_or, exists_eq_left]

omit keyed stable in
theorem leads_append {first second} {items : List κ} (later : List κ) : leads first second (items ++ later) =
    if first ∈ items ∨ second ∈ items then leads first second items else leads first second later := by
  induction items with
  | nil => simp
  | cons head tail ih =>
    by_cases atFirst : head = first
    · simp [leads, atFirst]
    · by_cases atSecond : head = second
      · simp [leads, atSecond]
      · have notFirst : ¬ first = head := fun equal => atFirst equal.symm
        have notSecond : ¬ second = head := fun equal => atSecond equal.symm
        simp only [cons_append, leads, atFirst, atSecond, if_false, ih, mem_cons, notFirst, notSecond, false_or]

omit keyed stable in
theorem leads_mem {first second} (items : List κ) (ahead : leads first second items) : first ∈ items := by
  induction items with
  | nil => simp [leads] at ahead
  | cons head tail ih =>
    by_cases atFirst : head = first
    · simp [atFirst]
    · by_cases atSecond : head = second
      · rw [leads, if_neg atFirst, if_pos atSecond] at ahead
        cases ahead
      · simp only [leads, atFirst, atSecond, if_false] at ahead
        exact mem_cons_of_mem head (ih ahead)

omit keyed stable in
theorem leads_of_absent (first second : κ) (items : List κ) (present : first ∈ items)
    (absent : second ∉ items) : leads first second items := by
  induction items with
  | nil => simp at present
  | cons head tail ih =>
    by_cases here : head = first
    · rw [leads, if_pos here]
    · obtain ⟨other, later⟩ := not_or.mp (fun mem => absent (mem_cons.mpr mem))
      rw [leads, if_neg here, if_neg (fun equal => other equal.symm)]
      exact ih ((mem_cons.mp present).resolve_left fun equal => here equal.symm) later

theorem leads_collect (first second : κ) (items : List α) :
    leads first second ((collect same join items).map key) = leads first second (items.map key) := by
  induction items using List.reverseRecOn with
  | nil => simp [collect]
  | append_singleton items item ih =>
    have members := mem_collect_keys keyed stable items
    rw [collect_keys_append keyed stable, map_append, leads_append]
    by_cases present : key item ∈ (collect same join items).map key
    · rw [if_pos present, ih]
      by_cases settled : first ∈ items.map key ∨ second ∈ items.map key
      · rw [if_pos settled]
      · rw [if_neg settled]
        have seen := (members (key item)).mp present
        have notFirst : key item ≠ first := fun equal => settled (.inl (equal ▸ seen))
        have notSecond : key item ≠ second := fun equal => settled (.inr (equal ▸ seen))
        have absent : leads first second (items.map key) = false :=
          Bool.eq_false_iff.mpr fun ahead => settled (.inl (leads_mem _ ahead))
        simp [leads, notFirst, notSecond, absent]
    · rw [if_neg present, leads_append]
      simp only [members, ih, map_cons, map_nil]

end

end Collect
