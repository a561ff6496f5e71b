import Mathlib.Data.List.Perm.Lattice
import Mathlib.Data.List.Perm.Subperm

-- A collection of bounded size with one item for a key, brought from an old to a new list of items:
-- what is only old is dropped, then what is only new is added, as long as there is room.
namespace Reconcile

open List

variable {α κ : Type} [DecidableEq κ] (key : α → κ) (capacity : Nat)

def add (items : List α) (item : α) : List α :=
  if key item ∈ items.map key then items.map fun old => if key old = key item then item else old
  else if items.length < capacity then items ++ [item]
  else items

def drop (items : List α) (k : κ) : List α := items.filter fun item => key item ≠ k

def replace [DecidableEq α] (items old new : List α) : List α :=
  (new.filter (· ∉ old)).foldl (add key capacity) (((old.filter (· ∉ new)).map key).foldl (drop key) items)

theorem mem_add_iff {items : List α} (item : α) {found : α} (accepted : key item ∈ items.map key ∨ items.length < capacity) :
    found ∈ add key capacity items item ↔ found = item ∨ found ∈ items ∧ key found ≠ key item := by
  unfold add
  by_cases present : key item ∈ items.map key
  · rw [if_pos present, mem_map]
    constructor
    · rintro ⟨old, listed, same⟩
      split at same
      · exact .inl same.symm
      · rename_i other
        exact .inr (same ▸ ⟨listed, other⟩)
    · rintro (rfl | ⟨listed, other⟩)
      · obtain ⟨old, listed, same⟩ := mem_map.mp present
        exact ⟨old, listed, if_pos same⟩
      · exact ⟨found, listed, if_neg other⟩
  · rw [if_neg present, if_pos (accepted.resolve_left present), mem_append, mem_singleton, or_comm]
    refine or_congr_right ⟨fun listed => ⟨listed, fun same => present (same ▸ mem_map_of_mem listed)⟩, And.left⟩

theorem add_distinct {items : List α} (item : α) (distinct : (items.map key).Nodup) :
    ((add key capacity items item).map key).Nodup := by
  unfold add
  split
  · have same : (items.map fun old => if key old = key item then item else old).map key = items.map key := by
      rw [map_map]
      refine map_congr_left fun old _ => ?_
      rw [Function.comp_apply]
      split
      · rename_i equal
        exact equal.symm
      · rfl
    rw [same]
    exact distinct
  · rename_i fresh
    split
    · rw [map_append]
      exact (perm_append_singleton _ _).nodup_iff.mpr (nodup_cons.mpr ⟨fresh, distinct⟩)
    · exact distinct

theorem adds_fresh {items fresh : List α} (distinct : (fresh.map key).Nodup)
    (apart : ∀ item ∈ fresh, key item ∉ items.map key) :
    fresh.foldl (add key capacity) items = items ++ fresh.take (capacity - items.length) := by
  induction fresh generalizing items with
  | nil => simp
  | cons item rest ih =>
    obtain ⟨new, distinct⟩ := nodup_cons.mp distinct
    have absent := apart item mem_cons_self
    have others (other : α) (mem : other ∈ rest) : key other ∉ items.map key := apart other (mem_cons_of_mem item mem)
    rw [foldl_cons, add, if_neg absent]
    by_cases room : items.length < capacity
    · have later (other : α) (mem : other ∈ rest) : key other ∉ (items ++ [item]).map key := by
        rw [map_append, mem_append, not_or]
        refine ⟨others other mem, fun same => new ?_⟩
        rw [← mem_singleton.mp same]
        exact mem_map_of_mem mem
      have left : capacity - items.length = capacity - (items ++ [item]).length + 1 := by
        rw [length_append, length_singleton]
        omega
      rw [if_pos room, ih distinct later, left, take_succ_cons, append_assoc, singleton_append]
    · rw [if_neg room, ih distinct others, Nat.sub_eq_zero_of_le (Nat.le_of_not_lt room), take_zero, take_zero]

theorem drops_filter (items : List α) (ks : List κ) : ks.foldl (drop key) items = items.filter fun item =>
    key item ∉ ks := by
  induction ks generalizing items with
  | nil => simp
  | cons k rest ih =>
    rw [foldl_cons, ih, drop, filter_filter]
    refine filter_congr fun item _ => ?_
    simp [Bool.and_comm]

theorem mem_add {items} {item found : α} (mem : found ∈ add key capacity items item) : found ∈ items ∨ found = item := by
  unfold add at mem
  split at mem
  · obtain ⟨old, listed, same⟩ := mem_map.mp mem
    split at same
    · exact .inr same.symm
    · exact .inl (same ▸ listed)
  · split at mem
    · exact (mem_append.mp mem).imp id mem_singleton.mp
    · exact .inl mem

variable [DecidableEq α]

theorem mem_replace (items old new : List α) (found : α) (mem : found ∈ replace key capacity items old new) :
    found ∈ items ∨ found ∈ new := by
  have adds (fresh start : List α) (mem : found ∈ fresh.foldl (add key capacity) start) : found ∈ start ∨ found ∈ fresh := by
    induction fresh generalizing start with
    | nil => exact .inl mem
    | cons item rest ih =>
      rcases ih _ mem with early | late
      · rcases mem_add key capacity early with before | same
        · exact .inl before
        · exact .inr (same ▸ mem_cons_self)
      · exact .inr (mem_cons_of_mem item late)
  rcases adds _ _ mem with early | late
  · rw [drops_filter] at early
    exact .inl (mem_of_mem_filter early)
  · exact .inr (mem_of_mem_filter late)

omit [DecidableEq κ] in
theorem kept_perm {old new : List α} (oldDistinct : old.Nodup) (newDistinct : new.Nodup) :
    (old.filter (· ∈ new) ++ new.filter (· ∉ old)).Perm new := by
  refine (perm_ext_iff_of_nodup ?_ newDistinct).mpr fun item => ?_
  · refine (oldDistinct.filter _).append (newDistinct.filter _) fun item one two => ?_
    exact of_decide_eq_true (mem_filter.mp two).2 (mem_filter.mp one).1
  · simp only [mem_append, mem_filter, decide_eq_true_eq]
    by_cases before : item ∈ old
    · simp [before]
    · simp [before]

section

-- The items that are left alone, and the part that is replaced.
variable (items others old new : List α) (split : items.Perm (others ++ old)) (oldKeys : ((others ++ old).map key).Nodup)
  (newKeys : ((others ++ new).map key).Nodup)

include split oldKeys newKeys

theorem replace_perm : (replace key capacity items old new).Perm (others ++ (old.filter (· ∈ new) ++
    (new.filter (· ∉ old)).take (capacity - (others.length + (old.filter (· ∈ new)).length)))) := by
  have uniqueOld := inj_on_of_nodup_map oldKeys
  have uniqueNew := inj_on_of_nodup_map newKeys
  have dropped : (((old.filter (· ∉ new)).map key).foldl (drop key) items).Perm (others ++ old.filter (· ∈ new)) := by
    rw [drops_filter]
    refine (split.filter _).trans ?_
    rw [filter_append]
    have left : others.filter (fun item => key item ∉ (old.filter (· ∉ new)).map key) = others := by
      refine filter_eq_self.mpr fun item mem => decide_eq_true fun gone => ?_
      obtain ⟨other, listed, same⟩ := mem_map.mp gone
      have equal := uniqueOld (mem_append_right others (mem_of_mem_filter listed)) (mem_append_left old mem) same
      rw [map_append, nodup_append] at oldKeys
      exact oldKeys.2.2 _ (mem_map_of_mem mem) _ (mem_map_of_mem (mem_of_mem_filter listed)) (congrArg key equal.symm)
    have right : old.filter (fun item => key item ∉ (old.filter (· ∉ new)).map key) = old.filter (· ∈ new) := by
      refine filter_congr fun item mem => decide_eq_decide.mpr ?_
      constructor
      · intro kept
        by_contra gone
        exact kept (mem_map_of_mem (mem_filter.mpr ⟨mem, decide_eq_true gone⟩))
      · intro kept gone
        obtain ⟨other, listed, same⟩ := mem_map.mp gone
        obtain ⟨before, absent⟩ := mem_filter.mp listed
        have equal := uniqueOld (mem_append_right others before) (mem_append_right others mem) same
        exact of_decide_eq_true absent (equal ▸ kept)
    rw [left, right]
  have fresh (item : α) (mem : item ∈ new.filter (· ∉ old)) :
      key item ∉ (((old.filter (· ∉ new)).map key).foldl (drop key) items).map key := by
    obtain ⟨listed, absent⟩ := mem_filter.mp mem
    intro present
    obtain ⟨other, there, same⟩ := mem_map.mp ((dropped.map key).mem_iff.mp present)
    rcases mem_append.mp there with left | kept
    · rw [map_append, nodup_append] at newKeys
      exact newKeys.2.2 _ (mem_map_of_mem left) _ (mem_map_of_mem listed) same
    · obtain ⟨before, after⟩ := mem_filter.mp kept
      have equal := uniqueNew (mem_append_right others (of_decide_eq_true after)) (mem_append_right others listed) same
      exact of_decide_eq_true absent (equal ▸ before)
  have distinct : ((new.filter (· ∉ old)).map key).Nodup := by
    rw [map_append] at newKeys
    exact newKeys.of_append_right.sublist (filter_sublist.map key)
  rw [replace, adds_fresh key capacity distinct fresh, dropped.length_eq, length_append, ← append_assoc]
  exact dropped.append_right _

theorem replace_fits (room : others.length + new.length ≤ capacity) :
    (replace key capacity items old new).Perm (others ++ new) := by
  have oldDistinct : old.Nodup := oldKeys.of_map.of_append_right
  have newDistinct : new.Nodup := newKeys.of_map.of_append_right
  have kept := kept_perm oldDistinct newDistinct
  have length := kept.length_eq
  rw [length_append] at length
  have whole := replace_perm key capacity items others old new split oldKeys newKeys
  rw [take_of_length_le (by omega)] at whole
  exact whole.trans (kept.append_left others)

theorem replace_lacks (bounded : items.length ≤ capacity) (tight : capacity < others.length + new.length) :
    ∃ item ∈ new, item ∉ replace key capacity items old new := by
  have newDistinct : (others ++ new).Nodup := newKeys.of_map
  have kept := kept_perm oldKeys.of_map.of_append_right newDistinct.of_append_right
  have whole := replace_perm key capacity items others old new split oldKeys newKeys
  by_contra all
  push Not at all
  have within : others ++ new ⊆ replace key capacity items old new := by
    intro item mem
    rcases mem_append.mp mem with left | right
    · exact whole.mem_iff.mpr (mem_append_left _ left)
    · exact all item right
  have longer := (subperm_of_subset newDistinct within).length_le
  have keptLength := kept.length_eq
  have sizes := whole.length_eq
  have start := split.length_eq
  have part := length_filter_le (fun item => decide (item ∈ new)) old
  rw [length_append] at longer keptLength start
  rw [length_append, length_append, length_take] at sizes
  omega

end

end Reconcile
