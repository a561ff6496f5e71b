import Mathlib.Data.List.Nodup

-- A table of key/value pairs of fixed capacity. A present key is overwritten in place, a new one is
-- appended while there is room, and removal moves the last pair into the hole.
structure SwapTable (κ ν : Type) (capacity : Nat) where
  entries : List (κ × ν)
  bounded : entries.length ≤ capacity
  distinct : (entries.map Prod.fst).Nodup

namespace SwapTable

open List Option

variable {κ ν : Type} {capacity : Nat} [DecidableEq κ]

def empty : SwapTable κ ν capacity := ⟨[], Nat.zero_le _, List.nodup_nil⟩

def keys (table : SwapTable κ ν capacity) : List κ := table.entries.map Prod.fst

def find (key : κ) (table : SwapTable κ ν capacity) : Option ν :=
  (table.entries.find? fun entry => entry.1 = key).map Prod.snd

def overwrite (key : κ) (value : ν) : List (κ × ν) → Option (List (κ × ν))
  | [] => none
  | entry :: rest =>
    if entry.1 = key then some ((key, value) :: rest) else (overwrite key value rest).map (entry :: ·)

def swapOut (key : κ) : List (κ × ν) → List (κ × ν)
  | [] => []
  | entry :: rest =>
    if entry.1 = key then
      match rest.getLast? with
      | none => []
      | some last => last :: rest.dropLast
    else entry :: swapOut key rest

variable (key : κ) (value : ν) (table : SwapTable κ ν capacity) (entries : List (κ × ν))

theorem overwrite_keys {entries} (updated : List (κ × ν))
    (found : overwrite key value entries = some updated) : updated.map Prod.fst = entries.map Prod.fst := by
  induction entries generalizing updated with
  | nil => simp [overwrite] at found
  | cons entry rest ih =>
    by_cases here : entry.1 = key
    · simp only [overwrite, here, if_true, Option.some.injEq] at found
      simp [← found, here]
    · simp only [overwrite, here, if_false, map_eq_some_iff] at found
      obtain ⟨tail, later, rfl⟩ := found
      simp [ih tail later]

theorem overwrite_none : overwrite key value entries = none ↔ key ∉ entries.map Prod.fst := by
  induction entries with
  | nil => simp [overwrite]
  | cons entry rest ih =>
    by_cases here : entry.1 = key
    · simp [overwrite, here]
    · have other : ¬ key = entry.1 := fun equal => here equal.symm
      simp only [overwrite, here, if_false, map_eq_none_iff, ih, map_cons, mem_cons, other, false_or]

theorem swap_out_perm : (swapOut key entries).Perm (entries.eraseP fun entry => entry.1 = key) := by
  induction entries with
  | nil => exact .refl _
  | cons entry rest ih =>
    by_cases here : entry.1 = key
    · simp only [swapOut, here, if_true, eraseP_cons_of_pos, decide_true]
      cases atEnd : rest.getLast? with
      | none => rw [List.getLast?_eq_none_iff.mp atEnd]
      | some last =>
        obtain ⟨front, rfl⟩ := List.getLast?_eq_some_iff.mp atEnd
        simpa using (perm_append_singleton last front).symm
    · simpa [swapOut, here] using ih

theorem swap_out_sublist : ((entries.eraseP fun entry => entry.1 = key).map Prod.fst).Sublist (entries.map Prod.fst) :=
  eraseP_sublist.map Prod.fst

def store (key : κ) (value : ν) (table : SwapTable κ ν capacity) : Option (SwapTable κ ν capacity) :=
  match present : overwrite key value table.entries with
  | some updated =>
    have same := overwrite_keys key value updated present
    some ⟨updated, by
      have length := congrArg List.length same
      simp only [List.length_map] at length
      exact length ▸ table.bounded, same ▸ table.distinct⟩
  | none =>
    if room : table.entries.length < capacity then
      some ⟨table.entries ++ [(key, value)], by simpa [Nat.succ_le_iff] using room, by
        have absent := (overwrite_none key value table.entries).mp present
        rw [List.map_append]
        exact List.nodup_append.mpr ⟨table.distinct, List.nodup_singleton _, fun a member b single => by
          simp only [List.map_cons, List.map_nil, List.mem_singleton] at single
          rintro rfl
          exact absent (single ▸ member)⟩⟩
    else none

def remove (key : κ) (table : SwapTable κ ν capacity) : SwapTable κ ν capacity where
  entries := swapOut key table.entries
  bounded := by
    rw [(swap_out_perm key table.entries).length_eq]
    exact Nat.le_trans List.eraseP_sublist.length_le table.bounded
  distinct :=
    ((swap_out_perm key table.entries).map Prod.fst).nodup_iff.mpr
      (table.distinct.sublist (swap_out_sublist key table.entries))

theorem find_eq_some : table.find key = some value ↔ (key, value) ∈ table.entries := by
  obtain ⟨entries, bounded, distinct⟩ := table
  simp only [find]
  clear bounded
  induction entries with
  | nil => simp
  | cons entry rest ih =>
    obtain ⟨fresh, later⟩ := nodup_cons.mp distinct
    obtain ⟨first, stored⟩ := entry
    by_cases here : first = key
    · subst here
      have elsewhere : (first, value) ∉ rest := fun mem => fresh (mem_map.mpr ⟨_, mem, rfl⟩)
      simp [elsewhere, eq_comm]
    · have other : ¬ key = first := fun equal => here equal.symm
      simp only [List.find?_cons, here, decide_false, ih later, mem_cons, Prod.mk.injEq, other, false_and, false_or]

theorem mem_keys : key ∈ table.keys ↔ ∃ value, table.find key = some value := by
  simp [keys, find_eq_some]

theorem find_eq_none : table.find key = none ↔ key ∉ table.keys := by
  rw [mem_keys, eq_none_iff_forall_ne_some, not_exists]

theorem mem_overwrite {entries : List (κ × ν)} (updated : List (κ × ν))
    (distinct : (entries.map Prod.fst).Nodup) (found : overwrite key value entries = some updated)
    (pair : κ × ν) : pair ∈ updated ↔ pair = (key, value) ∨ pair ∈ entries ∧ pair.1 ≠ key := by
  induction entries generalizing updated with
  | nil => simp [overwrite] at found
  | cons entry rest ih =>
    obtain ⟨fresh, later⟩ := nodup_cons.mp distinct
    by_cases here : entry.1 = key
    · simp only [overwrite, here, if_true, Option.some.injEq] at found
      have elsewhere : pair ∈ rest → pair.1 ≠ key := fun mem equal =>
        fresh (here ▸ equal ▸ mem_map_of_mem (f := Prod.fst) mem)
      rw [← found, mem_cons, mem_cons]
      constructor
      · rintro (isNew | mem)
        · exact .inl isNew
        · exact .inr ⟨.inr mem, elsewhere mem⟩
      · rintro (isNew | ⟨rfl | mem, other⟩)
        · exact .inl isNew
        · exact absurd here other
        · exact .inr mem
    · simp only [overwrite, here, if_false, map_eq_some_iff] at found
      obtain ⟨tail, stored, rfl⟩ := found
      rw [mem_cons, mem_cons, ih tail later stored]
      constructor
      · rintro (rfl | isNew | ⟨mem, other⟩)
        · exact .inr ⟨.inl rfl, here⟩
        · exact .inl isNew
        · exact .inr ⟨.inr mem, other⟩
      · rintro (isNew | ⟨rfl | mem, other⟩)
        · exact .inr (.inl isNew)
        · exact .inl rfl
        · exact .inr (.inr ⟨mem, other⟩)

theorem store_find {key} (other : κ) {value} {table stored : SwapTable κ ν capacity}
    (done : table.store key value = some stored) :
    stored.find other = if other = key then some value else table.find other := by
  have members (pair : κ × ν) : pair ∈ stored.entries ↔ pair = (key, value) ∨ pair ∈ table.entries ∧ pair.1 ≠ key := by
    unfold store at done
    split at done
    · rename_i updated present
      cases done
      exact mem_overwrite key value updated table.distinct present pair
    · rename_i absent
      split at done
      · cases done
        have fresh := (overwrite_none key value table.entries).mp absent
        have elsewhere : pair ∈ table.entries → pair.1 ≠ key := fun mem equal =>
          fresh (equal ▸ mem_map_of_mem (f := Prod.fst) mem)
        simp only [mem_append, mem_singleton]
        tauto
      · cases done
  ext found
  rw [find_eq_some, members]
  by_cases same : other = key
  · simp [same, eq_comm]
  · simp [same, find_eq_some]

theorem store_succeeds
    (room : key ∈ table.keys ∨ table.entries.length < capacity) : ∃ stored, table.store key value = some stored := by
  unfold store
  split
  · exact ⟨_, rfl⟩
  · rename_i absent
    have fresh := (overwrite_none key value table.entries).mp absent
    have below : table.entries.length < capacity := room.resolve_left fresh
    exact ⟨_, dif_pos below⟩

theorem store_refuses (absent : key ∉ table.keys)
    (full : capacity ≤ table.entries.length) : table.store key value = none := by
  unfold store
  split
  · rename_i present
    have none := (overwrite_none key value table.entries).mpr absent
    rw [none] at present
    cases present
  · exact dif_neg (Nat.not_lt.mpr full)

theorem erased_key_absent (distinct : (entries.map Prod.fst).Nodup) :
    key ∉ (entries.eraseP fun entry => entry.1 = key).map Prod.fst := by
  induction entries with
  | nil => simp
  | cons entry rest ih =>
    obtain ⟨fresh, later⟩ := nodup_cons.mp distinct
    by_cases here : entry.1 = key
    · rw [eraseP_cons_of_pos (by simpa using here)]
      exact here ▸ fresh
    · have other : ¬ key = entry.1 := fun equal => here equal.symm
      rw [eraseP_cons_of_neg (by simpa using here), map_cons, mem_cons]
      exact not_or.mpr ⟨other, ih later⟩

theorem remove_find (key other : κ) (table : SwapTable κ ν capacity) :
    (table.remove key).find other = if other = key then none else table.find other := by
  have perm := swap_out_perm key table.entries
  by_cases same : other = key
  · rw [if_pos same, find_eq_none, same]
    exact fun present => erased_key_absent key table.entries table.distinct ((perm.map Prod.fst).mem_iff.mp present)
  · rw [if_neg same]
    ext value
    rw [find_eq_some, find_eq_some]
    refine perm.mem_iff.trans ?_
    exact mem_eraseP_of_neg (by simpa using same)

end SwapTable
