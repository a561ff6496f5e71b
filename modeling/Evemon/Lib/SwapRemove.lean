import Mathlib.Data.List.Perm.Basic
import Mathlib.Data.List.Nodup

-- Arrays that delete by moving their last element into the hole, and a second array whose slots
-- point into the first one by index.
namespace SwapRemove

open List

variable {α β κ : Type}

def swapRemove (items : List α) (index : Nat) : List α :=
  match items.getLast? with
  | none => []
  | some last => (items.set index last).dropLast

theorem swap_remove_split (front : List α) (item : α) (rest : List α) :
    ∃ moved, swapRemove (front ++ item :: rest) front.length = front ++ moved ∧ moved.Perm rest := by
  rcases eq_nil_or_concat rest with rfl | ⟨init, last, rfl⟩
  · exact ⟨[], by simp [swapRemove], .refl _⟩
  · refine ⟨last :: init, ?_, ?_⟩
    · have whole : front ++ item :: init.concat last = (front ++ item :: init) ++ [last] := by simp
      have replaced : ((front ++ item :: init) ++ [last]).set front.length last = (front ++ last :: init) ++ [last] := by
        simp
      rw [whole, swapRemove, List.getLast?_concat]
      dsimp only
      rw [replaced, dropLast_concat]
    · rw [concat_eq_append]
      exact (perm_append_singleton last init).symm

theorem swap_remove_perm {items : List α} {index : Nat} (item : α) (found : items[index]? = some item) :
    (item :: swapRemove items index).Perm items := by
  obtain ⟨inside, here⟩ := List.getElem?_eq_some_iff.mp found
  have split : items = items.take index ++ item :: items.drop (index + 1) := by
    rw [← here, getElem_cons_drop, take_append_drop]
  obtain ⟨moved, removed, perm⟩ := swap_remove_split (items.take index) item (items.drop (index + 1))
  rw [← split, length_take_of_le (Nat.le_of_lt inside)] at removed
  rw [removed]
  conv => rhs; rw [split]
  exact perm_middle.symm.trans ((perm.cons item).append_left _)

theorem swap_remove_get {items : List α} {index slot : Nat} (kept : slot + 1 < items.length) :
    (swapRemove items index)[slot]? = if slot = index then items[items.length - 1]? else items[slot]? := by
  have some : items ≠ [] := ne_nil_of_length_pos (by omega)
  rw [swapRemove, List.getLast?_eq_some_getLast some]
  dsimp only
  rw [List.getElem?_dropLast, length_set, if_pos (by omega), List.getElem?_set]
  by_cases same : slot = index
  · rw [if_pos same, if_pos same.symm, if_pos (by omega), ← List.getLast?_eq_some_getLast some, List.getLast?_eq_getElem?]
  · rw [if_neg same, if_neg (Ne.symm same)]

theorem map_set_same (key : α → κ) {items : List α} {index : Nat} (item changed : α) (found : items[index]? = some item)
    (same : key changed = key item) : (items.set index changed).map key = items.map key := by
  refine ext_getElem? fun slot => ?_
  rw [List.getElem?_map, List.getElem?_map, List.getElem?_set]
  split
  · rename_i here
    rw [← here, found]
    split
    · exact congrArg some same
    · rename_i outside
      exact absurd (List.getElem?_eq_some_iff.mp found).1 outside
  · rfl

theorem search_none [DecidableEq κ] (key : α → κ) {items : List α} (k : κ) :
    items.findIdx? (fun item => key item = k) = none ↔ k ∉ items.map key := by
  rw [List.findIdx?_eq_none_iff, mem_map]
  constructor
  · intro none found
    obtain ⟨item, mem, same⟩ := found
    exact of_decide_eq_false (none item mem) same
  · intro absent item mem
    exact decide_eq_false fun same => absent ⟨item, mem, same⟩

section

structure Tracks (key : α → κ) (items : List α) (slotKey : β → κ) (slotIndex : β → Nat) (slots : List β) : Prop where
  found : ∀ slot ∈ slots, ∃ item, items[slotIndex slot]? = some item ∧ key item = slotKey slot
  distinct : (slots.map slotKey).Nodup

variable {key : α → κ} (items : List α) {slotKey : β → κ} (slotIndex : β → Nat) (slots : List β)

theorem tracks_nil : Tracks key items slotKey slotIndex [] := ⟨by simp, nodup_nil⟩

theorem tracks_congr {others : List α} (same : others.map key = items.map key)
    (tracks : Tracks key items slotKey slotIndex slots) : Tracks key others slotKey slotIndex slots := by
  refine ⟨fun slot mem => ?_, tracks.distinct⟩
  obtain ⟨item, found, equal⟩ := tracks.found slot mem
  have kept : (others.map key)[slotIndex slot]? = some (key item) := by rw [same, List.getElem?_map, found]; rfl
  rw [List.getElem?_map, Option.map_eq_some_iff] at kept
  obtain ⟨other, there, keyed⟩ := kept
  exact ⟨other, there, keyed.trans equal⟩

theorem tracks_append (item : α) (tracks : Tracks key items slotKey slotIndex slots) :
    Tracks key (items ++ [item]) slotKey slotIndex slots := by
  refine ⟨fun slot mem => ?_, tracks.distinct⟩
  obtain ⟨other, found, equal⟩ := tracks.found slot mem
  obtain ⟨inside, -⟩ := List.getElem?_eq_some_iff.mp found
  exact ⟨other, (List.getElem?_append_left inside).trans found, equal⟩

theorem tracks_append_slot {slot : β} (item : α) (found : items[slotIndex slot]? = some item)
    (equal : key item = slotKey slot)
    (fresh : slotKey slot ∉ slots.map slotKey) (tracks : Tracks key items slotKey slotIndex slots) :
    Tracks key items slotKey slotIndex (slots ++ [slot]) := by
  refine ⟨fun other mem => ?_, ?_⟩
  · rcases mem_append.mp mem with old | _ | ⟨_, ⟨⟩⟩
    · exact tracks.found other old
    · exact ⟨item, found, equal⟩
  · rw [map_append]
    exact ((perm_append_singleton _ _).nodup_iff).mpr (nodup_cons.mpr ⟨fresh, tracks.distinct⟩)

theorem tracks_indices (tracks : Tracks key items slotKey slotIndex slots) : (slots.map slotIndex).Nodup := by
  refine List.Nodup.map_on (fun one first two second same => ?_) tracks.distinct.of_map
  obtain ⟨item, found, equal⟩ := tracks.found one first
  obtain ⟨other, there, keyed⟩ := tracks.found two second
  rw [same, there] at found
  cases found
  exact inj_on_of_nodup_map tracks.distinct first second (equal.symm.trans keyed)

variable (move : β → Nat → β)

def relocate (index last : Nat) (slot : β) : β := if slotIndex slot = last then move slot index else slot

theorem tracks_swap_remove [DecidableEq κ] (keyKept : ∀ slot index, slotKey (move slot index) = slotKey slot)
    (indexMoved : ∀ slot index, slotIndex (move slot index) = index) (index : Nat) (item : α)
    (found : items[index]? = some item) {left : List β}
    (perm : left.Perm ((slots.filter fun slot => slotKey slot ≠ key item).map
    (relocate slotIndex move index (items.length - 1)))) (tracks : Tracks key items slotKey slotIndex slots) :
    Tracks key (swapRemove items index) slotKey slotIndex left := by
  have sameKey (slot : β) : slotKey (relocate slotIndex move index (items.length - 1) slot) = slotKey slot := by
    unfold relocate
    split
    · exact keyKept slot index
    · rfl
  obtain ⟨inside, -⟩ := List.getElem?_eq_some_iff.mp found
  refine ⟨fun slot mem => ?_, ?_⟩
  · obtain ⟨before, kept, rfl⟩ := mem_map.mp (perm.mem_iff.mp mem)
    obtain ⟨old, other⟩ := mem_filter.mp kept
    obtain ⟨target, there, keyed⟩ := tracks.found before old
    obtain ⟨within, -⟩ := List.getElem?_eq_some_iff.mp there
    have elsewhere : slotIndex before ≠ index := by
      intro same
      rw [same, found] at there
      cases there
      exact of_decide_eq_true other keyed.symm
    refine ⟨target, ?_, keyed.trans (sameKey before).symm⟩
    by_cases last : slotIndex before = items.length - 1
    · rw [relocate, if_pos last, indexMoved, swap_remove_get (by omega), if_pos rfl, ← last, there]
    · rw [relocate, if_neg last, swap_remove_get (by omega), if_neg elsewhere, there]
  · refine ((perm.map slotKey).nodup_iff).mpr ?_
    rw [map_map, show slotKey ∘ relocate slotIndex move index (items.length - 1) = slotKey from funext sameKey]
    exact tracks.distinct.sublist (filter_sublist.map slotKey)

end

end SwapRemove
