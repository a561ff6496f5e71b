import Mathlib.Data.List.Basic

-- A ring that overwrites its oldest entry, against the log of everything that was pushed, and
-- readers that pick entries of the log by position.
namespace RingLog

open List

variable {α : Type} {capacity : Nat}

def Retains (ring : Fin capacity → α) (log : List α) : Prop :=
  ∀ (slot : Fin capacity) (index : Nat) (recorded : index < log.length), log.length ≤ index + capacity →
    slot.val = index % capacity → ring slot = log[index]

variable {ring : Fin capacity → α}

theorem retains_nil : Retains ring [] := by
  intro slot index recorded
  cases recorded

variable {log : List α}

theorem retains_push (retains : Retains ring log) {slot : Fin capacity} (value : α)
    (next : slot.val = log.length % capacity) : Retains (Function.update ring slot value) (log ++ [value]) := by
  intro other index recorded recent same
  rw [length_append, length_singleton] at recorded recent
  by_cases newest : index = log.length
  · subst newest
    rw [Fin.ext (same.trans next.symm), Function.update_self, getElem_concat_length rfl]
  · have inside : index < log.length := by omega
    have different : other ≠ slot := by
      intro equal
      -- Fewer than `capacity` entries lie between the two, so they are in different slots.
      have collide : index % capacity = log.length % capacity := by rw [← same, equal, next]
      have close : log.length - index < capacity := by omega
      have whole := Nat.sub_mod_eq_zero_of_mod_eq collide.symm
      rw [Nat.mod_eq_of_lt close] at whole
      omega
    rw [Function.update_of_ne different, retains other index inside (by omega) same, getElem_append_left inside]

def Picks (log : List α) (low high : Nat) (picked : List α) : Prop :=
  ∃ positions : List Nat, positions.Pairwise (· < ·) ∧ (∀ position ∈ positions, low ≤ position ∧ position < high) ∧
    positions.map (log[·]?) = picked.map some

theorem picks_nil {log : List α} {low high : Nat} : Picks log low high [] :=
  ⟨[], .nil, by simp, rfl⟩

variable {low high : Nat} {picked : List α}

theorem Picks.log_append (picks : Picks log low high picked) (bounded : high ≤ log.length) (more : List α) :
    Picks (log ++ more) low high picked := by
  obtain ⟨positions, increasing, between, same⟩ := picks
  refine ⟨positions, increasing, between, ?_⟩
  rw [← same]
  apply map_congr_left
  intro position mem
  have inside := (between position mem).2
  exact List.getElem?_append_left (by omega)

theorem Picks.segment {first last : Nat} (picks : Picks log low high picked) (start : low ≤ high) (after : high ≤ first)
    (ordered : first ≤ last) (bounded : last ≤ log.length) :
    Picks log low last (picked ++ (log.drop first).take (last - first)) := by
  obtain ⟨positions, increasing, between, same⟩ := picks
  refine ⟨positions ++ List.range' first (last - first), ?_, ?_, ?_⟩
  · refine pairwise_append.mpr ⟨increasing, pairwise_lt_range', fun earlier old later new => ?_⟩
    have before := (between earlier old).2
    have behind := (mem_range'_1.mp new).1
    omega
  · intro position mem
    rcases mem_append.mp mem with old | new
    · have inside := between position old
      omega
    · have inside := mem_range'_1.mp new
      omega
  · rw [map_append, same, map_append]
    congr 1
    apply ext_getElem?
    intro index
    rw [List.getElem?_map, List.getElem?_map, List.getElem?_take]
    by_cases within : index < last - first
    · rw [if_pos within, List.getElem?_range' within, List.getElem?_drop]
      have recorded : first + index < log.length := by omega
      simp [List.getElem?_eq_getElem recorded]
    · rw [if_neg within]
      simp [within]

end RingLog
