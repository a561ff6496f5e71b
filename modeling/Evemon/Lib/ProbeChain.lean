import Mathlib.Data.Fintype.Card
import Mathlib.Data.Nat.ModEq
import Evemon.Lib.ProbeTable

-- Where linear probing finds what it stored, as long as no slot is ever emptied.
namespace ProbeTable

open List Function Nat Option Finset

variable {size : Nat} {κ ν : Type}

def advance (slot : Fin size) (steps : Nat) : Fin size :=
  ⟨(slot.val + steps) % size, Nat.mod_lt _ (Nat.zero_lt_of_lt slot.isLt)⟩

theorem advance_zero (slot : Fin size) : advance slot 0 = slot := Fin.ext (mod_eq_of_lt slot.isLt)

theorem advance_following (slot : Fin size) (steps : Nat) : advance (following slot) steps = advance slot (steps + 1) := by
  apply Fin.ext
  simp only [advance, following]
  rw [mod_add_mod]
  congr 1
  omega

theorem advance_injective {slot : Fin size} {first second : Nat} (left : first < size) (right : second < size)
    (same : advance slot first = advance slot second) : first = second := by
  have equal : (slot.val + first) % size = (slot.val + second) % size := congrArg Fin.val same
  have congruent : Nat.ModEq size first second := Nat.ModEq.add_left_cancel' slot.val equal
  exact congruent.eq_of_lt_of_lt left right

theorem advance_onto (slot target : Fin size) : ∃ steps, steps < size ∧ advance slot steps = target := by
  have positive := zero_lt_of_lt slot.isLt
  refine ⟨(target.val + (size - slot.val)) % size, mod_lt _ positive, Fin.ext ?_⟩
  have around : slot.val + (target.val + (size - slot.val)) = target.val + size := by
    have inside := slot.isLt
    omega
  simp only [advance]
  rw [add_mod_mod, around, add_mod_right, mod_eq_of_lt target.isLt]

section

def halts (stops : κ → Bool) (entry : Option (κ × ν)) : Bool := entry.all fun held => stops held.1

variable (table : Table size κ ν) (stops : κ → Bool)

variable (fuel : Nat) (slot : Fin size)

theorem probe_succ : probe table stops (fuel + 1) slot =
    if halts stops (table slot) then some slot else probe table stops fuel (following slot) := by
  rw [probe]
  cases table slot with
  | none => rfl
  | some entry => rfl

theorem probe_free (free : table slot = none) : probe table stops (fuel + 1) slot = some slot := by
  rw [probe, free]

theorem probe_eq_some_iff {slot found} : probe table stops fuel slot = some found ↔
    ∃ steps, steps < fuel ∧ found = advance slot steps ∧ halts stops (table found) ∧
    ∀ earlier, earlier < steps → halts stops (table (advance slot earlier)) = false := by
  induction fuel generalizing slot with
  | zero => simp [probe]
  | succ fuel ih =>
    rw [probe_succ]
    by_cases here : halts stops (table slot)
    · rw [if_pos here]
      constructor
      · intro same
        obtain rfl := Option.some.inj same
        exact ⟨0, zero_lt_succ fuel, (advance_zero slot).symm, here, fun earlier below => by omega⟩
      · rintro ⟨steps, -, rfl, -, passed⟩
        cases steps with
        | zero => rw [advance_zero]
        | succ steps =>
          have clash := passed 0 (zero_lt_succ steps)
          rw [advance_zero, here] at clash
          cases clash
    · rw [if_neg here, ih]
      constructor
      · rintro ⟨steps, bounded, rfl, halted, passed⟩
        refine ⟨steps + 1, by omega, advance_following slot steps, halted, fun earlier below => ?_⟩
        cases earlier with
        | zero => rw [advance_zero, eq_false_of_ne_true here]
        | succ earlier =>
          rw [← advance_following]
          exact passed earlier (by omega)
      · rintro ⟨steps, bounded, rfl, halted, passed⟩
        cases steps with
        | zero => exact absurd (advance_zero slot ▸ halted) here
        | succ steps =>
          refine ⟨steps, by omega, (advance_following slot steps).symm, halted, fun earlier below => ?_⟩
          rw [advance_following]
          exact passed (earlier + 1) (by omega)

theorem probe_isSome (steps : Nat) (bounded : steps < fuel)
    (halted : halts stops (table (advance slot steps))) : (probe table stops fuel slot).isSome := by
  induction fuel generalizing slot steps with
  | zero => omega
  | succ fuel ih =>
    rw [probe_succ]
    split
    · rfl
    · rename_i here
      cases steps with
      | zero => exact absurd (advance_zero slot ▸ halted) here
      | succ steps => exact ih _ steps (by omega) (advance_following slot steps ▸ halted)

theorem probe_finds (slot target : Fin size) (halted : halts stops (table target)) :
    ∃ found, probe table stops size slot = some found := by
  obtain ⟨steps, bounded, rfl⟩ := advance_onto slot target
  exact isSome_iff_exists.mp (probe_isSome table stops size slot steps bounded halted)

end

section

variable (home : κ → Fin size)

def Chained (table : Table size κ ν) : Prop :=
  ∀ slot key value, table slot = some (key, value) →
    ∃ steps, steps < size ∧ slot = advance (home key) steps ∧
      ∀ earlier, earlier < steps → (table (advance (home key) earlier)).isSome = true

def Unique (table : Table size κ ν) : Prop :=
  ∀ slot other key value more, table slot = some (key, value) → table other = some (key, more) → slot = other

def Held (table : Table size κ ν) (key : κ) (value : ν) : Prop := ∃ slot, table slot = some (key, value)

theorem empty_chained : Chained home (empty : Table size κ ν) := by
  intro slot key value filled
  cases filled

theorem empty_unique : Unique (empty : Table size κ ν) := by
  intro slot other key value more filled
  cases filled

theorem not_held_empty (key : κ) (value : ν) : ¬ Held (empty : Table size κ ν) key value := by
  rintro ⟨slot, filled⟩
  cases filled

theorem update_unique {table} {slot : Fin size} {key : κ} {value : ν} (unique : Unique table)
    (alone : ∀ place held, table place = some (key, held) → place = slot) :
    Unique (update table slot (some (key, value))) := by
  intro place other shared first second held also
  by_cases here : place = slot
  · by_cases there : other = slot
    · rw [here, there]
    · rw [here, update_self] at held
      rw [update_of_ne there] at also
      obtain ⟨rfl, -⟩ := Prod.mk.inj (Option.some.inj held)
      exact absurd (alone other second also) there
  · rw [update_of_ne here] at held
    by_cases there : other = slot
    · rw [there, update_self] at also
      obtain ⟨rfl, -⟩ := Prod.mk.inj (Option.some.inj also)
      exact absurd (alone place first held) here
    · rw [update_of_ne there] at also
      exact unique place other shared first second held also

theorem update_chained {table} {stops : κ → Bool} {key} (value : ν) {found}
    (chained : Chained home table) (probed : probe table stops size (home key) = some found) :
    Chained home (update table found (some (key, value))) := by
  have filled (slot : Fin size) (before : (table slot).isSome) : (update table found (some (key, value)) slot).isSome := by
    by_cases same : slot = found
    · rw [same, update_self]
      rfl
    · rwa [update_of_ne same]
  intro slot other held present
  by_cases same : slot = found
  · subst same
    rw [update_self] at present
    obtain ⟨rfl, rfl⟩ := Prod.mk.inj (Option.some.inj present)
    obtain ⟨steps, bounded, rfl, -, passed⟩ := (probe_eq_some_iff table stops size).mp probed
    refine ⟨steps, bounded, rfl, fun earlier below => filled _ ?_⟩
    have occupied := passed earlier below
    cases entry : table (advance (home key) earlier) with
    | none => rw [entry] at occupied; cases occupied
    | some pair => rfl
  · rw [update_of_ne same] at present
    obtain ⟨steps, bounded, rfl, passed⟩ := chained slot other held present
    exact ⟨steps, bounded, rfl, fun earlier below => filled _ (passed earlier below)⟩

section

variable [DecidableEq κ]

variable {table : Table size κ ν}

theorem locate_held {slot : Fin size} {key : κ} {value : ν} (chained : Chained home table)
    (unique : Unique table) (present : table slot = some (key, value)) : locate home table key = some slot := by
  obtain ⟨steps, bounded, rfl, passed⟩ := chained slot key value present
  refine (probe_eq_some_iff table _ size).mpr ⟨steps, bounded, rfl, by simp [halts, present], fun earlier below => ?_⟩
  obtain ⟨⟨other, held⟩, entry⟩ := isSome_iff_exists.mp (passed earlier below)
  rw [entry]
  by_cases same : other = key
  · subst same
    have equal := unique _ _ other held value entry present
    have clash := advance_injective (by omega) bounded equal
    omega
  · simp [halts, same]

theorem locate_entry {slot} {key other : κ} (value : ν)
    (located : locate home table key = some slot) (present : table slot = some (other, value)) : other = key := by
  obtain ⟨-, -, -, halted, -⟩ := (probe_eq_some_iff table _ size).mp located
  simpa [halts, present] using halted

theorem held_of_find {key} {value} (found : find home table key = some value) : Held table key value := by
  obtain ⟨⟨other, held⟩, bound, rfl⟩ := map_eq_some_iff.mp found
  obtain ⟨slot, located, present⟩ := bind_eq_some_iff.mp bound
  obtain rfl := locate_entry home held located present
  exact ⟨slot, present⟩

theorem find_eq_some_iff {key} {value} (chained : Chained home table)
    (unique : Unique table) : find home table key = some value ↔ Held table key value := by
  constructor
  · exact held_of_find home
  · rintro ⟨slot, present⟩
    rw [find, locate_held home chained unique present, bind_some, present]
    rfl

end

end

section

variable (home : κ → Fin size)

def used (table : Table size κ ν) : Finset (Fin size) := Finset.univ.filter fun slot => (table slot).isSome = true

def Full (table : Table size κ ν) : Prop := ∀ slot, (table slot).isSome = true

variable (entries : List (κ × ν)) (table : Table size κ ν) (key : κ) (value : ν)

theorem full_iff_used : Full table ↔ (used table).card = size := by
  have whole := card_eq_iff_eq_univ (used table)
  rw [Fintype.card_fin] at whole
  rw [whole, eq_univ_iff_forall]
  simp [Full, used]

theorem append_full (full : Full table) : append home table key value = table := by
  have missing : probe table (fun _ => false) size (home key) = none := by
    rw [eq_none_iff_forall_ne_some]
    intro found probed
    obtain ⟨-, -, -, halted, -⟩ := (probe_eq_some_iff table _ size).mp probed
    obtain ⟨entry, present⟩ := isSome_iff_exists.mp (full found)
    rw [present] at halted
    cases halted
  rw [append, missing]

theorem append_room (room : ¬ Full table) :
    ∃ slot, table slot = none ∧ probe table (fun _ => false) size (home key) = some slot ∧
    append home table key value = update table slot (some (key, value)) := by
  obtain ⟨free, unused⟩ := not_forall.mp room
  have empty : table free = none := by simpa using unused
  obtain ⟨slot, probed⟩ := probe_finds table (fun _ => false) (home key) free (by rw [empty]; rfl)
  refine ⟨slot, ?_, probed, by rw [append, probed]⟩
  obtain ⟨-, -, -, halted, -⟩ := (probe_eq_some_iff table _ size).mp probed
  cases entry : table slot with
  | none => rfl
  | some pair => rw [entry] at halted; cases halted

def fill (entries : List (κ × ν)) : Table size κ ν :=
  entries.foldl (fun table entry => append home table entry.1 entry.2) empty

theorem fill_concat (entry : κ × ν) :
    fill home (entries ++ [entry]) = append home (fill home entries) entry.1 entry.2 := by
  simp [fill, foldl_append]

theorem fill_used : (used (fill home entries)).card = min entries.length size := by
  induction entries using List.reverseRecOn with
  | nil => simp [fill, used, empty]
  | append_singleton entries entry ih =>
    rw [fill_concat]
    by_cases full : Full (fill home entries)
    · rw [append_full home _ _ _ full, ih]
      have counted := (full_iff_used _).mp full
      simp only [length_append, length_singleton]
      omega
    · obtain ⟨slot, free, -, appended⟩ := append_room home _ entry.1 entry.2 full
      have grown : used (update (fill home entries) slot (some (entry.1, entry.2))) =
          insert slot (used (fill home entries)) := by
        ext other
        by_cases same : other = slot
        · simp [used, same]
        · simp [used, same]
      have fresh : slot ∉ used (fill home entries) := by simp [used, free]
      have counted := mt (full_iff_used _).mpr full
      rw [appended, grown, card_insert_of_notMem fresh]
      simp only [length_append, length_singleton]
      omega

theorem fill_full_iff : Full (fill home entries) ↔ size ≤ entries.length := by
  rw [full_iff_used, fill_used]
  omega

theorem fill_chained : Chained home (fill home entries) := by
  induction entries using List.reverseRecOn with
  | nil => exact empty_chained home
  | append_singleton entries entry ih =>
    rw [fill_concat]
    by_cases full : Full (fill home entries)
    · rwa [append_full home _ _ _ full]
    · obtain ⟨slot, -, probed, appended⟩ := append_room home _ entry.1 entry.2 full
      rw [appended]
      exact update_chained home _ ih probed

theorem held_update {slot} (free : table slot = none) (key other : κ) (value more : ν) :
    Held (update table slot (some (key, value))) other more ↔ Held table other more ∨ (other, more) = (key, value) := by
  constructor
  · rintro ⟨place, present⟩
    by_cases same : place = slot
    · rw [same, update_self] at present
      exact .inr (Option.some.inj present).symm
    · rw [update_of_ne same] at present
      exact .inl ⟨place, present⟩
  · rintro (⟨place, present⟩ | same)
    · refine ⟨place, ?_⟩
      have different : place ≠ slot := by
        rintro rfl
        rw [free] at present
        cases present
      rwa [update_of_ne different]
    · exact ⟨slot, by rw [update_self, same]⟩

theorem fill_held : Held (fill home entries) key value ↔ (key, value) ∈ entries.take size := by
  induction entries using List.reverseRecOn with
  | nil => exact iff_of_false (not_held_empty key value) (by simp)
  | append_singleton entries entry ih =>
    rw [fill_concat]
    by_cases full : Full (fill home entries)
    · rw [append_full home _ _ _ full, ih, take_append_of_le_length ((fill_full_iff home entries).mp full)]
    · obtain ⟨slot, free, -, appended⟩ := append_room home _ entry.1 entry.2 full
      have short := mt (fill_full_iff home entries).mpr full
      rw [appended, held_update _ free, ih, take_of_length_le (by omega), take_of_length_le (by simp; omega)]
      simp [Prod.ext_iff]

theorem fill_unique (distinct : ((entries.take size).map Prod.fst).Nodup) : Unique (fill home entries) := by
  induction entries using List.reverseRecOn with
  | nil => exact empty_unique
  | append_singleton entries entry ih =>
    rw [fill_concat]
    by_cases full : Full (fill home entries)
    · rw [append_full home _ _ _ full]
      rw [take_append_of_le_length ((fill_full_iff home entries).mp full)] at distinct
      exact ih distinct
    · obtain ⟨slot, free, -, appended⟩ := append_room home _ entry.1 entry.2 full
      have short := mt (fill_full_iff home entries).mpr full
      rw [take_of_length_le (by simp; omega), map_append, nodup_append] at distinct
      obtain ⟨earlier, -, apart⟩ := distinct
      rw [← take_of_length_le (i := size) (l := entries) (by omega)] at earlier
      have unused (place : Fin size) (value : ν) : fill home entries place ≠ some (entry.1, value) := by
        intro present
        have mem := (fill_held home entries entry.1 value).mp ⟨place, present⟩
        exact apart entry.1 (mem_map.mpr ⟨_, mem_of_mem_take mem, rfl⟩) entry.1 (by simp) rfl
      rw [appended]
      exact update_unique (ih earlier) fun place value present => absurd present (unused place value)

theorem find_fill [DecidableEq κ] (entries : List (κ × ν)) (distinct : ((entries.take size).map Prod.fst).Nodup)
    (key : κ) (value : ν) : find home (fill home entries) key = some value ↔ (key, value) ∈ entries.take size := by
  rw [find_eq_some_iff home (fill_chained home entries) (fill_unique home entries distinct), fill_held]

end

end ProbeTable
