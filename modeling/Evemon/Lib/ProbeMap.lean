import Evemon.Lib.ProbeChain

-- A table with linear probing as the partial map it stands for.
namespace ProbeTable

open List Function Option

variable {size : Nat} {κ ν : Type}

theorem probe_congr {κ' ν' : Type} (table : Table size κ ν) (other : Table size κ' ν') (stops : κ → Bool)
    (halting : κ' → Bool)
    (same : ∀ slot, halts stops (table slot) = halts halting (other slot)) (fuel : Nat) (slot : Fin size) :
    probe table stops fuel slot = probe other halting fuel slot := by
  induction fuel generalizing slot with
  | zero => rfl
  | succ fuel ih => rw [probe_succ, probe_succ, same slot, ih]

variable (home : κ → Fin size)

structure Represents (table : Table size κ ν) (map : κ → Option ν) : Prop where
  chained : Chained home table
  unique : Unique table
  held : ∀ key value, Held table key value ↔ map key = some value

theorem represents_empty : Represents home (empty : Table size κ ν) fun _ => none where
  chained := empty_chained home
  unique := empty_unique
  held key value := iff_of_false (not_held_empty key value) (by simp)

theorem represents_slot {table} {map : κ → Option ν} (represents : Represents home table map)
    (slot : Fin size) (key : κ) (value : ν) (present : table slot = some (key, value)) : map key = some value :=
  (represents.held key value).mp ⟨slot, present⟩

theorem represents_map {μ : Type} (change : ν → μ) {table} {map : κ → Option ν}
    (represents : Represents home table map) :
    Represents home (fun slot => (table slot).map fun held => (held.1, change held.2)) fun key =>
    (map key).map change where
  chained := by
    intro slot key value present
    obtain ⟨⟨other, held⟩, there, equal⟩ := map_eq_some_iff.mp present
    obtain ⟨rfl, rfl⟩ := Prod.mk.inj equal
    obtain ⟨steps, bounded, rfl, passed⟩ := represents.chained slot other held there
    exact ⟨steps, bounded, rfl, fun earlier below => by rw [isSome_map]; exact passed earlier below⟩
  unique := by
    intro slot other key value more first second
    obtain ⟨⟨firstKey, firstHeld⟩, there, equal⟩ := map_eq_some_iff.mp first
    obtain ⟨⟨secondKey, secondHeld⟩, also, same⟩ := map_eq_some_iff.mp second
    obtain ⟨rfl, rfl⟩ := Prod.mk.inj equal
    obtain ⟨rfl, rfl⟩ := Prod.mk.inj same
    exact represents.unique slot other _ _ _ there also
  held key value := by
    constructor
    · rintro ⟨slot, present⟩
      obtain ⟨⟨other, held⟩, there, equal⟩ := map_eq_some_iff.mp present
      obtain ⟨rfl, rfl⟩ := Prod.mk.inj equal
      rw [represents_slot home represents slot other held there]
      rfl
    · intro mapped
      obtain ⟨held, before, rfl⟩ := map_eq_some_iff.mp mapped
      obtain ⟨slot, there⟩ := (represents.held key held).mpr before
      exact ⟨slot, map_eq_some_iff.mpr ⟨(key, held), there, rfl⟩⟩

variable [DecidableEq κ]

theorem represents_find {table} {map : κ → Option ν} (represents : Represents home table map) (key : κ) :
    find home table key = map key := by
  ext value
  rw [find_eq_some_iff home represents.chained represents.unique, represents.held]

section

variable {table : Table size κ ν} {map : κ → Option ν} (represents : Represents home table map) {key : κ}
  {slot : Fin size} (located : locate home table key = some slot)

include represents located

theorem located_entry : table slot = (map key).map fun value => (key, value) := by
  cases present : table slot with
  | some entry =>
    obtain ⟨other, value⟩ := entry
    obtain rfl := locate_entry home value located present
    rw [represents_slot home represents slot other value present]
    rfl
  | none =>
    cases mapped : map key with
    | none => rfl
    | some value =>
      obtain ⟨place, held⟩ := (represents.held key value).mpr mapped
      rw [locate_held home represents.chained represents.unique held] at located
      rw [← Option.some.inj located, held] at present
      cases present

theorem located_other {place} {value : ν} (held : table place = some (key, value)) : place = slot := by
  rw [locate_held home represents.chained represents.unique held] at located
  exact Option.some.inj located

theorem represents_update (value : ν) :
    Represents home (update table slot (some (key, value))) (update map key (some value)) where
  chained := update_chained home value represents.chained located
  unique := update_unique represents.unique fun _ _ held => located_other home represents located held
  held other more := by
    by_cases same : other = key
    · subst same
      rw [update_self]
      constructor
      · rintro ⟨place, present⟩
        by_cases here : place = slot
        · rw [here, update_self] at present
          rw [(Prod.mk.inj (Option.some.inj present)).2]
        · rw [update_of_ne here] at present
          exact absurd (located_other home represents located present) here
      · intro equal
        exact ⟨slot, by rw [update_self, Option.some.inj equal]⟩
    · rw [update_of_ne same, ← represents.held]
      constructor
      · rintro ⟨place, present⟩
        by_cases here : place = slot
        · rw [here, update_self] at present
          exact absurd (Prod.mk.inj (Option.some.inj present)).1.symm same
        · rw [update_of_ne here] at present
          exact ⟨place, present⟩
      · rintro ⟨place, present⟩
        refine ⟨place, ?_⟩
        have different : place ≠ slot := by
          rintro rfl
          exact same (locate_entry home more located present)
        rwa [update_of_ne different]

end

theorem locate_free {table : Table size κ ν} (key : κ) (room : ¬ Full table) : ∃ slot, locate home table key =
    some slot := by
  obtain ⟨free, unused⟩ := not_forall.mp room
  have empty : table free = none := by simpa using unused
  exact probe_finds table _ (home key) free (by rw [empty]; rfl)

theorem represents_room {table} {map : κ → Option ν} (represents : Represents home table map)
    {keys : Finset κ} (within : ∀ key, (map key).isSome → key ∈ keys) {key}
    (room : (insert key keys).card ≤ size) : ∃ slot, locate home table key = some slot := by
  cases mapped : map key with
  | some value =>
    obtain ⟨slot, held⟩ := (represents.held key value).mpr mapped
    exact ⟨slot, locate_held home represents.chained represents.unique held⟩
  | none =>
    by_cases full : Full table
    · -- Every slot holds a key of its own, and none of them is the new one.
      have filled (slot : Fin size) : ∃ other value, table slot = some (other, value) := by
        obtain ⟨⟨other, value⟩, present⟩ := isSome_iff_exists.mp (full slot)
        exact ⟨other, value, present⟩
      choose keyAt held using filled
      have distinct : Function.Injective keyAt := by
        intro first second same
        obtain ⟨value, atFirst⟩ := held first
        obtain ⟨more, atSecond⟩ := held second
        exact represents.unique first second (keyAt first) value more atFirst (same ▸ atSecond)
      have inside : Finset.univ.image keyAt ⊆ keys.erase key := by
        intro other mem
        obtain ⟨slot, -, rfl⟩ := Finset.mem_image.mp mem
        obtain ⟨value, present⟩ := held slot
        have known := represents_slot home represents slot _ value present
        refine Finset.mem_erase.mpr ⟨?_, within _ (by rw [known]; rfl)⟩
        rintro rfl
        rw [mapped] at known
        cases known
      have count := Finset.card_le_card inside
      rw [Finset.card_image_of_injective _ distinct, Finset.card_fin] at count
      have fewer : (keys.erase key).card < (insert key keys).card :=
        Finset.card_lt_card ⟨fun other mem => Finset.mem_insert_of_mem (Finset.mem_of_mem_erase mem),
          fun sub => Finset.notMem_erase key keys (sub (Finset.mem_insert_self key keys))⟩
      omega
    · exact locate_free home key full

theorem represents_store {table} {map : κ → Option ν} (represents : Represents home table map)
    {keys : Finset κ} (within : ∀ key, (map key).isSome → key ∈ keys) {key} {value}
    (room : (insert key keys).card ≤ size) :
    Represents home (store home table key value) (update map key (some value)) := by
  obtain ⟨slot, located⟩ := represents_room home represents within room
  rw [store, located]
  exact represents_update home represents located value

section

variable {α : Type} (key : α → κ) (value : α → ν)

def latch (rows : List α) : Table size κ ν := rows.foldl (fun table row => store home table (key row) (value row)) empty

def latched (rows : List α) : κ → Option ν :=
  rows.foldl (fun map row => update map (key row) (some (value row))) fun _ => none

variable (rows : List α)

theorem latched_concat (row : α) :
    latched key value (rows ++ [row]) = update (latched key value rows) (key row) (some (value row)) := by
  simp [latched, foldl_append]

theorem latched_known {other} (known : (latched key value rows other).isSome) : other ∈ rows.map key := by
  induction rows using List.reverseRecOn with
  | nil => cases known
  | append_singleton rows row ih =>
    rw [latched_concat] at known
    rw [map_append, mem_append]
    by_cases same : other = key row
    · exact .inr (by simp [same])
    · rw [update_of_ne same] at known
      exact .inl (ih known)

theorem latched_lookup (sets : List (κ × ν)) (other : κ) :
    latched Prod.fst Prod.snd sets other = sets.reverse.lookup other := by
  induction sets using List.reverseRecOn with
  | nil => rfl
  | append_singleton sets set ih =>
    rw [latched_concat, reverse_append, reverse_singleton, singleton_append, lookup_cons]
    by_cases same : other = set.1
    · simp [same]
    · rw [update_of_ne same, ih, beq_false_of_ne same]

theorem latched_row (distinct : (rows.map key).Nodup) (row : α) (mem : row ∈ rows) :
    latched key value rows (key row) = some (value row) := by
  induction rows using List.reverseRecOn with
  | nil => cases mem
  | append_singleton rows last ih =>
    rw [map_append, nodup_append] at distinct
    rw [latched_concat]
    rcases mem_append.mp mem with old | _ | ⟨_, ⟨⟩⟩
    · have different : key row ≠ key last :=
        distinct.2.2 (key row) (mem_map_of_mem old) (key last) (by simp)
      rw [update_of_ne different]
      exact ih distinct.1 old
    · rw [update_self]

theorem latch_represents (few : (rows.map key).toFinset.card ≤ size) :
    Represents home (latch home key value rows) (latched key value rows) := by
  induction rows using List.reverseRecOn with
  | nil => exact represents_empty home
  | append_singleton rows row ih =>
    have grown : (rows.map key ++ [key row]).toFinset = insert (key row) (rows.map key).toFinset := by
      ext other
      simp
    rw [map_append, map_singleton, grown] at few
    have before := ih (le_trans (Finset.card_le_card (Finset.subset_insert _ _)) few)
    rw [latched_concat, latch, foldl_append]
    refine represents_store home before (fun other known => ?_) few
    exact mem_toFinset.mpr (latched_known key value rows known)

end

omit [DecidableEq κ] in
theorem represents_retain (keep : κ → Bool) {table} (map : κ → Option ν)
    (represents : Represents home table map)
    (gapless : ∀ steps key value, keep key → table (advance (home key) steps) = some (key, value) →
    ∀ earlier, earlier < steps → ∀ other more, table (advance (home key) earlier) = some (other, more) → keep other) :
    Represents home (retain keep table) fun key => if keep key then map key else none where
  chained := by
    intro slot key value present
    obtain ⟨held, kept⟩ := filter_eq_some_iff.mp present
    obtain ⟨steps, bounded, rfl, passed⟩ := represents.chained slot key value held
    refine ⟨steps, bounded, rfl, fun earlier below => ?_⟩
    obtain ⟨⟨other, more⟩, there⟩ := isSome_iff_exists.mp (passed earlier below)
    have stays := gapless steps key value kept held earlier below other more there
    rw [retain, there, filter_some, if_pos stays]
    rfl
  unique := by
    intro slot other key value more first second
    exact represents.unique slot other key value more (filter_eq_some_iff.mp first).1 (filter_eq_some_iff.mp second).1
  held key value := by
    constructor
    · rintro ⟨slot, present⟩
      obtain ⟨held, kept⟩ := filter_eq_some_iff.mp present
      rw [if_pos kept]
      exact represents_slot home represents slot key value held
    · intro mapped
      split at mapped
      · rename_i kept
        obtain ⟨slot, held⟩ := (represents.held key value).mpr mapped
        exact ⟨slot, by rw [retain, held, filter_some, if_pos kept]⟩
      · cases mapped

end ProbeTable
