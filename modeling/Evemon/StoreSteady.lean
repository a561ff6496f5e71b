import Evemon.StoreLifecycle

-- The store under the same snapshot over and over.
namespace Evemon.Store

open List

open Ipc (Heap allGranted)

def steadyRun (snap : ProcSnapshot) (actions : List (Int × Heap)) : ProcStore :=
  actions.foldl (fun store action => ((procStoreUpdate snap action.1).run { store, heap := action.2 }).2.store)
    (procStoreInit true true true)

theorem steady_run_concat (snap : ProcSnapshot) (actions : List (Int × Heap)) (now : Int) (heap : Heap) :
    steadyRun snap (actions ++ [(now, heap)]) =
      ((procStoreUpdate snap now).run { store := steadyRun snap actions, heap }).2.store := by
  simp [steadyRun, foldl_append]

structure Settled (store : ProcStore) (marks : List Mark) : Prop where
  ht : store.ht = some (indexPids store.pids)
  snapHt : store.snapHt.isSome = true
  marks : store.marks = marks

theorem settled_step (snap : ProcSnapshot) (now : Int) (heap : Heap) (store : ProcStore) (marks : List Mark)
    (granted : ∀ request, heap.grant request) (settled : Settled store marks)
    (distinct : ((marks.map Mark.pid).take storeHtSize).Nodup) :
    Settled ((procStoreUpdate snap now).run { store, heap }).2.store (updatedMarks snap now marks) := by
  have same : store.pids = marks.map Mark.pid := by rw [pids_marks, settled.marks]
  obtain ⟨ht, snapHt, updated⟩ := update_marks snap now { store, heap } ⟨settled.ht, settled.snapHt, granted⟩
    (by rwa [same])
  exact ⟨ht, snapHt, by rw [updated, settled.marks]⟩

section

variable (snap : ProcSnapshot) (now : Int) (pids : List Int32)

theorem born_pids : (pids.map Mark.born).map Mark.pid = pids := by
  simp [Mark.born, Function.comp_def]

theorem born_kept :
    (pids.map Mark.born).filter (fun mark : Mark => decide (mark.status ≠ .killed)) = pids.map Mark.born := by
  rw [filter_eq_self]
  intro mark mem
  obtain ⟨pid, -, rfl⟩ := mem_map.mp mem
  rfl

theorem fresh_disjoint (held rest : List Int32) (distinct : rest.Nodup) (apart : ∀ pid ∈ rest, pid ∉ held) :
    fresh held rest = rest := by
  induction rest generalizing held with
  | nil => rfl
  | cons pid rest ih =>
    rw [nodup_cons] at distinct
    have absent : pid ∉ held.take storeHtSize :=
      fun mem => apart pid mem_cons_self (mem_of_mem_take mem)
    rw [fresh, if_neg absent, ih (held ++ [pid]) distinct.2]
    intro other mem held
    rcases mem_append.mp held with old | new
    · exact apart other (mem_cons_of_mem _ mem) old
    · exact distinct.1 (mem_singleton.mp new ▸ mem)

theorem first_marks (distinct : (snapPids snap).Nodup) : updatedMarks snap now [] = (snapPids snap).map Mark.born := by
  have added : fresh [] (snapPids snap) = snapPids snap :=
    fresh_disjoint [] (snapPids snap) distinct fun _ _ => not_mem_nil
  rw [updatedMarks, map_nil, added]
  exact born_kept (snapPids snap)

theorem aged_born_listed (all : ∀ pid ∈ pids, listed snap pid) :
    agedMarks snap now (pids.map Mark.born) = pids.map Mark.born := by
  rw [agedMarks, map_map]
  refine map_congr_left fun pid mem => ?_
  simp [Mark.aged, Mark.born, all pid mem]

theorem fresh_held {held known rest : List Int32} (all : ∀ pid ∈ known, pid ∈ held.take storeHtSize) :
    fresh held (known ++ rest) = fresh held rest := by
  induction known with
  | nil => rfl
  | cons pid known ih =>
    rw [cons_append, fresh, if_pos (all pid mem_cons_self)]
    exact ih fun other mem => all other (mem_cons_of_mem _ mem)

theorem small_marks (distinct : (snapPids snap).Nodup) (few : (snapPids snap).length ≤ storeHtSize) :
    updatedMarks snap now ((snapPids snap).map Mark.born) = (snapPids snap).map Mark.born := by
  have none : fresh (snapPids snap) (snapPids snap) = [] := by
    rw [← append_nil (snapPids snap), fresh_held]
    · rfl
    · intro pid mem
      rwa [append_nil, take_of_length_le few]
  rw [updatedMarks, aged_born_listed snap now _ fun pid mem => (listed_iff distinct few pid).mpr mem,
    born_pids, none, map_nil, append_nil, born_kept]

end

section

variable (snap : ProcSnapshot) (now : Int)

def inTable : List Int32 := (snapPids snap).take storeHtSize

def outside : List Int32 := (snapPids snap).drop storeHtSize

def overflowed (old : List Mark) : List Mark :=
  (inTable snap).map Mark.born ++ (old ++ (outside snap).map Mark.born)

theorem fresh_outside {held rest : List Int32} (table : held.take storeHtSize = inTable snap)
    (full : storeHtSize ≤ held.length) (absent : ∀ pid ∈ rest, pid ∉ inTable snap) : fresh held rest = rest := by
  induction rest generalizing held with
  | nil => rfl
  | cons pid rest ih =>
    rw [fresh, table, if_neg (absent pid mem_cons_self), ih]
    · rw [take_append_of_le_length full, table]
    · rw [length_append]
      omega
    · exact fun other mem => absent other (mem_cons_of_mem _ mem)

theorem overflowed_pids (old : List Mark) (many : storeHtSize ≤ (snapPids snap).length) :
    ((overflowed snap old).map Mark.pid).take storeHtSize = inTable snap ∧
    storeHtSize ≤ ((overflowed snap old).map Mark.pid).length := by
  have length : (inTable snap).length = storeHtSize := length_take_of_le many
  rw [overflowed, map_append, born_pids, length_append, length]
  exact ⟨by rw [← length, take_left], Nat.le_add_right _ _⟩

variable (distinct : (snapPids snap).Nodup)

include distinct

theorem in_table_nodup : (inTable snap).Nodup := distinct.sublist (take_sublist _ _)

theorem outside_absent (pid : Int32) (mem : pid ∈ outside snap) : pid ∉ inTable snap := by
  have parts := distinct
  rw [← take_append_drop storeHtSize (snapPids snap), nodup_append] at parts
  exact fun held => parts.2.2 pid held pid mem rfl

theorem listed_in_table (pid : Int32) : listed snap pid ↔ pid ∈ inTable snap := by
  rw [listed, ht_find_some_iff (in_table_nodup snap distinct)]
  rfl

theorem overflow_step (old : List Mark) (many : storeHtSize ≤ (snapPids snap).length) :
    ∃ later, (outside snap).length ≤ later.length ∧
    updatedMarks snap now (overflowed snap old) = overflowed snap later := by
  obtain ⟨table, full⟩ := overflowed_pids snap old many
  have added : fresh ((overflowed snap old).map Mark.pid) (snapPids snap) = outside snap := by
    have parts : snapPids snap = inTable snap ++ outside snap := (take_append_drop _ _).symm
    rw [parts, fresh_held fun pid mem => by rwa [table]]
    exact fresh_outside snap table full (outside_absent snap distinct)
  have stay := aged_born_listed snap now (inTable snap) fun pid mem => (listed_in_table snap distinct pid).mpr mem
  have die : agedMarks snap now ((outside snap).map Mark.born) = (outside snap).map fun pid => ⟨pid, .dying, now⟩ := by
    rw [agedMarks, map_map]
    refine map_congr_left fun pid mem => ?_
    have missed : listed snap pid = false :=
      eq_false_of_ne_true fun hit => outside_absent snap distinct pid mem ((listed_in_table snap distinct pid).mp hit)
    simp [Mark.aged, Mark.born, missed]
  refine ⟨(agedMarks snap now old).filter (fun mark => decide (mark.status ≠ .killed)) ++
    (outside snap).map (fun pid => ⟨pid, .dying, now⟩), by simp, ?_⟩
  have aged : agedMarks snap now (overflowed snap old) = (inTable snap).map Mark.born ++
      (agedMarks snap now old ++ (outside snap).map fun pid => ⟨pid, .dying, now⟩) := by
    rw [← stay, ← die]
    simp [agedMarks, overflowed]
  have kept : ((outside snap).map fun pid => (⟨pid, .dying, now⟩ : Mark)).filter
      (fun mark => decide (mark.status ≠ .killed)) = (outside snap).map fun pid => ⟨pid, .dying, now⟩ := by
    rw [filter_eq_self]
    intro mark mem
    obtain ⟨pid, -, rfl⟩ := mem_map.mp mem
    rfl
  rw [updatedMarks, added, aged, filter_append, filter_append, filter_append, born_kept, born_kept, kept,
    overflowed, append_assoc]

end

section

variable (snap : ProcSnapshot) (actions : List (Int × Heap)) (distinct : (snapPids snap).Nodup)
  (granted : ∀ action ∈ actions, ∀ request, action.2.grant request = true)

theorem steady_first (now : Int) {heap : Heap} (all : ∀ request, heap.grant request) (apart : (snapPids snap).Nodup) :
    Settled (steadyRun snap [(now, heap)]) ((snapPids snap).map Mark.born) := by
  have start : Settled (procStoreInit true true true) [] := ⟨rfl, rfl, rfl⟩
  have first := settled_step snap now heap _ [] all start nodup_nil
  rwa [first_marks snap now apart] at first

include distinct granted

theorem steady_small (repeated : actions ≠ []) (few : (snapPids snap).length ≤ storeHtSize) :
    Settled (steadyRun snap actions) ((snapPids snap).map Mark.born) := by
  induction actions using List.reverseRecOn with
  | nil => exact absurd rfl repeated
  | append_singleton earlier action ih =>
    obtain ⟨now, heap⟩ := action
    have all := granted (now, heap) (by simp)
    cases earlier with
    | nil => exact steady_first snap now all distinct
    | cons head tail =>
      have before := ih (fun action mem => granted action (mem_append_left _ mem)) (cons_ne_nil _ _)
      rw [steady_run_concat]
      have next := settled_step snap now heap _ _ all before (by rw [born_pids]; exact distinct.sublist (take_sublist _ _))
      rwa [small_marks snap now distinct few] at next

theorem steady_overflow (many : storeHtSize < (snapPids snap).length) (again : 2 ≤ actions.length) :
    ∃ old, (outside snap).length ≤ old.length ∧ Settled (steadyRun snap actions) (overflowed snap old) := by
  induction actions using List.reverseRecOn with
  | nil => simp at again
  | append_singleton earlier action ih =>
    obtain ⟨now, heap⟩ := action
    have all := granted (now, heap) (by simp)
    have before : ∃ old, Settled (steadyRun snap earlier) (overflowed snap old) := by
      cases earlier using List.reverseRecOn with
      | nil => simp at again
      | append_singleton first second =>
        cases first with
        | nil =>
          refine ⟨[], ?_⟩
          have first := steady_first snap second.1 (granted second (by simp)) distinct
          rwa [← take_append_drop storeHtSize (snapPids snap), map_append] at first
        | cons head tail =>
          obtain ⟨old, -, settled⟩ := ih (fun action mem => granted action (mem_append_left _ mem)) (by simp)
          exact ⟨old, settled⟩
    obtain ⟨old, settled⟩ := before
    have next := settled_step snap now heap _ _ all settled
      (by rw [(overflowed_pids snap old many.le).1]; exact in_table_nodup snap distinct)
    obtain ⟨later, more, marks⟩ := overflow_step snap now distinct old many.le
    rw [steady_run_concat]
    exact ⟨later, more, marks ▸ next⟩

theorem steady_overflow_grows (many : storeHtSize < (snapPids snap).length) (again : 2 ≤ actions.length) :
    (snapPids snap).length < (steadyRun snap actions).pids.length := by
  obtain ⟨old, more, settled⟩ := steady_overflow snap actions distinct granted many again
  have length := congrArg List.length settled.marks
  have part := congrArg List.length (take_append_drop storeHtSize (snapPids snap))
  have left : (outside snap).length = (snapPids snap).length - storeHtSize := length_drop
  simp only [overflowed, length_append, length_map] at length part
  rw [pids_marks, length_map, length]
  simp only [inTable, outside] at left more ⊢
  omega

theorem steady_store_iff (repeated : actions ≠ []) : (steadyRun snap actions).pids.Perm (snapPids snap) ↔
    (snapPids snap).length ≤ storeHtSize ∨ actions.length = 1 := by
  have settled_perm (settled : Settled (steadyRun snap actions) ((snapPids snap).map Mark.born)) :
      (steadyRun snap actions).pids.Perm (snapPids snap) := by
    rw [pids_marks, settled.marks, born_pids]
  constructor
  · intro same
    by_contra neither
    rw [not_or, not_le] at neither
    have again : 2 ≤ actions.length := by
      have positive := length_pos_of_ne_nil repeated
      omega
    have grown := steady_overflow_grows snap actions distinct granted neither.1 again
    have equal := same.length_eq
    omega
  · rintro (few | single)
    · exact settled_perm (steady_small snap actions distinct granted repeated few)
    · obtain ⟨action, rfl⟩ := length_eq_one_iff.mp single
      exact settled_perm (steady_first snap action.1 (granted action (by simp)) distinct)

end

-- PIDs 1 and 8193 have the same home slot.
theorem steady_store_iff_colliding :
    (steadyRun (namedSnap [7, 1, 8193]) [(0, allGranted), (5, allGranted), (9, allGranted)]).pids.Perm [7, 1, 8193] := by
  have named : snapPids (namedSnap [7, 1, 8193]) = [7, 1, 8193] := rfl
  have steady := steady_store_iff (namedSnap [7, 1, 8193]) [(0, allGranted), (5, allGranted), (9, allGranted)] (by decide)
    (by simp [allGranted]) (by decide)
  rw [named] at steady
  exact steady.mpr (.inl (by decide))

def crowd : List Int32 := (List.range 8193).map Int32.ofNat

theorem crowd_pids : snapPids (namedSnap crowd) = crowd := by
  simp [snapPids, namedSnap, namedRow, Function.comp_def]

theorem crowd_nodup : crowd.Nodup := by
  refine List.Nodup.map_on (fun first inside second within same => ?_) nodup_range
  rw [mem_range] at inside within
  have equal := congrArg Int32.toInt same
  rw [Int32.toInt_ofNat_of_lt (by omega), Int32.toInt_ofNat_of_lt (by omega)] at equal
  omega

theorem crowded_store_grows : (snapPids (namedSnap crowd)).Nodup ∧ (snapPids (namedSnap crowd)).length = 8193 ∧
    8193 < (steadyRun (namedSnap crowd) [(0, allGranted), (1, allGranted)]).pids.length := by
  have length : (snapPids (namedSnap crowd)).length = 8193 := by
    rw [crowd_pids, crowd, length_map, length_range]
  have distinct : (snapPids (namedSnap crowd)).Nodup := by
    rw [crowd_pids]
    exact crowd_nodup
  have grown := steady_overflow_grows (namedSnap crowd) [(0, allGranted), (1, allGranted)] distinct
    (by simp [allGranted]) (by rw [length]; exact Nat.lt_succ_self 8192) (by decide)
  rw [length] at grown
  exact ⟨distinct, length, grown⟩

end Evemon.Store
