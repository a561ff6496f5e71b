import Evemon.ControlTable

namespace Evemon.Controls

open Fdmon Ipc List SwapTable

def roots (watches : List Watch) : List UInt32 := (watches.filter fun w => w.kind = 2).map Watch.pid

theorem mem_roots (watches : List Watch) (pid : UInt32) : pid ∈ roots watches ↔ treeKey pid ∈ watches.map watchKey := by
  simp only [roots, mem_map, mem_filter, decide_eq_true_eq]
  constructor
  · rintro ⟨w, ⟨mem, tree⟩, rfl⟩
    exact ⟨w, mem, by simp [watchKey, treeKey, tree]⟩
  · rintro ⟨w, mem, key⟩
    exact ⟨w, ⟨mem, congrArg Prod.fst key⟩, congrArg (fun entry => entry.2.1) key⟩

variable {watches : List Watch}

theorem roots_nodup (distinct : (watches.map watchKey).Nodup) : (roots watches).Nodup := by
  have filtered : ((watches.filter fun w => w.kind = 2).map watchKey).Nodup :=
    distinct.sublist (filter_sublist.map watchKey)
  refine List.Nodup.of_map (fun pid => treeKey pid) ?_
  rw [roots, map_map]
  have keys : (watches.filter fun w => w.kind = 2).map ((fun pid => treeKey pid) ∘ Watch.pid) =
      (watches.filter fun w => w.kind = 2).map watchKey := by
    refine map_congr_left fun w mem => ?_
    have tree : w.kind = 2 := by simpa using (mem_filter.mp mem).2
    simp [watchKey, treeKey, tree]
  rwa [keys]

theorem root_has_room {names : List UInt32} (bounded : names.length ≤ watchedParentMax) {table : WatchedParents}
    (within : ∀ pid ∈ table.keys, pid ∈ names) {pid : UInt32} (named : pid ∈ names) :
    pid ∈ table.keys ∨ table.entries.length < watchedParentMax := by
  by_cases present : pid ∈ table.keys
  · exact .inl present
  · have distinct : (pid :: table.keys).Nodup := nodup_cons.mpr ⟨present, table.distinct⟩
    have subset : (pid :: table.keys) ⊆ names := cons_subset.mpr ⟨named, within⟩
    have count := (subperm_of_subset distinct subset).length_le
    simp only [SwapTable.keys, length_cons, length_map] at count
    exact .inr (by omega)

theorem reapply_succeeds {kernel : Kernel} {watches : List Watch} (accepted : ∀ w ∈ watches, Accepted w) {st}
    (usable : ∀ w ∈ watches, Usable st w) (granted : ∀ w ∈ watches, w.kind = 1 → kernel.update w)
    (linked : watches ≠ [] → st.linkEnterWrite) {names : List UInt32}
    (bounded : names.length ≤ watchedParentMax) (named : ∀ pid ∈ roots watches, pid ∈ names)
    (within : ∀ pid ∈ st.watchedParents.keys, pid ∈ names) : (reapply kernel watches st).1 := by
  induction watches generalizing st with
  | nil => rfl
  | cons w rest ih =>
    obtain ⟨atHead, atRest⟩ := forall_mem_cons.mp accepted
    obtain ⟨usableHead, usableRest⟩ := forall_mem_cons.mp usable
    obtain ⟨grantedHead, grantedRest⟩ := forall_mem_cons.mp granted
    have link := linked (cons_ne_nil w rest)
    have atRoot (key : UInt32) (same : watchKey w = treeKey key) : key ∈ names :=
      named key ((mem_roots _ key).mpr (by simp [same]))
    have later := add_watch_later kernel w atHead st
    have added : (addWatch kernel w st).1 := by
      refine add_watch_succeeds kernel w atHead st usableHead grantedHead link fun tree => ?_
      exact root_has_room bounded within (atRoot w.pid (by simp [watchKey, treeKey, tree]))
    rw [reapply, if_pos added]
    refine ih atRest (fun other mem => (usable_later later other).mpr (usableRest other mem)) grantedRest
      (fun _ => later.write link) (fun pid mem => named pid ?_) fun pid present => ?_
    · rw [mem_roots] at mem ⊢
      exact mem_cons_of_mem _ mem
    · by_cases here : watchKey w = treeKey pid
      · exact atRoot pid here
      · rw [SwapTable.mem_keys, add_watch_frame kernel w atHead st pid here, ← SwapTable.mem_keys] at present
        exact within pid present

-- What holds in every run, whatever became of its rollbacks.
structure Sound (union : List Watch) (st : Ebpf) : Prop where
  within : ∀ pid ∈ st.watchedParents.keys, pid ∈ roots union
  room : (roots union).length ≤ watchedParentMax
  linked : union ≠ [] → st.linkEnterWrite = true
  usable : ∀ w ∈ union, Usable st w
  called : ∀ w ∈ union, callOf w ∈ st.calls
  orphan : orphanKey ∉ union.map watchKey → st.orphanStdoutMode = false

section

variable {old next : List Watch} (atOld : ∀ w ∈ old, Accepted w) (atNext : ∀ w ∈ next, Accepted w) {st : Ebpf}
  (sound : Sound old st)

include atOld atNext sound

theorem applied_find (kernel : Kernel) (done : (applyUnion kernel old next st).1) (pid : UInt32)
    (absent : treeKey pid ∉ next.map watchKey) : (applyUnion kernel old next st).2.watchedParents.find pid = none := by
  rw [(apply_union_done kernel old next st done).2, reapply_frame kernel next atNext _ absent,
    withdrawn_find kernel old next st atOld]
  by_cases before : treeKey pid ∈ old.map watchKey
  · rw [if_pos ⟨before, absent⟩]
  · rw [if_neg fun named => before named.1, find_eq_none]
    exact fun present => before ((mem_roots old pid).mp (sound.within pid present))

theorem applied_mode (kernel : Kernel) (done : (applyUnion kernel old next st).1)
    (absent : orphanKey ∉ next.map watchKey) : (applyUnion kernel old next st).2.orphanStdoutMode = false := by
  rw [(apply_union_done kernel old next st done).2, reapply_mode kernel next atNext _ absent,
    withdrawn_mode kernel old next st atOld]
  by_cases before : orphanKey ∈ old.map watchKey
  · simp [before, absent]
  · rw [sound.orphan before, Bool.false_and]

theorem sound_applied {kernel} (distinct : (next.map watchKey).Nodup)
    (done : (applyUnion kernel old next st).1) : Sound next (applyUnion kernel old next st).2 := by
  have absentParents := applied_find atOld atNext sound kernel done
  have absentMode := applied_mode atOld atNext sound kernel done
  obtain ⟨linked, same⟩ := apply_union_done kernel old next st done
  rw [same] at done absentParents absentMode ⊢
  have later := reapply_later kernel next atNext (withdrawn kernel old next st)
  have added := reapply_done kernel next atNext _ distinct done
  have inTable (pid : UInt32) (mem : pid ∈ roots next) :
      pid ∈ (reapply kernel next (withdrawn kernel old next st)).2.watchedParents.keys := by
    obtain ⟨w, atW, key⟩ := mem_map.mp ((mem_roots next pid).mp mem)
    exact (SwapTable.mem_keys _ _).mpr ⟨w.value, (added w atW).parents pid key⟩
  refine ⟨fun pid present => ?_, ?_, fun some => ?_, fun w mem => ?_, fun w mem => (added w mem).called, absentMode⟩
  · rw [mem_roots]
    by_contra absent
    exact (find_eq_none _ _).mp (absentParents pid absent) present
  · have count := (subperm_of_subset (roots_nodup distinct) inTable).length_le
    rw [SwapTable.keys, length_map] at count
    exact Nat.le_trans count (SwapTable.bounded _)
  · have start := (withdraw_all_later kernel _ (gone_accepted old next atOld) _).write (linked some)
    rw [← withdraw_eq] at start
    exact later.write start
  · exact (usable_later later w).mpr (added w mem).usable

variable (forward rollback : Kernel)

omit sound in
theorem undone_later : Later st (applyUnion rollback next old (applyUnion forward old next st).2).2 :=
  later_trans _ _ _ (apply_union_later forward old next st atOld atNext)
    (apply_union_later rollback next old (applyUnion forward old next st).2 atNext atOld)

theorem undone_eq : applyUnion rollback next old (applyUnion forward old next st).2 =
    reapply rollback old (withdrawn rollback next old (applyUnion forward old next st).2) :=
  apply_union_linked rollback next old _ fun some =>
    (apply_union_later forward old next st atOld atNext).write (sound.linked some)

theorem undone_find (pid : UInt32) (absent : treeKey pid ∉ old.map watchKey) :
    (applyUnion rollback next old (applyUnion forward old next st).2).2.watchedParents.find pid = none := by
  rw [undone_eq atOld atNext sound, reapply_frame rollback old atOld _ absent, withdrawn_find rollback next old _ atNext]
  by_cases named : treeKey pid ∈ next.map watchKey
  · rw [if_pos ⟨named, absent⟩]
  · rw [if_neg fun both => named both.1, apply_union_frame forward old next st atOld atNext pid absent named, find_eq_none]
    exact fun present => absent ((mem_roots old pid).mp (sound.within pid present))

theorem undone_mode (absent : orphanKey ∉ old.map watchKey) :
    (applyUnion rollback next old (applyUnion forward old next st).2).2.orphanStdoutMode = false := by
  rw [undone_eq atOld atNext sound, reapply_mode rollback old atOld _ absent, withdrawn_mode rollback next old _ atNext]
  by_cases named : orphanKey ∈ next.map watchKey
  · simp [named, absent]
  · rw [apply_union_mode forward old next st atOld atNext absent named, sound.orphan absent, Bool.false_and]

theorem sound_undone : Sound old (applyUnion rollback next old (applyUnion forward old next st).2).2 := by
  have later : Later st _ := undone_later atOld atNext forward rollback
  refine ⟨fun pid present => ?_, sound.room, fun some => later.write (sound.linked some),
    fun w mem => (usable_later later w).mpr (sound.usable w mem),
    fun w mem => later.calls _ (sound.called w mem), undone_mode atOld atNext sound forward rollback⟩
  rw [mem_roots]
  by_contra absent
  exact (find_eq_none _ _).mp (undone_find atOld atNext sound forward rollback pid absent) present

end

structure Installed (union : List Watch) (st : Ebpf) : Prop where
  parents : ∀ pid, st.watchedParents.find pid = treeMask union pid
  orphan : st.orphanStdoutMode = decide (orphanKey ∈ union.map watchKey)

-- Calls that have succeeded before with the same arguments are granted again.
structure Repeats (st : Ebpf) (kernel : Kernel) : Prop where
  attach : Call.writeEnable ∈ st.calls → kernel.attach = true
  update : ∀ w, w.kind ≠ 3 → callOf w ∈ st.calls → kernel.update w = true

theorem tree_mask_some (distinct : (watches.map watchKey).Nodup) {w : Watch} (mem : w ∈ watches) {pid}
    (key : watchKey w = treeKey pid) : treeMask watches pid = some w.value := by
  induction watches with
  | nil => simp at mem
  | cons head rest ih =>
    obtain ⟨fresh, later⟩ := nodup_cons.mp distinct
    rcases mem_cons.mp mem with rfl | inside
    · simp [treeMask, key]
    · have other : watchKey head ≠ treeKey pid := fun equal =>
        fresh (equal ▸ key ▸ mem_map.mpr ⟨w, inside, rfl⟩)
      simpa [treeMask, other] using ih later inside

theorem installed_of_added {kernel} (distinct : (watches.map watchKey).Nodup) {st after}
    (added : ∀ w ∈ watches, Added kernel w st after)
    (parents : ∀ pid, treeKey pid ∉ watches.map watchKey → after.watchedParents.find pid = none)
    (orphan : orphanKey ∉ watches.map watchKey → after.orphanStdoutMode = false) : Installed watches after := by
  refine ⟨fun pid => ?_, ?_⟩
  · by_cases named : treeKey pid ∈ watches.map watchKey
    · obtain ⟨w, mem, key⟩ := mem_map.mp named
      rw [tree_mask_some distinct mem key, (added w mem).parents pid key]
    · rw [(tree_mask_none pid).mpr named, parents pid named]
  · by_cases named : orphanKey ∈ watches.map watchKey
    · obtain ⟨w, mem, key⟩ := mem_map.mp named
      rw [(added w mem).orphan key, decide_eq_true named]
    · rw [orphan named, decide_eq_false named]

section

variable {old next : List Watch} (atOld : ∀ w ∈ old, Accepted w) (atNext : ∀ w ∈ next, Accepted w) {st : Ebpf}
  (sound : Sound old st)

include atOld atNext sound

theorem installed_applied {kernel} (distinct : (next.map watchKey).Nodup)
    (done : (applyUnion kernel old next st).1) : Installed next (applyUnion kernel old next st).2 := by
  have absentParents := applied_find atOld atNext sound kernel done
  have absentMode := applied_mode atOld atNext sound kernel done
  have same := (apply_union_done kernel old next st done).2
  rw [same] at done absentParents absentMode ⊢
  exact installed_of_added distinct (reapply_done kernel next atNext _ distinct done) absentParents absentMode

-- Whatever the tables held before: a rollback that repeats installs the registered watches.
theorem installed_undone (distinct : (old.map watchKey).Nodup) (forward rollback : Kernel)
    (repeats : Repeats st rollback) :
    Installed old (applyUnion rollback next old (applyUnion forward old next st).2).2 := by
  have first := apply_union_later forward old next st atOld atNext
  have second := withdrawn_later rollback next old (applyUnion forward old next st).2 atNext
  have later := later_trans _ _ _ first second
  have absentParents := undone_find atOld atNext sound forward rollback
  have absentMode := undone_mode atOld atNext sound forward rollback
  rw [undone_eq atOld atNext sound] at absentParents absentMode ⊢
  have done : (reapply rollback old (withdrawn rollback next old (applyUnion forward old next st).2)).1 := by
    refine @reapply_succeeds rollback old atOld _ (fun w mem => ?_) (fun w mem pair => ?_) (fun some => ?_)
      (roots old) sound.room (fun _ => id) fun pid present => ?_
    · exact (@usable_later _ _ later w).mpr (sound.usable w mem)
    · exact repeats.update w (by rw [pair]; decide) (sound.called w mem)
    · exact later.write (sound.linked some)
    · rw [mem_roots]
      by_contra absent
      rw [SwapTable.mem_keys] at present
      obtain ⟨mask, found⟩ := present
      rw [← reapply_frame rollback old atOld _ absent, absentParents pid absent] at found
      cases found
  exact installed_of_added distinct (reapply_done rollback old atOld _ distinct done) absentParents absentMode

end

end Evemon.Controls
