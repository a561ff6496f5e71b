import Evemon.ControlSteps
import Evemon.FdmonTable

-- What switching between two unions does to the watched-parent table and to orphan mode.
namespace Evemon.Controls

open Fdmon Ipc List

def fdKey (pid fd : UInt32) : UInt32 × UInt32 × UInt32 := (1, pid, fd)

def treeKey (pid : UInt32) : UInt32 × UInt32 × UInt32 := (2, pid, 0)

def orphanKey : UInt32 × UInt32 × UInt32 := (3, 0, 0)

def callOf (w : Watch) : Call :=
  if w.kind = 1 then .addPidFd w.pid w.value
  else if w.kind = 2 then .watchParentFds w.pid w.value
  else .orphanStdoutEnable

structure Usable (st : Ebpf) (w : Watch) : Prop where
  pair : w.kind = 1 → st.monitoredPids.isSome = true ∧ (w.value = 1 ∨ w.value = 2)
  tree : w.kind ≠ 1 → st.linkSchedExec = true

theorem usable_later {st after} (later : Later st after) (w : Watch) : Usable after w ↔ Usable st w := by
  constructor
  · rintro ⟨pair, tree⟩
    rw [later.opened] at pair
    rw [later.exec] at tree
    exact ⟨pair, tree⟩
  · rintro ⟨pair, tree⟩
    rw [← later.opened] at pair
    rw [← later.exec] at tree
    exact ⟨pair, tree⟩

section

variable (kernel : Kernel) (w : Watch) (accepted : Accepted w) (st : Ebpf) (pid : UInt32) (value : UInt32)

theorem add_watch_fd :
    addWatch kernel ⟨1, pid, value⟩ st = fdmonAddPidFd (kernel.update ⟨1, pid, value⟩) pid value st := rfl

theorem add_watch_tree :
    addWatch kernel ⟨2, pid, value⟩ st = fdmonWatchParentFds (kernel.update ⟨2, pid, value⟩) pid value st := rfl

theorem add_watch_orphan : addWatch kernel ⟨3, 0, 0⟩ st = fdmonOrphanStdoutEnable kernel.attach st := rfl

include accepted

theorem add_watch_later : Later st (addWatch kernel w st).2 := by
  cases accepted with
  | fd pid value positive => exact (add_pid_fd_spec _ pid value st).1
  | tree pid value positive mask => exact (watch_parent_spec _ pid value st).1
  | orphan => exact (orphan_enable_spec kernel.attach st).1

theorem add_watch_frame (other : watchKey w ≠ treeKey pid) :
    (addWatch kernel w st).2.watchedParents.find pid = st.watchedParents.find pid := by
  cases accepted with
  | fd key value positive => rw [add_watch_fd, (add_pid_fd_spec _ key value st).2.1.parents]
  | tree key value positive mask =>
    exact (watch_parent_spec _ key value st).2.2 pid fun same => other (by simp [watchKey, treeKey, same])
  | orphan => rw [add_watch_orphan, (orphan_enable_spec kernel.attach st).2.1]

theorem add_watch_mode (other : watchKey w ≠ orphanKey) :
    (addWatch kernel w st).2.orphanStdoutMode = st.orphanStdoutMode := by
  cases accepted with
  | fd key value positive => exact (add_pid_fd_spec _ key value st).2.1.orphan
  | tree key value positive mask => exact (watch_parent_spec _ key value st).2.1
  | orphan => exact absurd rfl other

structure Added (kernel : Kernel) (w : Watch) (st after : Ebpf) : Prop where
  usable : Usable st w
  called : callOf w ∈ after.calls
  granted : w.kind = 1 → kernel.update w = true
  parents : ∀ pid, watchKey w = treeKey pid → after.watchedParents.find pid = some w.value
  orphan : watchKey w = orphanKey → after.orphanStdoutMode = true

theorem add_watch_done (done : (addWatch kernel w st).1) : Added kernel w st (addWatch kernel w st).2 := by
  cases accepted with
  | fd key value positive =>
    obtain ⟨-, -, success, called⟩ := add_pid_fd_spec (kernel.update ⟨1, key, value⟩) key value st
    obtain ⟨opened, isFd, granted⟩ := success.mp done
    exact ⟨⟨fun _ => ⟨opened, isFd⟩, fun other => absurd rfl other⟩, called done, fun _ => granted,
      fun pid key => by simp [watchKey, treeKey] at key, fun key => by simp [watchKey, orphanKey] at key⟩
  | tree key value positive mask =>
    obtain ⟨exec, called, found⟩ := watch_parent_done (kernel.update ⟨2, key, value⟩) key value st done
    refine ⟨⟨fun kind => absurd kind (by simp), fun _ => exec⟩, called, fun kind => absurd kind (by simp), ?_, ?_⟩
    · intro pid same
      have here : pid = key := by simpa [watchKey, treeKey, eq_comm] using same
      rw [add_watch_tree, found pid, if_pos here]
    · exact fun key => by simp [watchKey, orphanKey] at key
  | orphan =>
    obtain ⟨exec, mode, called⟩ := (orphan_enable_spec kernel.attach st).2.2.1 done
    exact ⟨⟨fun kind => absurd kind (by decide), fun _ => exec⟩, called, fun kind => absurd kind (by decide),
      fun pid key => by simp [watchKey, treeKey] at key, fun _ => mode⟩

theorem add_watch_succeeds (usable : Usable st w) (granted : w.kind = 1 → kernel.update w) (linked : st.linkEnterWrite)
    (room : w.kind = 2 → w.pid ∈ st.watchedParents.keys ∨ st.watchedParents.entries.length < watchedParentMax) :
    (addWatch kernel w st).1 := by
  cases accepted with
  | fd key value positive =>
    obtain ⟨opened, isFd⟩ := usable.pair rfl
    exact (add_pid_fd_spec _ key value st).2.2.1.mpr ⟨opened, isFd, granted rfl⟩
  | tree key value positive mask =>
    exact watch_parent_succeeds _ key value st positive (usable.tree (by simp)) (room rfl)
  | orphan => exact (orphan_enable_spec kernel.attach st).2.2.2 (usable.tree (by decide)) linked

theorem withdraw_watch_later : Later st (withdrawWatch kernel w st) := by
  cases accepted with
  | fd key value positive => exact (only_pids_spec (remove_pid_fd_only _ _ key value st)).1
  | tree key value positive mask => exact (unwatch_spec kernel.order _ key st).1
  | orphan => exact orphan_disable_later st

theorem withdraw_watch_find : (withdrawWatch kernel w st).watchedParents.find pid =
    if watchKey w = treeKey pid then none else st.watchedParents.find pid := by
  cases accepted with
  | fd key value positive =>
    obtain ⟨_, _, same⟩ :=
      remove_pid_fd_only (kernel.update ⟨1, key, value⟩) (kernel.delete ⟨1, key, value⟩ key) key value st
    simp [withdrawWatch, same, watchKey, treeKey]
  | tree key value positive mask =>
    have removed := (unwatch_spec kernel.order (kernel.delete ⟨2, key, value⟩) key st).2.2 positive pid
    simp [withdrawWatch, removed, watchKey, treeKey, eq_comm]
  | orphan => simp [withdrawWatch, fdmonOrphanStdoutDisable, watchKey, treeKey]

theorem withdraw_watch_mode : (withdrawWatch kernel w st).orphanStdoutMode =
    (st.orphanStdoutMode && !decide (watchKey w = orphanKey)) := by
  cases accepted with
  | fd key value positive =>
    obtain ⟨_, _, same⟩ :=
      remove_pid_fd_only (kernel.update ⟨1, key, value⟩) (kernel.delete ⟨1, key, value⟩ key) key value st
    simp [withdrawWatch, same, watchKey, orphanKey]
  | tree key value positive mask =>
    have same := (unwatch_spec kernel.order (kernel.delete ⟨2, key, value⟩) key st).2.1
    simp [withdrawWatch, same, watchKey, orphanKey]
  | orphan => simp [withdrawWatch, fdmonOrphanStdoutDisable, watchKey, orphanKey]

end

def gone (next old : List Watch) : List Watch := old.filter fun w => !contains next w

theorem mem_gone (next old : List Watch) (w : Watch) : w ∈ gone next old ↔ w ∈ old ∧ watchKey w ∉ next.map watchKey := by
  simp only [gone, mem_filter, Bool.not_eq_true', ← Bool.not_eq_true, contains_iff]

theorem gone_key (next old : List Watch) (key : UInt32 × UInt32 × UInt32) :
    key ∈ (gone next old).map watchKey ↔ key ∈ old.map watchKey ∧ key ∉ next.map watchKey := by
  constructor
  · intro mem
    obtain ⟨w, leaving, rfl⟩ := mem_map.mp mem
    obtain ⟨before, lost⟩ := (mem_gone next old w).mp leaving
    exact ⟨mem_map.mpr ⟨w, before, rfl⟩, lost⟩
  · rintro ⟨mem, lost⟩
    obtain ⟨w, before, rfl⟩ := mem_map.mp mem
    exact mem_map.mpr ⟨w, (mem_gone next old w).mpr ⟨before, lost⟩, rfl⟩

theorem withdraw_eq (kernel : Kernel) (next old : List Watch) (st : Ebpf) :
    withdraw kernel next old st = (gone next old).foldl (fun st w => withdrawWatch kernel w st) st := by
  induction old generalizing st with
  | nil => rfl
  | cons w rest ih =>
    by_cases kept : contains next w
    · simpa [withdraw, gone, kept] using ih st
    · simpa [withdraw, gone, kept] using ih (withdrawWatch kernel w st)

section

variable (kernel : Kernel) (watches : List Watch) (accepted : ∀ w ∈ watches, Accepted w) (st : Ebpf)

include accepted

theorem withdraw_all_later : Later st (watches.foldl (fun st w => withdrawWatch kernel w st) st) := by
  refine List.foldlRecOn watches _ (later_refl st) fun middle before w mem => ?_
  exact later_trans _ _ _ before (withdraw_watch_later kernel w (accepted w mem) middle)

theorem withdraw_all_find (pid : UInt32) :
    (watches.foldl (fun st w => withdrawWatch kernel w st) st).watchedParents.find pid =
    if treeKey pid ∈ watches.map watchKey then none else st.watchedParents.find pid := by
  induction watches generalizing st with
  | nil => simp
  | cons w rest ih =>
    obtain ⟨atHead, atRest⟩ := forall_mem_cons.mp accepted
    rw [foldl_cons, ih atRest, withdraw_watch_find kernel w atHead]
    by_cases here : watchKey w = treeKey pid
    · simp [here]
    · have other : ¬ treeKey pid = watchKey w := fun equal => here equal.symm
      simp only [map_cons, mem_cons, here, other, false_or, if_false]

theorem withdraw_all_mode : (watches.foldl (fun st w => withdrawWatch kernel w st) st).orphanStdoutMode =
    (st.orphanStdoutMode && !decide (orphanKey ∈ watches.map watchKey)) := by
  induction watches generalizing st with
  | nil => simp
  | cons w rest ih =>
    obtain ⟨atHead, atRest⟩ := forall_mem_cons.mp accepted
    rw [foldl_cons, ih atRest, withdraw_watch_mode kernel w atHead]
    simp only [map_cons, mem_cons, Bool.decide_or, Bool.not_or, Bool.and_assoc, eq_comm]

end

def treeMask (watches : List Watch) (pid : UInt32) : Option UInt32 :=
  (watches.find? fun w => watchKey w = treeKey pid).map Watch.value

theorem tree_mask_none {watches} (pid : UInt32) :
    treeMask watches pid = none ↔ treeKey pid ∉ watches.map watchKey := by
  simp [treeMask]

theorem reapply_cons {kernel} (w : Watch) {rest : List Watch} {st}
    (done : (reapply kernel (w :: rest) st).1) :
    (addWatch kernel w st).1 ∧ reapply kernel (w :: rest) st = reapply kernel rest (addWatch kernel w st).2 := by
  by_cases added : (addWatch kernel w st).1
  · exact ⟨added, by rw [reapply, if_pos added]⟩
  · rw [reapply, if_neg added] at done
    cases done

section

variable (kernel : Kernel) (watches : List Watch) (accepted : ∀ w ∈ watches, Accepted w) (st : Ebpf)

include accepted

omit accepted in
theorem reapply_rule (inv : Ebpf → Prop) (kept : ∀ w ∈ watches, ∀ st, inv st → inv (addWatch kernel w st).2)
    (st : Ebpf) (before : inv st) : inv (reapply kernel watches st).2 := by
  induction watches generalizing st with
  | nil => exact before
  | cons w rest ih =>
    obtain ⟨atHead, atRest⟩ := forall_mem_cons.mp kept
    have first := atHead st before
    by_cases added : (addWatch kernel w st).1
    · rw [reapply, if_pos added]
      exact ih atRest _ first
    · rw [reapply, if_neg added]
      exact first

theorem reapply_later : Later st (reapply kernel watches st).2 := by
  refine reapply_rule kernel watches (Later st) (fun w mem middle before => ?_) st (later_refl st)
  exact later_trans _ _ _ before (add_watch_later kernel w (accepted w mem) middle)

theorem reapply_frame {pid} (absent : treeKey pid ∉ watches.map watchKey) :
    (reapply kernel watches st).2.watchedParents.find pid = st.watchedParents.find pid := by
  refine reapply_rule kernel watches (fun after => after.watchedParents.find pid = st.watchedParents.find pid)
    (fun w mem middle before => ?_) st rfl
  have other : watchKey w ≠ treeKey pid := fun equal => absent (equal ▸ mem_map_of_mem mem)
  exact (add_watch_frame kernel w (accepted w mem) middle pid other).trans before

theorem reapply_mode (absent : orphanKey ∉ watches.map watchKey) :
    (reapply kernel watches st).2.orphanStdoutMode = st.orphanStdoutMode := by
  refine reapply_rule kernel watches (fun after => after.orphanStdoutMode = st.orphanStdoutMode)
    (fun w mem middle before => ?_) st rfl
  have other : watchKey w ≠ orphanKey := fun equal => absent (equal ▸ mem_map_of_mem mem)
  exact (add_watch_mode kernel w (accepted w mem) middle other).trans before

theorem reapply_done (distinct : (watches.map watchKey).Nodup) (done : (reapply kernel watches st).1) :
    ∀ w ∈ watches, Added kernel w st (reapply kernel watches st).2 := by
  induction watches generalizing st with
  | nil => simp
  | cons w rest ih =>
    obtain ⟨atHead, atRest⟩ := forall_mem_cons.mp accepted
    obtain ⟨fresh, distinctRest⟩ := nodup_cons.mp distinct
    obtain ⟨added, same⟩ := reapply_cons w done
    rw [same] at done ⊢
    have later := reapply_later kernel rest atRest (addWatch kernel w st).2
    have first := add_watch_done kernel w atHead st added
    intro other mem
    rcases mem_cons.mp mem with rfl | mem
    · refine ⟨first.usable, later.calls _ first.called, first.granted, fun pid key => ?_, fun key => ?_⟩
      · rw [reapply_frame kernel rest atRest _ (key ▸ fresh), first.parents pid key]
      · rw [reapply_mode kernel rest atRest _ (key ▸ fresh), first.orphan key]
    · have applied := ih atRest (addWatch kernel w st).2 distinctRest done other mem
      have earlier := (usable_later (add_watch_later kernel w atHead st) other).mp applied.usable
      exact ⟨earlier, applied.called, applied.granted, applied.parents, applied.orphan⟩

end

section

variable (kernel : Kernel) (old next : List Watch) (st : Ebpf)

def enabledState : Ebpf := if next ≠ [] then (fdmonWriteEnable kernel.attach st).2 else st

def withdrawn : Ebpf := withdraw kernel next old (enabledState kernel next st)

theorem enabled_state_spec : Later st (enabledState kernel next st) ∧ SameRoots st (enabledState kernel next st) := by
  by_cases some : next ≠ []
  · rw [enabledState, if_pos some]
    obtain ⟨later, roots, -⟩ := write_enable_spec kernel.attach st
    exact ⟨later, roots⟩
  · rw [enabledState, if_neg some]
    exact ⟨later_refl st, rfl, rfl⟩

theorem apply_union_cases : ((next ≠ [] → (enabledState kernel next st).linkEnterWrite) ∧
    applyUnion kernel old next st = reapply kernel next (withdrawn kernel old next st)) ∨
    (next ≠ [] ∧ st.linkEnterWrite = false ∧ applyUnion kernel old next st = (false, enabledState kernel next st)) := by
  by_cases some : next ≠ []
  · obtain ⟨later, -, linked⟩ := write_enable_spec kernel.attach st
    by_cases enabled : (fdmonWriteEnable kernel.attach st).1
    · refine .inl ⟨fun _ => ?_, ?_⟩
      · rw [enabledState, if_pos some]
        exact linked enabled
      · simp only [applyUnion, withdrawn, enabledState, if_pos some, if_pos enabled]
    · refine .inr ⟨some, Bool.eq_false_iff.mpr fun already => enabled ?_, ?_⟩
      · rw [fdmonWriteEnable, if_pos already]
        rfl
      · simp only [applyUnion, enabledState, if_pos some, if_neg enabled]
  · refine .inl ⟨fun nonempty => absurd nonempty some, ?_⟩
    rw [not_not] at some
    simp [applyUnion, withdrawn, enabledState, some, reapply]

theorem apply_union_done (done : (applyUnion kernel old next st).1) :
    (next ≠ [] → (enabledState kernel next st).linkEnterWrite) ∧
    applyUnion kernel old next st = reapply kernel next (withdrawn kernel old next st) := by
  rcases apply_union_cases kernel old next st with complete | ⟨-, -, failed⟩
  · exact complete
  · rw [failed] at done
    cases done

theorem apply_union_linked (linked : next ≠ [] → st.linkEnterWrite) :
    applyUnion kernel old next st = reapply kernel next (withdrawn kernel old next st) := by
  rcases apply_union_cases kernel old next st with ⟨-, complete⟩ | ⟨some, detached, -⟩
  · exact complete
  · rw [linked some] at detached
    cases detached

variable (atOld : ∀ w ∈ old, Accepted w)

include atOld

theorem gone_accepted (w : Watch) (mem : w ∈ gone next old) : Accepted w := atOld w (mem_filter.mp mem).1

theorem withdrawn_later : Later st (withdrawn kernel old next st) := by
  rw [withdrawn, withdraw_eq]
  exact later_trans _ _ _ (enabled_state_spec kernel next st).1
    (withdraw_all_later kernel _ (gone_accepted old next atOld) _)

theorem withdrawn_find (pid : UInt32) : (withdrawn kernel old next st).watchedParents.find pid =
    if treeKey pid ∈ old.map watchKey ∧ treeKey pid ∉ next.map watchKey then none else st.watchedParents.find pid := by
  rw [withdrawn, withdraw_eq, withdraw_all_find kernel _ (gone_accepted old next atOld),
    (enabled_state_spec kernel next st).2.parents]
  simp only [gone_key]

theorem withdrawn_mode : (withdrawn kernel old next st).orphanStdoutMode =
    (st.orphanStdoutMode && !decide (orphanKey ∈ old.map watchKey ∧ orphanKey ∉ next.map watchKey)) := by
  rw [withdrawn, withdraw_eq, withdraw_all_mode kernel _ (gone_accepted old next atOld),
    (enabled_state_spec kernel next st).2.orphan]
  simp only [gone_key]

variable (atNext : ∀ w ∈ next, Accepted w)

include atNext

theorem apply_union_later : Later st (applyUnion kernel old next st).2 := by
  rcases apply_union_cases kernel old next st with ⟨-, complete⟩ | ⟨-, -, failed⟩
  · rw [complete]
    exact later_trans _ _ _ (withdrawn_later kernel old next st atOld) (reapply_later kernel next atNext _)
  · rw [failed]
    exact (enabled_state_spec kernel next st).1

theorem apply_union_frame (pid : UInt32) (atOldKey : treeKey pid ∉ old.map watchKey)
    (atNextKey : treeKey pid ∉ next.map watchKey) :
    (applyUnion kernel old next st).2.watchedParents.find pid = st.watchedParents.find pid := by
  rcases apply_union_cases kernel old next st with ⟨-, complete⟩ | ⟨-, -, failed⟩
  · rw [complete, reapply_frame kernel next atNext _ atNextKey, withdrawn_find kernel old next st atOld,
      if_neg fun named => atOldKey named.1]
  · rw [failed, (enabled_state_spec kernel next st).2.parents]

theorem apply_union_mode (atOldKey : orphanKey ∉ old.map watchKey) (atNextKey : orphanKey ∉ next.map watchKey) :
    (applyUnion kernel old next st).2.orphanStdoutMode = st.orphanStdoutMode := by
  rcases apply_union_cases kernel old next st with ⟨-, complete⟩ | ⟨-, -, failed⟩
  · rw [complete, reapply_mode kernel next atNext _ atNextKey, withdrawn_mode kernel old next st atOld]
    simp [atOldKey]
  · rw [failed, (enabled_state_spec kernel next st).2.orphan]

end

end Evemon.Controls
