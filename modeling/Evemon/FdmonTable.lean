import Evemon.FdmonMap

-- What each call does to the watched-parent table and to orphan mode, whatever the kernel
-- answers, and what no call takes back.
namespace Evemon.Fdmon

open SwapTable

structure Later (st after : Ebpf) : Prop where
  exec : after.linkSchedExec = st.linkSchedExec
  opened : after.monitoredPids.isSome = st.monitoredPids.isSome
  write : st.linkEnterWrite = true → after.linkEnterWrite = true
  calls : ∀ call ∈ st.calls, call ∈ after.calls

variable (updated : Bool) (key fdMask : UInt32) (st : Ebpf)

theorem later_refl : Later st st := ⟨rfl, rfl, id, fun _ => id⟩

theorem later_trans (st middle after : Ebpf) (first : Later st middle) (second : Later middle after) : Later st after where
  exec := second.exec.trans first.exec
  opened := second.opened.trans first.opened
  write linked := second.write (first.write linked)
  calls call made := second.calls call (first.calls call made)

theorem later_succeeded (st after : Ebpf) {call} (later : Later st after) : Later st (after.succeeded call).2 where
  exec := later.exec
  opened := later.opened
  write := later.write
  calls other made := List.mem_append_left _ (later.calls other made)

theorem later_pids {pids : Option PidMap} (same : pids.isSome = st.monitoredPids.isSome) :
    Later st { st with monitoredPids := pids } := ⟨rfl, same, id, fun _ => id⟩

structure SameRoots (st after : Ebpf) : Prop where
  parents : after.watchedParents = st.watchedParents
  orphan : after.orphanStdoutMode = st.orphanStdoutMode

variable (attached : Bool)

theorem write_enable_spec (st : Ebpf) :
    Later st (fdmonWriteEnable attached st).2 ∧ SameRoots st (fdmonWriteEnable attached st).2 ∧
    ((fdmonWriteEnable attached st).1 → (fdmonWriteEnable attached st).2.linkEnterWrite) := by
  by_cases linked : st.linkEnterWrite
  · rw [fdmonWriteEnable, if_pos linked]
    exact ⟨later_succeeded st st (later_refl st), ⟨rfl, rfl⟩, fun _ => linked⟩
  · rw [fdmonWriteEnable, if_neg linked]
    cases attached with
    | false => exact ⟨later_refl st, ⟨rfl, rfl⟩, fun failed => by cases failed⟩
    | true =>
      refine ⟨later_succeeded st _ ⟨rfl, rfl, fun _ => rfl, fun _ => id⟩, ⟨rfl, rfl⟩, fun _ => rfl⟩

theorem add_pid_fd_spec (pid fd : UInt32) (st : Ebpf) :
    Later st (fdmonAddPidFd updated pid fd st).2 ∧ SameRoots st (fdmonAddPidFd updated pid fd st).2 ∧
    ((fdmonAddPidFd updated pid fd st).1 ↔ st.monitoredPids.isSome ∧ (fd = 1 ∨ fd = 2) ∧ updated) ∧
    ((fdmonAddPidFd updated pid fd st).1 → Call.addPidFd pid fd ∈ (fdmonAddPidFd updated pid fd st).2.calls) := by
  cases opened : st.monitoredPids with
  | none => simp [fdmonAddPidFd, opened, later_refl, SameRoots.mk]
  | some map =>
    by_cases outside : fd ≠ 1 ∧ fd ≠ 2
    · simp [fdmonAddPidFd, opened, outside, later_refl, SameRoots.mk]
    · have inside : fd = 1 ∨ fd = 2 := or_iff_not_imp_left.mpr (by simpa using outside)
      cases updated with
      | false => simp [fdmonAddPidFd, opened, later_refl, SameRoots.mk]
      | true =>
        simp only [fdmonAddPidFd, opened, if_neg outside, if_true]
        refine ⟨later_succeeded st _ (later_pids st (by rw [opened]; rfl)), ⟨rfl, rfl⟩, ?_, fun _ => ?_⟩
        · simp [Ebpf.succeeded, inside]
        · simp [Ebpf.succeeded]

theorem only_pids_spec {st after} (only : OnlyPids st after) : Later st after ∧ SameRoots st after := by
  obtain ⟨pids, opened, rfl⟩ := only
  exact ⟨later_pids st opened, rfl, rfl⟩

theorem orphan_enable_spec (st : Ebpf) : Later st (fdmonOrphanStdoutEnable attached st).2 ∧
    (fdmonOrphanStdoutEnable attached st).2.watchedParents = st.watchedParents ∧
    ((fdmonOrphanStdoutEnable attached st).1 → st.linkSchedExec ∧
    (fdmonOrphanStdoutEnable attached st).2.orphanStdoutMode ∧
    Call.orphanStdoutEnable ∈ (fdmonOrphanStdoutEnable attached st).2.calls) ∧
    (st.linkSchedExec → st.linkEnterWrite → (fdmonOrphanStdoutEnable attached st).1) := by
  by_cases detached : st.linkSchedExec = false
  · simp [fdmonOrphanStdoutEnable, detached, later_refl]
  · have traced : st.linkSchedExec := by simpa using detached
    by_cases linked : st.linkEnterWrite
    · rw [fdmonOrphanStdoutEnable, if_neg detached, if_pos linked, if_pos rfl]
      exact ⟨later_succeeded st _ ⟨rfl, rfl, id, fun _ => id⟩, rfl, fun _ => ⟨traced, rfl, by simp [Ebpf.succeeded]⟩,
        fun _ _ => rfl⟩
    · obtain ⟨later, roots, -⟩ := write_enable_spec attached st
      rw [fdmonOrphanStdoutEnable, if_neg detached, if_neg linked]
      by_cases enabled : (fdmonWriteEnable attached st).1
      · rw [if_pos enabled]
        refine ⟨later_succeeded st _ ?_, roots.parents, fun _ => ⟨traced, rfl, by simp [Ebpf.succeeded]⟩, ?_⟩
        · exact ⟨later.exec, later.opened, later.write, later.calls⟩
        · exact fun _ write => absurd write linked
      · rw [if_neg enabled]
        exact ⟨later, roots.parents, fun failed => (by cases failed), fun _ write => absurd write linked⟩

theorem orphan_disable_later : Later st (fdmonOrphanStdoutDisable st) := ⟨rfl, rfl, id, fun _ => id⟩

theorem watch_parent_done (done : (fdmonWatchParentFds updated key fdMask st).1) :
    st.linkSchedExec ∧ Call.watchParentFds key fdMask ∈ (fdmonWatchParentFds updated key fdMask st).2.calls ∧
    ∀ pid, (fdmonWatchParentFds updated key fdMask st).2.watchedParents.find pid =
    if pid = key then some fdMask else st.watchedParents.find pid := by
  obtain failed | ⟨exec, pids, -, failed | ⟨table, stored, made⟩⟩ := watch_parent_cases updated key fdMask st
  · simp [failed] at done
  · simp [failed] at done
  · rw [made]
    exact ⟨exec, by simp [Ebpf.succeeded], fun pid => store_find pid stored⟩

theorem watch_parent_spec : Later st (fdmonWatchParentFds updated key fdMask st).2 ∧
    (fdmonWatchParentFds updated key fdMask st).2.orphanStdoutMode = st.orphanStdoutMode ∧
    ∀ pid, pid ≠ key → (fdmonWatchParentFds updated key fdMask st).2.watchedParents.find pid =
    st.watchedParents.find pid := by
  obtain same | ⟨-, pids, made, kept⟩ := watch_parent_cases updated key fdMask st
  · simp [same, later_refl]
  · have opened : pids.isSome = st.monitoredPids.isSome := by
      rw [made]
      split
      · exact Option.isSome_map
      · rfl
    obtain kept | ⟨table, stored, kept⟩ := kept
    · rw [kept]
      exact ⟨later_pids st opened, rfl, fun _ _ => rfl⟩
    · rw [kept]
      refine ⟨later_succeeded st _ ⟨rfl, opened, id, fun _ => id⟩, rfl, fun pid other => ?_⟩
      exact (store_find pid stored).trans (if_neg other)

theorem watch_parent_succeeds (positive : pidPositive key) (exec : st.linkSchedExec)
    (room : key ∈ st.watchedParents.keys ∨ st.watchedParents.entries.length < watchedParentMax) :
    (fdmonWatchParentFds updated key fdMask st).1 := by
  obtain ⟨table, stored⟩ := store_succeeds key fdMask st.watchedParents room
  simp [fdmonWatchParentFds, positive, exec, stored, Ebpf.succeeded]

theorem unwatch_spec (order : PidMap → List UInt32) (deleted : UInt32 → Bool) (key : UInt32) (st : Ebpf) :
    Later st (fdmonUnwatchParentFds order deleted key st) ∧
    (fdmonUnwatchParentFds order deleted key st).orphanStdoutMode = st.orphanStdoutMode ∧
    (pidPositive key → ∀ pid, (fdmonUnwatchParentFds order deleted key st).watchedParents.find pid =
    if pid = key then none else st.watchedParents.find pid) := by
  by_cases positive : pidPositive key = false
  · simp [fdmonUnwatchParentFds, positive, later_refl]
  · rw [fdmonUnwatchParentFds, if_neg positive]
    exact ⟨⟨rfl, Option.isSome_map, id, fun _ => id⟩, rfl, fun _ pid => remove_find key pid st.watchedParents⟩

end Evemon.Fdmon
