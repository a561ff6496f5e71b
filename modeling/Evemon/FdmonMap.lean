import Evemon.Fdmon

-- What each call does to the set of monitored (PID, descriptor) pairs when the kernel
-- grants its requests.
namespace Evemon.Fdmon

open List AList Option

def IsFd (fd : UInt32) : Prop := fd = 1 ∨ fd = 2

@[simp] theorem has_fd_zero (fd : UInt32) : hasFd 0 fd = false := by simp [hasFd]

theorem mask_or_and (a b c : UInt8) : (a ||| b) &&& c = (a &&& c) ||| (b &&& c) := by
  rw [← UInt8.toBitVec_inj]
  simp only [UInt8.toBitVec_and, UInt8.toBitVec_or, BitVec.and_or_distrib_right]

theorem has_fd_or (a b : UInt8) (fd : UInt32) : hasFd (a ||| b) fd = (hasFd a fd || hasFd b fd) := by
  rw [Bool.eq_iff_iff, Bool.or_eq_true]
  simp only [hasFd, bne_iff_ne, mask_or_and, ne_eq, UInt8.or_eq_zero_iff, not_and_or]

variable {fd other : UInt32}

theorem has_fd_bit (isFd : IsFd fd) (otherFd : IsFd other) : hasFd (fdBit other) fd = decide (fd = other) := by
  rcases isFd with rfl | rfl <;> rcases otherFd with rfl | rfl <;> decide

theorem has_fd_clear (mask : UInt8) (isFd : IsFd fd) (otherFd : IsFd other) :
    hasFd (mask &&& ~~~fdBit other) fd = (hasFd mask fd && decide (fd ≠ other)) := by
  rw [hasFd, hasFd, UInt8.and_assoc]
  rcases isFd with rfl | rfl <;> rcases otherFd with rfl | rfl
  · simp [show ~~~fdBit 1 &&& fdBit 1 = 0 by decide]
  · simp [show ~~~fdBit 2 &&& fdBit 1 = fdBit 1 by decide]
  · simp [show ~~~fdBit 1 &&& fdBit 2 = fdBit 2 by decide]
  · simp [show ~~~fdBit 2 &&& fdBit 2 = 0 by decide]

theorem is_fd_of_monitored {pid fd} {st : Ebpf} (held : st.monitored pid fd) : IsFd fd := by
  simp only [Ebpf.monitored, Bool.and_eq_true, Bool.or_eq_true, beq_iff_eq] at held
  exact held.1

theorem monitored_eq (pid : UInt32) (st : Ebpf) (isFd : IsFd fd) : st.monitored pid fd = hasFd (st.mask pid) fd := by
  rcases isFd with rfl | rfl <;> simp [Ebpf.monitored]

variable (st : Ebpf)

theorem monitored_congr {other : Ebpf} (same : st.monitoredPids = other.monitoredPids) (pid fd : UInt32) :
    st.monitored pid fd = other.monitored pid fd := by
  simp only [Ebpf.monitored, Ebpf.mask, same]

variable (attached : Bool)

theorem write_enable_pids (st : Ebpf) : (fdmonWriteEnable attached st).2.monitoredPids = st.monitoredPids := by
  cases linked : st.linkEnterWrite <;> cases attached <;> simp [fdmonWriteEnable, linked, Ebpf.succeeded]

theorem orphan_enable_pids (st : Ebpf) : (fdmonOrphanStdoutEnable attached st).2.monitoredPids = st.monitoredPids := by
  cases exec : st.linkSchedExec <;> cases linked : st.linkEnterWrite <;> cases attached <;>
    simp [fdmonOrphanStdoutEnable, fdmonWriteEnable, exec, linked, Ebpf.succeeded]

theorem mask_insert (map : PidMap) (pid key : UInt32) (mask : UInt8) :
    { st with monitoredPids := some (map.insert key mask) }.mask pid =
      if pid = key then mask else (map.lookup pid).getD 0 := by
  by_cases here : pid = key
  · subst here
    simp [Ebpf.mask]
  · simp [Ebpf.mask, here, lookup_insert_ne here]

theorem mask_erase (map : PidMap) (pid key : UInt32) :
    { st with monitoredPids := some (map.erase key) }.mask pid = if pid = key then 0 else (map.lookup pid).getD 0 := by
  by_cases here : pid = key
  · subst here
    simp [Ebpf.mask]
  · simp [Ebpf.mask, here, lookup_erase_ne here]

variable (updated : Bool)

theorem add_pid_fd_cases (pid fd : UInt32) (st : Ebpf) :
    fdmonAddPidFd updated pid fd st = (false, st) ∨ ∃ map, st.monitoredPids = some map ∧ IsFd fd ∧
      fdmonAddPidFd updated pid fd st = { st with
        monitoredPids := some (map.insert pid ((map.lookup pid).getD 0 ||| fdBit fd)) }.succeeded (.addPidFd pid fd) := by
  unfold fdmonAddPidFd
  cases st.monitoredPids with
  | none => exact .inl rfl
  | some map =>
    by_cases outside : fd ≠ 1 ∧ fd ≠ 2
    · exact .inl (if_pos outside)
    · cases updated with
      | false => simp
      | true => exact .inr ⟨map, rfl, or_iff_not_imp_left.mpr (by simpa using outside), if_neg outside⟩

theorem remove_pid_fd_cases {updated deleted} {pid fd} {st after : Ebpf}
    (run : (fdmonRemovePidFd updated deleted pid fd st).2 = after) : after = st ∨ ∃ map mask, st.monitoredPids = some map ∧
      map.lookup pid = some mask ∧ IsFd fd ∧
        (after = { st with monitoredPids := some (map.erase pid) } ∨ mask &&& ~~~fdBit fd ≠ 0 ∧
          after = { st with monitoredPids := some (map.insert pid (mask &&& ~~~fdBit fd)) }) := by
  subst run
  unfold fdmonRemovePidFd
  cases st.monitoredPids with
  | none => exact .inl rfl
  | some map =>
    by_cases outside : fd ≠ 1 ∧ fd ≠ 2
    · simp [outside]
    · have isFd : IsFd fd := or_iff_not_imp_left.mpr (by simpa using outside)
      simp only [if_neg outside]
      cases found : map.lookup pid with
      | none => exact .inl rfl
      | some mask =>
        by_cases last : mask &&& ~~~fdBit fd = 0
        · cases deleted <;> simp [last, isFd, found]
        · cases updated <;> simp [last, isFd, found]

theorem fork_cases (parent child : UInt32) (st : Ebpf) :
    traceSchedProcessFork updated parent child st = st ∨ ∃ map mask, st.monitoredPids = some map ∧
      map.lookup parent = some mask ∧ traceSchedProcessFork updated parent child st =
        { st with monitoredPids := some (map.insert child mask) } := by
  unfold traceSchedProcessFork
  cases st.monitoredPids with
  | none => exact .inl rfl
  | some map =>
    cases found : map.lookup parent with
    | none => simp [found]
    | some mask => by_cases live : st.linkSchedFork ∧ updated <;> simp [found, live]

def OnlyPids (st after : Ebpf) : Prop :=
  ∃ pids, pids.isSome = st.monitoredPids.isSome ∧ after = { st with monitoredPids := pids }

theorem only_pids_refl : OnlyPids st st := ⟨_, rfl, rfl⟩

theorem remove_pid_fd_only (deleted : Bool) (pid fd : UInt32) (st : Ebpf) :
    OnlyPids st (fdmonRemovePidFd updated deleted pid fd st).2 := by
  obtain same | ⟨map, mask, opened, -, -, stored | ⟨-, stored⟩⟩ := @remove_pid_fd_cases updated deleted pid fd st _ rfl
  · rw [same]
    exact only_pids_refl st
  all_goals exact ⟨_, by rw [opened]; rfl, stored⟩

theorem fork_only (parent child : UInt32) (st : Ebpf) : OnlyPids st (traceSchedProcessFork updated parent child st) := by
  rcases fork_cases updated parent child st with same | ⟨map, mask, opened, -, stored⟩
  · rw [same]
    exact only_pids_refl st
  · exact ⟨_, by rw [opened]; rfl, stored⟩

theorem register_pid_only {updated} {pid} {mask} : OnlyPids st (registerPid updated pid mask st) := by
  cases updated with
  | false => exact only_pids_refl st
  | true => exact ⟨_, isSome_map, rfl⟩

theorem orphan_fds_only (orphaned : UInt32 → Bool) (updated : Bool) (pid : UInt32) (st : Ebpf) :
    OnlyPids st (maybeRegisterOrphanFds orphaned updated pid st) := by
  simp only [maybeRegisterOrphanFds]
  generalize (if orphaned 1 then fdBit 1 else 0) ||| (if orphaned 2 then fdBit 2 else 0) = mask
  split
  · exact only_pids_refl st
  · exact register_pid_only st

variable (reads : ExecReads)

theorem child_fds_only (pid : UInt32) (st : Ebpf) : OnlyPids st (registerChildFds reads pid st) := by
  simp only [registerChildFds]
  split
  · exact only_pids_refl st
  · split
    · exact only_pids_refl st
    · exact register_pid_only st

theorem exec_only (pid : UInt32) (st : Ebpf) : OnlyPids st (handleExec reads pid st) := by
  unfold handleExec
  split
  · exact only_pids_refl st
  · split
    · obtain ⟨pids, opened, first⟩ := orphan_fds_only reads.orphaned reads.orphanUpdated pid st
      rw [first]
      obtain ⟨later, kept, second⟩ := child_fds_only reads pid { st with monitoredPids := pids }
      exact ⟨later, kept.trans opened, second⟩
    · exact child_fds_only reads pid st

variable (key : UInt32)

theorem add_pid_fd_monitored {other} (pid fd : UInt32) (st : Ebpf) (isFd : IsFd fd)
    (done : (fdmonAddPidFd true key other st).1) : (fdmonAddPidFd true key other st).2.monitored pid fd =
    (st.monitored pid fd || decide (pid = key ∧ fd = other)) := by
  rw [monitored_eq pid st isFd, monitored_eq pid _ isFd]
  rcases add_pid_fd_cases true key other st with same | ⟨map, opened, otherFd, stored⟩
  · simp [same] at done
  · have before : st.mask pid = (map.lookup pid).getD 0 := by simp [Ebpf.mask, opened]
    rw [stored, before]
    refine (congrArg (hasFd · fd) (mask_insert st map pid key _)).trans ?_
    by_cases here : pid = key
    · subst here
      simp [has_fd_or, has_fd_bit isFd otherFd]
    · simp [here]

theorem remove_pid_fd_monitored (other pid fd : UInt32) (st : Ebpf) (isFd : IsFd fd) :
    (fdmonRemovePidFd true true key other st).2.monitored pid fd =
    (st.monitored pid fd && !decide (pid = key ∧ fd = other)) := by
  rw [monitored_eq pid st isFd, monitored_eq pid _ isFd]
  cases opened : st.monitoredPids with
  | none => simp [fdmonRemovePidFd, opened, Ebpf.mask]
  | some map =>
    have before : st.mask pid = (map.lookup pid).getD 0 := by simp [Ebpf.mask, opened]
    by_cases outside : other ≠ 1 ∧ other ≠ 2
    · have unequal : fd ≠ other := by
        rintro rfl
        exact isFd.elim outside.1 outside.2
      simp [fdmonRemovePidFd, opened, outside, unequal]
    · have otherFd : IsFd other := by
        simp only [ne_eq, not_and_or, not_not] at outside
        exact outside
      cases found : map.lookup key with
      | none =>
        simp only [fdmonRemovePidFd, opened, if_neg outside, found, before]
        by_cases here : pid = key
        · subst here
          simp [found]
        · simp [here]
      | some mask =>
        have cleared := has_fd_clear mask isFd otherFd
        by_cases last : mask &&& ~~~fdBit other = 0
        · simp only [fdmonRemovePidFd, opened, if_neg outside, found, last, if_true, mask_erase, before]
          by_cases here : pid = key
          · subst here
            rw [last, has_fd_zero] at cleared
            simpa [found] using cleared
          · simp [here]
        · simp only [fdmonRemovePidFd, opened, if_neg outside, found, last, if_false, if_true, mask_insert, before]
          by_cases here : pid = key
          · subst here
            simp [found, cleared]
          · simp [here]

theorem watch_parent_cases (key fdMask : UInt32) (st : Ebpf) :
    fdmonWatchParentFds updated key fdMask st = (false, st) ∨ st.linkSchedExec ∧ ∃ pids,
      (pids = if fdMask ≠ 0 ∧ updated then st.monitoredPids.map (AList.insert key fdMask.toUInt8) else st.monitoredPids) ∧
        (fdmonWatchParentFds updated key fdMask st = (false, { st with monitoredPids := pids }) ∨
          ∃ table, st.watchedParents.store key fdMask = some table ∧ fdmonWatchParentFds updated key fdMask st =
            { st with monitoredPids := pids, watchedParents := table }.succeeded (.watchParentFds key fdMask)) := by
  unfold fdmonWatchParentFds
  split
  · exact .inl rfl
  · split
    · exact .inl rfl
    · rename_i detached
      refine .inr ⟨by simpa using detached, _, rfl, ?_⟩
      cases st.watchedParents.store key fdMask with
      | none => exact .inl rfl
      | some table => exact .inr ⟨table, rfl, rfl⟩

theorem watch_parent_monitored (fdMask pid fd : UInt32) (st : Ebpf) (map : PidMap) (isFd : IsFd fd)
    (opened : st.monitoredPids = some map) (nonzero : fdMask ≠ 0) (done : (fdmonWatchParentFds true key fdMask st).1) :
    (fdmonWatchParentFds true key fdMask st).2.monitored pid fd =
    if pid = key then hasFd fdMask.toUInt8 fd else st.monitored pid fd := by
  rw [monitored_eq pid st isFd, monitored_eq pid _ isFd]
  obtain failed | ⟨-, pids, made, failed | ⟨table, -, stored⟩⟩ := watch_parent_cases true key fdMask st
  · simp [failed] at done
  · simp [failed] at done
  · have before : st.mask pid = (map.lookup pid).getD 0 := by simp [Ebpf.mask, opened]
    rw [if_pos ⟨nonzero, rfl⟩, opened] at made
    subst made
    rw [stored, before]
    refine (congrArg (hasFd · fd) (mask_insert st map pid key _)).trans ?_
    by_cases here : pid = key <;> simp [here]

variable {deleted : UInt32 → Bool}

theorem erase_all_lookup (keys : List UInt32) (granted : ∀ key, deleted key) (map : PidMap) (pid : UInt32) :
    (keys.foldl (fun left key => if deleted key then left.erase key else left) map).lookup pid =
    if pid ∈ keys then none else map.lookup pid := by
  induction keys generalizing map with
  | nil => simp
  | cons key rest ih =>
    simp only [foldl_cons, granted, if_true, mem_cons] at ih ⊢
    rw [ih]
    by_cases later : pid ∈ rest
    · simp [later]
    · by_cases here : pid = key
      · subst here
        simp [later]
      · simp [later, here, lookup_erase_ne here]

variable {order : List UInt32}

theorem flush_lookup (granted : ∀ key, deleted key) (map : PidMap) (pid : UInt32) :
    (flush order deleted map).lookup pid = if pid ∈ order.take flushMax then none else map.lookup pid :=
  erase_all_lookup (order.take flushMax) granted map pid

theorem pid_map_empty {map : PidMap} (absent : ∀ pid, map.lookup pid = none) : map = ∅ := by
  apply AList.ext
  cases held : map.entries with
  | nil => rfl
  | cons entry rest =>
    have present : entry.1 ∈ map := by
      rw [AList.mem_keys, AList.keys, held]
      exact mem_cons_self
    exact absurd present (AList.lookup_eq_none.mp (absent entry.1))

theorem flush_small {deleted : UInt32 → Bool} (granted : ∀ key, deleted key) (map : PidMap)
    (complete : order.Perm map.keys) (small : map.keys.length ≤ flushMax) : flush order deleted map = ∅ := by
  refine pid_map_empty fun pid => ?_
  rw [flush_lookup granted, take_of_length_le (complete.length_eq ▸ small)]
  by_cases present : pid ∈ order
  · rw [if_pos present]
  · rw [if_neg present]
    exact lookup_eq_none.mpr fun held => present (complete.mem_iff.mpr (mem_keys.mp held))

theorem unwatch_monitored {order : PidMap → List UInt32} {deleted : UInt32 → Bool}
    (granted : ∀ key, deleted key) {key} (pid fd : UInt32) (st : Ebpf)
    (held : (fdmonUnwatchParentFds order deleted key st).monitored pid fd) : st.monitored pid fd := by
  have isFd := is_fd_of_monitored held
  rw [monitored_eq pid _ isFd] at held ⊢
  by_cases positive : pidPositive key = false
  · rwa [fdmonUnwatchParentFds, if_pos positive] at held
  · rw [fdmonUnwatchParentFds, if_neg positive] at held
    cases opened : st.monitoredPids with
    | none => simp [Ebpf.mask, opened] at held
    | some map =>
      simp only [Ebpf.mask, opened, map_some, bind_some, flush_lookup granted] at held ⊢
      by_cases flushed : pid ∈ (order map).take flushMax
      · simp [flushed] at held
      · rwa [if_neg flushed] at held

end Evemon.Fdmon
