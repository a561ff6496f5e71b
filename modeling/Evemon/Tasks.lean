import Evemon.FdmonMap

-- The tasks of the machine beside the BPF map that is keyed by their ids.
namespace Evemon.Fdmon

inductive Program where
  | traceEnterOpenat
  | traceExitOpenat
  | traceEnterClose
  | traceTcpSendmsg
  | traceTcpRecvmsg
  | traceTcpRecvmsgRet
  | traceUdpSendmsg
  | traceUdpRecvmsg
  | traceUdpRecvmsgRet
  | traceUdpv6Sendmsg
  | traceUdpv6Recvmsg
  | traceUdpv6RecvmsgRet
  | traceSchedProcessExit
  | traceSchedProcessExec
  | traceSchedProcessFork
deriving DecidableEq

-- The programs fdmon_ebpf_init looks up and attaches, in its order. What fdmon_write_enable
-- attaches later are the write programs only.
def attachedByInit : List Program :=
  [.traceEnterOpenat, .traceExitOpenat, .traceEnterClose, .traceTcpSendmsg, .traceTcpRecvmsg, .traceTcpRecvmsgRet,
    .traceUdpSendmsg, .traceUdpRecvmsg, .traceUdpRecvmsgRet, .traceUdpv6Sendmsg, .traceUdpv6Recvmsg,
    .traceUdpv6RecvmsgRet, .traceSchedProcessExec, .traceSchedProcessFork]

def traceSchedProcessExit (deleted : Bool) (tgid tid : UInt32) (st : Ebpf) : Ebpf :=
  if tid ≠ tgid then st
  else if deleted then { st with monitoredPids := st.monitoredPids.map (AList.erase tgid) }
  else st

def atExit (deleted : Bool) (tgid tid : UInt32) (st : Ebpf) : Ebpf :=
  if .traceSchedProcessExit ∈ attachedByInit then traceSchedProcessExit deleted tgid tid st else st

def Ebpf.entry (key : UInt32) (st : Ebpf) : Option UInt8 := st.monitoredPids.bind (AList.lookup key)

-- All ghost. `registered`: a registration named this process while it was alive. `inherited`: its
-- creator was monitored then. `descends`: it is a watched root or was created by a task of a
-- process that descends.
structure Process where
  registered : Bool := false
  inherited : Bool := false
  descends : Bool := false
deriving DecidableEq

-- Living processes by thread-group id, and the other threads with the group they are in.
-- A leader that has exited keeps its id until its threads are gone.
structure World where
  ebpf : Ebpf
  processes : UInt32 → Option Process
  threads : UInt32 → Option UInt32

def World.group (id : UInt32) (world : World) : Option UInt32 :=
  if (world.processes id).isSome then some id else world.threads id

def World.monitors (id : UInt32) (world : World) : Bool := ((world.group id).bind world.ebpf.entry).isSome

def World.descends (id : UInt32) (world : World) : Bool :=
  ((world.group id).bind world.processes).elim false Process.descends

inductive Event where
  | fork (updated : Bool) (creator child : UInt32)
  | thread (updated : Bool) (creator child : UInt32)
  | exit (deleted : Bool) (id : UInt32)
  | exec (reads : ExecReads) (pid : UInt32)
  | writeEnable (attached : Bool)
  | addPidFd (updated : Bool) (pid fd : UInt32)
  | removePidFd (updated deleted : Bool) (pid fd : UInt32)
  | watchParentFds (updated : Bool) (pid fdMask : UInt32)
  | unwatchParentFds (order : PidMap → List UInt32) (deleted : UInt32 → Bool) (pid : UInt32)
  | orphanStdoutEnable (attached : Bool)
  | orphanStdoutDisable

def orphanMask (reads : ExecReads) : UInt8 :=
  (if reads.orphaned 1 then fdBit 1 else 0) ||| (if reads.orphaned 2 then fdBit 2 else 0)

def parentMask (reads : ExecReads) (st : Ebpf) : UInt32 :=
  if reads.ppid = 0 then 0 else (st.watchedParents.find reads.ppid).getD 0

-- Whether an exec event writes an entry for its process: in orphan mode, or as a child of a
-- watched parent.
def orphanRegisters (reads : ExecReads) (st : Ebpf) : Bool :=
  st.linkSchedExec && st.orphanStdoutMode && orphanMask reads != 0 && reads.orphanUpdated

def childRegisters (reads : ExecReads) (st : Ebpf) : Bool :=
  st.linkSchedExec && parentMask reads st != 0 && reads.childUpdated

def watchRegisters (updated : Bool) (pid fdMask : UInt32) (st : Ebpf) : Bool :=
  pidPositive pid && st.linkSchedExec && fdMask != 0 && updated

-- A call that leaves `ebpf`, and that has registered `pid` if `registers`.
def World.call (registers : Bool) (pid : UInt32) (ebpf : Ebpf) (world : World) : World :=
  { world with
    ebpf := ebpf
    processes := if registers then
        Function.update world.processes pid ((world.processes pid).map fun process => { process with registered := true })
      else world.processes }

def World.step (world : World) : Event → World
  | .fork updated creator child =>
    { world with
      ebpf := traceSchedProcessFork updated creator child world.ebpf
      processes := Function.update world.processes child
        (some { inherited := world.monitors creator, descends := world.descends creator }) }
  | .thread updated creator child =>
    { world with
      ebpf := traceSchedProcessFork updated creator child world.ebpf
      threads := Function.update world.threads child (world.group creator) }
  | .exit deleted id =>
    match world.threads id with
    | some group =>
      { world with ebpf := atExit deleted group id world.ebpf, threads := Function.update world.threads id none }
    | none =>
      { world with ebpf := atExit deleted id id world.ebpf, processes := Function.update world.processes id none }
  | .exec reads pid =>
    world.call (orphanRegisters reads world.ebpf || childRegisters reads world.ebpf) pid
      (handleExec reads pid world.ebpf)
  | .writeEnable attached => { world with ebpf := (fdmonWriteEnable attached world.ebpf).2 }
  | .addPidFd updated pid fd =>
    world.call (fdmonAddPidFd updated pid fd world.ebpf).1 pid (fdmonAddPidFd updated pid fd world.ebpf).2
  | .removePidFd updated deleted pid fd => { world with ebpf := (fdmonRemovePidFd updated deleted pid fd world.ebpf).2 }
  | .watchParentFds updated pid fdMask =>
    world.call (watchRegisters updated pid fdMask world.ebpf) pid (fdmonWatchParentFds updated pid fdMask world.ebpf).2
  | .unwatchParentFds order deleted pid => { world with ebpf := fdmonUnwatchParentFds order deleted pid world.ebpf }
  | .orphanStdoutEnable attached => { world with ebpf := (fdmonOrphanStdoutEnable attached world.ebpf).2 }
  | .orphanStdoutDisable => { world with ebpf := fdmonOrphanStdoutDisable world.ebpf }

-- What the kernel guarantees: a living task creates, ids in use are not given again, and a process
-- is gone only when its threads are. An exec event may be handled at any time.
def World.Possible (world : World) : Event → Prop
  | .fork _ creator child => (world.group creator).isSome = true ∧ world.group child = none
  | .thread _ creator child => (world.group creator).isSome = true ∧ world.group child = none
  | .exit _ id =>
    (world.group id).isSome = true ∧ ((world.processes id).isSome = true → ∀ tid, world.threads tid ≠ some id)
  | _ => True

section


theorem at_exit_unattached (deleted : Bool) (tgid tid : UInt32) (st : Ebpf) : atExit deleted tgid tid st = st := by
  rw [atExit, if_neg (by decide)]

theorem entry_congr {st other : Ebpf} (same : st.monitoredPids = other.monitoredPids) (key : UInt32) :
    st.entry key = other.entry key := by
  rw [Ebpf.entry, Ebpf.entry, same]

variable (updated : Bool) (reads : ExecReads) (pid key : UInt32) (st : Ebpf) {map : PidMap}

theorem entry_opened (opened : st.monitoredPids = some map) (key : UInt32) : st.entry key = map.lookup key := by
  rw [Ebpf.entry, opened, Option.bind_some]

theorem lookup_insert_eq (pid key : UInt32) (mask : UInt8) :
    (map.insert pid mask).lookup key = if key = pid then some mask else map.lookup key := by
  by_cases here : key = pid
  · subst here
    rw [if_pos rfl, AList.lookup_insert]
  · rw [if_neg here, AList.lookup_insert_ne here]

theorem lookup_erase_eq (pid key : UInt32) : (map.erase pid).lookup key = if key = pid then none else map.lookup key := by
  by_cases here : key = pid
  · subst here
    rw [if_pos rfl, AList.lookup_erase]
  · rw [if_neg here, AList.lookup_erase_ne here]

theorem fork_entry (parent child key : UInt32) (st : Ebpf) : (traceSchedProcessFork updated parent child st).entry key =
    if key = child ∧ (st.entry parent).isSome ∧ st.linkSchedFork ∧ updated then st.entry parent else st.entry key := by
  unfold traceSchedProcessFork
  cases opened : st.monitoredPids with
  | none => simp [Ebpf.entry, opened]
  | some map =>
    simp only [entry_opened st opened]
    cases held : map.lookup parent with
    | none => simp [entry_opened st opened]
    | some mask =>
      by_cases live : st.linkSchedFork ∧ updated
      · simp [live, Ebpf.entry, lookup_insert_eq]
      · simp [live, entry_opened st opened]

theorem add_entry (pid fd key : UInt32) (st : Ebpf) : (fdmonAddPidFd updated pid fd st).2.entry key = st.entry key ∨
    key = pid ∧ (fdmonAddPidFd updated pid fd st).1 := by
  rcases add_pid_fd_cases updated pid fd st with same | ⟨map, opened, -, stored⟩
  · exact .inl (by rw [same])
  · rw [stored]
    by_cases here : key = pid
    · exact .inr ⟨here, rfl⟩
    · simp [Ebpf.succeeded, Ebpf.entry, opened, here]

theorem remove_entry (updated deleted : Bool) (pid fd key : UInt32) (st : Ebpf) :
    (fdmonRemovePidFd updated deleted pid fd st).2.entry key = st.entry key ∨ key = pid ∧ (st.entry pid).isSome := by
  obtain same | ⟨map, mask, opened, held, -, stored⟩ := @remove_pid_fd_cases updated deleted pid fd st _ rfl
  · exact .inl (by rw [same])
  · by_cases here : key = pid
    · exact .inr ⟨here, by rw [entry_opened st opened, held]; rfl⟩
    · rcases stored with stored | ⟨-, stored⟩ <;> simp [stored, Ebpf.entry, opened, here]

theorem register_pid_entry (mask : UInt8) (st : Ebpf) : (registerPid updated pid mask st).entry key = st.entry key ∨
    key = pid ∧ updated ∧ (registerPid updated pid mask st).entry key = some mask := by
  cases updated with
  | false => exact .inl rfl
  | true =>
    cases opened : st.monitoredPids with
    | none => simp [registerPid, Ebpf.entry, opened]
    | some map =>
      by_cases here : key = pid
      · subst here
        simp [registerPid, Ebpf.entry, opened]
      · simp [registerPid, Ebpf.entry, opened, here]

theorem watch_pids (pid fdMask : UInt32) (st : Ebpf) : (fdmonWatchParentFds updated pid fdMask st).2.monitoredPids =
    if watchRegisters updated pid fdMask st then st.monitoredPids.map (AList.insert pid fdMask.toUInt8)
    else st.monitoredPids := by
  unfold fdmonWatchParentFds watchRegisters
  by_cases positive : pidPositive pid = false
  · simp [positive]
  · by_cases linked : st.linkSchedExec = false
    · simp [positive, linked]
    · have live : pidPositive pid ∧ st.linkSchedExec := by simpa using And.intro positive linked
      simp only [live, Bool.true_eq_false, if_false, Bool.and_true, Bool.true_and, Bool.and_eq_true, bne_iff_ne]
      cases st.watchedParents.store pid fdMask <;> rfl

theorem watch_entry (pid fdMask key : UInt32) (st : Ebpf) :
    (fdmonWatchParentFds updated pid fdMask st).2.entry key = st.entry key ∨
    key = pid ∧ watchRegisters updated pid fdMask st ∧
    (fdmonWatchParentFds updated pid fdMask st).2.entry key = some fdMask.toUInt8 := by
  simp only [Ebpf.entry, watch_pids]
  cases registers : watchRegisters updated pid fdMask st with
  | false => exact .inl rfl
  | true =>
    cases opened : st.monitoredPids with
    | none => exact .inl rfl
    | some map =>
      by_cases here : key = pid
      · subst here
        simp
      · simp [here]

theorem erase_keys_lookup {deleted : UInt32 → Bool} {keys : List UInt32} (map : PidMap) (key : UInt32) :
    (keys.foldl (fun left other => if deleted other then left.erase other else left) map).lookup key = map.lookup key ∨
    (keys.foldl (fun left other => if deleted other then left.erase other else left) map).lookup key = none := by
  induction keys generalizing map with
  | nil => exact .inl rfl
  | cons other rest ih =>
    cases granted : deleted other with
    | false =>
      simp only [List.foldl_cons, granted]
      exact ih map
    | true =>
      simp only [List.foldl_cons, granted, if_true]
      rcases ih (map.erase other) with kept | gone
      · rw [kept, lookup_erase_eq]
        split
        · exact .inr rfl
        · exact .inl rfl
      · exact .inr gone

theorem unwatch_entry (order : PidMap → List UInt32) (deleted : UInt32 → Bool) (pid key : UInt32) (st : Ebpf) :
    (fdmonUnwatchParentFds order deleted pid st).entry key = st.entry key ∨
    (fdmonUnwatchParentFds order deleted pid st).entry key = none := by
  unfold fdmonUnwatchParentFds
  by_cases positive : pidPositive pid = false
  · rw [if_pos positive]
    exact .inl rfl
  · rw [if_neg positive]
    cases opened : st.monitoredPids with
    | none => exact .inl (by simp [Ebpf.entry, opened])
    | some map =>
      simp only [Ebpf.entry, opened, Option.map_some, Option.bind_some]
      exact erase_keys_lookup map key

theorem orphan_fds_entry : (maybeRegisterOrphanFds reads.orphaned reads.orphanUpdated pid st).entry key = st.entry key ∨
    key = pid ∧ orphanMask reads ≠ 0 ∧ reads.orphanUpdated ∧
    (maybeRegisterOrphanFds reads.orphaned reads.orphanUpdated pid st).entry key = some (orphanMask reads) := by
  unfold maybeRegisterOrphanFds
  by_cases none : orphanMask reads = 0
  · left
    rw [orphanMask] at none
    simp only [none, if_true]
  · have some := none
    rw [orphanMask] at none
    simp only [none, if_false]
    rcases register_pid_entry reads.orphanUpdated pid key (orphanMask reads) st with same | ⟨here, updated, written⟩
    · exact .inl same
    · exact .inr ⟨here, some, updated, written⟩

theorem child_fds_entry : (registerChildFds reads pid st).entry key = st.entry key ∨
    key = pid ∧ parentMask reads st ≠ 0 ∧ reads.childUpdated ∧
    (registerChildFds reads pid st).entry key = some (parentMask reads st).toUInt8 := by
  unfold registerChildFds
  by_cases skipped : st.watchedParents.entries = [] ∨ reads.ppid = 0
  · rw [if_pos skipped]
    exact .inl rfl
  · rw [if_neg skipped]
    have mask : parentMask reads st = (st.watchedParents.find reads.ppid).getD 0 := by
      rw [parentMask, if_neg (fun zero => skipped (.inr zero))]
    rw [← mask]
    by_cases zero : parentMask reads st = 0
    · simp only [zero, if_true]
      exact .inl trivial
    · simp only [zero, if_false]
      rcases register_pid_entry reads.childUpdated pid key (parentMask reads st).toUInt8 st with same | ⟨here, updated, written⟩
      · exact .inl same
      · exact .inr ⟨here, zero, updated, written⟩

theorem exec_entry : (handleExec reads pid st).entry key = st.entry key ∨
    key = pid ∧ orphanRegisters reads st ∧ (handleExec reads pid st).entry key = some (orphanMask reads) ∨
    key = pid ∧ childRegisters reads st ∧ (handleExec reads pid st).entry key = some (parentMask reads st).toUInt8 := by
  unfold handleExec
  by_cases unlinked : st.linkSchedExec = false
  · rw [if_pos unlinked]
    exact .inl rfl
  · rw [if_neg unlinked]
    have linked : st.linkSchedExec := by simpa using unlinked
    cases orphan : st.orphanStdoutMode with
    | false =>
      simp only [Bool.false_eq_true, if_false]
      rcases child_fds_entry reads pid key st with same | ⟨here, nonzero, updated, written⟩
      · exact .inl same
      · exact .inr (.inr ⟨here, by simp [childRegisters, linked, nonzero, updated], written⟩)
    | true =>
      simp only [if_true]
      have parents : parentMask reads (maybeRegisterOrphanFds reads.orphaned reads.orphanUpdated pid st) =
          parentMask reads st := by
        obtain ⟨_, _, same⟩ := orphan_fds_only reads.orphaned reads.orphanUpdated pid st
        rw [parentMask, same, parentMask]
      rcases child_fds_entry reads pid key (maybeRegisterOrphanFds reads.orphaned reads.orphanUpdated pid st) with
        same | ⟨here, nonzero, updated, written⟩
      · rw [same]
        rcases orphan_fds_entry reads pid key st with same | ⟨here, nonzero, updated, written⟩
        · exact .inl same
        · exact .inr (.inl ⟨here, by simp [orphanRegisters, linked, orphan, nonzero, updated], written⟩)
      · rw [parents] at nonzero written
        exact .inr (.inr ⟨here, by simp [childRegisters, linked, nonzero, updated], written⟩)

variable (attached : Bool)

theorem write_enable_entry (key : UInt32) (st : Ebpf) : (fdmonWriteEnable attached st).2.entry key = st.entry key :=
  entry_congr (write_enable_pids attached st) key

theorem orphan_enable_entry (key : UInt32) (st : Ebpf) :
    (fdmonOrphanStdoutEnable attached st).2.entry key = st.entry key :=
  entry_congr (orphan_enable_pids attached st) key

end

end Evemon.Fdmon
