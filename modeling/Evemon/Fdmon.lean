import Mathlib.Data.List.AList
import Evemon.Lib.SwapTable

namespace Evemon.Fdmon

-- The monitored_pids BPF hash map: PID to the mask of monitored descriptors.
abbrev PidMap := AList fun _ : UInt32 => UInt8

def fdBit (fd : UInt32) : UInt8 := 1 <<< (fd - 1).toUInt8

def hasFd (mask : UInt8) (fd : UInt32) : Bool := mask &&& fdBit fd != 0

def watchedParentMax : Nat := 64

abbrev WatchedParents := SwapTable UInt32 UInt32 watchedParentMax

inductive Call where
  | writeEnable
  | addPidFd (pid fd : UInt32)
  | watchParentFds (pid fdMask : UInt32)
  | orphanStdoutEnable

-- `monitoredPids` is none where monitored_pids_map_fd is negative. `calls` is ghost: the
-- calls that have succeeded so far.
structure Ebpf where
  linkEnterWrite : Bool := false
  linkSchedExec : Bool
  linkSchedFork : Bool
  monitoredPids : Option PidMap
  orphanStdoutMode : Bool := false
  watchedParents : WatchedParents := SwapTable.empty
  calls : List Call := []

def Ebpf.succeeded (call : Call) (st : Ebpf) : Bool × Ebpf := (true, { st with calls := st.calls ++ [call] })

-- Here and below `attached`, `updated` and `deleted` are the kernel's answers to the
-- requests of that kind that the function makes.
def fdmonWriteEnable (attached : Bool) (st : Ebpf) : Bool × Ebpf :=
  if st.linkEnterWrite then st.succeeded .writeEnable
  else if attached then { st with linkEnterWrite := true }.succeeded .writeEnable
  else (false, st)

def fdmonAddPidFd (updated : Bool) (pid fd : UInt32) (st : Ebpf) : Bool × Ebpf :=
  match st.monitoredPids with
  | none => (false, st)
  | some map =>
    if fd ≠ 1 ∧ fd ≠ 2 then (false, st)
    else
      let mask := (map.lookup pid).getD 0 ||| fdBit fd
      if updated then { st with monitoredPids := some (map.insert pid mask) }.succeeded (.addPidFd pid fd)
      else (false, st)

def fdmonRemovePidFd (updated deleted : Bool) (pid fd : UInt32) (st : Ebpf) : Bool × Ebpf :=
  match st.monitoredPids with
  | none => (false, st)
  | some map =>
    if fd ≠ 1 ∧ fd ≠ 2 then (false, st)
    else
      match map.lookup pid with
      | none => (true, st)
      | some mask =>
        let left := mask &&& ~~~fdBit fd
        if left = 0 then
          if deleted then (true, { st with monitoredPids := some (map.erase pid) }) else (false, st)
        else if updated then (true, { st with monitoredPids := some (map.insert pid left) })
        else (false, st)

def fdmonOrphanStdoutEnable (attached : Bool) (st : Ebpf) : Bool × Ebpf :=
  if st.linkSchedExec = false then (false, st)
  else
    let enabled := if st.linkEnterWrite then (true, st) else fdmonWriteEnable attached st
    if enabled.1 then { enabled.2 with orphanStdoutMode := true }.succeeded .orphanStdoutEnable
    else (false, enabled.2)

def fdmonOrphanStdoutDisable (st : Ebpf) : Ebpf := { st with orphanStdoutMode := false }

def pidPositive (pid : UInt32) : Bool := decide (0 < pid ∧ pid ≤ 0x7fffffff)

def fdmonWatchParentFds (updated : Bool) (pid fdMask : UInt32) (st : Ebpf) : Bool × Ebpf :=
  if pidPositive pid = false then (false, st)
  else if st.linkSchedExec = false then (false, st)
  else
    -- The mask replaces what the map holds for the PID, and the answer is not looked at.
    let pids := if fdMask ≠ 0 ∧ updated then st.monitoredPids.map (AList.insert pid fdMask.toUInt8)
      else st.monitoredPids
    match st.watchedParents.store pid fdMask with
    | some table => { st with monitoredPids := pids, watchedParents := table }.succeeded (.watchParentFds pid fdMask)
    | none => (false, { st with monitoredPids := pids })

def flushMax : Nat := 8192

-- Collect the first 8192 keys in the order of traversal, then delete each of them.
def flush (order : List UInt32) (deleted : UInt32 → Bool) (map : PidMap) : PidMap :=
  (order.take flushMax).foldl (fun left key => if deleted key then left.erase key else left) map

def fdmonUnwatchParentFds (order : PidMap → List UInt32) (deleted : UInt32 → Bool) (pid : UInt32) (st : Ebpf) :
    Ebpf :=
  if pidPositive pid = false then st
  else
    { st with
      monitoredPids := st.monitoredPids.map fun map => flush (order map) deleted map
      watchedParents := st.watchedParents.remove pid }

-- The kernel program, where it is attached: a child starts with its parent's mask.
def traceSchedProcessFork (updated : Bool) (parent child : UInt32) (st : Ebpf) : Ebpf :=
  match st.monitoredPids with
  | none => st
  | some map =>
    match map.lookup parent with
    | none => st
    | some mask =>
      if st.linkSchedFork ∧ updated then { st with monitoredPids := some (map.insert child mask) } else st

-- bpf_map_update_elem from the reader thread, whose answer is not looked at.
def registerPid (updated : Bool) (pid : UInt32) (mask : UInt8) (st : Ebpf) : Ebpf :=
  if updated then { st with monitoredPids := st.monitoredPids.map (AList.insert pid mask) } else st

def maybeRegisterOrphanFds (orphaned : UInt32 → Bool) (updated : Bool) (pid : UInt32) (st : Ebpf) : Ebpf :=
  let mask := (if orphaned 1 then fdBit 1 else 0) ||| (if orphaned 2 then fdBit 2 else 0)
  if mask = 0 then st else registerPid updated pid mask st

-- What an exec event finds in /proc: which descriptors have orphaned output, and the
-- parent, 0 where it could not be read. The two map updates are answered separately.
structure ExecReads where
  orphaned : UInt32 → Bool
  ppid : UInt32
  orphanUpdated : Bool
  childUpdated : Bool

def registerChildFds (reads : ExecReads) (pid : UInt32) (st : Ebpf) : Ebpf :=
  if st.watchedParents.entries = [] ∨ reads.ppid = 0 then st
  else
    let fdMask := (st.watchedParents.find reads.ppid).getD 0
    if fdMask = 0 then st else registerPid reads.childUpdated pid fdMask.toUInt8 st

-- The FDMON_BPF_EXEC branch of handle_event. Without the tracepoint no such event arrives.
def handleExec (reads : ExecReads) (pid : UInt32) (st : Ebpf) : Ebpf :=
  if st.linkSchedExec = false then st
  else
    registerChildFds reads pid
      (if st.orphanStdoutMode then maybeRegisterOrphanFds reads.orphaned reads.orphanUpdated pid st else st)

def Ebpf.mask (pid : UInt32) (st : Ebpf) : UInt8 := ((st.monitoredPids.bind (AList.lookup pid)).getD 0)

def Ebpf.monitored (pid fd : UInt32) (st : Ebpf) : Bool := (fd == 1 || fd == 2) && hasFd (st.mask pid) fd

end Evemon.Fdmon
