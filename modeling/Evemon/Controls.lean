import Evemon.Fdmon
import Evemon.Lib.Collect
import Evemon.Lib.Runs
import Evemon.Snapshot

namespace Evemon.Controls

open Fdmon Ipc Function

structure Watch where
  kind : UInt32
  pid : UInt32
  value : UInt32
deriving DecidableEq

-- The checks query_controls_replace makes on every record of a CONTROL body.
def watchRejected (w : Watch) : Bool :=
  decide (w.kind < 1) || decide (w.kind > 3) || decide (w.pid > intMax) ||
    (decide (w.kind ≠ 3) && decide (w.pid = 0)) || (decide (w.kind = 1) && decide (w.value > intMax)) ||
    (decide (w.kind = 2) && (decide (w.value = 0) || decide (w.value > 3))) ||
    (decide (w.kind = 3) && (decide (w.pid ≠ 0) || decide (w.value ≠ 0)))

abbrev Registration := { w : Watch // watchRejected w = false }

def clientsMax : Nat := 16
def ownerSlots : Nat := 16
def watchesMax : Nat := 128

structure OwnerSlot where
  owner : UInt64
  watches : List Registration
  bounded : watches.length ≤ watchesMax

def OwnerSlot.free : OwnerSlot := ⟨0, [], Nat.zero_le _⟩

abbrev Owners := Fin ownerSlots → OwnerSlot

def registrations (owners : Owners) : List Watch :=
  (List.finRange ownerSlots).flatMap fun slot => (owners slot).watches.map Subtype.val

def watchKey (w : Watch) : UInt32 × UInt32 × UInt32 := (w.kind, w.pid, if w.kind = 1 then w.value else 0)

def sameWatch (a b : Watch) : Bool :=
  decide (a.kind = b.kind) && decide (a.pid = b.pid) && (decide (a.kind ≠ 1) || decide (a.value = b.value))

def mergeWatch (entry w : Watch) : Watch :=
  if w.kind = 2 then { entry with value := entry.value ||| w.value } else entry

def collectUnion (owners : Owners) : List Watch := Collect.collect sameWatch mergeWatch (registrations owners)

def contains (set : List Watch) (w : Watch) : Bool := set.any fun entry => sameWatch entry w

-- The kernel's answers during one apply_union, told apart by the registration, as each is withdrawn
-- or applied at most once in it. `order` is the order in which the hash map is traversed.
structure Kernel where
  attach : Bool
  update : Watch → Bool
  delete : Watch → UInt32 → Bool
  order : PidMap → List UInt32
  complete : ∀ map, (order map).Perm map.keys

def withdrawWatch (kernel : Kernel) (w : Watch) (st : Ebpf) : Ebpf :=
  if w.kind = 1 then (fdmonRemovePidFd (kernel.update w) (kernel.delete w w.pid) w.pid w.value st).2
  else if w.kind = 2 then fdmonUnwatchParentFds kernel.order (kernel.delete w) w.pid st
  else fdmonOrphanStdoutDisable st

def addWatch (kernel : Kernel) (w : Watch) (st : Ebpf) : Bool × Ebpf :=
  if w.kind = 1 then fdmonAddPidFd (kernel.update w) w.pid w.value st
  else if w.kind = 2 then fdmonWatchParentFds (kernel.update w) w.pid w.value st
  else fdmonOrphanStdoutEnable kernel.attach st

def withdraw (kernel : Kernel) (next : List Watch) (old : List Watch) (st : Ebpf) : Ebpf :=
  old.foldl (fun st w => if contains next w then st else withdrawWatch kernel w st) st

def reapply (kernel : Kernel) : List Watch → Ebpf → Bool × Ebpf
  | [], st => (true, st)
  | w :: rest, st =>
    let added := addWatch kernel w st
    if added.1 then reapply kernel rest added.2 else (false, added.2)

def applyUnion (kernel : Kernel) (old next : List Watch) (st : Ebpf) : Bool × Ebpf :=
  if next ≠ [] then
    let enabled := fdmonWriteEnable kernel.attach st
    if enabled.1 then reapply kernel next (withdraw kernel next old enabled.2) else (false, enabled.2)
  else (true, withdraw kernel next old st)

def getWatch : Wire (Option Registration) := do
  let kind ← ipcGetU32
  let pid ← ipcGetU32
  let value ← ipcGetU32
  if accepted : watchRejected ⟨kind, pid, value⟩ = false then pure (some ⟨⟨kind, pid, value⟩, accepted⟩)
  else pure none

-- The loop returns IPC_BAD_REQUEST at the first record it rejects.
def getWatches : (count : Nat) → Wire (Option { watches : List Registration // watches.length = count })
  | 0 => pure (some ⟨[], rfl⟩)
  | count + 1 => do
      let first ← getWatch
      match first with
      | none => pure none
      | some w =>
        let rest ← getWatches count
        pure (rest.map fun later => ⟨w :: later.val, congrArg (· + 1) later.property⟩)

abbrev Replacement := { watches : List Registration // watches.length ≤ watchesMax }

def getReplacement : Wire (Option Replacement) := do
  let count ← ipcGetU32
  if short : count.toNat ≤ watchesMax then
    let watches ← getWatches count.toNat
    let done ← Prog.inspect fun state => ipcDone state.buf
    if done then pure (watches.map fun w => ⟨w.val, Nat.le_trans (Nat.le_of_eq w.property) short⟩) else pure none
  else pure none

-- `ebpfActive`: there is an fdmon context with an active eBPF backend. Without it no registration
-- is accepted. `lineage` is ghost: the parent of every process forked so far.
structure Tracing where
  ebpfActive : Bool
  ebpf : Ebpf
  owners : Owners := fun _ => OwnerSlot.free
  lineage : AList (fun _ : UInt32 => UInt32) := ∅

def findSlot (owner : UInt64) (owners : Owners) : Option (Fin ownerSlots) :=
  ((List.finRange ownerSlots).find? fun slot => (owners slot).owner = owner).or
    ((List.finRange ownerSlots).find? fun slot => (owners slot).owner = 0)

def replaceWatches (owner : UInt64) (watches : Replacement) (forward rollback : Kernel) (t : Tracing) :
    Option IpcCode × Tracing :=
  if watches.val ≠ [] ∧ t.ebpfActive = false then (some .unsupported, t)
  else
    match findSlot owner t.owners with
    | none => (some .busy, t)
    | some slot =>
      let before := collectUnion t.owners
      let previous := t.owners slot
      let owners := update t.owners slot ⟨owner, watches.val, watches.property⟩
      let after := collectUnion owners
      let applied := applyUnion forward before after t.ebpf
      if applied.1 then
        (none, { t with
          owners := if watches.val = [] then update owners slot OwnerSlot.free else owners
          ebpf := applied.2 })
      else
        (some .internal, { t with
          owners := update owners slot previous
          ebpf := (applyUnion rollback after before applied.2).2 })

-- The reply code, `none` for 0, and the new state.
def queryControlsReplace (owner : UInt64) (request : WireState) (forward rollback : Kernel) (t : Tracing) :
    Option IpcCode × Tracing :=
  match (getReplacement.run request).1 with
  | none => (some .badRequest, t)
  | some watches => replaceWatches owner watches forward rollback t

def holdsSlot (owner : UInt64) (owners : Owners) : Bool :=
  (List.finRange ownerSlots).any fun slot => (owners slot).owner = owner

-- ipc_put_u32 may fail to allocate, and the request is read back from position 0.
def emptyRequest (heap : Heap) : WireState := ((ipcPutU32 0).run { buf := {}, heap := heap }).2

def queryControlsDrop (owner : UInt64) (heap : Heap) (forward rollback : Kernel) (t : Tracing) : Tracing :=
  if holdsSlot owner t.owners then (queryControlsReplace owner (emptyRequest heap) forward rollback t).2 else t

inductive Control where
  | replace (request : WireState)
  | drop (heap : Heap)

structure Command where
  owner : UInt64
  control : Control
  forward : Kernel
  rollback : Kernel

def Command.step (c : Command) (t : Tracing) : Tracing :=
  match c.control with
  | .replace request => (queryControlsReplace c.owner request c.forward c.rollback t).2
  | .drop heap => queryControlsDrop c.owner heap c.forward c.rollback t

def requested (owner : UInt64) (request : WireState) (t : Tracing) : Option Owners :=
  (getReplacement.run request).1.bind fun watches =>
    if watches.val ≠ [] ∧ t.ebpfActive = false then none
    else (findSlot owner t.owners).map fun slot =>
      update t.owners slot ⟨owner, watches.val, watches.property⟩

def Command.requested (c : Command) (t : Tracing) : Option Owners :=
  match c.control with
  | .replace request => Controls.requested c.owner request t
  | .drop heap => if holdsSlot c.owner t.owners then Controls.requested c.owner (emptyRequest heap) t else none

inductive Action where
  | command (c : Command)
  | fork (parent child : UInt32) (updated : Bool)
  | exec (pid : UInt32) (reads : ExecReads)

-- A forked child takes the place of any earlier process of that PID in the tree.
def forked (parent child : UInt32) (lineage : AList fun _ : UInt32 => UInt32) : AList fun _ : UInt32 => UInt32 :=
  (lineage.keys.foldl (fun left pid => if left.lookup pid = some child then left.erase pid else left) lineage).insert
    child parent

def step (t : Tracing) : Action → Tracing
  | .command c => c.step t
  | .fork parent child updated =>
    { t with ebpf := traceSchedProcessFork updated parent child t.ebpf, lineage := forked parent child t.lineage }
  | .exec pid reads => { t with ebpf := handleExec reads pid t.ebpf }

structure Fresh (t : Tracing) : Prop where
  owners : t.owners = fun _ => OwnerSlot.free
  pids : ∀ map, t.ebpf.monitoredPids = some map → map = ∅
  parents : t.ebpf.watchedParents = SwapTable.empty
  orphan : t.ebpf.orphanStdoutMode = false
  calls : t.ebpf.calls = []

def granting : Kernel where
  attach := true
  update _ := true
  delete _ _ := true
  order := AList.keys
  complete map := .refl map.keys

def controlBody (watches : List Watch) : Bytes :=
  BigEndian.encode32 (UInt32.ofNat watches.length) ++
    watches.flatMap fun w => BigEndian.encode32 w.kind ++ BigEndian.encode32 w.pid ++ BigEndian.encode32 w.value

def registering (owner : UInt64) (watches : List Watch) : Command :=
  ⟨owner, .replace { buf := { data := controlBody watches }, heap := allGranted }, granting, granting⟩

def dropping (owner : UInt64) : Command := ⟨owner, .drop allGranted, granting, granting⟩

def freshTracing : Tracing :=
  { ebpfActive := true, ebpf := { linkSchedExec := true, linkSchedFork := true, monitoredPids := some ∅ } }

theorem fresh_tracing_fresh : Fresh freshTracing := ⟨rfl, fun _ opened => (Option.some.inj opened).symm, rfl, rfl, rfl⟩

end Evemon.Controls
