import Evemon.QtModel
import Evemon.RemoteWatches

-- What the main window asks to be traced for its write monitors, and how it tells the client.
namespace Evemon.Qt

open Controls RemoteFdmon List

section

-- QMap<int, T>: its entries in the order of their keys.
structure QMap (ν : Type) where
  entries : List (Int32 × ν)
  sorted : (entries.map Prod.fst).Pairwise (· < ·)

variable {ν : Type}

def QMap.empty : QMap ν := ⟨[], .nil⟩

def QMap.keys (m : QMap ν) : List Int32 := m.entries.map Prod.fst

def QMap.find (key : Int32) (m : QMap ν) : Option ν := (m.entries.find? fun entry => entry.1 = key).map Prod.snd

def writeEntry (key : Int32) (write : Option ν → ν) : List (Int32 × ν) → List (Int32 × ν)
  | [] => [(key, write none)]
  | entry :: rest =>
    if key < entry.1 then (key, write none) :: entry :: rest
    else if key = entry.1 then (key, write (some entry.2)) :: rest
    else entry :: writeEntry key write rest

variable {entries : List (Int32 × ν)}

theorem write_entry_keys {key} {write : Option ν → ν} {found : Int32}
    (listed : found ∈ (writeEntry key write entries).map Prod.fst) : found = key ∨ found ∈ entries.map Prod.fst := by
  induction entries with
  | nil => exact .inl (mem_singleton.mp listed)
  | cons entry rest ih =>
    unfold writeEntry at listed
    split at listed
    · exact mem_cons.mp listed
    · split at listed
      · rcases mem_cons.mp listed with same | later
        · exact .inl same
        · exact .inr (mem_cons_of_mem _ later)
      · rcases mem_cons.mp listed with same | later
        · exact .inr (same ▸ mem_cons_self)
        · exact (ih later).imp id (mem_cons_of_mem _)

theorem write_entry_sorted (key : Int32) (write : Option ν → ν) (sorted : (entries.map Prod.fst).Pairwise (· < ·)) :
    ((writeEntry key write entries).map Prod.fst).Pairwise (· < ·) := by
  induction entries with
  | nil => exact pairwise_singleton _ _
  | cons entry rest ih =>
    obtain ⟨above, later⟩ := pairwise_cons.mp sorted
    unfold writeEntry
    split
    · rename_i less
      refine pairwise_cons.mpr ⟨fun other listed => ?_, sorted⟩
      rcases mem_cons.mp listed with same | mem
      · exact same ▸ less
      · exact Int32.lt_trans less (above other mem)
    · rename_i notLess
      split
      · rename_i same
        exact pairwise_cons.mpr ⟨fun other listed => same ▸ above other listed, later⟩
      · rename_i different
        refine pairwise_cons.mpr ⟨fun other listed => ?_, ih later⟩
        rcases write_entry_keys listed with same | mem
        · rw [same]
          exact Int32.lt_of_le_of_ne (Int32.not_lt.mp notLess) (Ne.symm different)
        · exact above other mem

def QMap.write (key : Int32) (change : Option ν → ν) (m : QMap ν) : QMap ν :=
  ⟨writeEntry key change m.entries, write_entry_sorted key change m.sorted⟩

def QMap.filterKeys (keep : Int32 → Bool) (m : QMap ν) : QMap ν :=
  ⟨m.entries.filter fun entry => keep entry.1, m.sorted.sublist (List.filter_sublist.map Prod.fst)⟩

def QMap.mask (key : Int32) (m : QMap UInt32) : UInt32 := (m.find key).getD 0

def QMap.orMask (key : Int32) (mask : UInt32) (m : QMap UInt32) : QMap UInt32 := m.write key fun old => old.getD 0 ||| mask

end

inductive Kind where
  | audio
  | network
  | environment
  | writes
  | files
  | threads
  | devices
  | maps
  | libraries
  | cgroup
  | gentoo
  | milkDrop
  | systemFiles
  | systemLibraries
  | gpu
deriving DecidableEq

-- `mask` and `descendants` are what the write view of the inspector is set to.
structure Inspector where
  kind : Kind
  pluginEnabled : Bool
  visible : Bool
  pid : Int32
  mask : UInt32
  descendants : Bool

def Inspector.wantsData (i : Inspector) : Bool := i.pluginEnabled && i.visible && decide (i.pid > 0)

structure MainWindow where
  inspectors : List Inspector := []
  writesEnabled : Bool := true
  model : Model := {}
  writeFds : QMap UInt32 := QMap.empty
  writeParents : QMap UInt32 := QMap.empty
  execParents : QMap Int32 := QMap.empty
  remote : Remote := {}

def Model.process (m : Model) (pid : Int32) : Option ProcessRow := ((m.byPid pid).bind m.node).map Node.row

def MainWindow.parentPid (w : MainWindow) (pid : Int32) : Option Int32 :=
  match w.execParents.find pid with
  | some parent => if parent > 0 then some parent else none
  | none =>
    match w.model.process pid with
    | some row => if row.entry.ppid > 0 then some row.entry.ppid else none
    | none => none

-- The walk passes a PID once, and it goes on from PIDs of the map and of the model only.
def MainWindow.writerTracks (w : MainWindow) (writer : Inspector) (pid : Int32) : Bool :=
  if pid = writer.pid then true
  else if writer.descendants = false then false
  else
    let climbed := ParentWalk.walk w.parentPid id (w.execParents.keys.length + w.model.nodes.length + 1) []
      (if pid > 0 then some pid else none)
    decide (writer.pid ∈ climbed.1)

structure Requests where
  requested : QMap UInt32 := QMap.empty
  parents : QMap UInt32 := QMap.empty

def MainWindow.alive (w : MainWindow) (pid : Int32) : Bool :=
  match w.model.process pid with
  | some row => decide (row.died = 0)
  | none => false

def MainWindow.request (w : MainWindow) (asked : Requests) (writer : Inspector) : Requests :=
  if w.writesEnabled = false ∨ writer.kind ≠ .writes ∨ writer.wantsData = false ∨ writer.mask = 0 then asked
  else
    let pids := if writer.descendants then w.model.descendants writer.pid else [writer.pid]
    let requested := pids.foldl (fun map pid => map.orMask pid writer.mask) asked.requested
    if writer.descendants then
      { requested := (w.execParents.keys.filter fun pid => w.writerTracks writer pid && w.alive pid).foldl
          (fun map pid => map.orMask pid writer.mask) requested
        parents := asked.parents.orMask writer.pid writer.mask }
    else { asked with requested }

def MainWindow.requests (w : MainWindow) : Requests := w.inspectors.foldl w.request {}

def hasFd (mask fd : UInt32) : Bool := mask &&& (1 <<< (fd - 1)) ≠ 0

def fdWatch (pid : Int32) (fd : UInt32) : Watch := ⟨1, pid.toUInt32, fd⟩

def parentWatch (pid : Int32) (mask : UInt32) : Watch := ⟨2, pid.toUInt32, mask⟩

def fdChanges (of against : QMap UInt32) : List Watch :=
  of.entries.flatMap fun entry =>
    (([1, 2] : List UInt32).filter fun fd => hasFd entry.2 fd && !hasFd (against.mask entry.1) fd).map (fdWatch entry.1)

def parentChanges (of against : QMap UInt32) : List (Int32 × UInt32) :=
  of.entries.filter fun entry => against.mask entry.1 ≠ entry.2

def fdmonAdd (r : Remote) (w : Watch) : Remote := (queryFdmonControl true w false r).2

def fdmonRemove (r : Remote) (w : Watch) : Remote := (queryFdmonControl true w true r).2

def reconcileTable (old : Requests) (new : Requests) (r : Remote) : Remote :=
  let r := (parentChanges old.parents new.parents).foldl (fun r entry => fdmonRemove r (parentWatch entry.1 0)) r
  let r := (parentChanges new.parents old.parents).foldl (fun r entry => fdmonAdd r (parentWatch entry.1 entry.2)) r
  let r := (fdChanges old.requested new.requested).foldl fdmonRemove r
  (fdChanges new.requested old.requested).foldl fdmonAdd r

def MainWindow.believed (w : MainWindow) : Requests := ⟨w.writeFds, w.writeParents⟩

def MainWindow.syncWrites (ebpf : Bool) (w : MainWindow) : MainWindow :=
  if ebpf = false then w
  else
    { w with
      remote := reconcileTable w.believed w.requests w.remote
      writeFds := w.requests.requested
      writeParents := w.requests.parents
      execParents := w.execParents.filterKeys fun pid => pid ∈ w.requests.requested.keys }

def MainWindow.childExec (pid ppid : Int32) (w : MainWindow) : MainWindow :=
  if w.writeParents.entries = [] then w
  else
    let w := { w with execParents := w.execParents.write pid fun _ => ppid }
    let writers := w.inspectors.filter fun writer =>
      decide (writer.kind = .writes) && writer.wantsData && decide (writer.mask ≠ 0) && w.writerTracks writer pid
    { w with writeFds := writers.foldl (fun map writer => map.orMask pid writer.mask) w.writeFds }

end Evemon.Qt
