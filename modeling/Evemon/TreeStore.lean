import Evemon.Lib.Forest
import Evemon.StoreSkeleton

-- The GTK tree: rows of a tree store, brought in line with the process store at each refresh.
namespace Evemon.ProcTree

open Ipc (Bytes)
open Store

def ptreeUnpinned : Int32 := -1

@[ext] structure Cells where
  pid : Int32
  ppid : Int32
  user : Bytes := []
  name : Bytes := []
  cpuPercent : Float32 := Float32.ofBits 0
  memRssKb : UInt64 := 0
  ioReadRate : Float32 := Float32.ofBits 0
  ioWriteRate : Float32 := Float32.ofBits 0
  startTime : UInt64 := 0
  startTicks : UInt64 := 0
  evemonInstance : UInt64 := 0
  container : Bytes := []
  service : Bytes := []
  cwd : Bytes := []
  cmdline : Bytes := []
  sparkline : List Float32 := []

structure GpuCells where
  gpu : Int32 := 0
  vram : Int64 := 0
  enc : Int32 := 0
  active : Bool := false

@[ext] structure Row where
  node : Nat
  cells : Cells
  groupRss : Int32 := 0
  groupCpu : Int32 := 0
  born : Int := 0
  died : Int := 0
  pinnedRoot : Int32 := ptreeUnpinned
  icon : Option Nat := none
  gpu : GpuCells := {}

def Row.pid (row : Row) : Int32 := row.cells.pid

structure Tree where
  rows : Forest Row := .nil
  next : Nat := 0

def cellsOf (store : ProcStore) (e : ProcEntry) : Cells where
  pid := e.pid
  ppid := e.ppid
  user := procStr store.strtab e.user.off
  name := procStr store.strtab e.name.off
  cpuPercent := e.cpuPercent
  memRssKb := e.memRssKb
  ioReadRate := e.ioReadRate
  ioWriteRate := e.ioWriteRate
  startTime := e.startTime
  startTicks := e.startTicks
  evemonInstance := e.evemonInstance
  container := procStr store.strtab e.container.off
  service := procStr store.strtab e.service.off
  cwd := procStr store.strtab e.cwd.off
  cmdline := procStr store.strtab e.cmd.off
  sparkline := e.ioHistory.toList.take e.ioHistoryCount.toNat

def setRowData (store : ProcStore) (e : ProcEntry) (row : Row) : Row :=
  { row with
    cells := cellsOf store e
    groupRss := 0
    groupCpu := 0
    born := 0
    died := 0
    pinnedRoot := ptreeUnpinned }

-- What update_store reads of its surroundings: the clock, at each row that is dying and at each
-- PID that is inserted, and the icons that are cached.
structure Surroundings where
  rowClock : Nat → Int := fun _ => 0
  pidClock : Int32 → Int := fun _ => 0
  cached : Bytes → Option Nat := fun _ => none

def highlightStartDelayUs : Int := 1 * 1000000

def recordOf (store : ProcStore) (pid : Int32) : Option ProcRecord :=
  (store.ht.bind fun ht => htFind ht pid).bind fun ridx => store.records[ridx]?

def updateOrRemove (store : ProcStore) (around : Surroundings) (row : Row) : Option Row :=
  match recordOf store row.pid with
  | none => none
  | some rec =>
    match rec.status with
    | .killed => none
    | .dying =>
      some { setRowData store rec.entry row with
        born := row.born
        died := if around.rowClock row.node - rec.diedAtUs ≥ highlightStartDelayUs then rec.diedAtUs else 0 }
    | .alive => some { setRowData store rec.entry row with born := row.born, died := row.died }

def updateOrRemoveRows (store : ProcStore) (around : Surroundings) (rows : Forest Row) : Forest Row :=
  rows.prune (updateOrRemove store around)

abbrev IterMap := List (Int32 × Nat)

def iterMapFind (map : IterMap) (pid : Int32) : Option Nat := (map.find? fun entry => entry.1 = pid).map Prod.snd

def collectIters (rows : Forest Row) : IterMap := rows.flat.map fun row => (row.pid, row.node)

def stackSize : Nat := 64

-- The entries to insert, numbered from 0, and the table that finds them by PID. `skipped`
-- entries are not inserted.
structure Batch where
  entries : List ProcEntry
  ht : Ht
  skipped : Nat → Bool := fun _ => false

structure Insertion where
  tree : Tree
  placed : List (Nat × Nat) := []

def Insertion.inserted (state : Insertion) (idx : Nat) : Bool := state.placed.any fun entry => entry.1 = idx

def ancestorStack (batch : Batch) (inserted : Nat → Bool) : (room : Nat) → (cur : Nat) → List Int32
  | 0, _ => []
  | room + 1, cur =>
    if inserted cur || batch.skipped cur then []
    else
      match batch.entries[cur]? with
      | none => []
      | some e =>
        e.pid ::
          match htFind batch.ht e.ppid with
          | none => []
          | some pidx => if pidx = cur || inserted pidx then [] else ancestorStack batch inserted room pidx

def Tree.append (tree : Tree) (parent : Option Nat) (row : Nat → Row) : Tree where
  rows :=
    match parent with
    | none => tree.rows.appendRoot (row tree.next)
    | some node => tree.rows.appendUnder (fun held => held.node = node) (row tree.next)
  next := tree.next + 1

structure Placing where
  parent : List (Nat × Nat) → Nat → ProcEntry → Option Nat
  row : ProcEntry → Nat → Row

def popOne (batch : Batch) (placing : Placing) (state : Insertion) (p : Int32) : Insertion :=
  match htFind batch.ht p with
  | none => state
  | some idx =>
    if state.inserted idx then state
    else
      match batch.entries[idx]? with
      | none => state
      | some e =>
        { tree := state.tree.append (placing.parent state.placed idx e) (placing.row e)
          placed := state.placed ++ [(idx, state.tree.next)] }

def insertFrom (batch : Batch) (placing : Placing) (state : Insertion) (idx : Nat) : Insertion :=
  if state.inserted idx || batch.skipped idx then state
  else (ancestorStack batch state.inserted stackSize idx).reverse.foldl (popOne batch placing) state

def insertAll (batch : Batch) (placing : Placing) (tree : Tree) : Insertion :=
  (List.range batch.entries.length).foldl (insertFrom batch placing) { tree }

def freshEntries (store : ProcStore) (existing : IterMap) : List ProcEntry :=
  (store.records.filter fun rec =>
    decide (rec.status = .alive) && (htFind (indexPids (existing.map Prod.fst)) rec.pid).isNone).map ProcRecord.entry

def findParentIter (map : IterMap) (ppid selfPid : Int32) : Option Nat :=
  if ppid ≤ 0 ∨ ppid = selfPid then none else iterMapFind map ppid

def updateBatch (fresh : List ProcEntry) : Batch where
  entries := fresh
  ht := indexPids (fresh.map ProcEntry.pid)

def iterMap (existing : IterMap) (fresh : List ProcEntry) (placed : List (Nat × Nat)) : IterMap :=
  existing ++ placed.filterMap fun entry => (fresh[entry.1]?).map fun e => (e.pid, entry.2)

def newRow (store : ProcStore) (around : Surroundings) (e : ProcEntry) (node : Nat) : Row :=
  { setRowData store e { node, cells := cellsOf store e } with icon := around.cached (procStr store.strtab e.name.off) }

def updatePlacing (store : ProcStore) (around : Surroundings) (firstUpdate : Bool) (existing : IterMap)
    (fresh : List ProcEntry) : Placing where
  parent placed _ e := findParentIter (iterMap existing fresh placed) e.ppid e.pid
  row e node := { newRow store around e node with born := if firstUpdate then 0 else around.pidClock e.pid }

def updateStore (store : ProcStore) (around : Surroundings) (firstUpdate : Bool) (tree : Tree) : Tree :=
  let rows := updateOrRemoveRows store around tree.rows
  let existing := collectIters rows
  let fresh := freshEntries store existing
  (insertAll (updateBatch fresh) (updatePlacing store around firstUpdate existing fresh) { tree with rows }).tree

def liveIndex (records : List ProcRecord) : Ht :=
  (records.zipIdx.filter fun entry => decide (entry.1.status ≠ .killed)).foldl
    (fun ht entry => htInsert ht entry.1.pid entry.2) ProbeTable.empty

def populateBatch (store : ProcStore) : Batch where
  entries := store.records.map ProcRecord.entry
  ht := liveIndex store.records
  skipped idx := (store.records[idx]?).any fun rec => decide (rec.status = .killed)

def populatePlacing (store : ProcStore) (around : Surroundings) : Placing where
  parent placed sidx e :=
    match htFind (liveIndex store.records) e.ppid with
    | none => none
    | some pidx => if pidx ≠ sidx then (placed.find? fun entry => entry.1 = pidx).map Prod.snd else none
  row e node := newRow store around e node

-- The tree is empty. A KILLED record, which the table does not find, is passed over.
def populateStoreInitial (store : ProcStore) (around : Surroundings) (tree : Tree) : Tree :=
  (insertAll (populateBatch store) (populatePlacing store around) tree).tree

def removePinnedRows (rows : Forest Row) : Forest Row := rows.dropRoots fun row => row.pinnedRoot ≠ ptreeUnpinned

def findIterByPid (rows : Forest Row) (target : Int32) : Option (Row × Forest Row) := rows.find? fun row => row.pid = target

def copySubtreePinned (pinnedRoot : Int32) (row : Row) (children : Forest Row) (next : Nat) : Forest Row × Nat :=
  (Forest.cons row children .nil).relabel (fun node row => { row with node, pinnedRoot }) next

def pinRow (tree : Tree) (pid : Int32) : Tree :=
  match findIterByPid tree.rows pid with
  | none => tree
  | some (row, children) =>
    if row.pinnedRoot ≠ ptreeUnpinned then tree
    else
      let copy := copySubtreePinned pid row children tree.next
      { rows := tree.rows.concat copy.1, next := copy.2 }

def rebuildPinnedRows (pinnedPids : List Int32) (tree : Tree) : Tree :=
  pinnedPids.foldl pinRow { tree with rows := removePinnedRows tree.rows }

end Evemon.ProcTree
