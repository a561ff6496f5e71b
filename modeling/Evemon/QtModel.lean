import Evemon.Frame
import Evemon.Lib.ParentWalk
import Evemon.Lib.Worklist

-- The tree of processes behind the Qt view. A node keeps its identity from the snapshot that
-- first shows its PID until two seconds after it has gone.
namespace Evemon.Qt

open Function
open Ipc (Bytes text)

structure ProcessRow where
  entry : ProcEntry
  name : Bytes
  command : Bytes
  user : Bytes
  cwd : Bytes
  container : Bytes
  service : Bytes
  steam : Bytes := []
  born : Int := 0
  died : Int := 0
  gpu : UInt32 := 0
  encoder : UInt32 := 0
  vram : UInt64 := 0
  gpuClient : Bool := false

def steamText (st : SteamInfo) : Bytes :=
  st.displayLabel.bytes ++ text "\nApp ID: " ++ st.appId.bytes ++ text "\nProton: " ++ st.protonVersion.bytes ++
    text "\nRuntime: " ++ st.runtimeLayer.bytes ++ text "\nPrefix: " ++ st.compatData.bytes ++
    text "\nGame directory: " ++ st.gameDir.bytes

def processRow (s : ProcSnapshot) (e : ProcEntry) : ProcessRow where
  entry := e
  name := procStr s.strtab e.name.off
  command := procStr s.strtab e.cmd.off
  user := procStr s.strtab e.user.off
  cwd := procStr s.strtab e.cwd.off
  container := procStr s.strtab e.container.off
  service := procStr s.strtab e.service.off
  steam := ((s.steam e).map steamText).getD []

-- `id` stands for the address of the node.
structure Node where
  id : Nat
  row : ProcessRow

def Node.pid (node : Node) : Int32 := node.row.entry.pid

def Node.ppid (node : Node) : Int32 := node.row.entry.ppid

def Node.rss (node : Node) : UInt64 := node.row.entry.memRssKb

def Node.alive (node : Node) : Bool := decide (node.row.died = 0)

structure Links where
  roots : List Nat := []
  parent : Nat → Option Nat := fun _ => none
  children : Nat → List Nat := fun _ => []
  position : Nat → Nat := fun _ => 0
  groupCpu : Nat → Float := fun _ => 0
  groupMemory : Nat → UInt64 := fun _ => 0

structure Model where
  nodes : List Node := []
  byPid : Int32 → Option Nat := fun _ => none
  pins : List Int32 := []
  firstSnapshot : Bool := true
  links : Links := {}
  nextId : Nat := 0

def Model.node (m : Model) (id : Nat) : Option Node := m.nodes.find? fun node => node.id == id

def Model.pidAt (m : Model) (id : Nat) : Int32 := ((m.node id).map Node.pid).getD 0

def Model.above (m : Model) (id : Nat) : Option Nat := (m.node id).bind fun node => m.byPid node.ppid

-- The walk up the ancestry. The loop passes a PID once, so it makes no more rounds than there are
-- nodes.
def Model.ancestry (m : Model) (node : Node) : List Nat × Option Nat :=
  ParentWalk.walk m.above m.pidAt (m.nodes.length + 1) [node.pid] (m.byPid node.ppid)

def Model.parentOf (m : Model) (node : Node) : Option Nat :=
  match m.byPid node.ppid with
  | none => none
  | some p =>
    if p ≠ node.id ∧ node.pid ∉ m.pins then
      if (m.ancestry node).2.isSome then none else some p
    else none

def Links.addTotals (node : Node) (links : Links) (id : Nat) : Links :=
  { links with
    groupCpu := update links.groupCpu id (links.groupCpu id + node.row.entry.cpuPercent.toFloat)
    groupMemory := update links.groupMemory id (links.groupMemory id + node.rss) }

def Links.siblings (links : Links) : Option Nat → List Nat
  | none => links.roots
  | some p => links.children p

def Links.append (links : Links) (id : Nat) : Option Nat → Links
  | none => { links with roots := links.roots ++ [id] }
  | some p => { links with children := update links.children p (links.children p ++ [id]) }

def Model.place (m : Model) (links : Links) (node : Node) : Links :=
  let links := if node.alive then (m.ancestry node).1.foldl (Links.addTotals node) links else links
  let p := m.parentOf node
  { links with
    parent := update links.parent node.id p
    position := update links.position node.id (links.siblings p).length }.append node.id p

def Model.cleared (m : Model) : Links :=
  { m.links with
    roots := []
    parent := fun _ => none
    children := fun _ => []
    groupCpu := fun id => ((m.node id).map fun node => node.row.entry.cpuPercent.toFloat).getD 0
    groupMemory := fun id => ((m.node id).map Node.rss).getD 0 }

def Model.rebuild (m : Model) : Model := { m with links := m.nodes.foldl m.place m.cleared }

def Model.expired (now : Int) (node : Node) : Bool := decide (node.row.died ≠ 0 ∧ now - node.row.died ≥ 2000)

def Model.moved (m : Model) (row : ProcessRow) : Bool :=
  match (m.byPid row.entry.pid).bind m.node with
  | none => true
  | some node =>
    decide (node.ppid ≠ row.entry.ppid) || decide (node.row.entry.startTime ≠ row.entry.startTime)

def Model.topology (m : Model) (rows : List ProcessRow) (now : Int) : Bool :=
  rows.any m.moved ||
    m.nodes.any fun node => !(rows.map fun row => row.entry.pid).contains node.pid && Model.expired now node

def ProcessRow.follow (row old : ProcessRow) (now : Int) : ProcessRow :=
  { row with
    born := if old.entry.startTime = row.entry.startTime then old.born else now
    gpu := old.gpu
    vram := old.vram
    encoder := old.encoder
    gpuClient := old.gpuClient }

def Model.accept (now : Int) (m : Model) (row : ProcessRow) : Model :=
  match m.byPid row.entry.pid with
  | none =>
    { m with
      nodes := m.nodes ++ [{ id := m.nextId, row := { row with born := if m.firstSnapshot then 0 else now } }]
      byPid := update m.byPid row.entry.pid (some m.nextId)
      nextId := m.nextId + 1 }
  | some id =>
    { m with nodes := m.nodes.map fun node =>
        if node.id = id then { node with row := row.follow node.row now } else node }

def Model.bury (m : Model) (seen : List Int32) (now : Int) : Model :=
  { m with nodes := m.nodes.map fun node =>
      if node.pid ∉ seen ∧ node.row.died = 0 then { node with row := { node.row with died := now } } else node }

def Model.erase (m : Model) (now : Int) : Model :=
  let gone := (m.nodes.filter (Model.expired now)).map Node.pid
  { m with
    nodes := m.nodes.filter fun node => !Model.expired now node
    byPid := fun pid => if pid ∈ gone then none else m.byPid pid
    pins := m.pins.filter fun pid => pid ∉ gone }

def Model.refresh (m : Model) (s : ProcSnapshot) (now : Int) : Model × Bool :=
  let rows := s.entries.map (processRow s)
  if rows.isEmpty then (m, false)
  else
    let topology := m.topology rows now
    let seen := rows.map fun row => row.entry.pid
    let kept := (rows.foldl (Model.accept now) m).bury seen now
    let kept := if topology then kept.erase now else kept
    ({ kept.rebuild with firstSnapshot := false }, topology)

def Model.pin (m : Model) (pid : Int32) : Model :=
  { m with pins := if pid ∈ m.pins then m.pins.filter (· ≠ pid) else pid :: m.pins }.rebuild

def Model.offspring (m : Model) (pid : Int32) : List Int32 :=
  (m.nodes.filter fun node => node.alive && decide (node.ppid = pid)).map Node.pid

-- The list is read while it grows; it never holds more than the PIDs of the nodes and `pid`.
def Model.descendants (m : Model) (pid : Int32) : List Int32 :=
  Worklist.search m.offspring (m.nodes.length + 1) 0 [pid]

end Evemon.Qt
