import Evemon.MonitorRates
import Evemon.SnapshotRoundTrip

namespace Evemon.Monitor

open CText
open Ipc (Bytes Heap querySnapshotEncode writerStart)
open ProbeTable (Table find append)

-- What steam_is_available, steam_detect and the allocations answer while one snapshot is enriched.
structure SteamWorld where
  available : Bool
  tableGranted : Bool
  detect : Nat → Int32 → Text → Text → Option SteamInfo → Option SteamInfo
  slotGranted : Nat → Nat → Bool

structure SteamPass where
  snap : ProcSnapshot
  cap : Nat

def indexRows (rows : List ProcEntry) : Table cpuHtSize Int32 Nat :=
  rows.zipIdx.foldl (fun table entry => append home table entry.1.pid entry.2) ProbeTable.empty

def parentSteam (table : Table cpuHtSize Int32 Nat) (snap : ProcSnapshot) (row : ProcEntry) : Option SteamInfo :=
  if 0 < row.ppid then
    ((find home table row.ppid).bind fun index => snap.entries[index]?).bind snap.steam
  else none

-- A row keeps the first record that is found for it; the array of records doubles from 64.
def attachSteam (pass : SteamPass) (index : Nat) (row : ProcEntry) (info : SteamInfo) (granted : Bool) :
    Option SteamPass :=
  if row.extraIdx = uint32Max then
    if pass.cap ≤ pass.snap.extras.length ∧ granted = false then none
    else
      some {
        snap := { pass.snap with
          entries := pass.snap.entries.set index { row with extraIdx := pass.snap.extras.length }
          extras := pass.snap.extras ++ [some info] }
        cap := if pass.cap ≤ pass.snap.extras.length then if pass.cap = 0 then 64 else pass.cap * 2 else pass.cap }
  else some { pass with snap := { pass.snap with extras := pass.snap.extras.set row.extraIdx (some info) } }

def steamRow (world : SteamWorld) (table : Table cpuHtSize Int32 Nat) (turn : Nat) (pass : SteamPass) (index : Nat) :
    Option SteamPass :=
  match pass.snap.entries[index]? with
  | none => none
  | some row =>
    if (pass.snap.steam row).isSome = true then none
    else
      match world.detect turn row.pid (procStr pass.snap.strtab row.name.off) (procStr pass.snap.strtab row.cmd.off)
          (parentSteam table pass.snap row) with
      | none => none
      | some info => attachSteam pass index row info (world.slotGranted turn index)

def steamRows (world : SteamWorld) (table : Table cpuHtSize Int32 Nat) (turn : Nat) :
    List Nat → SteamPass → Nat → SteamPass × Nat
  | [], pass, found => (pass, found)
  | index :: rest, pass, found =>
    match steamRow world table turn pass index with
    | none => steamRows world table turn rest pass found
    | some next => steamRows world table turn rest next (found + 1)

def steamPasses (world : SteamWorld) (table : Table cpuHtSize Int32 Nat) : Nat → Nat → SteamPass → SteamPass
  | 0, _, pass => pass
  | left + 1, turn, pass =>
    let result := steamRows world table turn (List.range pass.snap.entries.length) pass 0
    if result.2 = 0 then result.1 else steamPasses world table left (turn + 1) result.1

def enrich (world : SteamWorld) (snap : ProcSnapshot) : ProcSnapshot :=
  if world.available = true ∧ world.tableGranted = true then
    (steamPasses world (indexRows snap.entries) 4 0 ⟨snap, 0⟩).snap
  else snap

inductive Origin where
  | initial
  | preselected
  | preSteam
  | final
deriving DecidableEq

structure Scan where
  snap : ProcSnapshot
  capacity : Nat
  partialPublished : Bool

inductive Stage where
  | starting
  | idle
  | opening (partialPublished : Bool)
  | scanning (scan : Scan)
  | scanned (snap : ProcSnapshot)
  | enriching (snap : ProcSnapshot)
  | built (snap : ProcSnapshot)

structure Dirent where
  isDir : Bool
  name : Text

structure Turn where
  reads : Reads
  grown : Bool
  preselect : Int32
  copied : Bool
  now : Timespec

-- Ghost: what a final publication was made from. `world` is none where /proc could not be opened.
structure Source where
  turns : List (Dirent × Turn)
  world : Option SteamWorld
  statics : Statics
  sample : Sample

structure Reply where
  type : UInt16
  pid : Int32
  sent : Timespec
  bytes : Bytes
  held : MonitorState
  origin : Origin
  source : Option Source

-- `turns` and `world` are ghost: the entries and the Steam answers of the latest scan.
structure Monitor where
  shared : MonitorState
  origin : Origin
  statics : Statics
  stage : Stage
  log : List Reply
  turns : List (Dirent × Turn) := []
  world : Option SteamWorld := none
  source : Option Source := none

inductive Action where
  | start (system : MonitorSystem)
  | begin
  | opened (granted : Bool)
  | entry (dirent : Dirent) (turn : Turn)
  | exhausted
  | closed (steam copied : Bool) (now : Timespec)
  | enriched (world : SteamWorld)
  | publish (sample : Sample) (system : MonitorSystem) (now : Timespec)
  | request (type : UInt16) (pid : Int32) (sent : Timespec) (heap : Heap)

def isPidDir (dirent : Dirent) : Bool := dirent.isDir && dirent.name.all isDigit

-- A copy that could not be made has no entries and is not published.
def snapshotCopyPreSteam (snap : ProcSnapshot) (granted : Bool) : Option ProcSnapshot :=
  if snap.entries = [] ∨ granted = false then none
  else some { entries := snap.entries, strtab := ⟨snap.strtab.buf, snap.strtab.buf.length⟩ }

def replaceSnapshot (m : Monitor) (origin : Origin) (snap : ProcSnapshot) (now : Timespec) : Monitor :=
  { m with
    shared := { m.shared with snapshot := snap, generation := m.shared.generation + 1, sampledAt := now }
    origin }

def publishCopy (m : Monitor) (origin : Origin) (copy : Option ProcSnapshot) (now : Timespec) : Monitor :=
  match copy with
  | none => m
  | some snap => replaceSnapshot m origin snap now

def growRows (scan : Scan) (granted : Bool) : Option Scan :=
  if scan.capacity ≤ scan.snap.entries.length then
    if uint32Max / 2 < scan.capacity ∨ granted = false then none
    else some { scan with capacity := scan.capacity * 2 }
  else some scan

def wantsPreselected (scan : Scan) (preselect : Int32) : Bool :=
  decide (0 < preselect) && !scan.partialPublished && decide (2 ≤ scan.snap.entries.length) &&
    scan.snap.entries.any (fun row => decide (row.pid = 1)) &&
    scan.snap.entries.any (fun row => decide (row.pid = preselect))

def publishPreselected (m : Monitor) (scan : Scan) (turn : Turn) : Monitor :=
  if wantsPreselected scan turn.preselect = true then
    { publishCopy m .preselected (snapshotCopyPreSteam scan.snap turn.copied) turn.now with
      stage := .scanning { scan with partialPublished := true } }
  else { m with stage := .scanning scan }

def scanEntry (m : Monitor) (scan : Scan) (dirent : Dirent) (turn : Turn) : Monitor :=
  if isPidDir dirent = true then
    match growRows scan turn.grown with
    | none => { m with stage := .scanned scan.snap }
    | some grown =>
      match scanRow grown.snap (atoi dirent.name) turn.reads with
      | none => { m with stage := .scanning grown }
      | some snap => publishPreselected m { grown with snap } turn
  else m

def publishPreSteam (m : Monitor) (snap : ProcSnapshot) (steam copied : Bool) (now : Timespec) : Monitor :=
  if steam = true ∧ m.shared.snapshot.entries = [] then
    publishCopy m .preSteam (snapshotCopyPreSteam snap copied) now
  else m

def publishFinal (m : Monitor) (snap : ProcSnapshot) (sample : Sample) (system : MonitorSystem) (now : Timespec) :
    Monitor :=
  let filled := fillRates m.statics sample snap
  let next := replaceSnapshot m .final filled.2 now
  { next with
    shared := { next.shared with system, snapshotComplete := 1 }
    statics := filled.1
    stage := .idle }

def answer (m : Monitor) (type : UInt16) (pid : Int32) (sent : Timespec) (heap : Heap) : Monitor :=
  let result := (querySnapshotEncode m.shared type pid sent).run (writerStart heap)
  match result.1 with
  | some _ => m
  | none => { m with log := m.log ++ [⟨type, pid, sent, result.2.buf.data, m.shared, m.origin, m.source⟩] }

-- The monitor thread takes its steps in the order of its stages; a request may come at any of them.
def step (m : Monitor) (action : Action) : Monitor :=
  match action, m.stage with
  | .start system, .starting => { m with shared := { m.shared with system }, stage := .idle }
  | .begin, .idle => { m with stage := .opening (decide (m.shared.generation ≠ 0)) }
  | .opened granted, .opening partialPublished =>
    if granted = true then
      { m with stage := .scanning ⟨{ strtab := strtabInit 65536 }, 512, partialPublished⟩, turns := [] }
    else { m with stage := .built {}, turns := [], world := none }
  | .entry dirent turn, .scanning scan => { scanEntry m scan dirent turn with turns := m.turns ++ [(dirent, turn)] }
  | .exhausted, .scanning scan => { m with stage := .scanned scan.snap }
  | .closed steam copied now, .scanned snap =>
    { publishPreSteam m snap steam copied now with stage := .enriching snap }
  | .enriched world, .enriching snap => { m with stage := .built (enrich world snap), world := some world }
  | .publish sample system now, .built snap =>
    { publishFinal m snap sample system now with source := some ⟨m.turns, m.world, m.statics, sample⟩ }
  | .request type pid sent heap, _ => answer m type pid sent heap
  | _, _ => m

-- The thread is started on a state whose interval and instance are set.
structure Starts (m : Monitor) : Prop where
  snapshot : m.shared.snapshot = {}
  complete : m.shared.snapshotComplete = 0
  generation : m.shared.generation = 0
  sampledAt : m.shared.sampledAt = monitorStateInit.sampledAt
  origin : m.origin = .initial
  statics : m.statics = staticsInit
  stage : m.stage = .starting
  log : m.log = []

end Evemon.Monitor
