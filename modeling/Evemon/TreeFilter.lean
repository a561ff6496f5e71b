import Evemon.TreeStore

-- The filters: a shadow store with the rows of the real store that match.
namespace Evemon.ProcTree

open Ipc (Bytes)

def copyRow (row : Row) : Row := { row with node := 0 }

def copySubtree (rows : Forest Row) : Forest Row := rows.map copyRow

def matchByName (strdown : Bytes → Bytes) (filterLower : Bytes) (row : Row) : Bool :=
  decide (filterLower <:+: strdown row.cells.name)

def matchAudio (audioPids pinnedPids : List Int32) (row : Row) : Bool :=
  decide (row.pinnedRoot = ptreeUnpinned) && (decide (row.pid ∈ audioPids) || decide (row.pid ∈ pinnedPids))

def matchGpu (row : Row) : Bool := decide (row.pinnedRoot = ptreeUnpinned) && row.gpu.active

-- COL_CPU is a gint.
def Row.cpu (row : Row) : Int32 := (row.cells.cpuPercent.toFloat * 10000).toInt32

def computeGroupCpu : Forest Row → Forest Row × Int
  | .nil => (.nil, 0)
  | .cons row children next =>
    let below := computeGroupCpu children
    let after := computeGroupCpu next
    let groupCpu := Int32.ofInt (row.cpu.toInt + below.2)
    (.cons { row with groupCpu } below.1 after.1, groupCpu.toInt + after.2)

def cpuIntensiveThreshold (cpuCount : Int) : Int32 :=
  Int32.ofInt (100 * 10000 * 1 / ((if cpuCount < 1 then 1 else cpuCount) * 2))

def matchCpuIntensiveGroup (threshold : Int32) (row : Row) : Bool :=
  decide (row.pinnedRoot = ptreeUnpinned) && decide (threshold ≤ row.groupCpu)

section

variable (matched : Row → Bool)

def findAndCopyMatches (ancestorMatched : Bool) : Forest Row → Forest Row
  | .nil => .nil
  | .cons row children next =>
    if !ancestorMatched && matched row then
      .cons (copyRow row) (copySubtree children) (findAndCopyMatches ancestorMatched next)
    else if !ancestorMatched then
      (findAndCopyMatches false children).concat (findAndCopyMatches ancestorMatched next)
    else findAndCopyMatches ancestorMatched next

def countFilterMatches (ancestorMatched : Bool) : Forest Row → Nat
  | .nil => 0
  | .cons row children next =>
    let selfMatches := ancestorMatched || matched row
    (if selfMatches then 1 else 0) + countFilterMatches selfMatches children + countFilterMatches ancestorMatched next

-- The copies of a level, and whether one of them is kept. A row is copied first and removed
-- again, with all below it, if it is not kept.
def copyGpuBranches : Forest Row → Forest Row × Bool
  | .nil => (.nil, false)
  | .cons row children next =>
    let below := copyGpuBranches children
    let keep := matchGpu row || below.2
    let after := copyGpuBranches next
    (if keep then .cons (copyRow row) below.1 after.1 else after.1, keep || after.2)

def copyGpuChildren (rows : Forest Row) : Forest Row := (copyGpuBranches rows).1

def countGpuRows : Forest Row → Nat
  | .nil => 0
  | .cons row children next =>
    let descendantCount := countGpuRows children
    (if matchGpu row || decide (0 < descendantCount) then descendantCount + 1 else 0) + countGpuRows next

def gpuRowsHaveClient : Forest Row → Bool
  | .nil => false
  | .cons row children next => matchGpu row || gpuRowsHaveClient children || gpuRowsHaveClient next

def gpuSubtreeHasClient (row : Row) (children : Forest Row) : Bool := matchGpu row || gpuRowsHaveClient children

def copyCpuIntensiveChildren (threshold : Int32) : Forest Row → Forest Row
  | .nil => .nil
  | .cons row children next =>
    if matchCpuIntensiveGroup threshold row then
      .cons (copyRow row) (copyCpuIntensiveChildren threshold children) (copyCpuIntensiveChildren threshold next)
    else copyCpuIntensiveChildren threshold next

def countCpuIntensiveRows (threshold : Int32) : Forest Row → Nat
  | .nil => 0
  | .cons row children next =>
    (if matchCpuIntensiveGroup threshold row then 1 + countCpuIntensiveRows threshold children else 0) +
      countCpuIntensiveRows threshold next

end

-- COL_ICON is not written, COL_PINNED_ROOT is written back.
def syncRowFromReal (fsRow real : Row) : Row :=
  { copyRow real with pinnedRoot := fsRow.pinnedRoot, icon := fsRow.icon }

-- sync_filter_rows and sync_cpu_filter_rows. None: a row is missing, and the caller rebuilds.
def syncRows (find : Int32 → Option (Row × Forest Row)) : Forest Row → Option (Forest Row)
  | .nil => some .nil
  | .cons row children next =>
    match find row.pid with
    | none => none
    | some real =>
      match syncRows find children, syncRows find next with
      | some below, some after => some (.cons (syncRowFromReal row real.1) below after)
      | _, _ => none

def syncFilterRows (real fs : Forest Row) : Option (Forest Row) := syncRows (findIterByPid real) fs

def findUnpinnedIterByPid (target : Int32) : Forest Row → Option (Row × Forest Row)
  | .nil => none
  | .cons row children next =>
    if row.pinnedRoot = ptreeUnpinned then
      if row.pid = target then some (row, children)
      else (findUnpinnedIterByPid target children).or (findUnpinnedIterByPid target next)
    else findUnpinnedIterByPid target next

def syncCpuFilterRows (real fs : Forest Row) : Option (Forest Row) :=
  syncRows (fun pid => findUnpinnedIterByPid pid real) fs

def membershipIsCurrent (current : Row × Forest Row → Bool) (real : Forest Row) : Forest Row → Bool
  | .nil => true
  | .cons row children next =>
    (findUnpinnedIterByPid row.pid real).any current && membershipIsCurrent current real children &&
      membershipIsCurrent current real next

def cpuFilterMembershipIsCurrent (threshold : Int32) (real fs : Forest Row) : Bool :=
  membershipIsCurrent (fun found => matchCpuIntensiveGroup threshold found.1) real fs

def gpuFilterMembershipIsCurrent (real fs : Forest Row) : Bool :=
  membershipIsCurrent (fun found => gpuSubtreeHasClient found.1 found.2) real fs

section

-- Ghost: `rebuilds` counts the stores that were installed.
structure FilterCtx where
  store : Forest Row
  filterStore : Option (Forest Row)
  filterText : Bytes := []
  audioPids : List Int32 := []
  pinnedPids : List Int32 := []
  cpuCount : Int := 1
  rebuilds : Nat := 0

variable (strdown : Bytes → Bytes) (ctx : FilterCtx)

def FilterCtx.install (ctx : FilterCtx) (fs : Forest Row) : FilterCtx :=
  { ctx with filterStore := some fs, rebuilds := ctx.rebuilds + 1 }

def FilterCtx.nameMatches (ctx : FilterCtx) : Row → Bool := matchByName strdown (strdown ctx.filterText)

def FilterCtx.audioMatches (ctx : FilterCtx) : Row → Bool := matchAudio ctx.audioPids ctx.pinnedPids

def rebuildFilterStore : FilterCtx := ctx.install (findAndCopyMatches (ctx.nameMatches strdown) false ctx.store)

-- The part that sync_filter_store and sync_audio_filter_store share.
def syncMatching (matched : Row → Bool) (fs : Forest Row) (rebuilt : FilterCtx) : FilterCtx :=
  if countFilterMatches matched false ctx.store ≠ fs.count then rebuilt
  else
    match syncFilterRows ctx.store fs with
    | none => rebuilt
    | some synced => { ctx with filterStore := some synced }

def syncFilterStore : FilterCtx :=
  match ctx.filterStore with
  | none => ctx
  | some fs =>
    if ctx.filterText = [] then ctx
    else syncMatching ctx (ctx.nameMatches strdown) fs (rebuildFilterStore strdown ctx)

def rebuildAudioFilterStore : FilterCtx :=
  if ctx.filterText ≠ [] then rebuildFilterStore strdown ctx
  else ctx.install (findAndCopyMatches ctx.audioMatches false ctx.store)

def syncAudioFilterStore : FilterCtx :=
  match ctx.filterStore with
  | none => ctx
  | some fs =>
    if ctx.filterText ≠ [] then syncFilterStore strdown ctx
    else syncMatching ctx ctx.audioMatches fs (rebuildAudioFilterStore strdown ctx)

def rebuildGpuFilterStore : FilterCtx :=
  if ctx.filterText ≠ [] then rebuildFilterStore strdown ctx else ctx.install (copyGpuChildren ctx.store)

def syncGpuFilterStore : FilterCtx :=
  match ctx.filterStore with
  | none => rebuildGpuFilterStore strdown ctx
  | some fs =>
    if ctx.filterText ≠ [] then syncFilterStore strdown ctx
    else if countGpuRows ctx.store ≠ fs.count || !gpuFilterMembershipIsCurrent ctx.store fs then
      rebuildGpuFilterStore strdown ctx
    else
      match syncFilterRows ctx.store fs with
      | none => rebuildGpuFilterStore strdown ctx
      | some synced => { ctx with filterStore := some synced }

def FilterCtx.threshold (ctx : FilterCtx) : Int32 := cpuIntensiveThreshold ctx.cpuCount

def rebuildCpuIntensiveFilterStore : FilterCtx :=
  if ctx.filterText ≠ [] then rebuildFilterStore strdown ctx
  else ctx.install (copyCpuIntensiveChildren ctx.threshold ctx.store)

def syncCpuIntensiveFilterStore : FilterCtx :=
  if ctx.filterText ≠ [] then syncFilterStore strdown ctx
  else
    match ctx.filterStore with
    | none => rebuildCpuIntensiveFilterStore strdown ctx
    | some fs =>
      if countCpuIntensiveRows ctx.threshold ctx.store ≠ fs.count ||
          !cpuFilterMembershipIsCurrent ctx.threshold ctx.store fs then
        rebuildCpuIntensiveFilterStore strdown ctx
      else
        match syncCpuFilterRows ctx.store fs with
        | none => rebuildCpuIntensiveFilterStore strdown ctx
        | some synced => { ctx with filterStore := some synced }

end

end Evemon.ProcTree
