import Evemon.Lib.FloatFormat
import Evemon.Proc

namespace Evemon.Ipc

open FloatFormat (widen narrow fltMax)

def ipcHello : UInt16 := 1
def ipcStatus : UInt16 := 2
def ipcSnapshot : UInt16 := 3
def ipcProcess : UInt16 := 4
def ipcSubscribe : UInt16 := 5
def ipcInspect : UInt16 := 6
def ipcControl : UInt16 := 7
def ipcEvents : UInt16 := 8
def ipcGpu : UInt16 := 9
def ipcHost : UInt16 := 10
def ipcSignal : UInt16 := 11
def ipcAbout : UInt16 := 12

inductive IpcCode where
  | badRequest
  | notReady
  | notFound
  | unsupported
  | internal
  | busy
deriving DecidableEq

def putFloats {count : Nat} (values : List.Vector Finite count) : Wire Unit :=
  values.toList.forM fun value => ipcPutF64 value.val

def putSystem (system : MonitorSystem) : Wire Unit := do
  ipcPutU64 system.uptimeSeconds
  ipcPutU64 system.memoryTotal
  ipcPutU64 system.memoryFree
  ipcPutU64 system.memoryAvailable
  putFloats system.load
  ipcPutU32 system.cpus
  ipcPutU32 system.users
  ipcPutU32 system.fdmonBackend

def getLoads : (count : Nat) → Wire (List.Vector Finite count)
  | 0 => pure .nil
  | count + 1 => do
      let value ← ipcGetF64
      let rest ← getLoads count
      pure (.cons value rest)

def getSystem : Wire MonitorSystem := do
  let uptimeSeconds ← ipcGetU64
  let memoryTotal ← ipcGetU64
  let memoryFree ← ipcGetU64
  let memoryAvailable ← ipcGetU64
  let load ← getLoads 3
  let cpus ← ipcGetU32
  let users ← ipcGetU32
  let fdmonBackend ← ipcGetU32
  pure { uptimeSeconds, memoryTotal, memoryFree, memoryAvailable, load, cpus, users, fdmonBackend }

def putSteam : Option SteamInfo → Wire Unit
  | none => ipcPutU32 0
  | some s => do
      ipcPutU32 1
      ipcPutU32 s.isSteam.toUInt32
      ipcPutU32 s.isWine.toUInt32
      ipcPutString s.appId.bytes
      ipcPutString s.gameName.bytes
      ipcPutString s.protonVersion.bytes
      ipcPutString s.protonDist.bytes
      ipcPutString s.compatData.bytes
      ipcPutString s.gameDir.bytes
      ipcPutString s.runtimeLayer.bytes
      ipcPutString s.displayLabel.bytes

def getSteamFields : Wire SteamInfo := do
  let isSteam ← ipcGetU32
  let isWine ← ipcGetU32
  let appId ← ipcGetFixed 32
  let gameName ← ipcGetFixed 256
  let protonVersion ← ipcGetFixed 128
  let protonDist ← ipcGetFixed 1024
  let compatData ← ipcGetFixed 1024
  let gameDir ← ipcGetFixed 1024
  let runtimeLayer ← ipcGetFixed 128
  let displayLabel ← ipcGetFixed 256
  pure { isSteam := isSteam.toInt32, isWine := isWine.toInt32, appId, gameName, protonVersion, protonDist,
         compatData, gameDir, runtimeLayer, displayLabel }

def getSteam : Wire (Option SteamInfo) := do
  let present ← ipcGetU32
  rejectIf (decide (present > 1)) .EPROTO
  let failed ← hasError
  if present == 0 || failed then pure none
  else
    let granted ← malloc
    if granted then
      let s ← getSteamFields
      pure (some s)
    else
      setError .ENOMEM
      pure none

def putRow (snap : ProcSnapshot) (p : ProcEntry) : Wire Unit := do
  ipcPutU32 p.pid.toUInt32
  ipcPutU32 p.ppid.toUInt32
  ipcPutU64 p.memRssKb
  ipcPutU64 p.cpuTicks
  ipcPutU64 p.startTime
  ipcPutU64 p.startTicks
  ipcPutU64 p.evemonInstance
  ipcPutU64 p.ioReadBytes
  ipcPutU64 p.ioWriteBytes
  ipcPutU64 p.netSendBytes
  ipcPutU64 p.netRecvBytes
  ipcPutF64 (widen p.cpuPercent)
  ipcPutF64 (widen p.ioReadRate)
  ipcPutF64 (widen p.ioWriteRate)
  ipcPutU32 p.ioHistoryCount.toUInt32
  ipcPutU32 p.flags.toUInt32
  p.ioHistory.toList.forM fun value => ipcPutF64 (widen value)
  ipcPutString (procStr snap.strtab p.name.off)
  ipcPutString (procStr snap.strtab p.cmd.off)
  ipcPutString (procStr snap.strtab p.user.off)
  ipcPutString (procStr snap.strtab p.cwd.off)
  ipcPutString (procStr snap.strtab p.container.off)
  ipcPutString (procStr snap.strtab p.service.off)
  putSteam (snap.steam p)

def getFloat : Wire Float32 := do
  let value ← ipcGetF64
  if fltMax < value.val.abs then
    setError .EPROTO
    pure (Float32.ofBits 0)
  else pure (narrow value.val)

def getHistory : (count : Nat) → Wire (List.Vector Float32 count)
  | 0 => pure .nil
  | count + 1 => do
      let value ← getFloat
      let rest ← getHistory count
      pure (.cons value rest)

def pushString (tab : StrTab) (s : Bytes) : Wire (StrTab × Nat) := do
  if strtabGrows tab s then
    let granted ← malloc
    pure (strtabPush tab s granted)
  else pure (strtabPush tab s true)

-- The STR macro of get_row. A string that could not be read leaves the zeroed row as it is.
def getStr (tab : StrTab) : Wire (StrTab × StrRef) := do
  let text ← ipcGetString
  match text with
  | none => pure (tab, {})
  | some s =>
    let pushed ← pushString tab s
    rejectIf (decide (s.length ≠ 0 ∧ pushed.2 = 0)) .ENOMEM
    pure (pushed.1, ⟨pushed.2, UInt16.ofNat (min s.length 65535)⟩)

def intMax : UInt32 := 2147483647

def getRow (snap : ProcSnapshot) : Wire ProcSnapshot := do
  let pid ← ipcGetU32
  let ppid ← ipcGetU32
  rejectIf (pid == 0 || decide (pid > intMax) || decide (ppid > intMax)) .EPROTO
  let memRssKb ← ipcGetU64
  let cpuTicks ← ipcGetU64
  let startTime ← ipcGetU64
  let startTicks ← ipcGetU64
  let evemonInstance ← ipcGetU64
  let ioReadBytes ← ipcGetU64
  let ioWriteBytes ← ipcGetU64
  let netSendBytes ← ipcGetU64
  let netRecvBytes ← ipcGetU64
  let cpuPercent ← getFloat
  let ioReadRate ← getFloat
  let ioWriteRate ← getFloat
  let history ← ipcGetU32
  let flags ← ipcGetU32
  rejectIf (decide (history.toNat > ioHistoryLen) || decide (flags > 65535)) .EPROTO
  let ioHistory ← getHistory ioHistoryLen
  let name ← getStr snap.strtab
  let cmd ← getStr name.1
  let user ← getStr cmd.1
  let cwd ← getStr user.1
  let container ← getStr cwd.1
  let service ← getStr container.1
  let steam ← getSteam
  let row : ProcEntry := {
    pid := pid.toInt32, ppid := ppid.toInt32
    name := name.2, cmd := cmd.2, user := user.2, cwd := cwd.2, container := container.2, service := service.2
    memRssKb, cpuTicks, startTime, startTicks, evemonInstance
    ioReadBytes, ioWriteBytes, netSendBytes, netRecvBytes
    cpuPercent, ioReadRate, ioWriteRate
    ioHistoryCount := history.toUInt8, flags := flags.toUInt16, ioHistory
    extraIdx := if steam.isSome then snap.extras.length else uint32Max }
  pure { entries := snap.entries ++ [row]
         strtab := service.1
         extras := if steam.isSome then snap.extras ++ [steam] else snap.extras }

def getRows : Nat → ProcSnapshot → Wire ProcSnapshot
  | 0, snap => pure snap
  | count + 1, snap => do
      let failed ← hasError
      if failed then pure snap
      else
        let next ← getRow snap
        getRows count next

def copyRow (source : ProcSnapshot) (entry : ProcEntry) (copy : ProcSnapshot) : Wire (Option ProcSnapshot) := do
  match source.steam entry with
  | none => pure (some { copy with entries := copy.entries ++ [{ entry with extraIdx := uint32Max }] })
  | some steam =>
    let granted ← malloc
    if granted then
      pure (some { copy with
        entries := copy.entries ++ [{ entry with extraIdx := copy.extras.length }]
        extras := copy.extras ++ [some steam] })
    else pure none

def copyRows (source : ProcSnapshot) (pid : Int32) : List ProcEntry → ProcSnapshot → Wire (Option ProcSnapshot)
  | [], copy => pure (some copy)
  | entry :: rest, copy => do
      if pid != 0 && entry.pid != pid then copyRows source pid rest copy
      else
        let copied ← copyRow source entry copy
        match copied with
        | none => pure none
        | some next => if pid != 0 then pure (some next) else copyRows source pid rest next

def copySnapshot (source : ProcSnapshot) (pid : Int32) : Wire (Option ProcSnapshot) := do
  if source.entries.isEmpty then pure (some {})
  else
    let entriesGranted ← malloc
    let extrasGranted ← malloc
    let bufGranted ← malloc
    if entriesGranted && extrasGranted && bufGranted then
      copyRows source pid source.entries { strtab := { buf := source.strtab.buf } }
    else pure none

def putRows (copy : ProcSnapshot) (evemonInstance : UInt64) : List ProcEntry → Wire Unit
  | [] => pure ()
  | entry :: rest => do
      let failed ← hasError
      if failed then pure ()
      else
        putRow copy { entry with evemonInstance }
        putRows copy evemonInstance rest

def putSnapshot (state : MonitorState) (type : UInt16) (copy : ProcSnapshot) (sent : Timespec) : Wire Unit := do
  ipcPutU64 state.generation
  ipcPutU64 state.sampledAt.ns
  ipcPutU32 state.intervalMs
  ipcPutU32 state.snapshotComplete
  ipcPutU32 (UInt32.ofNat state.snapshot.entries.length)
  putSystem state.system
  ipcPutU64 sent.ns
  if type = ipcStatus then pure ()
  else
    ipcPutU32 (UInt32.ofNat copy.entries.length)
    putRows copy state.evemonInstance copy.entries

def copyRequested (state : MonitorState) (type : UInt16) (pid : Int32) : Wire (Option ProcSnapshot) :=
  if type = ipcStatus then pure (some {}) else copySnapshot state.snapshot pid

def querySnapshotEncode (state : MonitorState) (type : UInt16) (pid : Int32) (sent : Timespec) :
    Wire (Option IpcCode) := do
  let copied ← copyRequested state type pid
  match copied with
  | none => pure (some .internal)
  | some copy =>
    if pid ≠ 0 ∧ copy.entries = [] then
      pure (some (if state.snapshotComplete ≠ 0 then .notFound else .notReady))
    else
      putSnapshot state type copy sent
      let failed ← hasError
      pure (if failed then some .internal else none)

def mallocIf (reached : Bool) : Wire Bool := if reached then malloc else pure false

def decodeRows (total : UInt32) : Wire ProcSnapshot := do
  let count ← ipcGetU32
  let buf ← Prog.inspect WireState.buf
  rejectIf (decide (count > total) || decide (count.toNat > sizeSub buf.data.length buf.pos / 300)) .EPROTO
  let failed ← hasError
  if failed then pure {}
  else
    let entriesGranted ← malloc
    let extrasGranted ← malloc
    let tableGranted ← mallocIf (entriesGranted && extrasGranted)
    rejectIf (!tableGranted) .ENOMEM
    getRows count.toNat { strtab := if tableGranted then strtabInit 4096 else {} }

def localSample (received : Timespec) (ns sent : UInt64) : UInt64 :=
  let age := sent - ns
  if ns ≠ 0 ∧ age ≤ received.ns then received.ns - age else 0

theorem local_sample_lt (received : Timespec) (ns sent : UInt64) : (localSample received ns sent).toNat < 2 ^ 63 := by
  have bound := timespec_ns_lt received
  unfold localSample
  dsimp only
  split
  · rename_i recent
    rw [UInt64.toNat_sub_of_le _ _ recent.2]
    omega
  · decide

structure SnapshotReply where
  generation : UInt64
  ns : UInt64
  interval : UInt32
  ready : UInt32
  system : MonitorSystem
  sent : UInt64
  next : ProcSnapshot

def getReplyRows (statusOnly : Bool) (kept : ProcSnapshot) (total : UInt32) : Wire ProcSnapshot :=
  if statusOnly then pure kept else decodeRows total

def getReply (statusOnly : Bool) (kept : ProcSnapshot) : Wire SnapshotReply := do
  let generation ← ipcGetU64
  let ns ← ipcGetU64
  let interval ← ipcGetU32
  let ready ← ipcGetU32
  let total ← ipcGetU32
  let system ← getSystem
  let sent ← ipcGetU64
  rejectIf (decide (sent < ns)) .EPROTO
  rejectIf (interval == 0 || decide (interval > 3600000) || decide (ready > 1)) .EPROTO
  let next ← getReplyRows statusOnly kept total
  pure { generation, ns, interval, ready, system, sent, next }

def installReply (state : MonitorState) (reply : SnapshotReply) (received : Timespec) : MonitorState :=
  { state with
    snapshot := reply.next
    generation := reply.generation
    sampledAt := .ofNs (localSample received reply.ns reply.sent) (local_sample_lt received reply.ns reply.sent)
    intervalMs := reply.interval
    snapshotComplete := reply.ready
    system := reply.system
    connected := true }

def querySnapshotDecode (state : MonitorState) (statusOnly : Bool) (received : Timespec) :
    Wire (Option Errno × MonitorState) := do
  let reply ← getReply statusOnly state.snapshot
  let buf ← Prog.inspect WireState.buf
  if ipcDone buf then pure (none, installReply state reply received)
  else pure (some (buf.error.getD .EPROTO), state)

theorem query_snapshot_decode_run (state : MonitorState) (statusOnly : Bool) (received : Timespec) (start : WireState) :
    (querySnapshotDecode state statusOnly received).run start =
    if ipcDone ((getReply statusOnly state.snapshot).run start).2.buf then
    ((none, installReply state ((getReply statusOnly state.snapshot).run start).1 received),
    ((getReply statusOnly state.snapshot).run start).2) else
    ((some (((getReply statusOnly state.snapshot).run start).2.buf.error.getD .EPROTO), state),
    ((getReply statusOnly state.snapshot).run start).2) := by
  unfold querySnapshotDecode
  generalize getReply statusOnly state.snapshot = reading
  simp only [Prog.run_bind, ↓Prog.run_inspect_bind, Prog.run_ite, Prog.run_pure]

end Evemon.Ipc
