import Evemon.Snapshot

-- query_inspect_encode and query_inspect_decode over the bundle that broker_gather returns.
namespace Evemon.Inspect

open Ipc

-- A heap string: what stands before its NUL. A NULL pointer is `none`.
@[ext]
structure CString where
  bytes : Bytes
  nulFree : 0 ∉ bytes

instance : DecidableEq CString := fun _ _ => decidable_of_iff _ CString.ext_iff.symm

theorem nul_free_nil : (0 : UInt8) ∉ ([] : Bytes) := List.not_mem_nil

def CString.empty : CString := ⟨[], nul_free_nil⟩

structure Fd where
  fd : Int32
  path : FixedStr 512
  desc : FixedStr 256
  category : Int32
  netSortKey : UInt64
  sourcePid : Int32

structure Env where
  text : Option CString
  category : Int32

structure Mmap where
  text : Option CString
  category : Int32
  sizeKb : UInt64

structure Lib where
  path : FixedStr 512
  name : FixedStr 256
  version : FixedStr 64
  origin : FixedStr 128
  category : Int32
  sizeKb : UInt64

structure Sock where
  desc : FixedStr 512
  sendDelta : UInt64
  recvDelta : UInt64
  total : UInt64
  sourcePid : Int32

structure Thread where
  tid : Int32
  name : FixedStr 64
  state : Int8
  priority : Int32
  nice : Int32
  processor : Int32
  utime : UInt64
  stime : UInt64
  starttime : UInt64
  cpuPercent : Float
  voluntaryCtxtSwitches : UInt64
  nonvoluntaryCtxtSwitches : UInt64

structure PwNode where
  id : UInt32
  clientId : UInt32
  pid : Int32
  appName : FixedStr 128
  nodeName : FixedStr 128
  nodeDesc : FixedStr 256
  mediaClass : FixedStr 64
  mediaName : FixedStr 256

structure PwLink where
  outputNode : UInt32
  outputPort : UInt32
  inputNode : UInt32
  inputPort : UInt32

structure PwPort where
  id : UInt32
  nodeId : UInt32
  portName : FixedStr 128
  direction : FixedStr 8
  formatDsp : FixedStr 64

structure MprisPlayer where
  identity : FixedStr 128
  desktopEntry : FixedStr 128 := .empty 128
  pid : Int32
  busName : FixedStr 256 := .empty 256
  playbackStatus : FixedStr 32 := .empty 32
  loopStatus : FixedStr 32 := .empty 32
  shuffle : Int32 := 0
  volume : Float
  rate : Float
  positionUs : Int64
  trackTitle : FixedStr 256 := .empty 256
  trackArtist : FixedStr 256 := .empty 256
  trackAlbum : FixedStr 256 := .empty 256
  trackAlbumArtist : FixedStr 256 := .empty 256
  artUrl : FixedStr 512 := .empty 512
  trackId : FixedStr 256 := .empty 256
  genre : FixedStr 128 := .empty 128
  lengthUs : Int64
  trackNumber : Int32
  discNumber : Int32
  contentType : FixedStr 64 := .empty 64
  url : FixedStr 512 := .empty 512
  canPlay : Int32
  canPause : Int32
  canSeek : Int32 := 0
  canGoNext : Int32 := 0
  canGoPrevious : Int32 := 0
  canControl : Int32

structure Cgroup where
  path : FixedStr 512
  memCurrent : Int64
  memMax : Int64
  memHigh : Int64
  swapMax : Int64
  cpuQuota : Int64
  cpuPeriod : Int64
  pidsCurrent : Int64
  pidsMax : Int64
  ioMax : FixedStr 256

structure ProcData where
  pid : Int32
  ppid : Int32
  name : Option CString
  cmdline : Option CString := none
  user : Option CString := none
  cwd : Option CString := none
  cpuPercent : Float := Float.ofBits 0
  rssKb : Int64
  descendantPids : List Int32 := []
  fds : List Fd
  envs : List Env := []
  mmaps : List Mmap := []
  libs : List Lib := []
  sockets : List Sock := []
  threads : List Thread := []
  pwNodes : List PwNode := []
  pwLinks : List PwLink := []
  pwPorts : List PwPort := []
  mprisPlayers : List MprisPlayer
  cgroup : Option Cgroup := none
  rawStatus : Option CString := none
  rawMaps : Option CString := none
  rawCgroup : Option CString := none

def putText (s : Option CString) : Wire Unit := ipcPutString ((s.map CString.bytes).getD [])

def putInt (value : Int32) : Wire Unit := ipcPutU32 value.toUInt32

def putLong (value : Int64) : Wire Unit := ipcPutU64 value.toUInt64

def putFixed {capacity : Nat} (s : FixedStr capacity) : Wire Unit := ipcPutString s.bytes

def putFd (v : Fd) : Wire Unit := do
  putInt v.fd
  putFixed v.path
  putFixed v.desc
  putInt v.category
  ipcPutU64 v.netSortKey
  putInt v.sourcePid

def putEnv (v : Env) : Wire Unit := do
  putText v.text
  putInt v.category

def putMmap (v : Mmap) : Wire Unit := do
  putText v.text
  putInt v.category
  ipcPutU64 v.sizeKb

def putLib (v : Lib) : Wire Unit := do
  putFixed v.path
  putFixed v.name
  putFixed v.version
  putFixed v.origin
  putInt v.category
  ipcPutU64 v.sizeKb

def putSock (v : Sock) : Wire Unit := do
  putFixed v.desc
  ipcPutU64 v.sendDelta
  ipcPutU64 v.recvDelta
  ipcPutU64 v.total
  putInt v.sourcePid

-- The state is a char, widened with its sign.
def putThread (v : Thread) : Wire Unit := do
  putInt v.tid
  putFixed v.name
  putInt v.state.toInt32
  putInt v.priority
  putInt v.nice
  putInt v.processor
  ipcPutU64 v.utime
  ipcPutU64 v.stime
  ipcPutU64 v.starttime
  ipcPutF64 v.cpuPercent
  ipcPutU64 v.voluntaryCtxtSwitches
  ipcPutU64 v.nonvoluntaryCtxtSwitches

def putPwNode (v : PwNode) : Wire Unit := do
  ipcPutU32 v.id
  ipcPutU32 v.clientId
  putInt v.pid
  putFixed v.appName
  putFixed v.nodeName
  putFixed v.nodeDesc
  putFixed v.mediaClass
  putFixed v.mediaName

def putPwLink (v : PwLink) : Wire Unit := do
  ipcPutU32 v.outputNode
  ipcPutU32 v.outputPort
  ipcPutU32 v.inputNode
  ipcPutU32 v.inputPort

def putPwPort (v : PwPort) : Wire Unit := do
  ipcPutU32 v.id
  ipcPutU32 v.nodeId
  putFixed v.portName
  putFixed v.direction
  putFixed v.formatDsp

def putMpris (v : MprisPlayer) : Wire Unit := do
  putFixed v.identity
  putFixed v.desktopEntry
  putInt v.pid
  putFixed v.busName
  putFixed v.playbackStatus
  putFixed v.loopStatus
  putInt v.shuffle
  ipcPutF64 v.volume
  ipcPutF64 v.rate
  putLong v.positionUs
  putFixed v.trackTitle
  putFixed v.trackArtist
  putFixed v.trackAlbum
  putFixed v.trackAlbumArtist
  putFixed v.artUrl
  putFixed v.trackId
  putFixed v.genre
  putLong v.lengthUs
  putInt v.trackNumber
  putInt v.discNumber
  putFixed v.contentType
  putFixed v.url
  putInt v.canPlay
  putInt v.canPause
  putInt v.canSeek
  putInt v.canGoNext
  putInt v.canGoPrevious
  putInt v.canControl

def putCgroup (v : Cgroup) : Wire Unit := do
  putFixed v.path
  putLong v.memCurrent
  putLong v.memMax
  putLong v.memHigh
  putLong v.swapMax
  putLong v.cpuQuota
  putLong v.cpuPeriod
  putLong v.pidsCurrent
  putLong v.pidsMax
  putFixed v.ioMax

def putItems {α : Type} (item : α → Wire Unit) (values : List α) : Wire Unit := do
  ipcPutU32 (UInt32.ofNat values.length)
  putUntilError item values

-- The one loop without that look: every put after an error does nothing.
def putDescendants (pids : List Int32) : Wire Unit := do
  ipcPutU32 (UInt32.ofNat pids.length)
  pids.forM putInt

def putCgroupIf : Option Cgroup → Wire Unit
  | none => ipcPutU32 0
  | some v => do
      ipcPutU32 1
      putCgroup v

def putProcData (d : ProcData) : Wire Unit := do
  putInt d.pid
  putInt d.ppid
  putText d.name
  putText d.cmdline
  putText d.user
  putText d.cwd
  ipcPutF64 d.cpuPercent
  putLong d.rssKb
  putDescendants d.descendantPids
  putItems putFd d.fds
  putItems putEnv d.envs
  putItems putMmap d.mmaps
  putItems putLib d.libs
  putItems putSock d.sockets
  putItems putThread d.threads
  putItems putPwNode d.pwNodes
  putItems putPwLink d.pwLinks
  putItems putPwPort d.pwPorts
  putItems putMpris d.mprisPlayers
  putCgroupIf d.cgroup
  putText d.rawStatus
  putText d.rawMaps
  putText d.rawCgroup

def queryInspectEncode (gathered : Option ProcData) : Wire (Option IpcCode) :=
  match gathered with
  | none => pure (some .internal)
  | some d => do
      putProcData d
      let failed ← hasError
      pure (if failed then some .internal else none)

-- Always taken for the string of a getter: `stringSize` has looked for the NUL.
def toCString (bytes : Bytes) : Option CString := if nulFree : 0 ∉ bytes then some ⟨bytes, nulFree⟩ else none

def getText : Wire (Option CString) := do
  let text ← ipcGetString
  pure (text.bind toCString)

def getInt : Wire Int32 := do
  let value ← ipcGetU32
  pure value.toInt32

def getLong : Wire Int64 := do
  let value ← ipcGetU64
  pure value.toInt64

def getDouble : Wire Float := do
  let value ← ipcGetF64
  pure value.val

def getFd : Wire Fd := do
  let fd ← getInt
  let path ← ipcGetFixed 512
  let desc ← ipcGetFixed 256
  let category ← getInt
  let netSortKey ← ipcGetU64
  let sourcePid ← getInt
  pure { fd, path, desc, category, netSortKey, sourcePid }

def getEnv : Wire Env := do
  let text ← getText
  let category ← getInt
  pure { text, category }

def getMmap : Wire Mmap := do
  let text ← getText
  let category ← getInt
  let sizeKb ← ipcGetU64
  pure { text, category, sizeKb }

def getLib : Wire Lib := do
  let path ← ipcGetFixed 512
  let name ← ipcGetFixed 256
  let version ← ipcGetFixed 64
  let origin ← ipcGetFixed 128
  let category ← getInt
  let sizeKb ← ipcGetU64
  pure { path, name, version, origin, category, sizeKb }

def getSock : Wire Sock := do
  let desc ← ipcGetFixed 512
  let sendDelta ← ipcGetU64
  let recvDelta ← ipcGetU64
  let total ← ipcGetU64
  let sourcePid ← getInt
  pure { desc, sendDelta, recvDelta, total, sourcePid }

def getThread : Wire Thread := do
  let tid ← getInt
  let name ← ipcGetFixed 64
  let state ← ipcGetU32
  let priority ← getInt
  let nice ← getInt
  let processor ← getInt
  let utime ← ipcGetU64
  let stime ← ipcGetU64
  let starttime ← ipcGetU64
  let cpuPercent ← getDouble
  let voluntaryCtxtSwitches ← ipcGetU64
  let nonvoluntaryCtxtSwitches ← ipcGetU64
  pure { tid, name, state := state.toUInt8.toInt8, priority, nice, processor, utime, stime, starttime, cpuPercent,
         voluntaryCtxtSwitches, nonvoluntaryCtxtSwitches }

def getPwNode : Wire PwNode := do
  let id ← ipcGetU32
  let clientId ← ipcGetU32
  let pid ← getInt
  let appName ← ipcGetFixed 128
  let nodeName ← ipcGetFixed 128
  let nodeDesc ← ipcGetFixed 256
  let mediaClass ← ipcGetFixed 64
  let mediaName ← ipcGetFixed 256
  pure { id, clientId, pid, appName, nodeName, nodeDesc, mediaClass, mediaName }

def getPwLink : Wire PwLink := do
  let outputNode ← ipcGetU32
  let outputPort ← ipcGetU32
  let inputNode ← ipcGetU32
  let inputPort ← ipcGetU32
  pure { outputNode, outputPort, inputNode, inputPort }

def getPwPort : Wire PwPort := do
  let id ← ipcGetU32
  let nodeId ← ipcGetU32
  let portName ← ipcGetFixed 128
  let direction ← ipcGetFixed 8
  let formatDsp ← ipcGetFixed 64
  pure { id, nodeId, portName, direction, formatDsp }

def getMpris : Wire MprisPlayer := do
  let identity ← ipcGetFixed 128
  let desktopEntry ← ipcGetFixed 128
  let pid ← getInt
  let busName ← ipcGetFixed 256
  let playbackStatus ← ipcGetFixed 32
  let loopStatus ← ipcGetFixed 32
  let shuffle ← getInt
  let volume ← getDouble
  let rate ← getDouble
  let positionUs ← getLong
  let trackTitle ← ipcGetFixed 256
  let trackArtist ← ipcGetFixed 256
  let trackAlbum ← ipcGetFixed 256
  let trackAlbumArtist ← ipcGetFixed 256
  let artUrl ← ipcGetFixed 512
  let trackId ← ipcGetFixed 256
  let genre ← ipcGetFixed 128
  let lengthUs ← getLong
  let trackNumber ← getInt
  let discNumber ← getInt
  let contentType ← ipcGetFixed 64
  let url ← ipcGetFixed 512
  let canPlay ← getInt
  let canPause ← getInt
  let canSeek ← getInt
  let canGoNext ← getInt
  let canGoPrevious ← getInt
  let canControl ← getInt
  pure { identity, desktopEntry, pid, busName, playbackStatus, loopStatus, shuffle, volume, rate, positionUs,
         trackTitle, trackArtist, trackAlbum, trackAlbumArtist, artUrl, trackId, genre, lengthUs, trackNumber,
         discNumber, contentType, url, canPlay, canPause, canSeek, canGoNext, canGoPrevious, canControl }

def getCgroup : Wire Cgroup := do
  let path ← ipcGetFixed 512
  let memCurrent ← getLong
  let memMax ← getLong
  let memHigh ← getLong
  let swapMax ← getLong
  let cpuQuota ← getLong
  let cpuPeriod ← getLong
  let pidsCurrent ← getLong
  let pidsMax ← getLong
  let ioMax ← ipcGetFixed 256
  pure { path, memCurrent, memMax, memHigh, swapMax, cpuQuota, cpuPeriod, pidsCurrent, pidsMax, ioMax }

def arrayRefused (size minimum budget : Nat) (n : UInt32) (buf : IpcBuf) : Bool :=
  buf.error.isSome || decide (n.toNat > 65536) || decide (n.toNat > sizeSub buf.data.length buf.pos / minimum) ||
    decide (n.toNat > budget / size)

-- Returns *count and *budget. A refused array leaves the count at 0.
def getArray (size minimum budget : Nat) : Wire (Nat × Nat) := do
  let n ← ipcGetU32
  let buf ← Prog.inspect WireState.buf
  if arrayRefused size minimum budget n buf then
    setError .EPROTO
    pure (0, budget)
  else
    let granted ← malloc
    if granted then pure (n.toNat, budget - n.toNat * size)
    else
      setError .ENOMEM
      pure (0, budget)

def getItems {α : Type} (size minimum : Nat) (item : Wire α) (budget : Nat) : Wire (List α × Nat) := do
  let array ← getArray size minimum budget
  let items ← getUntilError item array.1
  pure (items, array.2)

-- What sizeof says of each element on the LP64 ABI.
def fdSize : Nat := 792
def envSize : Nat := 16
def mmapSize : Nat := 24
def libSize : Nat := 976
def sockSize : Nat := 544
def threadSize : Nat := 136
def pwNodeSize : Nat := 844
def pwLinkSize : Nat := 16
def pwPortSize : Nat := 208
def mprisSize : Nat := 3144

def getCgroupIf : Wire (Option Cgroup) := do
  let present ← ipcGetU32
  rejectIf (decide (present > 1)) .EPROTO
  let failed ← hasError
  if present == 0 || failed then pure none
  else
    let v ← getCgroup
    pure (some v)

def getProcData : Wire ProcData := do
  let pid ← getInt
  let ppid ← getInt
  let name ← getText
  let cmdline ← getText
  let user ← getText
  let cwd ← getText
  let cpuPercent ← getDouble
  let rssKb ← getLong
  let descendantPids ← getItems 4 4 getInt ipcLimit
  let fds ← getItems fdSize 28 getFd descendantPids.2
  let envs ← getItems envSize 8 getEnv fds.2
  let mmaps ← getItems mmapSize 16 getMmap envs.2
  let libs ← getItems libSize 28 getLib mmaps.2
  let sockets ← getItems sockSize 32 getSock libs.2
  let threads ← getItems threadSize 72 getThread sockets.2
  let pwNodes ← getItems pwNodeSize 32 getPwNode threads.2
  let pwLinks ← getItems pwLinkSize 16 getPwLink pwNodes.2
  let pwPorts ← getItems pwPortSize 20 getPwPort pwLinks.2
  let mprisPlayers ← getItems mprisSize 128 getMpris pwPorts.2
  let cgroup ← getCgroupIf
  let rawStatus ← getText
  let rawMaps ← getText
  let rawCgroup ← getText
  pure { pid, ppid, name, cmdline, user, cwd, cpuPercent, rssKb, descendantPids := descendantPids.1, fds := fds.1,
         envs := envs.1, mmaps := mmaps.1, libs := libs.1, sockets := sockets.1, threads := threads.1,
         pwNodes := pwNodes.1, pwLinks := pwLinks.1, pwPorts := pwPorts.1, mprisPlayers := mprisPlayers.1,
         cgroup, rawStatus, rawMaps, rawCgroup }

def queryInspectDecode : Wire (Option ProcData) := do
  let granted ← malloc
  if granted then
    let d ← getProcData
    let done ← Prog.inspect fun state => ipcDone state.buf
    pure (if done then some d else none)
  else pure none

end Evemon.Inspect
