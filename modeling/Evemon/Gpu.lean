import Evemon.Wire

namespace Evemon.Ipc

structure GpuDevice where
  name : FixedStr 160
  vendor : FixedStr 64
  driver : FixedStr 32
  pdev : FixedStr 16
  valid : UInt32
  utilizationPercent : UInt32
  temperatureC : UInt32
  powerMw : UInt32
  powerLimitMw : UInt32
  fanPercent : UInt32
  fanRpm : UInt32
  coreClockMhz : UInt32
  coreClockMaxMhz : UInt32
  memoryClockMhz : UInt32
  memoryClockMaxMhz : UInt32
  pcieGeneration : UInt32
  pcieWidth : UInt32
  encoderPercent : UInt32
  memoryTotalBytes : UInt64
  memoryUsedBytes : UInt64

structure GpuProcess where
  deviceIndex : UInt32
  pid : Int32
  valid : UInt32
  utilizationPercent : UInt32
  encodePercent : UInt32
  decodePercent : UInt32
  memoryBytes : UInt64
  name : FixedStr 96
  user : FixedStr 64

structure GpuSnapshot where
  monotonicNs : UInt64 := 0
  devices : List GpuDevice := []
  processes : List GpuProcess := []

def putGpuDevice (v : GpuDevice) : Wire Unit := do
  ipcPutString v.name.bytes
  ipcPutString v.vendor.bytes
  ipcPutString v.driver.bytes
  ipcPutString v.pdev.bytes
  ipcPutU32 v.valid
  ipcPutU32 v.utilizationPercent
  ipcPutU32 v.temperatureC
  ipcPutU32 v.powerMw
  ipcPutU32 v.powerLimitMw
  ipcPutU32 v.fanPercent
  ipcPutU32 v.fanRpm
  ipcPutU32 v.coreClockMhz
  ipcPutU32 v.coreClockMaxMhz
  ipcPutU32 v.memoryClockMhz
  ipcPutU32 v.memoryClockMaxMhz
  ipcPutU32 v.pcieGeneration
  ipcPutU32 v.pcieWidth
  ipcPutU32 v.encoderPercent
  ipcPutU64 v.memoryTotalBytes
  ipcPutU64 v.memoryUsedBytes

def putGpuProcess (v : GpuProcess) : Wire Unit := do
  ipcPutU32 v.deviceIndex
  ipcPutU32 v.pid.toUInt32
  ipcPutU32 v.valid
  ipcPutU32 v.utilizationPercent
  ipcPutU32 v.encodePercent
  ipcPutU32 v.decodePercent
  ipcPutU64 v.memoryBytes
  ipcPutString v.name.bytes
  ipcPutString v.user.bytes

def queryGpuEncode (s : GpuSnapshot) : Wire Unit := do
  ipcPutU64 s.monotonicNs
  ipcPutU32 (UInt32.ofNat s.devices.length)
  putUntilError putGpuDevice s.devices
  ipcPutU32 (UInt32.ofNat s.processes.length)
  putUntilError putGpuProcess s.processes

def getGpuDevice : Wire GpuDevice := do
  let name ← ipcGetFixed 160
  let vendor ← ipcGetFixed 64
  let driver ← ipcGetFixed 32
  let pdev ← ipcGetFixed 16
  let valid ← ipcGetU32
  let utilizationPercent ← ipcGetU32
  let temperatureC ← ipcGetU32
  let powerMw ← ipcGetU32
  let powerLimitMw ← ipcGetU32
  let fanPercent ← ipcGetU32
  let fanRpm ← ipcGetU32
  let coreClockMhz ← ipcGetU32
  let coreClockMaxMhz ← ipcGetU32
  let memoryClockMhz ← ipcGetU32
  let memoryClockMaxMhz ← ipcGetU32
  let pcieGeneration ← ipcGetU32
  let pcieWidth ← ipcGetU32
  let encoderPercent ← ipcGetU32
  let memoryTotalBytes ← ipcGetU64
  let memoryUsedBytes ← ipcGetU64
  pure { name, vendor, driver, pdev, valid, utilizationPercent, temperatureC, powerMw, powerLimitMw, fanPercent,
         fanRpm, coreClockMhz, coreClockMaxMhz, memoryClockMhz, memoryClockMaxMhz, pcieGeneration, pcieWidth,
         encoderPercent, memoryTotalBytes, memoryUsedBytes }

def getGpuProcess (deviceCount : UInt32) : Wire GpuProcess := do
  let deviceIndex ← ipcGetU32
  let pid ← ipcGetU32
  let valid ← ipcGetU32
  let utilizationPercent ← ipcGetU32
  let encodePercent ← ipcGetU32
  let decodePercent ← ipcGetU32
  let memoryBytes ← ipcGetU64
  let name ← ipcGetFixed 96
  let user ← ipcGetFixed 64
  rejectIf (decide (deviceIndex ≥ deviceCount)) .EPROTO
  pure { deviceIndex, pid := pid.toInt32, valid, utilizationPercent, encodePercent, decodePercent, memoryBytes,
         name, user }

def getGpuProcesses (monotonicNs : UInt64) (deviceCount : UInt32) (devices : List GpuDevice) :
    Wire (Option GpuSnapshot) := do
  let processCount ← ipcGetU32
  let buf ← Prog.inspect WireState.buf
  if buf.error.isSome || decide (processCount > 65536) ||
      decide (processCount.toNat > sizeSub buf.data.length buf.pos / 40) then pure none
  else
    let granted ← malloc
    if granted then
      let processes ← getUntilError (getGpuProcess deviceCount) processCount.toNat
      let buf ← Prog.inspect WireState.buf
      pure (if ipcDone buf then some { monotonicNs, devices, processes } else none)
    else pure none

def getGpuSnapshot : Wire (Option GpuSnapshot) := do
  let monotonicNs ← ipcGetU64
  let deviceCount ← ipcGetU32
  let buf ← Prog.inspect WireState.buf
  if buf.error.isSome || decide (deviceCount > 65536) ||
      decide (deviceCount.toNat > sizeSub buf.data.length buf.pos / 88) then pure none
  else
    let granted ← malloc
    if granted then
      let devices ← getUntilError getGpuDevice deviceCount.toNat
      getGpuProcesses monotonicNs deviceCount devices
    else pure none

def queryGpuDecode (out : GpuSnapshot) : Wire (Option Errno × GpuSnapshot) := do
  let decoded ← getGpuSnapshot
  match decoded with
  | some snapshot => pure (none, snapshot)
  | none => pure (some .EPROTO, out)

end Evemon.Ipc
