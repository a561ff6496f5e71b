import Evemon.Wire

namespace Evemon.Ipc

def eventRing : Nat := 256
def fdWriteMax : Nat := 4096

structure FdWrite where
  pid : Int32
  tgid : Int32
  fd : Int32
  truncated : Int32
  data : Bytes

structure Exec where
  pid : Int32
  ppid : Int32
  path : FixedStr 256

inductive Event where
  | fdWrite (write : FdWrite)
  | childExec (exec : Exec)

def getFdWrite : Wire Event := do
  let pid ← ipcGetU32
  let tgid ← ipcGetU32
  let fd ← ipcGetU32
  let truncated ← ipcGetU32
  let len ← ipcGetU32
  let buf ← Prog.inspect WireState.buf
  if len.toNat > fdWriteMax ∨ len.toNat > sizeSub buf.data.length buf.pos then
    setError .EPROTO
    pure (.fdWrite ⟨pid.toInt32, tgid.toInt32, fd.toInt32, truncated.toInt32, []⟩)
  else
    touch buf.pos len.toNat
    advance len.toNat
    pure (.fdWrite ⟨pid.toInt32, tgid.toInt32, fd.toInt32, truncated.toInt32, window buf len.toNat⟩)

def getExec : Wire Event := do
  let pid ← ipcGetU32
  let ppid ← ipcGetU32
  let path ← ipcGetFixed 256
  pure (.childExec ⟨pid.toInt32, ppid.toInt32, path⟩)

-- A record of an unknown type sets the error, so that it is never published.
def getEvent : Wire Event := do
  let type ← ipcGetU32
  if type = 1 then getFdWrite
  else if type = 2 then getExec
  else
    setError .EPROTO
    pure (.childExec ⟨0, 0, .empty 256⟩)

-- The bus is the list of events published so far. Returns errno for a failure.
def queryEventsDispatch (bus : List Event) : Wire (Option Errno × List Event) := do
  let _dropped ← ipcGetU64
  let count ← ipcGetU32
  if count.toNat > eventRing then pure (some .EPROTO, bus)
  else
    let granted ← malloc
    if granted then
      let records ← getUntilError getEvent count.toNat
      let buf ← Prog.inspect WireState.buf
      if ipcDone buf then pure (none, bus ++ records) else pure (some .EPROTO, bus)
    else pure (some .ENOMEM, bus)

end Evemon.Ipc
