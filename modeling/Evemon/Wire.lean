import Evemon.Lib.BigEndian
import Evemon.Lib.Prog

namespace Evemon.Ipc

open BigEndian

abbrev Bytes := List UInt8

def ipcMagic : UInt32 := 0x45564d31
def ipcVersion : UInt32 := 1
def ipcHeaderSize : Nat := 16
def ipcLimit : Nat := 32 * 1024 * 1024
def ipcRequestLimit : Nat := 4096

inductive Errno where
  | EPROTO
  | ENOMEM
  | EOVERFLOW
deriving DecidableEq

-- The C struct serves readers and writers alike. `data` is the first `len` bytes.
-- `reads` is ghost: every (position, count) range of `data` dereferenced so far.
structure IpcBuf where
  data : Bytes := []
  cap : Nat := 0
  pos : Nat := 0
  error : Option Errno := none
  reads : List (Nat × Nat) := []

structure Heap where
  grant : Nat → Bool
  asked : Nat := 0

def allGranted : Heap := { grant := fun _ => true }

-- Ghost record of one getter called by a decoder: whether it left the buffer in
-- error, and whether it handed back the empty value.
structure GetterCall where
  failed : Bool
  empty : Bool

structure WireState where
  buf : IpcBuf
  heap : Heap
  calls : List GetterCall := []

abbrev Wire := Prog WireState

-- size_t subtraction wraps: below zero it comes out near 2^64.
def sizeSub (a b : Nat) : Nat := if b ≤ a then a - b else a + 2 ^ 64 - b

theorem size_sub_exact {a b : Nat} (ordered : b ≤ a) : sizeSub a b = a - b := if_pos ordered

theorem size_sub_wraps {a b : Nat} (below : a < b) : sizeSub a b = a + 2 ^ 64 - b := if_neg (by omega)

def malloc : Wire Bool := ⟨fun state =>
  (state.heap.grant state.heap.asked, { state with heap := { state.heap with asked := state.heap.asked + 1 } })⟩

def setError (code : Errno) : Wire Unit :=
  Prog.modify fun state => { state with buf := { state.buf with error := some code } }

-- The decoders' idiom `if (condition) b->error = code;`.
def rejectIf (condition : Bool) (code : Errno) : Wire Unit :=
  if condition = true then setError code else pure ()

def hasError : Wire Bool := Prog.inspect fun state => state.buf.error.isSome

def appendBytes (bytes : Bytes) : Wire Unit :=
  Prog.modify fun state => { state with buf := { state.buf with data := state.buf.data ++ bytes } }

def setCap (cap : Nat) : Wire Unit :=
  Prog.modify fun state => { state with buf := { state.buf with cap := cap } }

def grownCap (cap needed : Nat) : Nat :=
  let doubled := if cap ≠ 0 then cap * 2 else 1024
  let enough := if doubled < needed then needed else doubled
  if enough > ipcLimit then ipcLimit else enough

def ipcPutBytes (bytes : Bytes) : Wire Unit := do
  let buf ← Prog.inspect WireState.buf
  if buf.error.isSome then pure ()
  else if bytes.length > sizeSub ipcLimit buf.data.length then setError .EOVERFLOW
  else if buf.data.length + bytes.length > buf.cap then
    let next ← malloc
    if next then
      setCap (grownCap buf.cap (buf.data.length + bytes.length))
      appendBytes bytes
    else setError .ENOMEM
  else appendBytes bytes

def ipcPutU32 (value : UInt32) : Wire Unit := ipcPutBytes (encode32 value)

def ipcPutU64 (value : UInt64) : Wire Unit := do
  ipcPutU32 (value >>> 32).toUInt32
  ipcPutU32 value.toUInt32

def ipcPutF64 (value : Float) : Wire Unit := ipcPutU64 value.toBits

-- The argument is the C string itself, so it stops before its first NUL.
def ipcPutString (s : Bytes) : Wire Unit := do
  if s.length > ipcLimit then setError .EOVERFLOW
  else
    ipcPutU32 (UInt32.ofNat s.length)
    ipcPutBytes s

def byteAt (buf : IpcBuf) (index : Nat) : UInt8 := buf.data.getD index 0

def readU32 : Wire UInt32 := ⟨fun state =>
  let b := state.buf
  if b.error.isSome || decide (sizeSub b.data.length b.pos < 4) then
    (0, { state with buf := { b with error := some .EPROTO } })
  else
    (decode32 (byteAt b b.pos) (byteAt b (b.pos + 1)) (byteAt b (b.pos + 2)) (byteAt b (b.pos + 3)),
      { state with buf := { b with pos := b.pos + 4, reads := b.reads ++ [(b.pos, 4)] } })⟩

def readU64 : Wire UInt64 := do
  let high ← readU32
  let low ← readU32
  pure (decode64 high low)

abbrev Finite := { value : Float // value.isFinite = true }

def Finite.zero : Finite := ⟨Float.ofBits 0, by decide⟩

def readF64 : Wire Finite := do
  let bits ← readU64
  if finite : (Float.ofBits bits).isFinite = true then pure ⟨Float.ofBits bits, finite⟩
  else
    setError .EPROTO
    pure Finite.zero

def touch (position count : Nat) : Wire Unit :=
  Prog.modify fun state => { state with buf := { state.buf with reads := state.buf.reads ++ [(position, count)] } }

def advance (count : Nat) : Wire Unit :=
  Prog.modify fun state => { state with buf := { state.buf with pos := state.buf.pos + count } }

-- memchr, and the memcpy that follows it, both cover the `count` bytes at the cursor.
def window (buf : IpcBuf) (count : Nat) : Bytes := (buf.data.drop buf.pos).take count

def stringSize : Wire Nat := do
  let count ← readU32
  let buf ← Prog.inspect WireState.buf
  if buf.error.isSome || decide (count.toNat > sizeSub buf.data.length buf.pos) then
    setError .EPROTO
    pure 0
  else
    touch buf.pos count.toNat
    if (window buf count.toNat).contains 0 then
      setError .EPROTO
      pure 0
    else pure count.toNat

def readString : Wire (Option Bytes) := do
  let count ← stringSize
  let buf ← Prog.inspect WireState.buf
  if buf.error.isSome then pure none
  else
    let granted ← malloc
    if granted then
      touch buf.pos count
      advance count
      pure (some (window buf count))
    else
      setError .ENOMEM
      pure none

-- A char array of the given capacity as a C string: what stands before its NUL.
structure FixedStr (capacity : Nat) where
  bytes : Bytes
  short : bytes.length ≤ capacity - 1
  nulFree : 0 ∉ bytes

def FixedStr.empty (capacity : Nat) : FixedStr capacity := ⟨[], Nat.zero_le _, List.not_mem_nil⟩

-- The destination is zeroed by every caller and left alone on failure.
def readFixed (capacity : Nat) : Wire (FixedStr capacity) := do
  let count ← stringSize
  let buf ← Prog.inspect WireState.buf
  if buf.error.isSome || decide (count ≥ capacity) then
    setError .EPROTO
    pure (FixedStr.empty capacity)
  else
    touch buf.pos count
    advance count
    -- Always taken: `stringSize` has checked both.
    let text := window buf count
    if fits : text.length ≤ capacity - 1 ∧ 0 ∉ text then pure ⟨text, fits.1, fits.2⟩
    else pure (FixedStr.empty capacity)

-- Getters called by a decoder leave a ghost record. The ones they call themselves do not.
def called {α : Type} (isEmpty : α → Bool) (getter : Wire α) : Wire α := ⟨fun state =>
  let result := getter.run state
  (result.1, { result.2 with
    calls := result.2.calls ++ [⟨result.2.buf.error.isSome, isEmpty result.1⟩] })⟩

def ipcGetU32 : Wire UInt32 := called (· == 0) readU32
def ipcGetU64 : Wire UInt64 := called (· == 0) readU64
def ipcGetF64 : Wire Finite := called (fun value => value.val.toBits == 0) readF64
def ipcGetString : Wire (Option Bytes) := called Option.isNone readString
def ipcGetFixed (capacity : Nat) : Wire (FixedStr capacity) :=
  called (fun text => text.bytes.isEmpty) (readFixed capacity)

def ipcDone (buf : IpcBuf) : Bool := buf.error.isNone && buf.pos == buf.data.length

-- The array loops stop at the first error. Slots past it stay zeroed and are freed with the array.
def getUntilError {α : Type} (item : Wire α) : Nat → Wire (List α)
  | 0 => pure []
  | count + 1 => do
      let failed ← hasError
      if failed then pure []
      else
        let first ← item
        let rest ← getUntilError item count
        pure (first :: rest)

-- The encoders' loops look at the error before each element too.
def putUntilError {α : Type} (item : α → Wire Unit) : List α → Wire Unit
  | [] => pure ()
  | value :: rest => do
      let failed ← hasError
      if failed then pure ()
      else
        item value
        putUntilError item rest

end Evemon.Ipc
