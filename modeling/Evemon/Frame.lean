import Evemon.Snapshot
import Evemon.WireCodec

namespace Evemon.Ipc

open Prog BigEndian List Nat

def ipcReply : UInt16 := 0x8000
def ipcError : UInt16 := 0xffff

structure IpcHeader where
  type : UInt16
  id : UInt32
  size : UInt32

def putHeader (type : UInt16) (id size : UInt32) : Wire Unit := do
  ipcPutU32 ipcMagic
  ipcPutU32 ((ipcVersion <<< 16) ||| type.toUInt32)
  ipcPutU32 id
  ipcPutU32 size

def ipcHeaderWrite (type : UInt16) (id size : UInt32) : Bytes :=
  ((putHeader type id size).run { buf := { cap := ipcHeaderSize }, heap := { grant := fun _ => false } }).2.buf.data

def getHeader : Wire (Option IpcHeader) := do
  let magic ← ipcGetU32
  let versionType ← ipcGetU32
  let id ← ipcGetU32
  let size ← ipcGetU32
  if magic ≠ ipcMagic ∨ versionType >>> 16 ≠ ipcVersion ∨ size.toNat > ipcLimit then pure none
  else pure (some ⟨versionType.toUInt16, id, size⟩)

def ipcHeaderRead (input : Bytes) : Option IpcHeader :=
  (getHeader.run { buf := { data := input.take ipcHeaderSize }, heap := allGranted }).1

variable (type : UInt16)

theorem header_write_eq (id size : UInt32) : ipcHeaderWrite type id size =
    encode32 ipcMagic ++ encode32 ((ipcVersion <<< 16) ||| type.toUInt32) ++ encode32 id ++ encode32 size := rfl

@[simp] theorem header_write_length (type : UInt16) (id size : UInt32) :
    (ipcHeaderWrite type id size).length = ipcHeaderSize := rfl

theorem version_type_nat : ((ipcVersion <<< 16) ||| type.toUInt32).toNat = 2 ^ 16 + type.toNat := by
  have small : type.toNat < 2 ^ 16 := type.toNat_lt
  have version : (ipcVersion <<< 16 : UInt32).toNat = 2 ^ 16 := by decide
  have disjoint := two_pow_add_eq_or_of_lt small 1
  rw [mul_one] at disjoint
  rw [UInt32.toNat_or, version, UInt16.toNat_toUInt32, disjoint]

theorem version_of_version_type : ((ipcVersion <<< 16) ||| type.toUInt32) >>> 16 = ipcVersion := by
  have small : type.toNat < 2 ^ 16 := type.toNat_lt
  apply UInt32.toNat_inj.mp
  rw [UInt32.toNat_shiftRight, version_type_nat, shiftRight_eq_div_pow]
  simp only [UInt32.reduceToNat, ipcVersion, Nat.reduceMod, Nat.reducePow]
  omega

theorem type_of_version_type : ((ipcVersion <<< 16) ||| type.toUInt32).toUInt16 = type := by
  have small : type.toNat < 2 ^ 16 := type.toNat_lt
  apply UInt16.toNat_inj.mp
  rw [UInt32.toNat_toUInt16, version_type_nat]
  omega

theorem header_read_write {type : UInt16} {id size : UInt32} (bounded : size.toNat ≤ ipcLimit) {later : Bytes} :
    ipcHeaderRead (ipcHeaderWrite type id size ++ later) = some ⟨type, id, size⟩ := by
  have reads : Consumes Unread getHeader
      (encode32 ipcMagic ++ (encode32 ((ipcVersion <<< 16) ||| type.toUInt32) ++ (encode32 id ++ (encode32 size ++ []))))
      (· = some ⟨type, id, size⟩) := by
    refine consumes_value (ipc_get_u32_consumes _) (consumes_value (ipc_get_u32_consumes _)
      (consumes_value (ipc_get_u32_consumes _) (consumes_value (ipc_get_u32_consumes _) ?_)))
    rw [if_neg]
    · exact consumes_pure _ (by rw [type_of_version_type])
    · rw [version_of_version_type]
      simpa using bounded
  have start : (ipcHeaderWrite type id size ++ later).take ipcHeaderSize = encode32 ipcMagic ++
      (encode32 ((ipcVersion <<< 16) ||| type.toUInt32) ++ (encode32 id ++ (encode32 size ++ []))) := by
    rw [← header_write_length type id size, take_left, header_write_eq]
    simp only [append_assoc, append_nil]
  rw [ipcHeaderRead, start]
  refine (reads _ [] ?_).1
  rw [append_nil]
  exact reader_start_unread _ allGranted fun _ => rfl

-- Everything the server sends is built by ipc_put_bytes, which stops at the limit.
abbrev Body := { bytes : Bytes // bytes.length ≤ ipcLimit }

def Body.empty : Body := ⟨[], Nat.zero_le _⟩

def Bounded (state : WireState) : Prop := state.buf.data.length ≤ ipcLimit

theorem put_bytes_bounded {bytes} : Keeps Bounded (ipcPutBytes bytes) := by
  intro state bounded
  obtain ⟨_, data, _⟩ | ⟨_, _, _, fits, _⟩ := put_bytes_cases bytes rfl bounded
  · rwa [Bounded, data]
  · exact fits

theorem put_u32_bounded (value : UInt32) : Keeps Bounded (ipcPutU32 value) := put_bytes_bounded

theorem put_u64_bounded {value} : Keeps Bounded (ipcPutU64 value) :=
  keeps_bind (put_u32_bounded _) fun _ => put_u32_bounded _

theorem put_string_bounded {s} : Keeps Bounded (ipcPutString s) := by
  refine keeps_ite (fun _ bounded => bounded) (keeps_bind (put_u32_bounded _) fun _ => put_bytes_bounded)

-- A response under construction: its bytes so far, and whether its error is set.
structure Out where
  failed : Bool
  body : Body

def build (prog : Wire Unit) (keeps : Keeps Bounded prog) (heap : Heap) : Out where
  failed := (prog.run { buf := {}, heap := heap }).2.buf.error.isSome
  body := ⟨(prog.run { buf := {}, heap := heap }).2.buf.data, keeps _ (Nat.zero_le _)⟩

def text (s : String) : Bytes := s.toList.map fun c => c.toNat.toUInt8

def IpcCode.number : IpcCode → UInt32
  | .badRequest => 1
  | .notReady => 2
  | .notFound => 3
  | .unsupported => 4
  | .internal => 5
  | .busy => 6

def IpcCode.message : IpcCode → Bytes
  | .badRequest => text "invalid request"
  | .notReady => text "snapshot not ready"
  | .notFound => text "process not found"
  | .unsupported => text "unsupported operation"
  | .internal => text "evemon error"
  | .busy => text "inspector queue full"

def putError (code : IpcCode) : Wire Unit := do
  ipcPutU32 code.number
  ipcPutString code.message

theorem put_error_bounded (code : IpcCode) : Keeps Bounded (putError code) :=
  keeps_bind (put_u32_bounded _) fun _ => put_string_bounded

-- The error of the buffer is not looked at: without memory the body is empty or cut.
def errorBody (code : IpcCode) (heap : Heap) : Body := (build (putError code) (put_error_bounded code) heap).body

inductive Origin where
  | answer
  | push
deriving DecidableEq

structure Frame where
  type : UInt16
  id : UInt32
  body : Body
  origin : Origin

def Frame.bytes (frame : Frame) : Bytes :=
  ipcHeaderWrite frame.type frame.id (UInt32.ofNat frame.body.val.length) ++ frame.body.val

variable (frame : Frame)

theorem frame_complete (later : Bytes) : ∃ header : IpcHeader,
    ipcHeaderRead (frame.bytes ++ later) = some header ∧ header.type = frame.type ∧ header.id = frame.id ∧
    frame.bytes.length = ipcHeaderSize + header.size.toNat := by
  have short := frame.body.property
  have size : (UInt32.ofNat frame.body.val.length).toNat = frame.body.val.length := by
    refine UInt32.toNat_ofNat_of_lt' (lt_of_le_of_lt short (by decide))
  refine ⟨⟨frame.type, frame.id, UInt32.ofNat frame.body.val.length⟩, ?_, rfl, rfl, ?_⟩
  · rw [Frame.bytes, append_assoc]
    exact header_read_write (size.symm ▸ short)
  · rw [Frame.bytes, length_append, header_write_length, size]

theorem frame_bytes_positive : 0 < frame.bytes.length := by
  rw [Frame.bytes, length_append, header_write_length]
  exact Nat.add_pos_left (by decide) _

end Evemon.Ipc
