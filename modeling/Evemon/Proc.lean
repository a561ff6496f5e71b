import Mathlib.Data.Vector.Basic
import Evemon.Wire

namespace Evemon

open Ipc (Bytes Finite FixedStr)

def uint32Max : Nat := 4294967295

-- Every string of a snapshot lives in one buffer and is addressed by its offset.
-- Offset 0 holds the NUL that stands for the empty string.
structure StrTab where
  buf : Bytes := []
  cap : Nat := 0

def strtabInit (cap : Nat) : StrTab := ⟨[0], if cap = 0 then 1 else cap⟩

-- The doubling loop runs at most 22 times: it starts at 1024 and stops past 2^31.
def doubledCap (need : Nat) : Nat → Nat → Nat
  | 0, cap => cap
  | fuel + 1, cap =>
    if cap < need then if cap > uint32Max / 2 then need else doubledCap need fuel (cap * 2) else cap

def strtabRejects (tab : StrTab) (s : Bytes) : Bool :=
  s.isEmpty || decide (tab.buf.length ≥ uint32Max) || decide (s.length > uint32Max - tab.buf.length - 1)

def strtabGrows (tab : StrTab) (s : Bytes) : Bool :=
  !strtabRejects tab s && decide (tab.buf.length + s.length + 1 > tab.cap)

-- `granted` is the answer of the realloc that a full table asks for.
def strtabPush (tab : StrTab) (s : Bytes) (granted : Bool) : StrTab × Nat :=
  if strtabRejects tab s then (tab, 0)
  else if strtabGrows tab s then
    if granted then
      (⟨tab.buf ++ s ++ [0], doubledCap (tab.buf.length + s.length + 1) 32 (max tab.cap 1024)⟩, tab.buf.length)
    else (tab, 0)
  else ({ tab with buf := tab.buf ++ s ++ [0] }, tab.buf.length)

def procStr (tab : StrTab) (off : Nat) : Bytes :=
  if off = 0 then [] else (tab.buf.drop off).takeWhile (· != 0)

structure StrRef where
  off : Nat := 0
  len : UInt16 := 0

structure SteamInfo where
  isSteam : Int32
  isWine : Int32
  appId : FixedStr 32
  gameName : FixedStr 256
  protonVersion : FixedStr 128
  protonDist : FixedStr 1024
  compatData : FixedStr 1024
  gameDir : FixedStr 1024
  runtimeLayer : FixedStr 128
  displayLabel : FixedStr 256

def ioHistoryLen : Nat := 20

structure ProcEntry where
  pid : Int32
  ppid : Int32
  name : StrRef := {}
  cmd : StrRef := {}
  user : StrRef := {}
  cwd : StrRef := {}
  container : StrRef := {}
  service : StrRef := {}
  memRssKb : UInt64 := 0
  cpuTicks : UInt64 := 0
  startTime : UInt64 := 0
  startTicks : UInt64 := 0
  evemonInstance : UInt64 := 0
  ioReadBytes : UInt64 := 0
  ioWriteBytes : UInt64 := 0
  netSendBytes : UInt64 := 0
  netRecvBytes : UInt64 := 0
  cpuPercent : Float32 := Float32.ofBits 0
  ioReadRate : Float32 := Float32.ofBits 0
  ioWriteRate : Float32 := Float32.ofBits 0
  ioHistoryCount : UInt8 := 0
  flags : UInt16 := 0
  ioHistory : List.Vector Float32 ioHistoryLen := .replicate ioHistoryLen (Float32.ofBits 0)
  extraIdx : Nat := uint32Max

structure ProcSnapshot where
  entries : List ProcEntry := []
  strtab : StrTab := {}
  extras : List (Option SteamInfo) := []

def ProcSnapshot.steam (snap : ProcSnapshot) (entry : ProcEntry) : Option SteamInfo :=
  (snap.extras[entry.extraIdx]?).join

-- The load averages are quotients of the kernel's integers, or were decoded: finite both ways.
structure MonitorSystem where
  uptimeSeconds : UInt64
  memoryTotal : UInt64
  memoryFree : UInt64
  memoryAvailable : UInt64
  load : List.Vector Finite 3
  cpus : UInt32
  users : UInt32
  fdmonBackend : UInt32

-- A reading of CLOCK_MONOTONIC: the kernel counts it in signed 64-bit nanoseconds.
structure Timespec where
  sec : UInt64
  nsec : UInt64
  normal : nsec.toNat < 1000000000
  signed : sec.toNat * 1000000000 + nsec.toNat < 2 ^ 63

theorem seconds_normal : (0 : UInt64).toNat < 1000000000 := by decide

theorem seconds_signed (sec : UInt32) : sec.toUInt64.toNat * 1000000000 + (0 : UInt64).toNat < 2 ^ 63 := by
  have bound := sec.toNat_lt
  simp only [UInt32.toNat_toUInt64, UInt64.toNat_zero]
  omega

def Timespec.seconds (sec : UInt32) : Timespec := ⟨sec.toUInt64, 0, seconds_normal, seconds_signed sec⟩

def Timespec.ns (time : Timespec) : UInt64 := time.sec * 1000000000 + time.nsec

theorem timespec_ns_exact (time : Timespec) : time.ns.toNat = time.sec.toNat * 1000000000 + time.nsec.toNat := by
  have signed := time.signed
  have product : (time.sec * 1000000000).toNat = time.sec.toNat * 1000000000 := by
    rw [UInt64.toNat_mul]
    simp only [UInt64.reduceToNat]
    omega
  rw [Timespec.ns, UInt64.toNat_add, product]
  omega

theorem timespec_ns_lt (time : Timespec) : time.ns.toNat < 2 ^ 63 := by
  rw [timespec_ns_exact]
  exact time.signed

def Timespec.ofNs (ns : UInt64) (signed : ns.toNat < 2 ^ 63) : Timespec where
  sec := ns / 1000000000
  nsec := ns % 1000000000
  normal := by
    rw [UInt64.toNat_mod]
    simp only [UInt64.reduceToNat]
    omega
  signed := by
    rw [UInt64.toNat_div, UInt64.toNat_mod]
    simp only [UInt64.reduceToNat]
    omega

theorem timespec_ns_of_ns (ns : UInt64) (signed : ns.toNat < 2 ^ 63) : (Timespec.ofNs ns signed).ns = ns := by
  apply UInt64.toNat_inj.mp
  rw [timespec_ns_exact]
  simp only [Timespec.ofNs, UInt64.toNat_div, UInt64.toNat_mod, UInt64.reduceToNat]
  omega

structure MonitorState where
  snapshot : ProcSnapshot
  snapshotComplete : UInt32
  generation : UInt64
  sampledAt : Timespec
  intervalMs : UInt32
  system : MonitorSystem
  evemonInstance : UInt64
  connected : Bool

def pollIntervalMs : UInt32 := 2000

def monitorStateInit : MonitorState where
  snapshot := {}
  snapshotComplete := 0
  generation := 0
  sampledAt := .seconds 0
  intervalMs := pollIntervalMs
  system := {
    uptimeSeconds := 0, memoryTotal := 0, memoryFree := 0, memoryAvailable := 0
    load := .replicate 3 Finite.zero, cpus := 0, users := 0, fdmonBackend := 0 }
  evemonInstance := 0
  connected := false

end Evemon
