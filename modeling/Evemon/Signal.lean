import Evemon.Frame
import Evemon.Lib.CText

-- SIGNAL requests. Processes come and go between the system calls of deliver_signal, and a PID
-- may pass from one process to another.
namespace Evemon.Signal

open Ipc BigEndian CText

def nsig : Nat := 65
def esrch : UInt32 := 3
def einval : UInt32 := 22
def estale : UInt32 := 116

abbrev Failure := { code : UInt32 // code ≠ 0 }

structure Process where
  serial : Nat
  pid : Nat
  ticks : UInt64
  range : pid < 2 ^ 31
deriving DecidableEq

-- Who holds a PID, and every process there has been. Two of them that held one PID differ in
-- their start ticks.
structure Host where
  holder : Nat → Option Process
  seen : List Process
  held : ∀ pid p, holder pid = some p → p.pid = pid ∧ p ∈ seen
  apart : ∀ p ∈ seen, ∀ q ∈ seen, p.pid = q.pid → p.ticks = q.ticks → p = q

inductive Move where
  | exit (pid : Nat)
  | spawn (p : Process)

def Host.fresh (host : Host) (p : Process) : Prop :=
  host.holder p.pid = none ∧ ∀ q ∈ host.seen, q.serial ≠ p.serial ∧ (q.pid = p.pid → q.ticks ≠ p.ticks)

instance (host : Host) (p : Process) : Decidable (host.fresh p) := inferInstanceAs (Decidable (_ ∧ _))

def Host.exited (host : Host) (pid : Nat) : Host where
  holder := Function.update host.holder pid none
  seen := host.seen
  held other p holds := by
    by_cases here : other = pid
    · rw [here, Function.update_self] at holds
      cases holds
    · rw [Function.update_of_ne here] at holds
      exact host.held other p holds
  apart := host.apart

def Host.spawned (host : Host) (p : Process) (fresh : host.fresh p) : Host where
  holder := Function.update host.holder p.pid (some p)
  seen := p :: host.seen
  held other q holds := by
    by_cases here : other = p.pid
    · rw [here, Function.update_self] at holds
      obtain rfl := Option.some.inj holds
      exact ⟨here.symm, List.mem_cons_self⟩
    · rw [Function.update_of_ne here] at holds
      obtain ⟨pid, member⟩ := host.held other q holds
      exact ⟨pid, List.mem_cons_of_mem _ member⟩
  apart q first r second pid ticks := by
    rcases List.mem_cons.mp first with rfl | old
    · rcases List.mem_cons.mp second with rfl | older
      · rfl
      · exact absurd ticks.symm ((fresh.2 r older).2 pid.symm)
    · rcases List.mem_cons.mp second with rfl | older
      · exact absurd ticks ((fresh.2 q old).2 pid)
      · exact host.apart q old r older pid ticks

def Host.move (host : Host) : Move → Host
  | .exit pid => host.exited pid
  | .spawn p => if fresh : host.fresh p then host.spawned p fresh else host

def Host.run (host : Host) (moves : List Move) : Host := moves.foldl Host.move host

-- What /proc/PID/stat says beside PID and start ticks: the name, fields 3 to 21, and those from
-- field 23 on. Only the names of kernel threads exceed 15 bytes.
structure Stat where
  comm : Text
  early : List Text
  late : List Text
  named : 0 ∉ comm ∧ comm.length ≤ 63
  user : comm.length ≤ 15 ∨ 10 ∉ comm
  count : early.length = 19
  more : late ≠ [] ∧ late.length ≤ 40
  plain : ∀ field ∈ early ++ late,
    (field ≠ [] ∧ 32 ∉ field) ∧ field.length ≤ 20 ∧ 0 ∉ field ∧ 10 ∉ field ∧ 41 ∉ field

def Stat.fields (stat : Stat) (p : Process) : List Text := stat.early ++ decimal p.ticks.toNat :: stat.late

def statLine (p : Process) (stat : Stat) : Text :=
  (decimal p.pid ++ [32, 40]) ++ stat.comm ++ 41 :: (spaced 32 (stat.fields p) ++ [10])

-- What happens before each system call, and what the calls answer beside that.
structure Schedule where
  beforeOpen : List Move
  pidfdOpen : Option Failure
  beforeStat : List Move
  statOpens : Bool
  beforeRead : List Move
  stat : Option Stat
  beforeSend : List Move
  pidfdSend : Option Failure

-- `sent` is ghost: the process a signal was sent to, and the signal.
structure Outcome where
  host : Host
  error : UInt32
  sent : Option (Process × Nat)

def statTicks (file : Text) : UInt64 :=
  match fgets 4096 file with
  | none => 0
  | some line =>
    match afterLast 41 line with
    | none => 0
    | some rest =>
      match token 32 19 rest with
      | none => 0
      | some field => strtoull field

-- An open stat file shows the process it was opened for, as long as there is one.
def processStartTicks (pid : Nat) (host : Host) (w : Schedule) : Host × UInt64 :=
  let host := host.run w.beforeStat
  match host.holder pid, w.statOpens with
  | some file, true =>
    let host := host.run w.beforeRead
    match w.stat with
    | some stat => (host, if host.holder file.pid = some file then statTicks (statLine file stat) else 0)
    | none => (host, 0)
  | _, _ => (host, 0)

-- pidfd_send_signal: signal 0 is checked and not sent.
def pidfdSendSignal (target : Process) (signo : Nat) (host : Host) (failure : Option Failure) : Outcome :=
  match failure with
  | some code => ⟨host, code.val, none⟩
  | none =>
    if host.holder target.pid = some target then ⟨host, 0, if signo = 0 then none else some (target, signo)⟩
    else ⟨host, esrch, none⟩

def deliverSignal (pid signo : Nat) (ticks : UInt64) (host : Host) (w : Schedule) : Outcome :=
  let host := host.run w.beforeOpen
  match w.pidfdOpen with
  | some code => ⟨host, code.val, none⟩
  | none =>
    match host.holder pid with
    | none => ⟨host, esrch, none⟩
    | some target =>
      let (host, found) := processStartTicks pid host w
      if found ≠ ticks then ⟨host, estale, none⟩
      else pidfdSendSignal target signo (host.run w.beforeSend) w.pidfdSend

structure SignalRequest where
  pid : UInt32
  signo : UInt32
  ticks : UInt64
  instanceId : UInt64

def getSignal : Wire SignalRequest := do
  let pid ← ipcGetU32
  let signo ← ipcGetU32
  let ticks ← ipcGetU64
  let instanceId ← ipcGetU64
  pure ⟨pid, signo, ticks, instanceId⟩

def readSignal (body : Bytes) : SignalRequest × Bool :=
  let result := getSignal.run { buf := { data := body }, heap := allGranted }
  (result.1, ipcDone result.2.buf)

def querySignalDispatch (body : Bytes) (instanceId : UInt64) (host : Host) (w : Schedule) : Outcome :=
  let (request, done) := readSignal body
  if done = false ∨ request.pid ≤ 1 ∨ request.pid > intMax ∨ request.signo.toNat ≥ nsig ∨ request.ticks = 0 then
    ⟨host, einval, none⟩
  else if request.instanceId ≠ instanceId then ⟨host, estale, none⟩
  else deliverSignal request.pid.toNat request.signo.toNat request.ticks host w

structure Target where
  pid : Int
  startTicks : UInt64

-- The local path. `error` is what it leaves in errno, 0 where it returns 0.
def querySignalPath (target : Option Target) (signo : Int) (host : Host) (w : Schedule) : Outcome :=
  match target with
  | none => ⟨host, einval, none⟩
  | some t =>
    if t.pid ≤ 1 ∨ signo ≤ 0 ∨ signo ≥ nsig ∨ t.startTicks = 0 then ⟨host, einval, none⟩
    else deliverSignal t.pid.toNat signo.toNat t.startTicks host w

end Evemon.Signal
