import Evemon.Wire

-- read_file_alloc of the plugin broker: a file is read into a buffer that doubles up to a limit.
namespace Evemon.ReadFile

open Ipc (Bytes)
open List

def ssizeMax : Nat := 2 ^ 63 - 1

-- The arguments of a call and what the system answers, grant and fault by the number of steps taken.
structure Call where
  out : Option Bytes
  maxBytes : Nat
  opens : Bool
  content : Bytes
  grant : Nat → Bool
  fault : Nat → Option Nat

structure Call.Clean (call : Call) : Prop where
  opens : call.opens = true
  granted : ∀ index, call.grant index = true
  faultless : ∀ index, call.fault index = none

-- A write is logged by the end of the region it was given and the capacity it found.
inductive Step where
  | fopen (opened : Bool)
  | alloc (size : Nat) (granted : Bool)
  | write (stop cap : Nat) (failed : Bool)

def Step.good : Step → Bool
  | .fopen opened => opened
  | .alloc _ granted => granted
  | .write _ _ failed => !failed

def Step.Fits (maxBytes : Nat) : Step → Prop
  | .fopen _ => True
  | .alloc size _ => size ≤ maxBytes + 1
  | .write stop cap _ => stop ≤ cap

-- buf numbers the allocation in use, live those not freed.
structure Reading where
  buf : Nat
  cap : Nat
  data : Bytes
  live : List Nat
  steps : List Step

structure Outcome where
  result : Option Nat
  out : Option Bytes
  live : List Nat
  steps : List Step

def Reading.fail (r : Reading) : Outcome := ⟨none, none, r.live.erase r.buf, r.steps⟩

def Reading.finish (r : Reading) : Outcome :=
  ⟨some r.data.length, some (r.data ++ [0]), r.live, r.steps ++ [.write (r.data.length + 1) r.cap false]⟩

section
variable (call : Call)

def nextCap (cap : Nat) : Nat := if cap ≤ (call.maxBytes + 1) / 2 then cap * 2 else call.maxBytes + 1

def grow (r : Reading) : Except Outcome Reading :=
  if r.cap - r.data.length ≤ 1 then
    let cap := nextCap call r.cap
    let granted := call.grant r.steps.length
    let steps := r.steps ++ [.alloc cap granted]
    if granted then .ok ⟨r.steps.length, cap, r.data, r.steps.length :: r.live.erase r.buf, steps⟩
    else .error { r with steps := steps }.fail
  else .ok r

-- The bytes one fread stores, and ferror after it.
def fread (r : Reading) (available : Nat) : Bytes × Bool :=
  let rest := call.content.drop r.data.length
  match call.fault r.steps.length with
  | none => (rest.take available, false)
  | some count => (rest.take (min count (available - 1)), true)

def fill (r : Reading) : Except Outcome Reading :=
  let available := min (r.cap - r.data.length - 1) (call.maxBytes - r.data.length)
  let (bytes, failed) := fread call r available
  let steps := r.steps ++ [.write (r.data.length + available) r.cap failed]
  let next := { r with data := r.data ++ bytes, steps := steps }
  if bytes.length < available then .error (if failed then next.fail else next.finish) else .ok next

def readLoop : Nat → Reading → Option Outcome
  | 0, _ => none
  | fuel + 1, r =>
    if r.data.length < call.maxBytes then
      match grow call r >>= fill call with
      | .error outcome => some outcome
      | .ok r => readLoop fuel r
    else some r.finish

def readFileAlloc (fuel : Nat) : Option Outcome :=
  if call.maxBytes = 0 ∨ call.maxBytes > ssizeMax then some ⟨none, call.out, [], []⟩
  else if call.opens then
    let cap := if call.maxBytes < 4095 then call.maxBytes + 1 else 4096
    let steps := [.fopen true, .alloc cap (call.grant 1)]
    if call.grant 1 then readLoop call fuel ⟨1, cap, [], [1], steps⟩ else some ⟨none, none, [], steps⟩
  else some ⟨none, none, [], [.fopen false]⟩

def Within (steps : List Step) : Prop := ∀ step ∈ steps, step.Fits call.maxBytes

structure Sound (r : Reading) : Prop where
  room : r.data.length < r.cap
  double : 2 ≤ r.cap
  limit : r.cap ≤ call.maxBytes + 1
  holds : r.data <+: call.content
  owned : r.live = [r.buf]
  within : Within call r.steps
  good : r.steps.all Step.good

-- The call fails if a step of it does, and only then; none does if nothing is refused.
structure Correct (o : Outcome) : Prop where
  within : Within call o.steps
  read : o.steps.all Step.good → o.result = some (min call.maxBytes call.content.length) ∧
    o.out = some (call.content.take (min call.maxBytes call.content.length) ++ [0]) ∧ ∃ buf, o.live = [buf]
  failed : o.steps.all Step.good = false → o.result = none ∧ o.out = none ∧ o.live = []
  clean : call.Clean → o.steps.all Step.good

def Leads (round : Except Outcome Reading) (next : Reading → Prop) : Prop :=
  (∃ outcome, round = .error outcome ∧ Correct call outcome) ∨ ∃ r, round = .ok r ∧ Sound call r ∧ next r

end

variable {call : Call} {r : Reading}

theorem within_snoc {steps} {step : Step} (within : Within call steps) (fits : step.Fits call.maxBytes) :
    Within call (steps ++ [step]) :=
  forall_mem_append.2 ⟨within, forall_mem_singleton.2 fits⟩

theorem fail_correct (owned : r.live = [r.buf]) (within : Within call r.steps)
    (bad : r.steps.all Step.good = false) (refused : ¬ call.Clean) : Correct call r.fail where
  within := within
  read good := by simp [Reading.fail, bad] at good
  failed _ := ⟨rfl, rfl, by simp [Reading.fail, owned]⟩
  clean all := absurd all refused

theorem finish_correct (inv : Sound call r) (all : r.data.length = min call.maxBytes call.content.length) :
    Correct call r.finish where
  within := within_snoc inv.within (show r.data.length + 1 ≤ r.cap from inv.room)
  read _ := by
    have data := prefix_iff_eq_take.1 inv.holds
    rw [all] at data
    exact ⟨congrArg some all, congrArg (fun data => some (data ++ [0])) data, _, inv.owned⟩
  failed bad := by simp [Reading.finish, inv.good, Step.good] at bad
  clean _ := by simp [Reading.finish, inv.good, Step.good]

theorem grow_sound (inv : Sound call r) (more : r.data.length < call.maxBytes) :
    Leads call (grow call r) fun next => next.data = r.data ∧ r.data.length + 1 < next.cap := by
  have room := inv.room
  have double := inv.double
  unfold grow
  split
  · have bounds : r.cap < nextCap call r.cap ∧ nextCap call r.cap ≤ call.maxBytes + 1 := by
      unfold nextCap
      split <;> omega
    obtain ⟨larger, limit⟩ := bounds
    have within (granted : Bool) := within_snoc inv.within (show (Step.alloc _ granted).Fits call.maxBytes from limit)
    cases granted : call.grant r.steps.length with
    | true =>
      refine .inr ⟨_, rfl, ⟨room.trans larger, double.trans larger.le, limit, inv.holds, ?_, within true, ?_⟩, rfl, ?_⟩
      · simp [inv.owned]
      · simp [inv.good, Step.good]
      · exact Nat.lt_of_le_of_lt room larger
    | false =>
      have refused (clean : call.Clean) : False := by simp [clean.granted] at granted
      exact .inl ⟨_, rfl, fail_correct inv.owned (within false) (by simp [Step.good]) refused⟩
  · exact .inr ⟨r, rfl, inv, rfl, by omega⟩

theorem prefix_read_on {data content : Bytes} (holds : data <+: content) (count : Nat) :
    data ++ (content.drop data.length).take count <+: content := by
  obtain ⟨rest, rfl⟩ := holds
  rw [drop_left]
  exact (prefix_append_right_inj data).2 <| take_prefix count rest

theorem fill_sound (inv : Sound call r) (more : r.data.length < call.maxBytes) (room : r.data.length + 1 < r.cap) :
    Leads call (fill call r) fun next => r.data.length < next.data.length := by
  have inside := inv.holds.length_le
  unfold fill fread
  generalize free : min (r.cap - r.data.length - 1) (call.maxBytes - r.data.length) = available
  have fits : r.data.length + available < r.cap := by omega
  have within (failed : Bool) := within_snoc inv.within (show (Step.write _ _ failed).Fits call.maxBytes from fits.le)
  cases fault : call.fault r.steps.length with
  | some count =>
    have refused (clean : call.Clean) : False := by simp [clean.faultless] at fault
    have short : ((call.content.drop r.data.length).take (min count (available - 1))).length < available :=
      (length_take_le ..).trans_lt (by omega)
    simp only [if_pos short, if_true]
    exact .inl ⟨_, rfl, fail_correct inv.owned (within true) (by simp [Step.good]) refused⟩
  | none =>
    have size : (r.data ++ (call.content.drop r.data.length).take available).length =
        r.data.length + min available (call.content.length - r.data.length) := by simp
    have next := Sound.mk (r := ⟨_, _, _, _, _⟩) (size.trans_lt (by omega : _ < r.cap)) inv.double inv.limit
      (prefix_read_on inv.holds available) inv.owned (within false) (by simp [inv.good, Step.good])
    simp only [length_take, length_drop, Bool.false_eq_true, if_false]
    split
    · exact .inl ⟨_, rfl, finish_correct next (size.trans (by omega))⟩
    · exact .inr ⟨_, rfl, next, (by omega : r.data.length < _).trans_eq size.symm⟩

theorem read_loop_correct {fuel : Nat} (inv : Sound call r) (enough : call.maxBytes - r.data.length < fuel) :
    ∃ outcome, readLoop call fuel r = some outcome ∧ Correct call outcome := by
  induction fuel generalizing r with
  | zero => omega
  | succ fuel ih =>
    unfold readLoop
    split
    · rename_i more
      obtain ⟨outcome, grown, correct⟩ | ⟨next, grown, sound, same, room⟩ := grow_sound inv more
      · rw [grown]
        exact ⟨outcome, rfl, correct⟩
      · rw [← same] at more room enough
        rw [grown]
        obtain ⟨outcome, filled, correct⟩ | ⟨later, filled, sound, longer⟩ := fill_sound sound more room
        · exact ⟨outcome, by simp [Except.bind, bind, filled], correct⟩
        · simp only [Except.bind, bind, filled]
          exact ih sound (by omega)
    · have inside := inv.holds.length_le
      have room := inv.room
      have limit := inv.limit
      exact ⟨_, rfl, finish_correct inv (by omega)⟩

end Evemon.ReadFile
