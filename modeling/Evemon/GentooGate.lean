import Mathlib.Algebra.Group.Nat.Defs
import Evemon.Lib.Runs

-- The scan gate of the Portage plugin: main thread, worker and idle callbacks.
namespace Evemon.Gentoo

open List

inductive Main where
  | free
  | updating (pid : Int32)
  | closing
  | stopping
  | gone
deriving DecidableEq

structure Job where
  pid : Int32
  taken : Nat

-- The last reads of the worker before it posts a result, in their order.
inductive Test where
  | flags
  | gen
  | destroying

-- `cancels` counts the calls of cancel_scan. Ghost: `latest` is the PID of the last gentoo_update
-- unless a clear or destroy came after it, `posted` the count when the request was made, `applied`
-- the PID of every result put into the view, with the latest one then.
structure State where
  main : Main := .free
  lastPid : Int32 := 0
  destroying : Bool := false
  cancels : Nat := 0
  workerPid : Int32 := 0
  pending : Bool := false
  stop : Bool := false
  worker : Option (Job × List Test) := none
  idles : List Job := []
  latest : Option Int32 := none
  posted : Nat := 0
  applied : List (Int32 × Option Int32) := []

def gen (cancels : Nat) : UInt32 := .ofNat cancels

inductive Action where
  | update (pid : Int32) (mapped : Bool)
  | request
  | clear
  | destroy
  | cancel
  | halt
  | idle
  | take
  | work

def gentooUpdate (state : State) (pid : Int32) (mapped : Bool) : State :=
  if mapped = false ∨ pid = state.lastPid then state
  else { state with lastPid := pid, cancels := state.cancels + 1, main := .updating pid }

def gentooClear (state : State) : State := { state with cancels := state.cancels + 1, lastPid := 0 }

def applyScanResult (state : State) : State :=
  match state.idles with
  | [] => state
  | idle :: rest =>
    if state.destroying ∨ gen state.cancels ≠ gen idle.taken then { state with idles := rest }
    else { state with idles := rest, applied := (idle.pid, state.latest) :: state.applied }

-- Searching reads the flags and the generation too, but whatever it sees, the tests follow.
def takeRequest (state : State) : State :=
  if state.worker.isNone ∧ state.stop = false ∧ state.pending then
    { state with pending := false, worker := some (⟨state.workerPid, state.cancels⟩, [.flags, .gen, .destroying, .gen]) }
  else state

def State.fails (state : State) (job : Job) : Test → Bool
  | .flags => state.stop || state.pending
  | .gen => gen state.cancels ≠ gen job.taken
  | .destroying => state.destroying

def workStep (state : State) : State :=
  match state.worker with
  | none => state
  | some (job, []) => { state with worker := none, idles := state.idles ++ [job] }
  | some (job, test :: rest) => { state with worker := if state.fails job test then none else some (job, rest) }

-- gentoo_update and gentoo_destroy are left in between; the join at the end of destroy only delays what follows.
def step (state : State) : Action → State
  | .update pid mapped =>
    if state.main = .free then { gentooUpdate state pid mapped with latest := some pid } else state
  | .request =>
    match state.main with
    | .updating pid => { state with workerPid := pid, pending := true, posted := state.cancels, main := .free }
    | _ => state
  | .clear => if state.main = .free then { gentooClear state with latest := none } else state
  | .destroy => if state.main = .free then { state with destroying := true, latest := none, main := .closing } else state
  | .cancel => if state.main = .closing then { state with cancels := state.cancels + 1, main := .stopping } else state
  | .halt => if state.main = .stopping then { state with stop := true, main := .gone } else state
  | .idle => if state.main = .free ∨ state.main = .gone then applyScanResult state else state
  | .take => takeRequest state
  | .work => workStep state

section

def State.jobs (state : State) : List Job := (state.worker.map Prod.fst).toList ++ state.idles

-- One more cancellation does not bring back the generation of a scan or of a queued result.
def Room (state : State) : Prop := ∀ job ∈ state.jobs, state.cancels + 1 < job.taken + 2 ^ 32

def Counted (state : State) : Action → Prop
  | .update _ _ | .clear | .cancel => Room state
  | _ => True

-- The worker takes a request at the generation the request was made at, and updates come while the view is mapped.
def Careful (state : State) : Action → Prop
  | .update _ mapped => mapped = true
  | .take => state.pending = true → state.posted = state.cancels
  | _ => True

def State.Asked (state : State) (pid : Int32) : Prop := state.latest = some pid ∧ state.lastPid = pid

structure Current (state : State) : Prop where
  applied : ∀ entry ∈ state.applied, entry.2 = some entry.1
  since : ∀ job ∈ state.jobs, job.taken ≤ state.cancels ∧ state.cancels < job.taken + 2 ^ 32
  jobs : state.destroying = false → ∀ job ∈ state.jobs, job.taken = state.cancels → state.Asked job.pid
  posted : state.posted ≤ state.cancels
  request : state.destroying = false → state.pending = true → state.posted = state.cancels → state.Asked state.workerPid
  updating : ∀ pid, state.main = .updating pid → state.Asked pid

theorem gen_eq_iff {older newer : Nat} (since : older ≤ newer) (bound : newer < older + 2 ^ 32) :
    gen newer = gen older ↔ newer = older := by
  rw [← UInt32.toNat_inj, gen, gen, UInt32.toNat_ofNat', UInt32.toNat_ofNat']
  omega

variable {state next : State} (current : Current state)

include current

theorem cancelled_current (room : Room state) (cancels : next.cancels = state.cancels + 1) (jobs : next.jobs = state.jobs)
    (applied : next.applied = state.applied) (posted : next.posted = state.posted)
    (updating : ∀ pid, next.main = .updating pid → next.Asked pid) : Current next := by
  have before := current.posted
  have older : ∀ job ∈ next.jobs, job.taken < next.cancels ∧ next.cancels < job.taken + 2 ^ 32 := by
    intro job mem
    rw [jobs] at mem
    have held := current.since job mem
    have left := room job mem
    omega
  refine ⟨applied ▸ current.applied, fun job mem => ⟨Nat.le_of_lt (older job mem).1, (older job mem).2⟩, ?_, by omega, ?_, updating⟩
  · intro _ job mem same
    exact absurd same (Nat.ne_of_lt (older job mem).1)
  · intro _ _ same
    omega

theorem fewer_current (fewer : ∀ job ∈ next.jobs, job ∈ state.jobs)
    (applied : ∀ entry ∈ next.applied, entry.2 = some entry.1)
    (rest : { next with worker := state.worker, idles := state.idles, applied := state.applied } = state) :
    Current next := by
  obtain ⟨_, since, jobs, posted, request, updating⟩ := rest ▸ current
  exact ⟨applied, fun job mem => since job (rest ▸ fewer job mem),
    fun alive job mem => jobs alive job (rest ▸ fewer job mem), posted, request, updating⟩

theorem update_current {pid} (room : Room state) (free : state.main = .free) :
    Current { gentooUpdate state pid true with latest := some pid } := by
  rw [gentooUpdate]
  split
  · rename_i repeated
    have same : pid = state.lastPid := repeated.resolve_left Bool.true_eq_false.mp
    have still : ∀ other, state.Asked other → State.Asked { state with latest := some pid } other :=
      fun other asked => ⟨congrArg some (same.trans asked.2), asked.2⟩
    exact ⟨current.applied, current.since, fun alive job mem now => still _ (current.jobs alive job mem now),
      current.posted, fun alive pending now => still _ (current.request alive pending now),
      fun other updating => absurd (free.symm.trans updating) nofun⟩
  · refine cancelled_current current room rfl rfl rfl rfl fun other updating => ?_
    cases updating
    exact ⟨rfl, rfl⟩

theorem idle_current : Current (applyScanResult state) := by
  rw [applyScanResult]
  cases queue : state.idles with
  | nil => exact current
  | cons idle rest =>
    have fewer : ∀ job ∈ State.jobs { state with idles := rest }, job ∈ state.jobs := by
      intro job mem
      rw [State.jobs, queue, mem_append, mem_cons]
      exact (mem_append.mp mem).imp id .inr
    have first : idle ∈ state.jobs := by
      simp [State.jobs, queue]
    dsimp only
    split
    · exact fewer_current current fewer current.applied rfl
    · rename_i kept
      refine fewer_current current fewer (forall_mem_cons.mpr ⟨?_, current.applied⟩) rfl
      have alive : state.destroying = false := by simpa using fun destroyed => kept (.inl destroyed)
      have same : gen state.cancels = gen idle.taken := Decidable.not_not.mp fun differ => kept (.inr differ)
      have held := current.since idle first
      rw [gen_eq_iff held.1 held.2] at same
      exact (current.jobs alive idle first same.symm).1

theorem take_current (careful : state.pending → state.posted = state.cancels) : Current (takeRequest state) := by
  rw [takeRequest]
  split
  · rename_i free
    have idles : ∀ job ∈ state.idles, job ∈ state.jobs := fun job mem => mem_append_right _ mem
    refine ⟨current.applied, forall_mem_cons.mpr ⟨⟨Nat.le_refl _, Nat.lt_add_of_pos_right (by decide)⟩, ?_⟩, ?_,
      current.posted, nofun, current.updating⟩
    · exact fun job mem => current.since job (idles job mem)
    · intro alive job mem now
      rcases mem_cons.mp mem with rfl | old
      · exact current.request alive free.2.2 (careful free.2.2)
      · exact current.jobs alive job (idles job old) now
  · exact current

theorem work_current : Current (workStep state) := by
  rw [workStep]
  split
  · exact current
  · rename_i job busy
    refine fewer_current current (fun other mem => ?_) current.applied rfl
    rw [State.jobs, busy]
    have moved : other ∈ state.idles ++ [job] := mem
    exact mem_append.mpr (mem_append.mp moved).symm
  · rename_i job test rest busy
    refine fewer_current current (fun other mem => ?_) current.applied rfl
    rw [State.jobs, busy]
    cases failed : state.fails job test with
    | true =>
      rw [State.jobs, failed] at mem
      exact mem_append_right _ mem
    | false =>
      rw [State.jobs, failed] at mem
      exact mem

theorem step_current {action} (allowed : Counted state action ∧ Careful state action) : Current (step state action) := by
  obtain ⟨counted, careful⟩ := allowed
  cases action with
  | update pid mapped =>
    have shown : mapped := careful
    subst shown
    simp only [step]
    split
    · rename_i free
      exact update_current current counted free
    · exact current
  | request =>
    simp only [step]
    split
    · rename_i pid updating
      exact ⟨current.applied, current.since, current.jobs, Nat.le_refl _, fun _ _ _ => current.updating pid updating, nofun⟩
    · exact current
  | clear =>
    simp only [step]
    split
    · rename_i free
      exact cancelled_current current counted rfl rfl rfl rfl fun pid updating => absurd (free.symm.trans updating) nofun
    · exact current
  | destroy =>
    simp only [step]
    split
    · exact ⟨current.applied, current.since, nofun, current.posted, nofun, nofun⟩
    · exact current
  | cancel =>
    simp only [step]
    split
    · exact cancelled_current current counted rfl rfl rfl rfl nofun
    · exact current
  | halt =>
    simp only [step]
    split
    · exact ⟨current.applied, current.since, current.jobs, current.posted, current.request, nofun⟩
    · exact current
  | idle =>
    simp only [step]
    split
    · exact idle_current current
    · exact current
  | take => exact take_current current careful
  | work => exact work_current current

end

theorem applied_for_latest {state : State}
    (reached : Runs.Reachable (· = {}) (fun before action => Counted before action ∧ Careful before action) step state)
    (entry : Int32 × Option Int32) (member : entry ∈ state.applied) : entry.2 = some entry.1 := by
  have current : Current state := by
    refine Runs.invariant Current ?_ (fun _ action holds allowed => step_current holds allowed) state reached
    rintro _ rfl
    exact ⟨nofun, nofun, nofun, Nat.le_refl _, nofun, nofun⟩
  exact current.applied entry member

instance (state : State) : Decidable (Room state) :=
  inferInstanceAs (Decidable (∀ job ∈ state.jobs, state.cancels + 1 < job.taken + 2 ^ 32))

instance (state : State) (action : Action) : Decidable (Counted state action) :=
  match action with
  | .update _ _ | .clear | .cancel => inferInstanceAs (Decidable (Room state))
  | .request | .destroy | .halt | .idle | .take | .work => inferInstanceAs (Decidable True)

instance (state : State) (action : Action) : Decidable (Careful state action) :=
  match action with
  | .update _ mapped => inferInstanceAs (Decidable (mapped = true))
  | .take => inferInstanceAs (Decidable (state.pending = true → state.posted = state.cancels))
  | .request | .clear | .destroy | .cancel | .halt | .idle | .work => inferInstanceAs (Decidable True)

def looked : List Action := .take :: .replicate 5 .work

def inTurn : List Action := [.update 5 true, .request] ++ looked ++ [.idle, .clear, .update 6 true, .request] ++ looked ++ [.idle]

theorem applied_for_latest_in_turn : (inTurn.foldl step {}).applied = [(6, some 6), (5, some 5)] ∧
    ∀ entry ∈ (inTurn.foldl step {}).applied, entry.2 = some entry.1 := by
  have reached : Runs.Reachable (· = {}) (fun before action => Counted before action ∧ Careful before action) step
      (inTurn.foldl step {}) :=
    Runs.reachable_follows (fun before action => decide (Counted before action ∧ Careful before action))
      (fun _ _ checked => of_decide_eq_true checked) inTurn {} (.start _ rfl) (by decide +kernel)
  exact ⟨by decide +kernel, applied_for_latest reached⟩

def clearedFirst : List Action := [.update 5 true, .request, .clear] ++ looked ++ [.idle]

def movedOn : List Action := [.update 5 true, .request, .update 6 true] ++ looked ++ [.request, .idle]

theorem stale_result_is_applied :
    Runs.Reachable (· = {}) Counted step (clearedFirst.foldl step {}) ∧ (clearedFirst.foldl step {}).applied =
    [(5, none)] ∧
    Runs.Reachable (· = {}) Counted step (movedOn.foldl step {}) ∧ (movedOn.foldl step {}).applied = [(5, some 6)] := by
  refine ⟨?_, by decide +kernel, ?_, by decide +kernel⟩
  · exact Runs.reachable_follows (fun before action => decide (Counted before action))
      (fun _ _ checked => of_decide_eq_true checked) clearedFirst {} (.start _ rfl) (by decide +kernel)
  · exact Runs.reachable_follows (fun before action => decide (Counted before action))
      (fun _ _ checked => of_decide_eq_true checked) movedOn {} (.start _ rfl) (by decide +kernel)

end Evemon.Gentoo
