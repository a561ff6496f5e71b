import Mathlib.Data.Fintype.Basic
import Evemon.Lib.Runs

-- The socket file and the lock file beside it: the system calls that query_server_start,
-- query_server_stop and server_free make on one path, one at a time.
namespace Evemon.SocketFile

open Function Option

inductive Pc where
  | prepare
  | openLock
  | checkLock
  | flock
  | lstat
  | probe
  | unlink
  | socket
  | bind
  | identify
  | inheritAcl
  | listen
  | pipe
  | startInspector
  | startThread
  | running
  | closeListener
  | lstatOwn
  | unlinkOwn
  | closeLock
  | finished
deriving DecidableEq

structure Listener where
  inode : Option Nat := none
  listening : Bool := false
deriving DecidableEq

-- One query_server_start and what follows it, in a process of its own. `locked` is ghost: the
-- flock call has succeeded and lock_fd is not closed yet.
structure Server where
  uid : Nat
  alive : Bool := true
  pc : Pc := .prepare
  locked : Bool := false
  listener : Option Listener := none
  inode : Option Nat := none

structure Node where
  inode : Nat
  isSock : Bool
  owner : Nat
deriving DecidableEq

-- What the path names, which open description has the lock, and the servers.
structure World (count : Nat) where
  entry : Option Node
  lock : Option (Fin count) := none
  servers : Fin count → Server

inductive Connect where
  | connected
  | refused
  | otherError
deriving DecidableEq

structure Answer where
  ok : Bool := true
  connect : Connect := .refused
  inode : Nat := 0

inductive Descriptor where
  | lock
  | listener

-- A process that dies leaves its descriptors to be closed by the kernel, in any order.
inductive Action (count : Nat) where
  | call (who : Fin count) (answer : Answer)
  | die (who : Fin count)
  | reap (who : Fin count) (descriptor : Descriptor)

variable {count : Nat}

def World.set (who : Fin count) (server : Server) (world : World count) : World count :=
  { world with servers := update world.servers who server }

def World.jump (who : Fin count) (pc : Pc) (world : World count) : World count :=
  world.set who { world.servers who with pc := pc }

def World.proceed (who : Fin count) (answer : Answer) (next : Pc) (world : World count) : World count :=
  if answer.ok then world.jump who next else world.jump who .closeListener

def World.release (who : Fin count) (world : World count) : World count :=
  { world with lock := if world.lock = some who then none else world.lock }

def World.call (who : Fin count) (answer : Answer) (world : World count) : World count :=
  let server := world.servers who
  match server.pc with
  | .prepare => world.proceed who answer .openLock
  | .openLock => world.proceed who answer .checkLock
  | .checkLock => world.proceed who answer .flock
  | .flock =>
    if answer.ok ∧ world.lock = none then
      { world.set who { server with pc := .lstat, locked := true } with lock := some who }
    else world.jump who .closeListener
  | .lstat =>
    if answer.ok = false then world.jump who .closeListener
    else
      match world.entry with
      | none => world.jump who .socket
      | some node =>
        if node.isSock ∧ node.owner = server.uid then world.jump who .probe else world.jump who .closeListener
  | .probe =>
    if answer.ok ∧ answer.connect = .refused then world.jump who .unlink else world.jump who .closeListener
  | .unlink =>
    if answer.ok ∧ world.entry.isSome then { world.jump who .socket with entry := none }
    else world.jump who .closeListener
  | .socket =>
    if answer.ok then world.set who { server with pc := .bind, listener := some {} }
    else world.jump who .closeListener
  | .bind =>
    if answer.ok ∧ world.entry = none then
      { world.set who { server with pc := .identify, listener := some { inode := some answer.inode } } with
        entry := some ⟨answer.inode, true, server.uid⟩ }
    else world.jump who .closeListener
  | .identify =>
    match world.entry with
    | none => world.jump who .closeListener
    | some node =>
      if answer.ok then world.set who { server with pc := .inheritAcl, inode := some node.inode }
      else world.jump who .closeListener
  | .inheritAcl => world.proceed who answer .listen
  | .listen =>
    if answer.ok then
      world.set who
        { server with pc := .pipe, listener := server.listener.map fun socket => { socket with listening := true } }
    else world.jump who .closeListener
  | .pipe => world.proceed who answer .startInspector
  | .startInspector => world.proceed who answer .startThread
  | .startThread => world.proceed who answer .running
  | .running => world.jump who .closeListener
  | .closeListener => world.set who { server with pc := .lstatOwn, listener := none }
  | .lstatOwn =>
    if answer.ok ∧ server.inode.isSome ∧ world.entry.map Node.inode = server.inode then world.jump who .unlinkOwn
    else world.jump who .closeLock
  | .unlinkOwn =>
    { world.jump who .closeLock with entry := if answer.ok then none else world.entry }
  | .closeLock => (world.set who { server with pc := .finished, locked := false }).release who
  | .finished => world

def World.step (world : World count) : Action count → World count
  | .call who answer => world.call who answer
  | .die who => world.set who { world.servers who with alive := false }
  | .reap who .lock => (world.set who { world.servers who with locked := false }).release who
  | .reap who .listener => world.set who { world.servers who with listener := none }

def World.attended (world : World count) : Bool :=
  decide (∃ who, ∃ node ∈ world.entry, (world.servers who).listener = some ⟨some node.inode, true⟩)

def World.Possible (world : World count) : Action count → Prop
  | .call who answer =>
    (world.servers who).alive = true ∧ ((world.servers who).pc = .probe → answer.ok = true →
      (answer.connect = .refused ↔ world.entry.isSome = true ∧ world.attended = false))
  | .die who => (world.servers who).alive = true
  | .reap who _ => (world.servers who).alive = false

instance (world : World count) (action : Action count) : Decidable (world.Possible action) :=
  match action with
  | .call _ _ => inferInstanceAs (Decidable (_ ∧ (_ → _ → (_ ↔ _))))
  | .die _ => inferInstanceAs (Decidable (_ = _))
  | .reap _ _ => inferInstanceAs (Decidable (_ = _))

-- Whatever the path names at first, nobody has called yet.
structure Started (world : World count) : Prop where
  lock : world.lock = none
  servers : ∀ who, ∃ uid, world.servers who = { uid := uid }

def World.Listens (world : World count) (who : Fin count) (inode : Nat) : Prop :=
  (world.servers who).alive = true ∧ (world.servers who).listener = some ⟨some inode, true⟩

def World.unlinks (world : World count) : Action count → Option (Fin count × Nat)
  | .call who answer =>
    if ((world.servers who).pc = .unlink ∨ (world.servers who).pc = .unlinkOwn) ∧ answer.ok then
      world.entry.map fun node => (who, node.inode)
    else none
  | _ => none

def World.returns (world : World count) (who : Fin count) : Action count → Prop
  | .call caller answer => caller = who ∧ (world.servers who).pc = .startThread ∧ answer.ok = true
  | _ => False

structure Owned (world : World count) : Prop where
  exclusive : ∀ first second, (world.servers first).locked = true → (world.servers second).locked = true → first = second
  returned : ∀ action who, world.Possible action → world.returns who action →
    ∀ other inode, other ≠ who → ¬ world.Listens other inode
  unlinked : ∀ action who inode, world.Possible action → world.unlinks action = some (who, inode) →
    ∀ other, other ≠ who → ¬ world.Listens other inode

def Pc.pastFlock : Pc → Bool
  | .lstat | .probe | .unlink | .socket | .bind | .identify | .inheritAcl | .listen | .pipe | .startInspector
  | .startThread | .running | .unlinkOwn => true
  | _ => false

def Pc.listenerClosed : Pc → Bool
  | .lstatOwn | .unlinkOwn | .closeLock | .finished => true
  | _ => false

structure Orderly (server : Server) : Prop where
  past : server.pc.pastFlock = true → server.locked = true
  listener : server.listener.isSome = true → server.locked = true
  inode : server.inode.isSome = true → server.pc ≠ .finished → server.locked = true
  closed : server.pc.listenerClosed = true → server.listener = none

structure Guarded (world : World count) : Prop where
  lock : ∀ who, (world.servers who).locked = true → world.lock = some who
  orderly : ∀ who, (world.servers who).alive = true → Orderly (world.servers who)

theorem started_guarded (world : World count) (started : Started world) : Guarded world where
  lock who locked := by
    obtain ⟨uid, same⟩ := started.servers who
    rw [same] at locked
    cases locked
  orderly who alive := by
    obtain ⟨uid, same⟩ := started.servers who
    rw [same]
    constructor
    · exact fun past => nomatch past
    · exact fun opened => nomatch opened
    · exact fun known => nomatch known
    · exact fun closed => nomatch closed

variable {after : World count}

theorem guarded_update {world} (guarded : Guarded world) (who : Fin count) (server : Server)
    (servers : after.servers = update world.servers who server) (orderly : server.alive → Orderly server)
    (owns : server.locked → after.lock = some who)
    (others : ∀ other, other ≠ who → world.lock = some other → after.lock = some other) : Guarded after where
  lock other locked := by
    rw [servers] at locked
    by_cases here : other = who
    · rw [here, update_self] at locked
      rw [here]
      exact owns locked
    · rw [update_of_ne here] at locked
      exact others other here (guarded.lock other locked)
  orderly other alive := by
    rw [servers] at alive ⊢
    by_cases here : other = who
    · rw [here, update_self] at alive ⊢
      exact orderly alive
    · rw [update_of_ne here] at alive ⊢
      exact guarded.orderly other alive

theorem guarded_set {world} (guarded : Guarded world) (who : Fin count) (server : Server)
    (servers : after.servers = update world.servers who server) (lock : after.lock = world.lock)
    (orderly : server.alive → Orderly server) (same : server.locked = (world.servers who).locked) : Guarded after := by
  refine guarded_update guarded who server servers orderly (fun locked => ?_) (fun other _ held => ?_)
  · rw [lock]
    exact guarded.lock who (same.symm.trans locked)
  · rw [lock]
    exact held

variable {server : Server}

theorem guarded_release {world : World count} (guarded : Guarded world) {who : Fin count}
    (orderly : server.alive → Orderly server) (unlocked : server.locked = false) :
    Guarded ((world.set who server).release who) := by
  refine guarded_update guarded who server rfl orderly (fun locked => ?_) (fun other different held => ?_)
  · rw [unlocked] at locked
    cases locked
  · have kept : world.lock ≠ some who := by
      rw [held]
      exact fun same => different (some_inj.mp same)
    exact (if_neg kept).trans held

theorem orderly_locked (server : Server) (locked : server.locked)
    (closed : server.pc.listenerClosed → server.listener = none) : Orderly server :=
  ⟨fun _ => locked, fun _ => locked, fun _ _ => locked, closed⟩

theorem orderly_before (orderly : Orderly server) (next : Pc) (unfinished : server.pc ≠ .finished)
    (early : next.pastFlock = false) (opened : next.listenerClosed = false) : Orderly { server with pc := next } where
  past reached := by rw [early] at reached; cases reached
  listener := orderly.listener
  inode known _ := orderly.inode known unfinished
  closed reached := by rw [opened] at reached; cases reached

-- From the lock to the closing of the listener a call moves one process and leaves the lock.
theorem call_past (world : World count) (who : Fin count) (answer : Answer)
    (past : (world.servers who).pc.pastFlock) (before : (world.servers who).pc.listenerClosed = false) :
    ∃ server, (world.call who answer).servers = update world.servers who server ∧
    (world.call who answer).lock = world.lock ∧ server.locked = (world.servers who).locked ∧
    server.pc.listenerClosed = false := by
  cases pc : (world.servers who).pc
  all_goals
    rw [pc] at past before
    first
    | exact absurd past (by decide)
    | exact absurd before (by decide)
    | simp only [World.call, World.proceed, pc]
      repeat' split
      all_goals exact ⟨_, rfl, rfl, rfl, rfl⟩

section

variable (world : World count) (who : Fin count) (answer : Answer) (guarded : Guarded world)
  (orderly : Orderly (world.servers who))

include guarded

variable (next : Pc)

theorem guarded_jump (ordered : Orderly { world.servers who with pc := next }) : Guarded (world.jump who next) :=
  guarded_set guarded who _ rfl rfl (fun _ => ordered) rfl

include orderly

theorem guarded_early (unfinished : (world.servers who).pc ≠ .finished) (early : next.pastFlock = false)
    (opened : next.listenerClosed = false) : Guarded (world.jump who next) :=
  guarded_jump world who guarded next (orderly_before orderly next unfinished early opened)

theorem guarded_proceed (unfinished : (world.servers who).pc ≠ .finished) (early : next.pastFlock = false)
    (opened : next.listenerClosed = false) : Guarded (world.proceed who answer next) := by
  unfold World.proceed
  split
  · exact guarded_early world who guarded orderly next unfinished early opened
  · exact guarded_early world who guarded orderly .closeListener unfinished rfl rfl

theorem guarded_call : Guarded (world.call who answer) := by
  by_cases past : (world.servers who).pc.pastFlock ∧ (world.servers who).pc.listenerClosed = false
  · obtain ⟨server, servers, lock, same, opened⟩ := call_past world who answer past.1 past.2
    refine guarded_set guarded who server servers lock (fun _ => ?_) same
    refine orderly_locked server (same.trans (orderly.past past.1)) fun closed => ?_
    rw [opened] at closed
    cases closed
  cases pc : (world.servers who).pc <;> simp only [World.call, pc]
  case prepare =>
    exact guarded_proceed world who answer guarded orderly .openLock (by rw [pc]; decide) rfl rfl
  case openLock =>
    exact guarded_proceed world who answer guarded orderly .checkLock (by rw [pc]; decide) rfl rfl
  case checkLock =>
    exact guarded_proceed world who answer guarded orderly .flock (by rw [pc]; decide) rfl rfl
  case flock =>
    split
    · rename_i granted
      refine guarded_update guarded who { world.servers who with pc := .lstat, locked := true } rfl
        (fun _ => orderly_locked _ rfl fun closed => nomatch closed) (fun _ => rfl) (fun other _ held => ?_)
      rw [granted.2] at held
      cases held
    · exact guarded_early world who guarded orderly .closeListener (by rw [pc]; decide) rfl rfl
  case closeListener =>
    refine guarded_set guarded who _ rfl rfl (fun _ => ?_) rfl
    exact ⟨fun reached => (nomatch reached), fun opened => (nomatch opened),
      fun known _ => orderly.inode known (by rw [pc]; decide), fun _ => rfl⟩
  case lstatOwn =>
    have closed := orderly.closed (by rw [pc]; rfl)
    split
    · rename_i own
      apply guarded_jump world who guarded .unlinkOwn
      exact orderly_locked _ (orderly.inode own.2.1 (by rw [pc]; decide)) fun _ => closed
    · apply guarded_jump world who guarded .closeLock
      exact ⟨fun reached => (nomatch reached), orderly.listener,
        fun known _ => orderly.inode known (by rw [pc]; decide), fun _ => closed⟩
  case unlinkOwn =>
    have ordered : Orderly { world.servers who with pc := .closeLock } :=
      orderly_locked _ (orderly.past (by rw [pc]; rfl)) fun _ => orderly.closed (by rw [pc]; rfl)
    exact guarded_set guarded who _ rfl rfl (fun _ => ordered) rfl
  case closeLock =>
    have closed := orderly.closed (by rw [pc]; rfl)
    refine guarded_release guarded (fun _ => ?_) rfl
    exact ⟨fun reached => (nomatch reached), fun opened => (by rw [closed] at opened; cases opened),
      fun _ unfinished => absurd rfl unfinished, fun _ => closed⟩
  case finished =>
    exact guarded
  all_goals exact absurd ⟨by rw [pc]; rfl, by rw [pc]; rfl⟩ past

end

theorem guarded_step {world : World count} {action : Action count} (guarded : Guarded world)
    (possible : world.Possible action) : Guarded (world.step action) := by
  cases action with
  | call who answer => exact guarded_call world who answer guarded (guarded.orderly who possible.1)
  | die who => exact guarded_set guarded who _ rfl rfl (fun alive => nomatch alive) rfl
  | reap who descriptor =>
    have dead : (world.servers who).alive = false := possible
    cases descriptor with
    | lock =>
      refine guarded_release guarded (fun alive => ?_) rfl
      rw [show (world.servers who).alive = true from alive] at dead
      cases dead
    | listener =>
      refine guarded_set guarded who _ rfl rfl (fun alive => ?_) rfl
      rw [show (world.servers who).alive = true from alive] at dead
      cases dead

theorem guarded_listens {world} (guarded : Guarded world) {who other : Fin count} {inode}
    (locked : (world.servers who).locked) (different : other ≠ who) : ¬ world.Listens other inode := by
  rintro ⟨alive, listening⟩
  have held := (guarded.orderly other alive).listener (by rw [listening]; rfl)
  have lock := (guarded.lock who locked).symm.trans (guarded.lock other held)
  exact different (some_inj.mp lock).symm

theorem guarded_owned {world : World count} (guarded : Guarded world) : Owned world where
  exclusive first second left right :=
    some_inj.mp ((guarded.lock first left).symm.trans (guarded.lock second right))
  returned action who possible returns other inode different := by
    cases action with
    | call caller answer =>
      obtain ⟨rfl, pc, -⟩ := returns
      have locked := (guarded.orderly caller possible.1).past (by rw [pc]; rfl)
      exact guarded_listens guarded locked different
    | die caller | reap caller descriptor => exact returns.elim
  unlinked action who inode possible unlinks other different := by
    cases action with
    | call caller answer =>
      simp only [World.unlinks] at unlinks
      split at unlinks
      · rename_i removing
        obtain ⟨node, -, same⟩ := map_eq_some_iff.mp unlinks
        obtain ⟨rfl, -⟩ := Prod.mk.inj same
        have past : (world.servers caller).pc.pastFlock := by
          rcases removing.1 with pc | pc <;> rw [pc] <;> rfl
        have locked := (guarded.orderly caller possible.1).past past
        exact guarded_listens guarded locked different
      · cases unlinks
    | die caller | reap caller descriptor => cases unlinks

theorem socket_owned (world : World count) (reached : Runs.Reachable Started World.Possible World.step world) :
    Owned world :=
  guarded_owned (Runs.invariant Guarded started_guarded
    (fun _ _ guarded possible => guarded_step guarded possible) world reached)

def twoServers : World 2 where
  entry := none
  servers _ := { uid := 0 }

def takeover : List (Action 2) :=
  List.replicate 13 (.call 0 { inode := 7 }) ++ [.die 0, .reap 0 .lock, .reap 0 .listener] ++
    List.replicate 14 (.call 1 { inode := 8 })

theorem takeover_reached : Runs.Reachable Started World.Possible World.step (takeover.foldl World.step twoServers) := by
  refine Runs.reachable_follows (fun world action => decide (world.Possible action))
    (fun world action passed => of_decide_eq_true passed) takeover twoServers
    (.start _ ⟨rfl, fun who => ⟨0, rfl⟩⟩) ?_
  decide +kernel

theorem socket_owned_after_takeover : ((takeover.foldl World.step twoServers).servers 1).pc = .startThread ∧
    (takeover.foldl World.step twoServers).entry = some ⟨8, true, 0⟩ ∧ Owned (takeover.foldl World.step twoServers) := by
  refine ⟨?_, ?_, socket_owned _ takeover_reached⟩
  · decide +kernel
  · decide +kernel

end Evemon.SocketFile
