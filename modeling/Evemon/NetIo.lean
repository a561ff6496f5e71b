import Evemon.Lib.Meter
import Evemon.Lib.Runs

-- Network bytes per process and per socket, as fdmon.c accumulates them. The two tables are
-- never cleaned.
namespace Evemon.NetIo

open ProbeTable Meter List Function Option Nat

def netIoHtSize : Nat := 4096

def sockIoHtSize : Nat := 8192

abbrev NetTable := Table netIoHtSize UInt32 Entry

def netHome (tgid : UInt32) : Fin netIoHtSize := ⟨tgid.toNat % netIoHtSize, Nat.mod_lt _ (by decide)⟩

def occupy {size : Nat} {κ : Type} (key : κ) (slot : Fin size) (table : Table size κ Entry) : Table size κ Entry :=
  if (table slot).isNone then update table slot (some (key, {})) else table

def addBytes {size : Nat} {κ : Type} (bytes : UInt32) (isSend : Bool) (slot : Fin size) (table : Table size κ Entry) :
    Table size κ Entry :=
  update table slot ((table slot).map fun held => (held.1, held.2.add bytes isSend))

def netIoHtFindOrCreate (tgid : UInt32) (net : NetTable) : Option (Fin netIoHtSize × NetTable) :=
  (probe net (fun other => other == tgid) netIoHtSize (netHome tgid)).map fun slot => (slot, occupy tgid slot net)

def submitNetEvent (tgid bytes : UInt32) (isSend : Bool) (net : NetTable) : NetTable :=
  match netIoHtFindOrCreate tgid net with
  | none => net
  | some (slot, created) => addBytes bytes isSend slot created

def fdmonNetIoGet (tgid : UInt32) (net : NetTable) : Option (UInt64 × UInt64) :=
  (find netHome net tgid).map fun entry => (entry.send.delta, entry.recv.delta)

structure SockKey where
  tgid : UInt32
  laddr : UInt32
  raddr : UInt32
  lport : UInt16
  rport : UInt16
  inode : UInt64

abbrev SockTable := Table sockIoHtSize SockKey Entry

def sockSlot (hash : UInt32) : Fin sockIoHtSize := ⟨hash.toNat % sockIoHtSize, Nat.mod_lt _ (by decide)⟩

def inodeHash (tgid : UInt32) (inode : UInt64) : UInt32 := ((inode * 2654435761) ^^^ tgid.toUInt64).toUInt32

def tupleHash (tgid : UInt32) (lport rport : UInt16) : UInt32 :=
  (tgid * (2654435761 : UInt32)) ^^^ ((lport.toUInt32 <<< 16) ||| rport.toUInt32)

def SockKey.home (key : SockKey) : Fin sockIoHtSize :=
  if key.inode ≠ 0 then sockSlot (inodeHash key.tgid key.inode) else sockSlot (tupleHash key.tgid key.lport key.rport)

def SockKey.sameTuple (key other : SockKey) : Bool :=
  other.tgid == key.tgid && other.laddr == key.laddr && other.lport == key.lport && other.raddr == key.raddr &&
    other.rport == key.rport

-- An event without an inode takes any entry with its addresses, also one that has an inode.
def SockKey.takes (key other : SockKey) : Bool :=
  if key.inode ≠ 0 then other.inode == key.inode && other.tgid == key.tgid else key.sameTuple other

def sockIoHtFindOrCreate (key : SockKey) (sock : SockTable) : Option (Fin sockIoHtSize × SockTable) :=
  (probe sock key.takes sockIoHtSize key.home).map fun slot => (slot, occupy key slot sock)

def submitSockEvent (key : SockKey) (bytes : UInt32) (isSend : Bool) (sock : SockTable) : SockTable :=
  match sockIoHtFindOrCreate key sock with
  | none => sock
  | some (slot, created) => addBytes bytes isSend slot created

inductive Event where
  | net (tgid bytes : UInt32) (isSend : Bool)
  | sock (key : SockKey) (bytes : UInt32) (isSend : Bool)
  | snapshot

inductive Socket where
  | byInode (tgid : UInt32) (inode : UInt64)
  | byTuple (tgid laddr raddr : UInt32) (lport rport : UInt16)
deriving DecidableEq

def SockKey.socket (key : SockKey) : Socket :=
  if key.inode ≠ 0 then .byInode key.tgid key.inode else .byTuple key.tgid key.laddr key.raddr key.lport key.rport

def Socket.home : Socket → Fin sockIoHtSize
  | .byInode tgid inode => sockSlot (inodeHash tgid inode)
  | .byTuple tgid _ _ lport rport => sockSlot (tupleHash tgid lport rport)

def sockets (sock : SockTable) : Table sockIoHtSize Socket Entry :=
  fun slot => (sock slot).map fun held => (held.1.socket, held.2)

-- The two tables of the context. The rest is ghost: for each process and socket the sums of the
-- latched differences, and the events, latest first.
structure State where
  netIo : NetTable := empty
  sockIo : SockTable := empty
  netLatched : UInt32 → Bool → Nat := fun _ _ => 0
  sockLatched : Socket → Bool → Nat := fun _ _ => 0
  events : List Event := []

def netDelta (net : NetTable) (tgid : UInt32) (isSend : Bool) : Nat :=
  match fdmonNetIoGet tgid net with
  | none => 0
  | some (send, recv) => (if isSend then send else recv).toNat

def sockDelta (sock : SockTable) (socket : Socket) (isSend : Bool) : Nat :=
  (((find Socket.home (sockets sock) socket).getD {}).counter isSend).delta.toNat

def State.step (state : State) (event : Event) : State :=
  match event with
  | .net tgid bytes isSend =>
    { state with netIo := submitNetEvent tgid bytes isSend state.netIo, events := event :: state.events }
  | .sock key bytes isSend =>
    { state with sockIo := submitSockEvent key bytes isSend state.sockIo, events := event :: state.events }
  | .snapshot =>
    let net := latchAll state.netIo
    let sock := latchAll state.sockIo
    { netIo := net
      sockIo := sock
      netLatched := fun tgid isSend => state.netLatched tgid isSend + netDelta net tgid isSend
      sockLatched := fun socket isSend => state.sockLatched socket isSend + sockDelta sock socket isSend
      events := event :: state.events }

def netOps : List Event → List (Op UInt32)
  | [] => []
  | .net tgid bytes isSend :: earlier => .charge tgid bytes isSend :: netOps earlier
  | .sock _ _ _ :: earlier => netOps earlier
  | .snapshot :: earlier => .latch :: netOps earlier

def sockOps : List Event → List (Op Socket)
  | [] => []
  | .net _ _ _ :: earlier => sockOps earlier
  | .sock key bytes isSend :: earlier => .charge key.socket bytes isSend :: sockOps earlier
  | .snapshot :: earlier => .latch :: sockOps earlier

structure InRange (events : List Event) : Prop where
  net : ∀ tgid isSend, charged tgid isSend (netOps events) < 2 ^ 64
  sock : ∀ socket isSend, charged socket isSend (sockOps events) < 2 ^ 64

structure Conserved (state : State) : Prop where
  net : ∀ tgid isSend, state.netLatched tgid isSend + pending tgid isSend (netOps state.events) =
    charged tgid isSend (netOps state.events)
  sock : ∀ tgid inode isSend, inode ≠ 0 →
    state.sockLatched (.byInode tgid inode) isSend + pending (.byInode tgid inode) isSend (sockOps state.events) =
      charged (.byInode tgid inode) isSend (sockOps state.events)
  apart : ∀ slot key entry, state.sockIo slot = some (key, entry) → ∀ isSend,
    (entry.counter isSend).bytes.toNat = charged key.socket isSend (sockOps state.events)

-- There is room for what is new, and an event without an inode does not have the addresses
-- of an entry with one.
def Fits (state : State) : Event → Prop
  | .net tgid _ _ => ¬ Full state.netIo ∨ (find netHome state.netIo tgid).isSome = true
  | .sock key _ _ =>
    (¬ Full state.sockIo ∨ (find Socket.home (sockets state.sockIo) key.socket).isSome = true) ∧
    (key.inode = 0 → ∀ slot other entry, state.sockIo slot = some (other, entry) → key.sameTuple other = true →
      other.inode = 0)
  | .snapshot => True

variable {size : Nat} {κ : Type}

theorem add_occupied (key : κ) (bytes : UInt32) (isSend : Bool) (slot : Fin size) (table : Table size κ Entry) :
    addBytes bytes isSend slot (occupy key slot table) = update table slot
    (some (((table slot).map Prod.fst).getD key, (((table slot).map Prod.snd).getD {}).add bytes isSend)) := by
  unfold addBytes occupy
  cases held : table slot with
  | none => simp
  | some entry => simp [held]

theorem net_delta_counter (net : NetTable) (tgid : UInt32) (isSend : Bool) :
    netDelta net tgid isSend = (((find netHome net tgid).getD {}).counter isSend).delta.toNat := by
  rw [netDelta, fdmonNetIoGet]
  cases find netHome net tgid <;> cases isSend <;> rfl

variable {bytes : UInt32} {isSend : Bool} {tgid : UInt32}

theorem submit_net_charge {net} {slot} (located : locate netHome net tgid = some slot) :
    submitNetEvent tgid bytes isSend net = charge tgid bytes isSend slot net := by
  have found : netIoHtFindOrCreate tgid net = some (slot, occupy tgid slot net) := by
    rw [netIoHtFindOrCreate]
    exact map_eq_some_iff.mpr ⟨slot, located, rfl⟩
  rw [submitNetEvent, found]
  simp only
  rw [add_occupied, charge]
  cases held : net slot with
  | none => rfl
  | some entry => rw [← locate_entry netHome entry.2 located held]; rfl

variable (state : State) (count : Nat) {key : SockKey} (sock : SockTable) (events : List Event)

theorem socket_home : key.socket.home = key.home := by
  unfold SockKey.socket SockKey.home
  split <;> rfl

theorem takes_socket {key other : SockKey} (clear : key.inode = 0 → key.sameTuple other → other.inode = 0) :
    key.takes other = decide (other.socket = key.socket) := by
  rw [Bool.eq_iff_iff, decide_eq_true_iff]
  unfold SockKey.takes SockKey.socket
  by_cases known : key.inode ≠ 0
  · simp only [if_pos known, Bool.and_eq_true, beq_iff_eq]
    constructor
    · rintro ⟨inode, tgid⟩
      rw [if_pos (by rw [inode]; exact known), inode, tgid]
    · intro same
      split at same
      · exact ⟨(Socket.byInode.inj same).2, (Socket.byInode.inj same).1⟩
      · cases same
  · simp only [if_neg known]
    have zero : key.inode = 0 := not_not.mp known
    constructor
    · intro same
      rw [if_neg (not_not.mpr (clear zero same))]
      simp only [SockKey.sameTuple, Bool.and_eq_true, beq_iff_eq] at same
      obtain ⟨⟨⟨⟨tgid, laddr⟩, lport⟩, raddr⟩, rport⟩ := same
      rw [tgid, laddr, raddr, lport, rport]
    · intro same
      split at same
      · cases same
      · obtain ⟨tgid, laddr, raddr, lport, rport⟩ := Socket.byTuple.inj same
        simp [SockKey.sameTuple, tgid, laddr, raddr, lport, rport]

theorem probe_sockets (clear : key.inode = 0 → ∀ slot other entry, sock slot = some (other, entry) → key.sameTuple other →
    other.inode = 0) : probe sock key.takes sockIoHtSize key.home = locate Socket.home (sockets sock) key.socket := by
  rw [locate, socket_home]
  apply probe_congr
  intro slot
  cases held : sock slot with
  | none => simp [halts, sockets, held]
  | some entry =>
    simp only [halts, sockets, held, map_some, all_some]
    exact takes_socket fun zero => clear zero slot entry.1 entry.2 held

theorem submit_sock_charge {sock : SockTable} {slot : Fin sockIoHtSize}
    (clear : key.inode = 0 → ∀ slot other entry, sock slot = some (other, entry) → key.sameTuple other →
    other.inode = 0) (located : locate Socket.home (sockets sock) key.socket = some slot) :
    sockets (submitSockEvent key bytes isSend sock) = charge key.socket bytes isSend slot (sockets sock) := by
  have found : sockIoHtFindOrCreate key sock = some (slot, occupy key slot sock) := by
    rw [sockIoHtFindOrCreate, probe_sockets sock clear, located, map_some]
  rw [submitSockEvent, found]
  simp only
  rw [add_occupied, charge]
  have owner : (((sock slot).map Prod.fst).getD key).socket = key.socket := by
    cases held : sock slot with
    | none => rfl
    | some entry =>
      exact locate_entry Socket.home entry.2 located
        (by rw [sockets, held]; rfl)
  funext place
  by_cases here : place = slot
  · subst here
    simp only [sockets, update_self, map_some, owner]
    cases sock place <;> rfl
  · simp only [sockets, update_of_ne here]

theorem sockets_latch : sockets (latchAll sock) = latchAll (sockets sock) := by
  funext slot
  simp only [sockets, latchAll]
  cases sock slot <;> rfl

structure Metered (state : State) : Prop where
  inRange : InRange state.events
  net : Represents netHome state.netIo (project (netOps state.events))
  sock : Represents Socket.home (sockets state.sockIo) (project (sockOps state.events))
  netLatched : ∀ tgid isSend, state.netLatched tgid isSend = settled tgid isSend (netOps state.events)
  sockLatched : ∀ socket isSend, state.sockLatched socket isSend = settled socket isSend (sockOps state.events)

theorem metered_start : Metered {} where
  inRange := ⟨fun _ _ => Nat.two_pow_pos 64, fun _ _ => Nat.two_pow_pos 64⟩
  net := represents_empty netHome
  sock := represents_empty Socket.home
  netLatched _ _ := rfl
  sockLatched _ _ := rfl

theorem located_room [DecidableEq κ] (home : κ → Fin size) (table : Table size κ Entry) (key : κ)
    (room : ¬ Full table ∨ (find home table key).isSome) : ∃ slot, locate home table key = some slot := by
  rcases room with free | known
  · exact locate_free home key free
  · rw [find, isSome_map] at known
    cases located : locate home table key with
    | none => rw [located] at known; cases known
    | some slot => exact ⟨slot, rfl⟩

theorem sockets_full (full : Full (sockets sock)) : Full sock := by
  intro slot
  have filled := full slot
  rwa [sockets, isSome_map] at filled

theorem metered_step {event} (metered : Metered state) (fits : Fits state event)
    (inRange : InRange (event :: state.events)) : Metered (state.step event) := by
  cases event with
  | net tgid bytes isSend =>
    obtain ⟨slot, located⟩ := located_room netHome state.netIo tgid fits
    refine ⟨inRange, ?_, metered.sock, metered.netLatched, metered.sockLatched⟩
    simp only [State.step]
    rw [submit_net_charge located]
    exact represents_charge _ metered.net located
  | sock key bytes isSend =>
    obtain ⟨room, clear⟩ := fits
    obtain ⟨slot, located⟩ := located_room Socket.home (sockets state.sockIo) key.socket
      (room.imp_left fun free full => free (sockets_full state.sockIo full))
    refine ⟨inRange, metered.net, ?_, metered.netLatched, metered.sockLatched⟩
    simp only [State.step]
    rw [submit_sock_charge clear located]
    exact represents_charge _ metered.sock located
  | snapshot =>
    have net := represents_latch _ metered.net
    have sock := represents_latch _ metered.sock
    refine ⟨inRange, net, ?_, fun tgid isSend => ?_, fun socket isSend => ?_⟩
    · simp only [State.step, sockets_latch]
      exact sock
    · simp only [State.step, net_delta_counter, netOps, settled]
      rw [represents_metered _ net, latched_delta tgid isSend _ (metered.inRange.net tgid isSend),
        metered.netLatched, settled_add_pending]
    · simp only [State.step, sockDelta, sockets_latch, sockOps, settled]
      rw [represents_metered _ sock, latched_delta socket isSend _ (metered.inRange.sock socket isSend),
        metered.sockLatched, settled_add_pending]

theorem metered_conserved (metered : Metered state) : Conserved state where
  net tgid isSend := by rw [metered.netLatched, settled_add_pending]
  sock tgid inode isSend _ := by rw [metered.sockLatched, settled_add_pending]
  apart slot key entry held isSend := by
    have mapped := represents_slot Socket.home metered.sock slot key.socket entry (by rw [sockets, held]; rfl)
    have total := metered_bytes key.socket isSend (sockOps state.events)
    rw [Meter.metered, mapped, getD_some] at total
    rw [total]
    exact UInt64.toNat_ofNat_of_lt' (metered.inRange.sock key.socket isSend)

theorem net_bytes_conserved (state : State)
    (reached : Runs.Reachable (· = {}) (fun state event => Fits state event ∧ InRange (event :: state.events))
    State.step state) : Conserved state := by
  apply metered_conserved
  apply Runs.invariant Metered ?_ ?_ state reached
  · rintro initial rfl
    exact metered_start
  · intro earlier event metered taken
    exact metered_step earlier metered taken.1 taken.2

theorem net_ops_length : (netOps events).length ≤ events.length := by
  induction events with
  | nil => exact le_refl _
  | cons event earlier ih => cases event <;> simp only [netOps, length_cons] <;> omega

theorem sock_ops_length : (sockOps events).length ≤ events.length := by
  induction events with
  | nil => exact le_refl _
  | cons event earlier ih => cases event <;> simp only [sockOps, length_cons] <;> omega

theorem in_range_few (few : events.length < 2 ^ 32) : InRange events where
  net tgid isSend := by
    have bounded := charged_le tgid isSend (netOps events)
    have shorter := net_ops_length events
    omega
  sock socket isSend := by
    have bounded := charged_le socket isSend (sockOps events)
    have shorter := sock_ops_length events
    omega

def named : SockKey := ⟨1, 2, 3, 4, 1, 1⟩

def unnamed : SockKey := ⟨1, 2, 3, 5, 1, 0⟩

theorem net_bytes_conserved_two_sockets :
    Conserved (((({} : State).step (.sock unnamed 5 true)).step (.sock named 10 true)).step .snapshot) := by
  refine net_bytes_conserved _ (.step _ _ (.step _ _ (.step _ _ (.start _ rfl) ⟨⟨.inl ?_, ?_⟩, ?_⟩) ⟨⟨.inl ?_, ?_⟩, ?_⟩)
    ⟨trivial, ?_⟩)
  · intro full
    exact absurd (full ⟨0, by decide⟩) (by decide)
  · intro _ slot other entry held
    cases held
  · exact in_range_few _ (by decide)
  · intro full
    exact absurd (full ⟨0, by decide⟩) (by decide +kernel)
  · intro zero
    exact absurd zero (by decide)
  · exact in_range_few _ (by decide)
  · exact in_range_few _ (by decide)

def merged : State :=
  ((({} : State).step (.sock named 10 true)).step (.sock { named with inode := 0 } 5 true)).step .snapshot

def crowd : Nat → State
  | 0 => {}
  | count + 1 => (crowd count).step (.net (UInt32.ofNat count) 1 true)

theorem crowd_events : (crowd count).events.length = count := by
  induction count with
  | zero => rfl
  | succ count ih => rw [crowd, State.step, length_cons, ih]

theorem crowd_reached (few : count < 2 ^ 32) :
    Runs.Reachable (· = {}) (fun state event => InRange (event :: state.events)) State.step (crowd count) := by
  induction count with
  | zero => exact .start _ rfl
  | succ count ih =>
    refine .step _ _ (ih (by omega)) (in_range_few _ ?_)
    rw [length_cons, crowd_events]
    exact few

theorem crowd_slots (few : count ≤ netIoHtSize) (slot : Fin netIoHtSize) : (crowd count).netIo slot =
    if slot.val < count then some (UInt32.ofNat slot.val, ({} : Entry).add 1 true) else none := by
  induction count generalizing slot with
  | zero => rfl
  | succ count ih =>
    have earlier := ih (by omega)
    have small : (UInt32.ofNat count).toNat = count :=
      UInt32.toNat_ofNat_of_lt' (lt_of_lt_of_le few (by decide))
    have home : netHome (UInt32.ofNat count) = ⟨count, few⟩ := Fin.ext (by simp [netHome, small, mod_eq_of_lt few])
    have free : (crowd count).netIo ⟨count, few⟩ = none := by
      rw [earlier, if_neg (lt_irrefl count)]
    have located : locate netHome (crowd count).netIo (UInt32.ofNat count) = some ⟨count, few⟩ := by
      rw [locate, home]
      exact probe_free _ _ 4095 _ free
    simp only [crowd, State.step]
    rw [submit_net_charge located, charge, free]
    by_cases here : slot.val = count
    · obtain rfl : slot = ⟨count, few⟩ := Fin.ext here
      simp
    · rw [update_of_ne (fun same => here (congrArg Fin.val same)), earlier]
      exact if_congr (by omega) rfl rfl

variable (slot : Fin netIoHtSize)

theorem crowd_key : UInt32.ofNat slot.val ≠ 4096 := by
  intro same
  have small : (UInt32.ofNat slot.val).toNat = slot.val :=
    UInt32.toNat_ofNat_of_lt' (lt_trans slot.isLt (by decide))
  rw [same] at small
  exact absurd slot.isLt (small ▸ by decide)

theorem crowd_full : (crowd netIoHtSize).netIo slot = some (UInt32.ofNat slot.val, ({} : Entry).add 1 true) := by
  rw [crowd_slots netIoHtSize (le_refl _), if_pos slot.isLt]

theorem crowd_drops : submitNetEvent 4096 1 true (crowd netIoHtSize).netIo = (crowd netIoHtSize).netIo := by
  have missed : netIoHtFindOrCreate 4096 (crowd netIoHtSize).netIo = none := by
    rw [netIoHtFindOrCreate, map_eq_none_iff, eq_none_iff_forall_ne_some]
    intro found probed
    obtain ⟨steps, -, rfl, halted, -⟩ := (probe_eq_some_iff _ _ _).mp probed
    rw [crowd_full] at halted
    exact crowd_key _ (by simpa [halts] using halted)
  rw [submitNetEvent, missed]

theorem crowd_delta : netDelta (latchAll (crowd netIoHtSize).netIo) 4096 true = 0 := by
  have missing : find netHome (latchAll (crowd netIoHtSize).netIo) 4096 = none := by
    rw [eq_none_iff_forall_ne_some]
    intro entry found
    obtain ⟨slot, held⟩ := held_of_find netHome found
    rw [latchAll, crowd_full, map_some, some_inj] at held
    exact crowd_key slot (congrArg Prod.fst held)
  rw [net_delta_counter, missing]
  rfl

theorem crowd_latched {isSend} : (crowd count).netLatched tgid isSend = 0 := by
  induction count with
  | zero => rfl
  | succ count ih => exact ih

def State.oneMore (state : State) : State := (state.step (.net 4096 1 true)).step .snapshot

theorem crowd_one_more_reached (few : count + 2 < 2 ^ 32) :
    Runs.Reachable (· = {}) (fun state event => InRange (event :: state.events)) State.step (crowd count).oneMore := by
  refine .step _ _ (.step _ _ (crowd_reached count (by omega)) (in_range_few _ ?_)) (in_range_few _ ?_)
  · rw [length_cons, crowd_events]
    omega
  · rw [State.step, length_cons, length_cons, crowd_events]
    exact few

theorem one_more_charged : 0 < charged 4096 true (netOps state.oneMore.events) :=
  lt_of_lt_of_le one_pos (le_add_right 1 _)

theorem one_more_pending : pending 4096 true (netOps state.oneMore.events) = 0 := rfl

theorem one_more_latched (before : state.netLatched 4096 true = 0)
    (dropped : submitNetEvent 4096 1 true state.netIo = state.netIo)
    (missing : netDelta (latchAll state.netIo) 4096 true = 0) : state.oneMore.netLatched 4096 true = 0 := by
  simp only [State.oneMore, State.step, dropped, before, missing]

theorem net_bytes_not_conserved :
    (Runs.Reachable (· = {}) (fun state event => InRange (event :: state.events)) State.step merged ∧
    merged.sockLatched (.byInode 1 1) true = 15 ∧
    pending (.byInode 1 1) true (sockOps merged.events) = 0 ∧
    charged (.byInode 1 1) true (sockOps merged.events) = 10) ∧
    Runs.Reachable (· = {}) (fun state event => InRange (event :: state.events)) State.step
    (crowd netIoHtSize).oneMore ∧
    (crowd netIoHtSize).oneMore.netLatched 4096 true = 0 ∧
    pending 4096 true (netOps (crowd netIoHtSize).oneMore.events) = 0 ∧
    0 < charged 4096 true (netOps (crowd netIoHtSize).oneMore.events) := by
  refine ⟨⟨?_, ?_, ?_, ?_⟩, crowd_one_more_reached netIoHtSize (by decide),
    one_more_latched _ (crowd_latched _) crowd_drops crowd_delta, one_more_pending _, one_more_charged _⟩
  · exact .step _ _ (.step _ _ (.step _ _ (.start _ rfl) (in_range_few _ (by decide))) (in_range_few _ (by decide)))
      (in_range_few _ (by decide))
  · decide +kernel
  · decide +kernel
  · decide +kernel

end Evemon.NetIo
