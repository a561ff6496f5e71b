import Evemon.TcpCache

-- gather_sockets of the broker: the rates in the bundles of the processes of a cycle.
namespace Evemon.TcpCache

open List Function UInt64 Option Bool

inductive BsockKind where
  | tcp
  | udp
  | tcp6
  | udp6
deriving DecidableEq

def BsockKind.isTcp : BsockKind → Bool
  | .tcp | .tcp6 => true
  | .udp | .udp6 => false

structure Bsock where
  inode : UInt64
  kind : BsockKind
  localAddr : UInt32
  localPort : UInt16
  remoteAddr : UInt32
  remotePort : UInt16
  remoteAddr6 : List UInt8
  remotePort6 : UInt16

structure SockIo where
  laddr : UInt32
  raddr : UInt32
  lport : UInt16
  rport : UInt16
  inode : UInt64
  deltaSend : UInt64
  deltaRecv : UInt64

structure SockInode where
  inode : UInt64
  pid : Int32
  fdnum : Int32

-- `inode` is ghost: it says which socket the row is about.
structure Socket where
  inode : UInt64
  kind : BsockKind
  sourcePid : Int32
  sendDelta : UInt64
  recvDelta : UInt64
  total : UInt64
deriving DecidableEq

structure Diag where
  samples : List (UInt64 × Counters)
  available : Bool
  distinct : ((samples.map Prod.fst).filter fun inode => decide (inode ≠ 0)).Nodup

-- All that gather_sockets reads for one PID and its descendants. The inodes are not 0.
structure Gather where
  inodes : List SockInode
  named : ∀ item ∈ inodes, item.inode ≠ 0
  socktbl : List Bsock
  diag : Diag
  probe : Int32 → Int32 → Option Counters
  sockIo : List SockIo

def bsockFind (table : List Bsock) (inode : UInt64) : Option Bsock := table.find? fun row => decide (row.inode = inode)

def inetDiagDump (cache : Cache) (samples : List (UInt64 × Counters)) : Cache :=
  samples.foldl (fun cache sample => tcpcacheUpdate cache sample.1 sample.2.acked sample.2.received) cache

def inetDiagRefreshCache (cache : Cache) (diag : Diag) : Cache := inetDiagDump cache diag.samples

def ntohs (port : UInt16) : UInt16 := port <<< 8 ||| port >>> 8

def matched (si : Bsock) (inode : UInt64) (sio : SockIo) : Bool :=
  if sio.inode ≠ 0 ∧ sio.inode = inode then true
  else if sio.inode = 0 then
    decide ((si.kind = .tcp ∨ si.kind = .udp) ∧ si.localAddr = sio.laddr ∧ si.localPort = sio.lport ∧
      si.remoteAddr = sio.raddr ∧ si.remotePort = ntohs sio.rport)
  else false

def ebpfDeltas (sockIo : List SockIo) (si : Bsock) (inode : UInt64) : UInt64 × UInt64 :=
  match sockIo.find? (matched si inode) with
  | none => (0, 0)
  | some sio => (sio.deltaSend, sio.deltaRecv)

def connected (si : Bsock) : Bool :=
  match si.kind with
  | .tcp | .udp => decide (si.remoteAddr ≠ 0 ∨ si.remotePort ≠ 0)
  | .tcp6 | .udp6 => decide (si.remoteAddr6 ≠ List.replicate 16 0 ∨ si.remotePort6 ≠ 0)

def socketOf (si : Bsock) (item : SockInode) (deltas : UInt64 × UInt64) : Socket :=
  ⟨item.inode, si.kind, item.pid, deltas.1, deltas.2, deltas.1 + deltas.2⟩

def pidfdDeltas (g : Gather) (si : Bsock) (item : SockInode) : Option Counters :=
  if g.diag.available = false ∧ connected si = true then g.probe item.pid item.fdnum else none

def gatherSocket (g : Gather) (cache : Cache) (si : Bsock) (item : SockInode) : Socket × Cache :=
  if si.kind.isTcp = false then (socketOf si item (ebpfDeltas g.sockIo si item.inode), cache)
  else
    let looked := (tcpcacheGet cache item.inode).2
    match (lookup cache item.inode).filter fun deltas => decide (deltas ≠ (0, 0)) with
    | some deltas => (socketOf si item deltas, looked)
    | none =>
      match pidfdDeltas g si item with
      | none => (socketOf si item (ebpfDeltas g.sockIo si item.inode), looked)
      | some counters =>
        let updated := tcpcacheUpdate looked item.inode counters.acked counters.received
        (socketOf si item ((lookup updated item.inode).getD (0, 0)), (tcpcacheGet updated item.inode).2)

def gatherInodes (g : Gather) (seen : List UInt64) (cache : Cache) : List SockInode → List Socket × Cache
  | [] => ([], cache)
  | item :: rest =>
    if item.inode ∈ seen then gatherInodes g seen cache rest
    else
      match bsockFind g.socktbl item.inode with
      | none => gatherInodes g (item.inode :: seen) cache rest
      | some si =>
        let one := gatherSocket g cache si item
        let others := gatherInodes g (item.inode :: seen) one.2 rest
        (one.1 :: others.1, others.2)

def gatherSockets (g : Gather) (cache : Cache) : List Socket × Cache :=
  if g.inodes = [] then ([], cache) else gatherInodes g [] (inetDiagRefreshCache cache g.diag) g.inodes

def gatherCycle (cache : Cache) (cycle : List Gather) : Cache :=
  cycle.foldl (fun cache g => (gatherSockets g cache).2) cache

def refreshing (g : Gather) : Bool := !g.inodes.isEmpty

-- `last` is ghost: the latest cycle in which sockets were gathered.
structure BrokerState where
  cache : Cache
  last : List Gather

def brokerStep (s : BrokerState) (cycle : List Gather) : BrokerState :=
  ⟨gatherCycle s.cache cycle, if cycle.any refreshing then cycle else s.last⟩

def BrokerStarts (s : BrokerState) : Prop := s = ⟨start, []⟩

section

def Settled (entry : TcpEntry) : Prop :=
  entry.prevAcked = 0 → entry.prevReceived = 0 → entry.deltaSend = 0 ∧ entry.deltaRecv = 0

structure Sound (cache : Cache) (map : UInt64 → Option TcpEntry) : Prop where
  stands : Stands cache map
  settled : ∀ slot, Settled (cache slot)

def Crowded (cache : Cache) : Prop := ∀ slot, (cache slot).inode ≠ 0

def Known (cache : Cache) (inode : UInt64) (entry : TcpEntry) : Prop := ∃ map, Sound cache map ∧ map inode = some entry

def Missed (cache : Cache) (inode : UInt64) : Prop := ∃ map, Sound cache map ∧ map inode = none ∧ Crowded cache

theorem refresh_settled (entry : TcpEntry) (acked received : UInt64) (settled : Settled entry) :
    Settled (refreshEntry entry acked received) := by
  unfold refreshEntry
  dsimp only
  by_cases seen : entry.prevAcked > 0 ∨ entry.prevReceived > 0
  · rw [if_pos seen]
    intro noneAcked noneReceived
    dsimp only at noneAcked noneReceived ⊢
    have clipped (previous : UInt64) : (if (0 : UInt64) ≥ previous then 0 - previous else 0) = 0 := by
      split
      · rename_i zero
        rw [UInt64.le_zero_iff.mp zero]
        rfl
      · rfl
    rw [noneAcked, noneReceived]
    exact ⟨clipped _, clipped _⟩
  · rw [if_neg seen]
    obtain ⟨acked, received⟩ := not_or.mp seen
    rw [gt_iff_lt, UInt64.not_lt, UInt64.le_zero_iff] at acked received
    intro _ _
    exact settled acked received

variable (change : TcpEntry → TcpEntry) (cache : Cache)

theorem settled_write (slot : Fin tcpcacheSize) {entry} (new : Settled entry)
    (settled : ∀ place, Settled (cache place)) (place : Fin tcpcacheSize) : Settled (update cache slot entry place) := by
  by_cases same : place = slot
  · rw [same, update_self]
    exact new
  · rw [update_of_ne same]
    exact settled place

def touch (change : TcpEntry → TcpEntry) (cache : Cache) (inode : UInt64) : Cache :=
  (slotFor cache inode).elim cache fun slot =>
    update cache slot (change (claimed cache inode slot))

theorem get_touch (inode : UInt64) : (tcpcacheGet cache inode).2 = touch id cache inode := by
  unfold touch
  cases located : slotFor cache inode with
  | none => rw [get_none located]; rfl
  | some slot => rw [get_some located]; rfl

theorem update_touch (inode acked received : UInt64) :
    tcpcacheUpdate cache inode acked received = touch (refreshEntry · acked received) cache inode := by
  unfold touch
  cases located : slotFor cache inode with
  | none => rw [update_none located]; rfl
  | some slot => rw [update_some located]; rfl

structure Mild (change : TcpEntry → TcpEntry) : Prop where
  inode : ∀ entry, (change entry).inode = entry.inode
  settled : ∀ entry, Settled entry → Settled (change entry)

theorem id_mild : Mild id := ⟨fun _ => rfl, fun _ settled => settled⟩

theorem refresh_mild (acked received : UInt64) : Mild (refreshEntry · acked received) :=
  ⟨fun entry => refresh_entry_inode entry acked received, fun entry => refresh_settled entry acked received⟩

structure Touched (change : TcpEntry → TcpEntry) (cache : Cache) (map : UInt64 → Option TcpEntry) (inode : UInt64)
    (after : Cache) (next : UInt64 → Option TcpEntry) : Prop where
  sound : Sound after next
  others : ∀ other, other ≠ inode → next other = map other
  own : inode ≠ 0 → ∀ entry, map inode = some entry → next inode = some (change entry)
  fresh : inode ≠ 0 → map inode = none → ¬ Crowded cache → ∃ entry, next inode = some (change entry)
  crowded : Crowded cache → Crowded after ∧ (map inode = none → next inode = none)

theorem crowded_iff_full : Crowded cache ↔ ProbeTable.Full (view cache) := by
  refine forall_congr' fun slot => ?_
  rw [view]
  by_cases free : (cache slot).inode = 0
  · rw [if_pos free]
    exact iff_of_false (not_not_intro free) Bool.noConfusion
  · rw [if_neg free]
    exact iff_of_true free rfl

theorem touch_zero (mild : Mild change) {cache} (map : UInt64 → Option TcpEntry) (sound : Sound cache map) :
    Touched change cache map 0 (touch change cache 0) map := by
  unfold touch
  cases located : slotFor cache 0 with
  | none =>
    exact ⟨sound, fun _ _ => rfl, fun real => absurd rfl real, fun real => absurd rfl real,
      fun crowded => ⟨crowded, fun absent => absent⟩⟩
  | some slot =>
    have free := probe_slots_zero located
    have zero : (change (claimed cache 0 slot)).inode = 0 := mild.inode _
    have same : view (update cache slot (change (claimed cache 0 slot))) = view cache := by
      funext other
      by_cases here : other = slot
      · rw [view, view, here, update_self, if_pos zero, if_pos free]
      · rw [view, view, update_of_ne here]
    refine ⟨⟨?_, ?_⟩, fun _ _ => rfl, fun real => absurd rfl real, fun real => absurd rfl real,
      fun crowded => absurd free (crowded slot)⟩
    · rw [Stands, elim_some, same]
      exact sound.stands
    · exact settled_write cache slot (mild.settled _ (sound.settled slot)) sound.settled

theorem touch_real (mild : Mild change) {cache}
    (map : UInt64 → Option TcpEntry) (sound : Sound cache map) {inode : UInt64} (real : inode ≠ 0) :
    ∃ next, Touched change cache map inode (touch change cache inode) next := by
  unfold touch
  cases located : slotFor cache inode with
  | none =>
    have room : ¬ ¬ Crowded cache := by
      intro sparse
      rw [crowded_iff_full] at sparse
      obtain ⟨slot, found⟩ := ProbeTable.locate_free home inode sparse
      rw [probe_slots_locate, found] at located
      cases located
    refine ⟨map, sound, fun _ _ => rfl, fun _ entry known => ?_, fun _ _ sparse => absurd sparse room,
      fun crowded => ⟨crowded, fun absent => absent⟩⟩
    obtain ⟨slot, found, -⟩ := locate_known sound.stands known
    rw [located] at found
    cases found
  | some slot =>
    have keyed : (change (claimed cache inode slot)).inode = inode := mild.inode _
    have entry := located_claimed sound.stands located
    have settled : Settled (claimed cache inode slot) := sound.settled slot
    refine ⟨update map inode (some (change (claimed cache inode slot))), ?_, ?_, ?_, ?_, ?_⟩
    · exact ⟨stands_write sound.stands real located keyed, settled_write cache slot (mild.settled _ settled) sound.settled⟩
    · exact fun other different => update_of_ne different ..
    · intro _ old known
      rcases entry with same | ⟨absent, -⟩
      · rw [known] at same
        rw [update_self, Option.some.inj same]
      · rw [known] at absent
        cases absent
    · exact fun _ _ _ => ⟨_, update_self ..⟩
    · intro crowded
      refine ⟨fun place => ?_, fun absent => ?_⟩
      · by_cases same : place = slot
        · rw [same, elim_some, update_self, keyed]
          exact real
        · rw [elim_some, update_of_ne same]
          exact crowded place
      · rcases entry with same | ⟨-, free⟩
        · rw [absent] at same
          cases same
        · exact absurd free (crowded slot)

theorem touch_spec (mild : Mild change) {cache}
    {map : UInt64 → Option TcpEntry} (sound : Sound cache map) (inode : UInt64) :
    ∃ next, Touched change cache map inode (touch change cache inode) next := by
  by_cases zero : inode = 0
  · rw [zero]
    exact ⟨map, touch_zero change mild map sound⟩
  · exact touch_real change mild map sound zero

end

section

structure Apart (inode : UInt64) (cache after : Cache) : Prop where
  known : ∀ entry, Known cache inode entry → Known after inode entry
  missed : Missed cache inode → Missed after inode

variable {change : TcpEntry → TcpEntry} {cache : Cache} (inode : UInt64)

theorem touch_known (mild : Mild change) (cache : Cache) {inode : UInt64} (real : inode ≠ 0)
    (entry : TcpEntry) (known : Known cache inode entry) : Known (touch change cache inode) inode (change entry) := by
  obtain ⟨map, sound, mapped⟩ := known
  obtain ⟨next, touched⟩ := touch_spec change mild sound inode
  exact ⟨next, touched.sound, touched.own real entry mapped⟩

theorem touch_missed (mild : Mild change) (cache : Cache) (other inode : UInt64)
    (missed : Missed cache inode) : Missed (touch change cache other) inode := by
  obtain ⟨map, sound, absent, crowded⟩ := missed
  obtain ⟨next, touched⟩ := touch_spec change mild sound other
  refine ⟨next, touched.sound, ?_, (touched.crowded crowded).1⟩
  by_cases same : inode = other
  · subst same
    exact (touched.crowded crowded).2 absent
  · rw [touched.others inode same, absent]

theorem touch_apart (mild : Mild change) {cache} {other inode : UInt64}
    (different : inode ≠ other) : Apart inode cache (touch change cache other) := by
  refine ⟨fun entry known => ?_, touch_missed mild cache other inode⟩
  obtain ⟨map, sound, mapped⟩ := known
  obtain ⟨next, touched⟩ := touch_spec change mild sound other
  exact ⟨next, touched.sound, (touched.others inode different).trans mapped⟩

variable (cache) in
theorem get_apart (other : UInt64) {inode : UInt64} (real : inode ≠ 0) : Apart inode cache (tcpcacheGet cache other).2 := by
  rw [get_touch]
  by_cases same : inode = other
  · subst same
    exact ⟨touch_known id_mild cache real, touch_missed id_mild cache inode inode⟩
  · exact touch_apart id_mild same

theorem Apart.trans {inode} {first second third} (one : Apart inode first second)
    (two : Apart inode second third) : Apart inode first third :=
  ⟨fun entry known => two.known entry (one.known entry known), fun missed => two.missed (one.missed missed)⟩

theorem Apart.refl (cache : Cache) : Apart inode cache cache :=
  ⟨fun _ known => known, fun missed => missed⟩

theorem known_sound {entry} (known : Known cache inode entry) :
    Settled entry ∧ lookup cache inode = some (entry.deltaSend, entry.deltaRecv) := by
  obtain ⟨map, sound, mapped⟩ := known
  obtain ⟨slot, located, rfl⟩ := locate_known sound.stands mapped
  exact ⟨sound.settled slot, lookup_some located⟩

theorem missed_lookup (missed : Missed cache inode) : lookup cache inode = none := by
  obtain ⟨map, sound, absent, crowded⟩ := missed
  cases located : slotFor cache inode with
  | none =>
    rw [lookup, get_none located]
    rfl
  | some slot =>
    rcases located_claimed sound.stands located with same | ⟨-, free⟩
    · rw [absent] at same
      cases same
    · exact absurd free (crowded slot)

end

section

def Diag.counters (diag : Diag) (inode : UInt64) : Option Counters :=
  (diag.samples.find? fun sample => decide (sample.1 = inode)).map Prod.snd

theorem update_sound {cache} (sound : ∃ map, Sound cache map) (inode acked received : UInt64) :
    ∃ map, Sound (tcpcacheUpdate cache inode acked received) map := by
  obtain ⟨map, sound⟩ := sound
  rw [update_touch]
  obtain ⟨next, touched⟩ := touch_spec _ (refresh_mild acked received) sound inode
  exact ⟨next, touched.sound⟩

theorem get_sound {cache} (sound : ∃ map, Sound cache map) (inode : UInt64) :
    ∃ map, Sound (tcpcacheGet cache inode).2 map := by
  obtain ⟨map, sound⟩ := sound
  rw [get_touch]
  obtain ⟨next, touched⟩ := touch_spec id id_mild sound inode
  exact ⟨next, touched.sound⟩

theorem dump_sound (samples : List (UInt64 × Counters)) (cache : Cache) (sound : ∃ map, Sound cache map) :
    ∃ map, Sound (inetDiagDump cache samples) map := by
  induction samples generalizing cache with
  | nil => exact sound
  | cons sample rest ih =>
    exact ih _ (update_sound sound sample.1 sample.2.acked sample.2.received)

theorem dump_apart {inode : UInt64} {samples : List (UInt64 × Counters)} (cache : Cache)
    (absent : ∀ sample ∈ samples, inode ≠ sample.1) : Apart inode cache (inetDiagDump cache samples) := by
  induction samples generalizing cache with
  | nil => exact .refl inode cache
  | cons sample rest ih =>
    have one : Apart inode cache (tcpcacheUpdate cache sample.1 sample.2.acked sample.2.received) := by
      rw [update_touch]
      exact touch_apart (refresh_mild _ _) (absent sample mem_cons_self)
    exact one.trans (ih _ fun other mem => absent other (mem_cons_of_mem sample mem))

theorem counters_split (diag : Diag) {inode : UInt64} (real : inode ≠ 0) {counters}
    (found : diag.counters inode = some counters) : ∃ before after, diag.samples = before ++ (inode, counters) :: after ∧
    (∀ sample ∈ before, inode ≠ sample.1) ∧ ∀ sample ∈ after, inode ≠ sample.1 := by
  obtain ⟨sample, first, same⟩ := map_eq_some_iff.mp found
  obtain ⟨keyed, before, after, split, others⟩ := List.find?_eq_some_iff_append.mp first
  obtain ⟨key, value⟩ := sample
  obtain rfl : key = inode := of_decide_eq_true keyed
  obtain rfl : value = counters := same
  refine ⟨before, after, split, fun sample mem equal => ?_, fun sample mem equal => ?_⟩
  · have different := others sample mem
    rw [← equal] at different
    simp at different
  · have distinct := diag.distinct
    rw [split, map_append, map_cons, filter_append, filter_cons_of_pos (by simpa using real),
      nodup_append, nodup_cons] at distinct
    refine distinct.2.1.1 (mem_filter.mpr ⟨?_, by simpa using real⟩)
    exact mem_map.mpr ⟨sample, mem, equal.symm⟩

variable {diag : Diag} {inode : UInt64} (real : inode ≠ 0) {counters : Counters}
  (found : diag.counters inode = some counters) {cache : Cache}

include real found

theorem refresh_apart : ∃ middle, Apart inode cache middle ∧
    Apart inode (tcpcacheUpdate middle inode counters.acked counters.received) (inetDiagRefreshCache cache diag) ∧
    ((∃ map, Sound cache map) → ∃ map, Sound middle map) := by
  obtain ⟨before, after, split, early, late⟩ := counters_split diag real found
  have whole : inetDiagRefreshCache cache diag = inetDiagDump
      (tcpcacheUpdate (inetDiagDump cache before) inode counters.acked counters.received) after := by
    rw [inetDiagRefreshCache, inetDiagDump, split, foldl_append, foldl_cons]
    rfl
  rw [whole]
  exact ⟨inetDiagDump cache before, dump_apart cache early, dump_apart _ late, dump_sound before cache⟩

theorem refresh_known {entry} (known : Known cache inode entry) :
    Known (inetDiagRefreshCache cache diag) inode (refreshEntry entry counters.acked counters.received) := by
  obtain ⟨middle, early, late, -⟩ := refresh_apart real found
  rw [update_touch] at late
  exact late.known _ (touch_known (refresh_mild _ _) middle real entry (early.known entry known))

theorem refresh_missed (missed : Missed cache inode) : Missed (inetDiagRefreshCache cache diag) inode := by
  obtain ⟨middle, early, late, -⟩ := refresh_apart real found
  rw [update_touch] at late
  exact late.missed (touch_missed (refresh_mild _ _) middle inode inode (early.missed missed))

end

def Seen (cache : Cache) (inode : UInt64) (counters : Counters) : Prop :=
  (∃ entry, Known cache inode entry ∧ entry.prevAcked = counters.acked ∧ entry.prevReceived = counters.received) ∨
    Missed cache inode

theorem refresh_entry_prev (entry : TcpEntry) (acked received : UInt64) :
    (refreshEntry entry acked received).prevAcked = acked ∧ (refreshEntry entry acked received).prevReceived = received :=
  ⟨rfl, rfl⟩

theorem seen_apart {cache after} {inode} {counters} (apart : Apart inode cache after)
    (seen : Seen cache inode counters) : Seen after inode counters := by
  rcases seen with ⟨entry, known, same⟩ | missed
  · exact .inl ⟨entry, apart.known entry known, same⟩
  · exact .inr (apart.missed missed)

theorem refresh_seen {diag : Diag} {inode : UInt64} (real : inode ≠ 0) {counters}
    (found : diag.counters inode = some counters) {cache} (sound : ∃ map, Sound cache map) :
    Seen (inetDiagRefreshCache cache diag) inode counters := by
  obtain ⟨middle, -, late, kept⟩ := refresh_apart real found
  obtain ⟨map, sound⟩ := kept sound
  refine seen_apart late ?_
  rw [update_touch]
  obtain ⟨next, touched⟩ := touch_spec _ (refresh_mild counters.acked counters.received) sound inode
  cases mapped : map inode with
  | some entry => exact .inl ⟨_, ⟨next, touched.sound, touched.own real entry mapped⟩, refresh_entry_prev ..⟩
  | none =>
    by_cases crowded : Crowded middle
    · exact .inr ⟨next, touched.sound, (touched.crowded crowded).2 mapped, (touched.crowded crowded).1⟩
    · obtain ⟨entry, new⟩ := touched.fresh real mapped crowded
      exact .inl ⟨_, ⟨next, touched.sound, new⟩, refresh_entry_prev ..⟩

section

variable (g : Gather) (cache : Cache)

theorem gather_socket_sound (sound : ∃ map, Sound cache map) {si} (item : SockInode) :
    ∃ map, Sound (gatherSocket g cache si item).2 map := by
  have looked := get_sound sound item.inode
  unfold gatherSocket
  split
  · exact sound
  · dsimp only
    split
    · exact looked
    · split
      · exact looked
      · exact get_sound (update_sound looked _ _ _) _

theorem gather_inodes_sound {items} {seen} {cache}
    (sound : ∃ map, Sound cache map) : ∃ map, Sound (gatherInodes g seen cache items).2 map := by
  induction items generalizing seen cache with
  | nil => exact sound
  | cons item rest ih =>
    unfold gatherInodes
    split
    · exact ih sound
    · split
      · exact ih sound
      · exact ih (gather_socket_sound g cache sound item)

theorem gather_sockets_sound (sound : ∃ map, Sound cache map) : ∃ map, Sound (gatherSockets g cache).2 map := by
  unfold gatherSockets
  split
  · exact sound
  · exact gather_inodes_sound g (dump_sound _ cache sound)

variable (cycle : List Gather)

theorem gather_cycle_sound (cache : Cache) (sound : ∃ map, Sound cache map) :
    ∃ map, Sound (gatherCycle cache cycle) map := by
  induction cycle generalizing cache with
  | nil => exact sound
  | cons g rest ih => exact ih _ (gather_sockets_sound g cache sound)

theorem gather_socket_names (si : Bsock) (item : SockInode) :
    (gatherSocket g cache si item).1.inode = item.inode ∧ (gatherSocket g cache si item).1.kind = si.kind := by
  unfold gatherSocket
  split
  · exact ⟨rfl, rfl⟩
  · dsimp only
    split
    · exact ⟨rfl, rfl⟩
    · split <;> exact ⟨rfl, rfl⟩

theorem pidfd_unused (available : g.diag.available) {si} {item} : pidfdDeltas g si item = none := by
  rw [pidfdDeltas, available]
  exact if_neg fun both => Bool.noConfusion both.1

theorem gather_socket_apart (available : g.diag.available) (cache : Cache) (si : Bsock) (item : SockInode)
    {inode : UInt64} (real : inode ≠ 0) : Apart inode cache (gatherSocket g cache si item).2 := by
  have looked := get_apart cache item.inode real
  unfold gatherSocket
  split
  · exact .refl inode cache
  · dsimp only
    rw [pidfd_unused g available]
    split <;> exact looked

def told (deltas : Option (UInt64 × UInt64)) (fallback : UInt64 × UInt64) : UInt64 × UInt64 :=
  (deltas.filter fun deltas => decide (deltas ≠ (0, 0))).getD fallback

theorem gather_socket_told (available : g.diag.available) {cache} (si : Bsock) (item : SockInode)
    (tcp : si.kind.isTcp) : (gatherSocket g cache si item).1 =
    socketOf si item (told (lookup cache item.inode) (ebpfDeltas g.sockIo si item.inode)) := by
  unfold gatherSocket told
  rw [tcp, pidfd_unused g available, if_neg Bool.noConfusion]
  dsimp only
  cases (lookup cache item.inode).filter fun deltas => decide (deltas ≠ (0, 0)) with
  | none => rfl
  | some deltas => rfl

theorem gather_inodes_bundle (available : g.diag.available) {inode : UInt64} (real : inode ≠ 0)
    (items : List SockInode) (seen : List UInt64) {cache} : Apart inode cache (gatherInodes g seen cache items).2 ∧
    ∀ socket ∈ (gatherInodes g seen cache items).1, socket.inode = inode → socket.kind.isTcp →
    ∃ si there, bsockFind g.socktbl inode = some si ∧ Apart inode cache there ∧
    (socket.sendDelta, socket.recvDelta) = told (lookup there inode) (ebpfDeltas g.sockIo si inode) := by
  induction items generalizing seen cache with
  | nil => exact ⟨.refl inode cache, fun socket absent => by cases absent⟩
  | cons item rest ih =>
    unfold gatherInodes
    split
    · exact ih seen
    · split
      · exact ih _
      · rename_i si found
        have step := gather_socket_apart g available cache si item real
        obtain ⟨apart, listed⟩ := @ih (item.inode :: seen) (gatherSocket g cache si item).2
        refine ⟨step.trans apart, fun socket mem same tcp => ?_⟩
        rcases mem_cons.mp mem with rfl | later
        · obtain ⟨named, kind⟩ := gather_socket_names g cache si item
          rw [named] at same
          rw [kind] at tcp
          refine ⟨si, cache, same ▸ found, .refl inode cache, ?_⟩
          rw [gather_socket_told g available si item tcp, ← same]
          rfl
        · obtain ⟨other, there, row, way, deltas⟩ := listed socket later same tcp
          exact ⟨other, there, row, step.trans way, deltas⟩

theorem gather_sockets_seen (available : g.diag.available) (active : refreshing g)
    {inode : UInt64} (real : inode ≠ 0) {counters} (found : g.diag.counters inode = some counters)
    {cache} (sound : ∃ map, Sound cache map) : Seen (gatherSockets g cache).2 inode counters := by
  have some : g.inodes ≠ [] := by
    intro empty
    rw [refreshing, empty] at active
    cases active
  rw [gatherSockets, if_neg some]
  exact seen_apart (gather_inodes_bundle g available real g.inodes []).1 (refresh_seen real found sound)

theorem gather_sockets_idle (idle : refreshing g = false) : gatherSockets g cache = ([], cache) := by
  have empty : g.inodes = [] := by simpa [refreshing] using idle
  rw [gatherSockets, if_pos empty]

theorem gather_cycle_seen {inode : UInt64} (real : inode ≠ 0) (counters : Counters) (cycle : List Gather)
    (dumps : ∀ g ∈ cycle, refreshing g → g.diag.available ∧ g.diag.counters inode = some counters)
    {cache} (sound : ∃ map, Sound cache map) :
    (cycle.any refreshing → Seen (gatherCycle cache cycle) inode counters) ∧
    (cycle.any refreshing = false → gatherCycle cache cycle = cache) := by
  induction cycle using List.reverseRecOn with
  | nil => exact ⟨Bool.noConfusion, fun _ => rfl⟩
  | append_singleton before g ih =>
    have earlier := ih fun other mem => dumps other (mem_append_left [g] mem)
    have last := dumps g (mem_append_right before mem_cons_self)
    have run : gatherCycle cache (before ++ [g]) = (gatherSockets g (gatherCycle cache before)).2 := by
      rw [gatherCycle, foldl_append]
      rfl
    rw [run, any_append, any_cons, any_nil, Bool.or_false]
    cases active : refreshing g with
    | false =>
      rw [gather_sockets_idle g _ active, Bool.or_false]
      exact earlier
    | true =>
      rw [Bool.or_true]
      exact ⟨fun _ => gather_sockets_seen g (last active).1 active real (last active).2
        (gather_cycle_sound before cache sound), Bool.noConfusion⟩

structure BrokerInv (s : BrokerState) : Prop where
  sound : ∃ map, Sound s.cache map
  last : s.last ≠ [] → s.last.any refreshing = true ∧
    ∃ cache, (∃ map, Sound cache map) ∧ s.cache = gatherCycle cache s.last

theorem gather_cycle_idle {cache} (idle : cycle.any refreshing = false) : gatherCycle cache cycle = cache := by
  induction cycle with
  | nil => rfl
  | cons g rest ih =>
    rw [any_cons, or_eq_false_iff] at idle
    rw [gatherCycle, foldl_cons, gather_sockets_idle g cache idle.1]
    exact ih idle.2

theorem broker_inv (s : BrokerState) (reached : Runs.Reachable BrokerStarts (fun _ _ => True) brokerStep s) :
    BrokerInv s := by
  refine Runs.invariant BrokerInv (fun s starts => ?_) (fun s cycle inv _ => ?_) s reached
  · rw [show s = ⟨start, []⟩ from starts]
    exact ⟨⟨fun _ => none, start_stands, fun _ _ _ => ⟨rfl, rfl⟩⟩, fun absent => absurd rfl absent⟩
  · refine ⟨gather_cycle_sound cycle s.cache inv.sound, ?_⟩
    unfold brokerStep
    cases active : cycle.any refreshing with
    | true =>
      intro _
      exact ⟨active, s.cache, inv.sound, rfl⟩
    | false =>
      dsimp only
      rw [gather_cycle_idle cycle active]
      exact inv.last

end

-- The previous cycle that gathered saw the socket at `old`, this one sees it at `new`.
structure Observed (s : BrokerState) (earlier : List Gather) (g : Gather) (inode : UInt64) (old new : Counters) : Prop where
  gathered : s.last ≠ []
  previous : ∀ other ∈ s.last, refreshing other = true →
    other.diag.available = true ∧ other.diag.counters inode = some old
  constant : ∀ other ∈ earlier ++ [g], refreshing other = true →
    other.diag.available = true ∧ other.diag.counters inode = some new
  grew : AtMost old new

def grown (old new : Counters) : UInt64 × UInt64 := (new.acked - old.acked, new.received - old.received)

def fallback (g : Gather) (inode : UInt64) : UInt64 × UInt64 :=
  ((bsockFind g.socktbl inode).map fun si => ebpfDeltas g.sockIo si inode).getD (0, 0)

theorem refresh_moved {entry : TcpEntry} (old new : Counters) (acked : entry.prevAcked = old.acked)
    (received : entry.prevReceived = old.received) (grew : AtMost old new) (moved : old ≠ ⟨0, 0⟩) :
    ((refreshEntry entry new.acked new.received).deltaSend, (refreshEntry entry new.acked new.received).deltaRecv) =
    grown old new := by
  have seen : entry.prevAcked > 0 ∨ entry.prevReceived > 0 := by
    by_contra none
    obtain ⟨noAcked, noReceived⟩ := not_or.mp none
    rw [acked] at noAcked
    rw [received] at noReceived
    exact moved (counters_zero noAcked noReceived)
  unfold refreshEntry
  dsimp only
  rw [if_pos seen, acked, received, if_pos grew.1, if_pos grew.2, grown]

theorem refresh_unmoved {entry} (settled : Settled entry) (new : Counters)
    (still : entry.prevAcked = 0 ∧ entry.prevReceived = 0 ∨
    entry.prevAcked = new.acked ∧ entry.prevReceived = new.received) :
    ((refreshEntry entry new.acked new.received).deltaSend, (refreshEntry entry new.acked new.received).deltaRecv) =
    (0, 0) := by
  by_cases seen : entry.prevAcked > 0 ∨ entry.prevReceived > 0
  · rcases still with ⟨noAcked, noReceived⟩ | ⟨acked, received⟩
    · rw [noAcked, noReceived] at seen
      exact absurd seen (by decide)
    · unfold refreshEntry
      dsimp only
      rw [if_pos seen, acked, received, if_pos UInt64.le_rfl, if_pos UInt64.le_rfl, sub_self, sub_self]
  · obtain ⟨noAcked, noReceived⟩ := not_or.mp seen
    rw [gt_iff_lt, UInt64.not_lt, UInt64.le_zero_iff] at noAcked noReceived
    unfold refreshEntry
    dsimp only
    rw [if_neg seen]
    obtain ⟨send, recv⟩ := settled noAcked noReceived
    rw [send, recv]

theorem bundle_told (g : Gather) (active : refreshing g) (available : g.diag.available) {cache}
    {socket : Socket} (listed : socket ∈ (gatherSockets g cache).1) (tcp : socket.kind.isTcp) (real : socket.inode ≠ 0) :
    ∃ there, Apart socket.inode (inetDiagRefreshCache cache g.diag) there ∧
    (socket.sendDelta, socket.recvDelta) = told (lookup there socket.inode) (fallback g socket.inode) := by
  have some : g.inodes ≠ [] := by
    intro empty
    rw [refreshing, empty] at active
    cases active
  rw [gatherSockets, if_neg some] at listed
  obtain ⟨si, there, row, apart, deltas⟩ :=
    (gather_inodes_bundle g available real g.inodes []).2 socket listed rfl tcp
  refine ⟨there, apart, ?_⟩
  rw [deltas, fallback, row]
  rfl

theorem told_zero (fallback : UInt64 × UInt64) : told (some (0, 0)) fallback = fallback := rfl

theorem told_some {deltas fallback : UInt64 × UInt64} (some : deltas ≠ (0, 0)) :
    told (.some deltas) fallback = deltas := by
  rw [told, filter_some, if_pos (decide_eq_true some)]
  rfl

theorem known_told (cache : Cache) {there} {inode} {entry} (known : Known cache inode entry)
    (apart : Apart inode cache there) (fallback : UInt64 × UInt64) :
    told (lookup there inode) fallback = told (some (entry.deltaSend, entry.deltaRecv)) fallback := by
  rw [(known_sound inode (apart.known entry known)).2]

theorem missed_told (cache : Cache) {there} {inode} (missed : Missed cache inode)
    (apart : Apart inode cache there) (fallback : UInt64 × UInt64) : told (lookup there inode) fallback = fallback := by
  rw [missed_lookup inode (apart.missed missed)]
  rfl

-- Whose rates are right: of the first gather of the cycle, for a socket in the cache with some
-- bytes that has moved, and those for which the fallback has the right ones.
structure FirstTold (s : BrokerState) (earlier : List Gather) (inode : UInt64) (old new : Counters) : Prop where
  first : earlier.any refreshing = false
  cached : (lookup s.cache inode).isSome = true
  moved : old ≠ ⟨0, 0⟩
  growing : grown old new ≠ (0, 0)

theorem first_told (s : BrokerState) {earlier : List Gather} (g : Gather) {inode : UInt64} (real : inode ≠ 0)
    (old new : Counters) (seen : Seen s.cache inode old) (first : earlier.any refreshing = false)
    (found : g.diag.counters inode = some new) (grew : AtMost old new) {there}
    (apart : Apart inode (inetDiagRefreshCache s.cache g.diag) there) :
    told (lookup there inode) (fallback g inode) = grown old new ↔
    FirstTold s earlier inode old new ∨ fallback g inode = grown old new := by
  rcases seen with ⟨entry, known, acked, received⟩ | missed
  · have later := refresh_known real found known
    obtain ⟨settled, present⟩ := known_sound inode known
    rw [known_told _ later apart]
    by_cases moved : old = ⟨0, 0⟩
    · have still : entry.prevAcked = 0 ∧ entry.prevReceived = 0 := by
        rw [acked, received, moved]
        exact ⟨rfl, rfl⟩
      rw [refresh_unmoved settled new (.inl still), told_zero]
      exact ⟨.inr, fun condition => condition.resolve_left fun told => told.moved moved⟩
    · rw [refresh_moved old new acked received grew moved]
      by_cases growing : grown old new = (0, 0)
      · rw [growing, told_zero]
        exact ⟨.inr, fun condition => condition.resolve_left fun told => told.growing growing⟩
      · rw [told_some growing]
        exact iff_of_true rfl (.inl ⟨first, by rw [present]; rfl, moved, growing⟩)
  · have later := refresh_missed real found missed
    rw [missed_told _ later apart]
    refine ⟨.inr, fun condition => condition.resolve_left fun told => ?_⟩
    have cached := told.cached
    rw [missed_lookup inode missed] at cached
    cases cached

theorem later_told (g : Gather) {inode : UInt64} (real : inode ≠ 0) (new : Counters) {cache}
    (seen : Seen cache inode new) (found : g.diag.counters inode = some new) {there}
    (apart : Apart inode (inetDiagRefreshCache cache g.diag) there) :
    told (lookup there inode) (fallback g inode) = fallback g inode := by
  rcases seen with ⟨entry, known, same⟩ | missed
  · have later := refresh_known real found known
    rw [known_told _ later apart, refresh_unmoved (known_sound inode known).1 new (.inr same), told_zero]
  · exact missed_told _ (refresh_missed real found missed) apart _

theorem bundle_growth_iff (s : BrokerState) (reached : Runs.Reachable BrokerStarts (fun _ _ => True) brokerStep s)
    (earlier : List Gather) (g : Gather) (socket : Socket)
    (listed : socket ∈ (gatherSockets g (gatherCycle s.cache earlier)).1) (tcp : socket.kind.isTcp = true)
    (real : socket.inode ≠ 0) (old new : Counters) (observed : Observed s earlier g socket.inode old new) :
    (socket.sendDelta, socket.recvDelta) = grown old new ↔
    FirstTold s earlier socket.inode old new ∨ fallback g socket.inode = grown old new := by
  have inv := broker_inv s reached
  have active : refreshing g = true := by
    by_contra idle
    rw [gather_sockets_idle g _ (Bool.not_eq_true _ ▸ idle)] at listed
    cases listed
  obtain ⟨available, found⟩ := observed.constant g (mem_append_right earlier mem_cons_self) active
  obtain ⟨there, apart, deltas⟩ := bundle_told g active available listed tcp real
  have before := gather_cycle_seen real new earlier
    (fun other mem => observed.constant other (mem_append_left [g] mem)) inv.sound
  rw [deltas]
  cases refreshed : earlier.any refreshing with
  | false =>
    rw [before.2 refreshed] at apart
    obtain ⟨ran, cache, sound, cycled⟩ := inv.last observed.gathered
    have seen : Seen s.cache socket.inode old := by
      rw [cycled]
      exact (gather_cycle_seen real old s.last observed.previous sound).1 ran
    exact first_told s g real old new seen refreshed found observed.grew apart
  | true =>
    rw [later_told g real new (before.1 refreshed) found apart]
    refine ⟨.inr, fun condition => condition.resolve_left fun told => ?_⟩
    rw [told.first] at refreshed
    cases refreshed

theorem one_distinct (counters : Counters) :
    (([((5 : UInt64), counters)].map Prod.fst).filter fun inode => decide (inode ≠ 0)).Nodup :=
  nodup_singleton (5 : UInt64)

def ownedInode : SockInode := ⟨5, 100, 3⟩

theorem owned_named : ∀ item ∈ [ownedInode], item.inode ≠ 0 := by
  decide

def gatherOne (counters : Counters) : Gather where
  inodes := [ownedInode]
  named := owned_named
  socktbl := [⟨5, .tcp, 1, 80, 2, 81, [], 0⟩]
  diag := ⟨[(5, counters)], true, one_distinct counters⟩
  probe := fun _ _ => none
  sockIo := []

def afterOneCycle : BrokerState := brokerStep ⟨start, []⟩ [gatherOne ⟨100, 200⟩]

theorem one_observed (earlier : List Gather) (same : ∀ other ∈ earlier, other = gatherOne ⟨110, 230⟩) :
    Observed afterOneCycle earlier (gatherOne ⟨110, 230⟩) 5 ⟨100, 200⟩ ⟨110, 230⟩ := by
  refine ⟨cons_ne_nil _ _, fun other mem _ => ?_, fun other mem _ => ?_, ⟨by decide, by decide⟩⟩
  · obtain rfl := mem_singleton.mp mem
    exact ⟨rfl, rfl⟩
  · rcases mem_append.mp mem with before | _ | ⟨_, ⟨⟩⟩
    · rw [same other before]
      exact ⟨rfl, rfl⟩
    · exact ⟨rfl, rfl⟩

theorem bundle_growth_iff_single : (10, 30) = grown ⟨100, 200⟩ ⟨110, 230⟩ ↔
    FirstTold afterOneCycle [] 5 ⟨100, 200⟩ ⟨110, 230⟩ ∨ fallback (gatherOne ⟨110, 230⟩) 5 = grown ⟨100, 200⟩ ⟨110, 230⟩ :=
  bundle_growth_iff afterOneCycle (.step _ _ (.start _ rfl) trivial) [] (gatherOne ⟨110, 230⟩) ⟨5, .tcp, 100, 10, 30, 40⟩
    (by decide +kernel) rfl (by decide) ⟨100, 200⟩ ⟨110, 230⟩ (one_observed [] fun _ absent => by cases absent)

theorem second_bundle_is_still :
    Observed afterOneCycle [gatherOne ⟨110, 230⟩] (gatherOne ⟨110, 230⟩) 5 ⟨100, 200⟩ ⟨110, 230⟩ ∧
    (gatherSockets (gatherOne ⟨110, 230⟩) afterOneCycle.cache).1 = [⟨5, .tcp, 100, 10, 30, 40⟩] ∧
    (gatherSockets (gatherOne ⟨110, 230⟩) (gatherCycle afterOneCycle.cache [gatherOne ⟨110, 230⟩])).1 =
    [⟨5, .tcp, 100, 0, 0, 0⟩] ∧ grown ⟨100, 200⟩ ⟨110, 230⟩ = (10, 30) := by
  refine ⟨one_observed _ fun other mem => mem_singleton.mp mem, ?_, ?_, rfl⟩
  · decide +kernel
  · decide +kernel

end Evemon.TcpCache
