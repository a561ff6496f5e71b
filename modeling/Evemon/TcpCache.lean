import Mathlib.Data.List.Chain
import Mathlib.Data.UInt
import Evemon.Lib.ProbeMap
import Evemon.Lib.Runs

-- g_tcp_cache of the broker: the byte counters of TCP sockets by inode.
namespace Evemon.TcpCache

open ProbeTable Function

def tcpcacheSize : Nat := 8192

structure TcpEntry where
  inode : UInt64
  prevAcked : UInt64
  prevReceived : UInt64
  deltaSend : UInt64
  deltaRecv : UInt64

abbrev Cache := Fin tcpcacheSize → TcpEntry

def start : Cache := fun _ => ⟨0, 0, 0, 0, 0⟩

theorem tcpcache_size_pos : 0 < tcpcacheSize := Nat.lt_of_sub_eq_succ rfl

def home (inode : UInt64) : Fin tcpcacheSize :=
  ⟨(inode * 2654435761).toNat % tcpcacheSize, Nat.mod_lt _ tcpcache_size_pos⟩

def probeSlots (cache : Cache) (inode : UInt64) : Nat → Fin tcpcacheSize → Option (Fin tcpcacheSize)
  | 0, _ => none
  | fuel + 1, slot =>
    if (cache slot).inode = inode ∨ (cache slot).inode = 0 then some slot
    else probeSlots cache inode fuel (following slot)

def claimed (cache : Cache) (inode : UInt64) (slot : Fin tcpcacheSize) : TcpEntry := { cache slot with inode }

def slotFor (cache : Cache) (inode : UInt64) : Option (Fin tcpcacheSize) :=
  probeSlots cache inode tcpcacheSize (home inode)

def tcpcacheGet (cache : Cache) (inode : UInt64) : Option (Fin tcpcacheSize) × Cache :=
  match slotFor cache inode with
  | none => (none, cache)
  | some slot => (some slot, update cache slot (claimed cache inode slot))

def refreshEntry (entry : TcpEntry) (acked received : UInt64) : TcpEntry :=
  let counted :=
    if entry.prevAcked > 0 ∨ entry.prevReceived > 0 then
      { entry with
        deltaSend := if acked ≥ entry.prevAcked then acked - entry.prevAcked else 0
        deltaRecv := if received ≥ entry.prevReceived then received - entry.prevReceived else 0 }
    else entry
  { counted with prevAcked := acked, prevReceived := received }

def tcpcacheUpdate (cache : Cache) (inode acked received : UInt64) : Cache :=
  let found := tcpcacheGet cache inode
  match found.1 with
  | none => found.2
  | some slot => update found.2 slot (refreshEntry (found.2 slot) acked received)

def lookup (cache : Cache) (inode : UInt64) : Option (UInt64 × UInt64) :=
  (tcpcacheGet cache inode).1.map fun slot =>
    (((tcpcacheGet cache inode).2 slot).deltaSend, ((tcpcacheGet cache inode).2 slot).deltaRecv)

section

def view (cache : Cache) : Table tcpcacheSize UInt64 TcpEntry :=
  fun slot => if (cache slot).inode = 0 then none else some ((cache slot).inode, cache slot)

def Stands (cache : Cache) (map : UInt64 → Option TcpEntry) : Prop := Represents home (view cache) map

theorem start_stands : Stands start fun _ => none := represents_empty home

theorem probe_slots_eq (cache : Cache) (inode : UInt64) {stops : UInt64 → Bool}
    (same : ∀ other, other ≠ 0 → (stops other ↔ other = inode)) {fuel} {slot} :
    probeSlots cache inode fuel slot = probe (view cache) stops fuel slot := by
  induction fuel generalizing slot with
  | zero => rfl
  | succ fuel ih =>
    rw [probeSlots, probe, view]
    by_cases free : (cache slot).inode = 0
    · rw [if_pos (.inr free), if_pos free]
    · rw [if_neg free]
      by_cases here : (cache slot).inode = inode
      · rw [if_pos (.inl here)]
        exact (if_pos ((same _ free).mpr here)).symm
      · rw [if_neg (not_or.mpr ⟨here, free⟩), ih]
        exact (if_neg fun stopped => here ((same _ free).mp stopped)).symm

variable {cache : Cache} {map : UInt64 → Option TcpEntry} (stands : Stands cache map) {inode : UInt64}

theorem probe_slots_locate : slotFor cache inode = locate home (view cache) inode :=
  probe_slots_eq cache inode (fun _ _ => decide_eq_true_iff)

theorem view_write {slot} {entry : TcpEntry} (keyed : entry.inode = inode) (real : inode ≠ 0) :
    view (update cache slot entry) = update (view cache) slot (some (inode, entry)) := by
  funext other
  by_cases same : other = slot
  · subst same
    rw [update_self, view, update_self, if_neg (by rw [keyed]; exact real), keyed]
  · rw [update_of_ne same, view, view, update_of_ne same]

include stands in
theorem stands_write (real : inode ≠ 0) {slot}
    (located : slotFor cache inode = some slot) {entry : TcpEntry} (keyed : entry.inode = inode) :
    Stands (update cache slot entry) (update map inode (some entry)) := by
  rw [probe_slots_locate] at located
  rw [Stands, view_write keyed real]
  exact represents_update home stands located entry

include stands in
theorem located_claimed {slot} (located : slotFor cache inode = some slot) :
    map inode = some (claimed cache inode slot) ∨ (map inode = none ∧ (cache slot).inode = 0) := by
  rw [probe_slots_locate] at located
  have entry := located_entry home stands located
  rw [view] at entry
  by_cases free : (cache slot).inode = 0
  · rw [if_pos free] at entry
    exact .inr ⟨by simpa using entry.symm, free⟩
  · rw [if_neg free] at entry
    obtain ⟨known, mapped, equal⟩ := Option.map_eq_some_iff.mp entry.symm
    obtain ⟨keyed, same⟩ := Prod.mk.inj equal
    refine .inl ?_
    rw [mapped, same, claimed, keyed]

theorem probe_slots_zero {slot} (located : slotFor cache 0 = some slot) : (cache slot).inode = 0 := by
  have general (fuel : Nat) (first : Fin tcpcacheSize) (found : probeSlots cache 0 fuel first = some slot) :
      (cache slot).inode = 0 := by
    induction fuel generalizing first with
    | zero => cases found
    | succ fuel ih =>
      rw [probeSlots] at found
      by_cases here : (cache first).inode = 0 ∨ (cache first).inode = 0
      · rw [if_pos here] at found
        rw [← Option.some.inj found]
        exact here.elim id id
      · rw [if_neg here] at found
        exact ih _ found
  exact general _ _ located

theorem get_zero : (tcpcacheGet cache 0).2 = cache := by
  unfold tcpcacheGet
  cases located : slotFor cache 0 with
  | none => rfl
  | some slot =>
    have free := probe_slots_zero located
    have same : claimed cache 0 slot = cache slot := by rw [claimed, ← free]
    change update cache slot (claimed cache 0 slot) = cache
    rw [same, update_eq_self]

theorem get_none (missed : slotFor cache inode = none) : tcpcacheGet cache inode = (none, cache) := by
  rw [tcpcacheGet, missed]

theorem get_some {slot} (located : slotFor cache inode = some slot) :
    tcpcacheGet cache inode = (some slot, update cache slot (claimed cache inode slot)) := by
  rw [tcpcacheGet, located]

theorem update_none {acked received} (missed : slotFor cache inode = none) :
    tcpcacheUpdate cache inode acked received = cache := by
  rw [tcpcacheUpdate, get_none missed]

theorem update_some {acked received} {slot} (located : slotFor cache inode = some slot) :
    tcpcacheUpdate cache inode acked received =
    update cache slot (refreshEntry (claimed cache inode slot) acked received) := by
  rw [tcpcacheUpdate, get_some located]
  change update (update cache slot _) slot (refreshEntry (update cache slot _ slot) _ _) = _
  rw [update_self, update_idem]

theorem refresh_entry_inode (entry : TcpEntry) (acked received : UInt64) :
    (refreshEntry entry acked received).inode = entry.inode := by
  unfold refreshEntry
  dsimp only
  split <;> rfl

theorem lookup_some {slot} (located : slotFor cache inode = some slot) :
    lookup cache inode = some ((cache slot).deltaSend, (cache slot).deltaRecv) := by
  rw [lookup, get_some located, Option.map_some]
  dsimp only
  rw [update_self]
  rfl

include stands in
theorem locate_known {entry} (known : map inode = some entry) :
    ∃ slot, slotFor cache inode = some slot ∧ cache slot = entry := by
  obtain ⟨slot, held⟩ := (stands.held inode entry).mpr known
  refine ⟨slot, ?_, ?_⟩
  · rw [probe_slots_locate]
    exact locate_held home stands.chained stands.unique held
  · rw [view] at held
    by_cases free : (cache slot).inode = 0
    · rw [if_pos free] at held
      cases held
    · rw [if_neg free] at held
      exact (Prod.mk.inj (Option.some.inj held)).2

end

structure Counters where
  acked : UInt64
  received : UInt64
deriving DecidableEq

inductive CacheOp where
  | update (inode : UInt64) (counters : Counters)
  | get (inode : UInt64)

-- `updates` is ghost: what the updates of an inode have brought, the latest first.
structure CacheState where
  cache : Cache
  updates : UInt64 → List Counters

def cacheStep (s : CacheState) : CacheOp → CacheState
  | .update inode counters =>
    { cache := tcpcacheUpdate s.cache inode counters.acked counters.received
      updates := update s.updates inode (counters :: s.updates inode) }
  | .get inode => { s with cache := (tcpcacheGet s.cache inode).2 }

def CacheStarts (s : CacheState) : Prop := s = ⟨start, fun _ => []⟩

def AtMost (older newer : Counters) : Prop := older.acked ≤ newer.acked ∧ older.received ≤ newer.received

def Rising (updates : List Counters) : Prop := updates.IsChain fun newer older => AtMost older newer

def growth (latest : Counters) (earlier : List Counters) : UInt64 × UInt64 :=
  match earlier with
  | [] => (0, 0)
  | previous :: _ => (latest.acked - previous.acked, latest.received - previous.received)

def DeltasExact (s : CacheState) : Prop :=
  ∀ inode, inode ≠ 0 → ∀ latest earlier, s.updates inode = latest :: earlier → Rising (latest :: earlier) →
    lookup s.cache inode = some (growth latest earlier)

structure CleanUpdate (s : CacheState) (inode : UInt64) (counters : Counters) : Prop where
  orphan : inode = 0 → counters = ⟨0, 0⟩
  room : inode ≠ 0 → (tcpcacheGet s.cache inode).1.isSome = true
  moving : inode ≠ 0 → ∀ previous ∈ (s.updates inode).head?, previous = ⟨0, 0⟩ → counters = ⟨0, 0⟩

def Clean (s : CacheState) : CacheOp → Prop
  | .get _ => True
  | .update inode counters => CleanUpdate s inode counters

def blank (inode : UInt64) : TcpEntry := ⟨inode, 0, 0, 0, 0⟩

structure Records (entry : TcpEntry) (latest : Counters) (earlier : List Counters) : Prop where
  acked : entry.prevAcked = latest.acked
  received : entry.prevReceived = latest.received
  deltas : Rising (latest :: earlier) → (entry.deltaSend, entry.deltaRecv) = growth latest earlier

structure Tracks (s : CacheState) (map : UInt64 → Option TcpEntry) : Prop where
  stands : Stands s.cache map
  pristine : ∀ slot, (s.cache slot).inode = 0 → s.cache slot = blank 0
  fresh : ∀ inode entry, inode ≠ 0 → s.updates inode = [] → map inode = some entry → entry = blank inode
  latest : ∀ inode latest earlier, inode ≠ 0 → s.updates inode = latest :: earlier →
    ∃ entry, map inode = some entry ∧ Records entry latest earlier

theorem pristine_write {cache : Cache} (slot : Fin tcpcacheSize) (entry : TcpEntry) (taken : entry.inode ≠ 0)
    (pristine : ∀ place, (cache place).inode = 0 → cache place = blank 0) :
    ∀ place, (update cache slot entry place).inode = 0 → update cache slot entry place = blank 0 := by
  intro place free
  by_cases same : place = slot
  · rw [same, update_self] at free
    exact absurd free taken
  · rw [update_of_ne same] at free ⊢
    exact pristine place free

theorem counters_zero {counters : Counters} (acked : ¬ counters.acked > 0) (received : ¬ counters.received > 0) :
    counters = ⟨0, 0⟩ := by
  obtain ⟨one, other⟩ := counters
  obtain rfl : one = 0 := UInt64.le_zero_iff.mp (UInt64.not_lt.mp acked)
  obtain rfl : other = 0 := UInt64.le_zero_iff.mp (UInt64.not_lt.mp received)
  rfl

theorem refresh_blank (inode : UInt64) (counters : Counters) :
    refreshEntry (blank inode) counters.acked counters.received = ⟨inode, counters.acked, counters.received, 0, 0⟩ := rfl

variable {entry : TcpEntry} {counters : Counters}

theorem refresh_records {latest} {earlier} (records : Records entry latest earlier)
    (moving : latest = ⟨0, 0⟩ → counters = ⟨0, 0⟩) :
    Records (refreshEntry entry counters.acked counters.received) counters (latest :: earlier) := by
  unfold refreshEntry
  dsimp only
  by_cases seen : entry.prevAcked > 0 ∨ entry.prevReceived > 0
  · rw [if_pos seen]
    refine ⟨rfl, rfl, fun rising => ?_⟩
    have grown := (List.isChain_cons_cons.mp rising).1
    dsimp only
    rw [records.acked, records.received, if_pos grown.1, if_pos grown.2]
    rfl
  · rw [if_neg seen]
    obtain ⟨acked, received⟩ := not_or.mp seen
    rw [records.acked] at acked
    rw [records.received] at received
    obtain rfl := counters_zero acked received
    obtain rfl := moving rfl
    refine ⟨rfl, rfl, fun rising => ?_⟩
    -- The counters were 0 all along, so the old differences are 0 as well.
    have before := (List.isChain_cons_cons.mp rising).2
    dsimp only
    rw [records.deltas before]
    cases earlier with
    | nil => rfl
    | cons previous rest =>
      have less := (List.isChain_cons_cons.mp before).1
      rw [counters_zero (UInt64.not_lt.mpr less.1) (UInt64.not_lt.mpr less.2)]
      rfl

section

variable {s : CacheState} {map : UInt64 → Option TcpEntry} (tracks : Tracks s map) {inode : UInt64} (real : inode ≠ 0)
  {slot : Fin tcpcacheSize} (located : slotFor s.cache inode = some slot)

include tracks real located

theorem claimed_fresh (new : s.updates inode = []) : claimed s.cache inode slot = blank inode := by
  rcases located_claimed tracks.stands located with known | ⟨-, free⟩
  · exact tracks.fresh inode _ real new known
  · rw [claimed, tracks.pristine slot free]
    rfl

theorem claimed_records (latest : Counters) (earlier : List Counters) (seen : s.updates inode = latest :: earlier) :
    Records (claimed s.cache inode slot) latest earlier := by
  obtain ⟨entry, known, records⟩ := tracks.latest inode latest earlier real seen
  rcases located_claimed tracks.stands located with same | ⟨absent, -⟩
  · rw [same] at known
    rw [Option.some.inj known]
    exact records
  · rw [absent] at known
    cases known

theorem write_tracks (keyed : entry.inode = inode) {updates : UInt64 → List Counters}
    (others : ∀ other, other ≠ inode → updates other = s.updates other) (fresh : updates inode = [] → entry = blank inode)
    (records : ∀ latest earlier, updates inode = latest :: earlier → Records entry latest earlier) :
    Tracks ⟨update s.cache slot entry, updates⟩ (update map inode (some entry)) where
  stands := stands_write tracks.stands real located keyed
  pristine := pristine_write slot entry (by rw [keyed]; exact real) tracks.pristine
  fresh := by
    intro other held nonzero new known
    by_cases same : other = inode
    · subst same
      rw [update_self] at known
      rw [← Option.some.inj known]
      exact fresh new
    · rw [update_of_ne same] at known
      exact tracks.fresh other held nonzero ((others other same).symm.trans new) known
  latest := by
    intro other latest earlier nonzero seen
    by_cases same : other = inode
    · subst same
      exact ⟨entry, update_self .., records latest earlier seen⟩
    · rw [update_of_ne same]
      exact tracks.latest other latest earlier nonzero ((others other same).symm.trans seen)

end

theorem get_tracks {s} {map : UInt64 → Option TcpEntry} (tracks : Tracks s map) {inode} :
    ∃ next, Tracks (cacheStep s (.get inode)) next := by
  by_cases zero : inode = 0
  · refine ⟨map, ?_⟩
    rw [zero, cacheStep, get_zero]
    exact tracks
  · cases located : slotFor s.cache inode with
    | none =>
      refine ⟨map, ?_⟩
      rw [cacheStep, get_none located]
      exact tracks
    | some slot =>
      refine ⟨update map inode (some (claimed s.cache inode slot)), ?_⟩
      rw [cacheStep, get_some located]
      exact write_tracks tracks zero located rfl (fun _ _ => rfl)
        (claimed_fresh tracks zero located) (claimed_records tracks zero located)

theorem update_zero_tracks {s} {map : UInt64 → Option TcpEntry} (tracks : Tracks s map) :
    Tracks (cacheStep s (.update 0 ⟨0, 0⟩)) map := by
  have same : tcpcacheUpdate s.cache 0 0 0 = s.cache := by
    cases located : slotFor s.cache 0 with
    | none => rw [update_none located]
    | some slot =>
      have empty := tracks.pristine slot (probe_slots_zero located)
      have claim : claimed s.cache 0 slot = blank 0 := by
        rw [claimed, empty]
        rfl
      rw [update_some located, claim]
      change update s.cache slot (blank 0) = s.cache
      rw [← empty, update_eq_self]
  have others (inode : UInt64) (real : inode ≠ 0) :
      update s.updates 0 (⟨0, 0⟩ :: s.updates 0) inode = s.updates inode := update_of_ne real ..
  rw [cacheStep]
  dsimp only
  rw [same]
  refine ⟨tracks.stands, tracks.pristine, fun inode entry real new => ?_, fun inode latest earlier real seen => ?_⟩
  · exact tracks.fresh inode entry real ((others inode real).symm.trans new)
  · exact tracks.latest inode latest earlier real ((others inode real).symm.trans seen)

theorem update_tracks {s} {map : UInt64 → Option TcpEntry} (tracks : Tracks s map) {inode}
    (clean : CleanUpdate s inode counters) : ∃ next, Tracks (cacheStep s (.update inode counters)) next := by
  by_cases zero : inode = 0
  · rw [clean.orphan zero, zero]
    exact ⟨map, update_zero_tracks tracks⟩
  · cases located : slotFor s.cache inode with
    | none =>
      have room := clean.room zero
      rw [get_none located] at room
      cases room
    | some slot =>
      refine ⟨update map inode (some (refreshEntry (claimed s.cache inode slot) counters.acked counters.received)), ?_⟩
      rw [cacheStep, update_some located]
      refine write_tracks tracks zero located (refresh_entry_inode _ _ _)
        (fun other different => update_of_ne different ..) (fun empty => ?_) (fun latest earlier seen => ?_)
      · rw [update_self] at empty
        cases empty
      · rw [update_self] at seen
        obtain ⟨rfl, rfl⟩ := List.cons.inj seen
        cases before : s.updates inode with
        | nil =>
          rw [claimed_fresh tracks zero located before, refresh_blank]
          exact ⟨rfl, rfl, fun _ => rfl⟩
        | cons previous rest =>
          have records := claimed_records tracks zero located previous rest before
          exact refresh_records records (clean.moving zero previous (by rw [before]; rfl))

theorem tracks_deltas {s} {map : UInt64 → Option TcpEntry} (tracks : Tracks s map) : DeltasExact s := by
  intro inode real latest earlier seen rising
  obtain ⟨entry, known, records⟩ := tracks.latest inode latest earlier real seen
  obtain ⟨slot, located, here⟩ := locate_known tracks.stands known
  rw [lookup_some located, here, records.deltas rising]

theorem tcp_deltas_exact (s : CacheState) (reached : Runs.Reachable CacheStarts Clean cacheStep s) : DeltasExact s := by
  have kept : ∃ map, Tracks s map := by
    refine Runs.invariant (fun s => ∃ map, Tracks s map) (fun s starts => ?_) (fun s op kept clean => ?_) s reached
    · rw [show s = ⟨start, fun _ => []⟩ from starts]
      refine ⟨fun _ => none, start_stands, fun _ _ => rfl, ?_, ?_⟩
      · intro inode entry _ _ absent
        cases absent
      · intro inode latest earlier _ absent
        cases absent
    · obtain ⟨map, tracks⟩ := kept
      cases op with
      | get inode => exact get_tracks tracks
      | update inode counters => exact update_tracks tracks clean
  obtain ⟨map, tracks⟩ := kept
  exact tracks_deltas tracks

def cacheAfter (ops : List CacheOp) : CacheState := ops.foldl cacheStep ⟨start, fun _ => []⟩

theorem tcp_deltas_exact_twice : DeltasExact (cacheAfter [.update 5 ⟨100, 200⟩, .get 6, .update 5 ⟨110, 230⟩]) ∧
    lookup (cacheAfter [.update 5 ⟨100, 200⟩, .get 6, .update 5 ⟨110, 230⟩]).cache 5 = some (10, 30) := by
  have first : CleanUpdate (cacheAfter []) 5 ⟨100, 200⟩ :=
    ⟨fun zero => absurd zero (by decide), fun _ => by decide +kernel, fun _ previous absent => by cases absent⟩
  have third : CleanUpdate (cacheAfter [.update 5 ⟨100, 200⟩, .get 6]) 5 ⟨110, 230⟩ := by
    refine ⟨fun zero => absurd zero (by decide), fun _ => by decide +kernel, fun _ previous mem equal => ?_⟩
    cases mem
    cases equal
  have fresh : Runs.Reachable CacheStarts Clean cacheStep (cacheAfter []) := .start _ rfl
  have once := Runs.Reachable.step (cacheAfter []) (CacheOp.update 5 ⟨100, 200⟩) fresh first
  have looked := Runs.Reachable.step (cacheAfter [.update 5 ⟨100, 200⟩]) (CacheOp.get 6) once trivial
  have twice := Runs.Reachable.step (cacheAfter [.update 5 ⟨100, 200⟩, .get 6]) (CacheOp.update 5 ⟨110, 230⟩) looked third
  exact ⟨tcp_deltas_exact _ twice, by decide +kernel⟩

theorem tcp_deltas_wrong : ¬ DeltasExact (cacheAfter [.update 0 ⟨7, 9⟩, .update 8192 ⟨10, 20⟩]) ∧
    ¬ DeltasExact (cacheAfter [.update 5 ⟨0, 0⟩, .update 5 ⟨5, 3⟩]) := by
  refine ⟨fun exact => ?_, fun exact => ?_⟩
  · have first := exact 8192 (by decide) ⟨10, 20⟩ [] (by decide +kernel) (List.isChain_singleton _)
    exact absurd first (by decide +kernel)
  · have second := exact 5 (by decide) ⟨5, 3⟩ [⟨0, 0⟩] (by decide +kernel)
      (List.isChain_cons_cons.mpr ⟨⟨by decide, by decide⟩, List.isChain_singleton _⟩)
    exact absurd second (by decide +kernel)

end Evemon.TcpCache
