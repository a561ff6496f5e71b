import Evemon.RemoteWatches
import Evemon.WireCodec

namespace Evemon.RemoteFdmon

open Ipc Controls Prog BigEndian List SwapTable Nat

def applied (set : Set Watch) : Operation → Set Watch
  | .add w => { x | x = w ∨ x ∈ set ∧ watchKey x ≠ watchKey w }
  | .remove w => { x | x ∈ set ∧ watchKey x ≠ watchKey w }

def mirror (operations : List Operation) : Set Watch := operations.foldl applied ∅

theorem same_key (a b : Watch) : watchKey a = watchKey b ↔ sameWatch a b := by
  simp only [watchKey, sameWatch, Prod.mk.injEq, Bool.and_eq_true, decide_eq_true_eq, Bool.or_eq_true, and_assoc, ne_eq]
  constructor
  · rintro ⟨kind, pid, value⟩
    refine ⟨kind, pid, ?_⟩
    by_cases one : a.kind = 1
    · rw [if_pos one, if_pos (kind ▸ one)] at value
      exact .inr value
    · exact .inl one
  · rintro ⟨kind, pid, value⟩
    refine ⟨kind, pid, ?_⟩
    by_cases one : a.kind = 1
    · rw [if_pos one, if_pos (kind ▸ one)]
      exact value.resolve_left (not_not.mpr one)
    · rw [if_neg one, if_neg (kind ▸ one)]

variable (table : WatchTable)

theorem mem_watches (w : Watch) : w ∈ table.watches ↔ table.entries.find (watchKey w) = some w := by
  rw [find_eq_some, WatchTable.watches, mem_map]
  constructor
  · rintro ⟨⟨key, found⟩, mem, rfl⟩
    have same := table.keyed _ mem
    rwa [same]
  · exact fun mem => ⟨_, mem, rfl⟩

theorem watches_distinct : table.watches.Pairwise fun a b => sameWatch a b = false := by
  have distinct := table.entries.distinct
  rw [List.Nodup, pairwise_map] at distinct
  rw [WatchTable.watches, pairwise_map]
  refine distinct.imp_of_mem fun {a b} first second apart => Bool.eq_false_iff.mpr fun same => apart ?_
  rw [← table.keyed a first, ← table.keyed b second]
  exact (same_key a.2 b.2).mpr same

variable (w : Watch)

theorem mem_store {table stored : WatchTable} (done : table.store w = some stored) (x : Watch) :
    x ∈ stored.watches ↔ x = w ∨ x ∈ table.watches ∧ watchKey x ≠ watchKey w := by
  unfold WatchTable.store at done
  split at done
  · cases done
  · rename_i entries inner
    obtain rfl := Option.some.inj done
    rw [mem_watches, mem_watches, store_find _ inner]
    by_cases same : watchKey x = watchKey w
    · simp [same, eq_comm]
    · have other : x ≠ w := fun equal => same (by rw [equal])
      simp [same, other]

theorem mem_remove (key : Key) (table : WatchTable) (x : Watch) :
    x ∈ (table.remove key).watches ↔ x ∈ table.watches ∧ watchKey x ≠ key := by
  rw [mem_watches, mem_watches, WatchTable.remove, remove_find]
  by_cases same : watchKey x = key
  · simp [same]
  · simp [same]

variable (ebpf : Bool)

theorem control_spec (w : Watch) (remove : Bool) (r : Remote) :
    (∀ x, x ∈ (queryFdmonControl ebpf w remove r).2.table.watches ↔ if (queryFdmonControl ebpf w remove r).1 then
    x ∈ applied { y | y ∈ r.table.watches } (if remove then .remove w else .add w)
    else x ∈ r.table.watches) ∧ ((queryFdmonControl ebpf w remove r).2 = r ∨
    (queryFdmonControl ebpf w remove r).2.revision = r.revision + 1) := by
  unfold queryFdmonControl
  split
  · exact ⟨fun x => by simp, .inl rfl⟩
  · cases remove with
    | true =>
      simp only [if_true]
      cases found : r.table.entries.find (watchKey w) with
      | none =>
        refine ⟨fun x => ?_, .inl rfl⟩
        simp only [if_true, applied, Set.mem_ofPred_eq]
        refine ⟨fun mem => ⟨mem, fun same => ?_⟩, fun both => both.1⟩
        rw [mem_watches, same, found] at mem
        cases mem
      | some old => exact ⟨fun x => mem_remove (watchKey w) r.table x, .inr rfl⟩
    | false =>
      simp only [Bool.false_eq_true, if_false]
      cases stored : r.table.store w with
      | none => exact ⟨fun x => by simp, .inl rfl⟩
      | some table => exact ⟨fun x => mem_store w stored x, .inr rfl⟩

theorem control_removes (w : Watch) (r : Remote) : (queryFdmonControl ebpf w true r).1 := by
  simp only [queryFdmonControl, Bool.not_true, Bool.false_and, Bool.false_eq_true, if_false, if_true]
  split <;> rfl

theorem control_adds (w : Watch) (r : Remote) : ((queryFdmonControl ebpf w false r).1 ∧ ebpf) ∨
    (queryFdmonControl ebpf w false r = (false, r) ∧
    ((∃ x ∈ r.table.watches, watchKey x = watchKey w) → ebpf = false)) := by
  cases ebpf with
  | false => exact .inr ⟨rfl, fun _ => rfl⟩
  | true =>
    simp only [queryFdmonControl, Bool.not_true, Bool.and_false, Bool.false_eq_true, if_false]
    cases stored : r.table.store w with
    | some table => exact .inl ⟨rfl, trivial⟩
    | none =>
      refine .inr ⟨rfl, ?_⟩
      rintro ⟨x, mem, same⟩
      have present := (mem_keys (watchKey w) r.table.entries).mpr ⟨x, by
        rw [← same]
        exact (mem_watches r.table x).mp mem⟩
      obtain ⟨entries, done⟩ := store_succeeds (watchKey w) w r.table.entries (.inl present)
      unfold WatchTable.store at stored
      split at stored
      · rename_i absent
        rw [done] at absent
        cases absent
      · cases stored

variable {client : Client}

theorem mirror_step (action : Action) (mirrored : ∀ x, x ∈ client.remote.table.watches ↔ x ∈ mirror client.done)
    (x : Watch) : x ∈ (step client action).remote.table.watches ↔ x ∈ mirror (step client action).done := by
  cases action with
  | control ebpf w remove =>
    have sets : { y | y ∈ client.remote.table.watches } = mirror client.done := Set.ext mirrored
    have spec := (control_spec ebpf w remove client.remote).1 x
    simp only [step, control]
    rw [spec]
    cases (queryFdmonControl ebpf w remove client.remote).1 with
    | false =>
      simp only [Bool.false_eq_true, if_false]
      exact mirrored x
    | true =>
      simp only [if_true]
      rw [sets, mirror, mirror, foldl_append]
      rfl
  | worker move => exact mirrored x

theorem put_watch_puts : Puts (putWatch w) (encode32 w.kind ++ encode32 w.pid ++ encode32 w.value) := by
  rw [append_assoc]
  exact emits_bind (ipc_put_u32_puts _) (emits_bind (ipc_put_u32_puts _) (ipc_put_u32_puts _))

variable (watches : List Watch)

theorem put_controls_puts : Puts (putControls watches) (controlBody watches) :=
  emits_bind (ipc_put_u32_puts _) (emits_for_m put_watch_puts watches)

def Started (state : WireState) : Prop := state.buf.data ≠ []

theorem put_bytes_started {bytes} : Keeps Started (ipcPutBytes bytes) := by
  intro state started
  have longer : state.buf.data ++ bytes ≠ [] := by simp [show state.buf.data ≠ [] from started]
  unfold ipcPutBytes
  simp only [↓run_inspect_bind, run_ite, run_bind]
  split
  · exact started
  · split
    · exact started
    · split
      · split
        · exact longer
        · exact started
      · exact longer

theorem put_watch_started : Keeps Started (putWatch w) :=
  keeps_bind put_bytes_started fun _ => keeps_bind put_bytes_started fun _ => put_bytes_started

theorem put_controls_started {heap : Heap} (granted : heap.grant heap.asked) :
    ((putControls watches).run { buf := {}, heap := heap }).2.buf.data ≠ [] := by
  have first : Started ((ipcPutU32 (UInt32.ofNat watches.length)).run { buf := {}, heap := heap }).2 := by
    simp [Started, ipcPutU32, ipcPutBytes, malloc, setCap, appendBytes, granted, sizeSub, ipcLimit, grownCap, encode32]
  exact keeps_for_m put_watch_started watches _ first

def unsent : UInt64 := UInt64.ofNat (2 ^ 64 - 1)

-- The first allocation of a frame is granted, and the revisions do not reach the value that
-- stands for none.
def Provided (client : Client) : Action → Prop
  | .control _ _ _ => client.remote.revision.toNat + 2 < 2 ^ 64
  | .worker (.copy heap) => heap.grant heap.asked = true
  | .worker _ => True

structure Current (r : Remote) (c : Connection) : Prop where
  latest : c.sentRevision = r.revision →
    ∃ frame, c.frames.getLast? = some frame ∧ frame.body = controlBody r.table.watches
  earlier : c.sentRevision = unsent ∨ c.sentRevision.toNat ≤ r.revision.toNat
  whole : ∀ frame ∈ c.frames, frame.body = controlBody frame.table

structure Prepared (r : Remote) (c : Connection) (revision : UInt64) (body : IpcBuf) (table : List Watch) : Prop where
  earlier : revision.toNat ≤ r.revision.toNat
  copied : revision = r.revision → table = r.table.watches
  nothing : body.data = [] → c.sentRevision = revision
  filled : body.data ≠ [] → body.error = none → body.data = controlBody table

def StageSynced (r : Remote) : Stage → Prop
  | .apart => True
  | .ready c => Current r c
  | .sending c revision body table => Current r c ∧ Prepared r c revision body table

structure Synced (client : Client) : Prop where
  short : client.remote.revision.toNat + 1 < 2 ^ 64
  stage : StageSynced client.remote client.stage

variable {r : Remote} {c : Connection}

theorem copy_synced (current : Current r c) {heap : Heap} (granted : heap.grant heap.asked) :
    StageSynced r (copyControls heap c r) := by
  unfold copyControls
  split
  · have started := put_controls_started r.table.watches granted
    refine ⟨current, le_refl _, fun _ => rfl, fun empty => absurd empty started, fun _ clear => ?_⟩
    rcases (put_controls_puts r.table.watches).writes (writerStart heap) [] (writer_start_written heap) with lost | written
    · rw [Failed, writerStart, clear] at lost
      cases lost
    · exact written.holds
  · rename_i same
    refine ⟨current, le_refl _, fun _ => rfl, fun _ => not_not.mp same, fun some => absurd rfl some⟩

theorem send_synced {revision} {body} {table} (current : Current r c)
    (prepared : Prepared r c revision body table) {sent} :
    StageSynced r (sendControls sent c revision body table) := by
  unfold sendControls
  split
  · rename_i empty
    have same := prepared.nothing (length_eq_zero_iff.mp empty)
    rw [← same]
    exact current
  · rename_i some
    split
    · trivial
    · rename_i delivered
      simp only [Bool.or_eq_true, not_or] at delivered
      have clear : body.error = none := by simpa using delivered.1.1
      have contents := prepared.filled (fun empty => some (by rw [empty]; rfl)) clear
      refine ⟨fun equal => ⟨_, List.getLast?_concat, ?_⟩, .inr prepared.earlier, fun frame mem => ?_⟩
      · rw [contents, prepared.copied equal]
      · rcases mem_append.mp mem with old | _ | ⟨_, ⟨⟩⟩
        · exact current.whole frame old
        · exact contents

variable {stage : Stage}

theorem stage_later {after : Remote} (synced : StageSynced r stage) (later : r.revision.toNat < after.revision.toNat)
    (short : after.revision.toNat + 1 < 2 ^ 64) : StageSynced after stage := by
  have current (c : Connection) (before : Current r c) : Current after c := by
    refine ⟨fun equal => ?_, ?_, before.whole⟩
    · have same := congrArg UInt64.toNat equal
      rcases before.earlier with never | old
      · rw [never] at same
        exact absurd same (ne_of_gt (by simp [unsent]; omega))
      · omega
    · rcases before.earlier with never | old
      · exact .inl never
      · exact .inr (by omega)
  cases stage with
  | apart => trivial
  | ready c => exact current c synced
  | sending c revision body table =>
    obtain ⟨before, prepared⟩ := synced
    have old := prepared.earlier
    refine ⟨current c before, by omega, fun equal => ?_, prepared.nothing, prepared.filled⟩
    have same := congrArg UInt64.toNat equal
    omega

theorem next_synced (short : r.revision.toNat + 1 < 2 ^ 64) (synced : StageSynced r stage) (move : Move)
    (provided : ∀ heap, move = .copy heap → heap.grant heap.asked) : StageSynced r (stage.next r move) := by
  cases stage with
  | apart =>
    cases move with
    | connect =>
      refine ⟨fun equal => absurd (congrArg UInt64.toNat equal) ?_, .inl rfl, by simp⟩
      exact ne_of_gt (by simp; omega)
    | copy heap | send sent | hangUp => trivial
  | ready c =>
    cases move with
    | connect | send sent => exact synced
    | copy heap => exact copy_synced synced (provided heap rfl)
    | hangUp => trivial
  | sending c revision body table =>
    cases move with
    | connect | copy heap | hangUp => exact synced
    | send sent => exact send_synced synced.1 synced.2

theorem step_synced (synced : Synced client) {action} (provided : Provided client action) :
    Synced (step client action) := by
  cases action with
  | worker move =>
    refine ⟨synced.short, next_synced synced.short synced.stage move ?_⟩
    rintro heap rfl
    exact provided
  | control ebpf w remove =>
    have room : client.remote.revision.toNat + 2 < 2 ^ 64 := provided
    rcases (control_spec ebpf w remove client.remote).2 with same | changed
    · refine ⟨?_, ?_⟩
      · simp only [step, control, same]
        exact synced.short
      · simp only [step, control, same]
        exact synced.stage
    · have next : (queryFdmonControl ebpf w remove client.remote).2.revision.toNat = client.remote.revision.toNat + 1 := by
        rw [changed, UInt64.toNat_add]
        exact mod_eq_of_lt (by simp; omega)
      have short : (queryFdmonControl ebpf w remove client.remote).2.revision.toNat + 1 < 2 ^ 64 := by omega
      exact ⟨short, stage_later synced.stage (next ▸ lt_succ_self _) short⟩

def Stage.connection : Stage → Option Connection
  | .apart => none
  | .ready c => some c
  | .sending c _ _ _ => some c

theorem synced_current (synced : Synced client) (connected : client.stage.connection = some c) :
    Current client.remote c := by
  have stage := synced.stage
  cases shape : client.stage with
  | apart => simp [shape, Stage.connection] at connected
  | ready other =>
    rw [shape] at stage connected
    exact Option.some.inj connected ▸ stage
  | sending other revision body table =>
    rw [shape] at stage connected
    exact Option.some.inj connected ▸ stage.1

-- The table is what the successful operations make of it, in every run. Where `Provided` allows the
-- run, the service has been told of it whenever the revisions agree.
theorem registrations_mirrored (client : Client) : (Reached (fun _ _ => True) client →
    client.remote.table.watches.Pairwise (fun a b => sameWatch a b = false) ∧
    client.remote.table.watches.length ≤ 128 ∧
    { w | w ∈ client.remote.table.watches } = mirror client.done) ∧
    (Reached Provided client → ∀ c, client.stage.connection = some c →
    (c.sentRevision = client.remote.revision →
    ∃ frame, c.frames.getLast? = some frame ∧ frame.body = controlBody client.remote.table.watches) ∧
    ∀ frame ∈ c.frames, frame.body = controlBody frame.table) := by
  refine ⟨fun reached => ⟨watches_distinct _, ?_, ?_⟩, fun reached c connected => ?_⟩
  · rw [WatchTable.watches, length_map]
    exact client.remote.table.entries.bounded
  · refine Set.ext (Runs.invariant (fun client => ∀ x, x ∈ client.remote.table.watches ↔ x ∈ mirror client.done) ?_
      (fun client action mirrored _ => mirror_step action mirrored) client reached)
    rintro start rfl x
    simp [mirror, WatchTable.watches, WatchTable.empty, SwapTable.empty]
  · have synced : Synced client := by
      refine Runs.invariant Synced ?_ (fun client action synced provided => step_synced synced provided) client reached
      rintro start rfl
      exact ⟨by decide, trivial⟩
    have current := synced_current synced connected
    exact ⟨current.latest, current.whole⟩

def registeringRun : List Action :=
  [.control true ⟨1, 100, 1⟩ false, .worker .connect, .worker (.copy allGranted), .worker (.send true)]

def registered : Client := registeringRun.foldl step {}

def providedCheck (client : Client) : Action → Bool
  | .control _ _ _ => decide (client.remote.revision.toNat + 2 < 2 ^ 64)
  | .worker (.copy heap) => heap.grant heap.asked
  | .worker _ => true

theorem provided_check_sound (client : Client) (action : Action) (passed : providedCheck client action) :
    Provided client action := by
  cases action with
  | control ebpf w remove => simpa [providedCheck, Provided] using passed
  | worker move =>
    cases move with
    | connect | send sent | hangUp => trivial
    | copy heap => exact passed

theorem registered_reached : Reached Provided registered :=
  Runs.reachable_follows providedCheck provided_check_sound registeringRun {} (.start _ rfl) (by decide +kernel)

def registeredConnection : Connection :=
  ⟨1, [⟨controlBody [⟨1, 100, 1⟩], [⟨1, 100, 1⟩]⟩]⟩

theorem registrations_mirrored_registered :
    registered.stage.connection = some registeredConnection ∧ registered.remote.revision = 1 ∧
    ∃ frame, registeredConnection.frames.getLast? = some frame ∧
    frame.body = controlBody registered.remote.table.watches := by
  have connected : registered.stage.connection = some registeredConnection := by decide +kernel
  exact ⟨connected, by decide +kernel,
    ((registrations_mirrored registered).2 registered_reached registeredConnection connected).1 (by decide +kernel)⟩

def starvedRun : List Action :=
  [.control true ⟨1, 100, 1⟩ false, .worker .connect, .worker (.copy { grant := fun _ => false }), .worker (.send true)]

theorem starved_frame_counts_as_sent : Reached (fun _ _ => True) (starvedRun.foldl step {}) ∧
    (starvedRun.foldl step {}).stage.connection = some ⟨1, []⟩ ∧
    (starvedRun.foldl step {}).remote.revision = 1 ∧
    (starvedRun.foldl step {}).remote.table.watches = [⟨1, 100, 1⟩] := by
  refine ⟨?_, by decide +kernel, by decide +kernel, by decide +kernel⟩
  exact Runs.reachable_follows (fun _ _ => true) (fun _ _ _ => trivial) starvedRun _ (.start _ rfl) rfl

end Evemon.RemoteFdmon
