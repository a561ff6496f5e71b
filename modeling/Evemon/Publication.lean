import Evemon.Lib.Runs
import Evemon.SteamPasses

namespace Evemon.Monitor

open List
open CText (atoi)

open Ipc (Bytes Heap headerBytes snapshotBytes replyRows ipcStatus ipcSnapshot)

def Reply.wire (reply : Reply) : Bytes :=
  if reply.type = ipcStatus then headerBytes reply.held reply.sent
  else snapshotBytes reply.held reply.sent (replyRows reply.held reply.pid)

-- What one entry of /proc adds to the scan, whatever is published on the way.
def visit (scan : Scan) (entry : Dirent × Turn) : Scan :=
  if isPidDir entry.1 = true then
    match growRows scan entry.2.grown with
    | none => scan
    | some grown => ((scanRow grown.snap (atoi entry.1.name) entry.2.reads).map ({ grown with snap := · })).getD grown
  else scan

def visited (turns : List (Dirent × Turn)) : Scan := turns.foldl visit ⟨{ strtab := strtabInit 65536 }, 512, false⟩

def built (world : Option SteamWorld) (turns : List (Dirent × Turn)) : ProcSnapshot :=
  match world with
  | none => {}
  | some world => enrich world (visited turns).snap

-- The snapshot is the scan of every entry, with the Steam records and the rates of this iteration.
structure Finished (source : Source) (snap : ProcSnapshot) : Prop where
  whole : snap = (fillRates source.statics source.sample (built source.world source.turns)).2
  steam : ∀ world, source.world = some world → world.available → world.tableGranted →
    Filled world (visited source.turns).snap snap

structure Ordered (earlier later : Reply) : Prop where
  generation : earlier.held.generation ≤ later.held.generation
  same : earlier.held.generation = later.held.generation → earlier.held.generation ≠ 0 →
    (∀ pid, replyRows earlier.held pid = replyRows later.held pid) ∧
      earlier.held.snapshotComplete = later.held.snapshotComplete ∧ earlier.held.system = later.held.system
  final : earlier.held.snapshotComplete = 1 → later.origin = .final ∧
    ∃ source, later.source = some source ∧ Finished source later.held.snapshot

def generationMax : UInt64 := 18446744073709551615

def replacesComplete (m : Monitor) (steam copied : Bool) : Bool :=
  match m.stage with
  | .scanned snap =>
    steam && copied && !snap.entries.isEmpty && m.shared.snapshot.entries.isEmpty &&
      decide (m.shared.snapshotComplete ≠ 0)
  | _ => false

def guarded (m : Monitor) : Action → Bool
  | .entry _ _ => decide (m.shared.generation ≠ generationMax)
  | .closed steam copied _ => decide (m.shared.generation ≠ generationMax) && !replacesComplete m steam copied
  | .publish _ _ _ => decide (m.shared.generation ≠ generationMax)
  | _ => true

structure Behind (reply : Reply) (m : Monitor) : Prop where
  generation : reply.held.generation ≤ m.shared.generation
  same : reply.held.generation = m.shared.generation → reply.held.generation ≠ 0 →
    reply.held.snapshot = m.shared.snapshot ∧ reply.held.snapshotComplete = m.shared.snapshotComplete ∧
      reply.held.system = m.shared.system
  evemonInstance : reply.held.evemonInstance = m.shared.evemonInstance
  complete : reply.held.snapshotComplete = 1 → m.shared.snapshotComplete = 1

structure Published (m : Monitor) : Prop where
  behind : ∀ reply ∈ m.log, Behind reply m
  numbered : m.shared.snapshotComplete ≠ 0 → m.shared.generation ≠ 0
  final : m.shared.snapshotComplete ≠ 0 → m.origin = .final ∧
    ∃ source, m.source = some source ∧ Finished source m.shared.snapshot
  ordered : m.log.Pairwise Ordered
  wire : ∀ reply ∈ m.log, reply.bytes = reply.wire

def AtStage (m : Monitor) : Stage → Prop
  | .starting => m.shared.generation = 0
  | .opening partialPublished => partialPublished = false → m.shared.snapshotComplete = 0
  | .scanning scan => (scan.partialPublished = false → m.shared.snapshotComplete = 0) ∧
      scan = { visited m.turns with partialPublished := scan.partialPublished }
  | .scanned snap | .enriching snap => snap = (visited m.turns).snap
  | .built snap => snap = built m.world m.turns
  | _ => True

structure Inv (m : Monitor) : Prop where
  published : Published m
  atStage : AtStage m m.stage

theorem starts_inv (m : Monitor) (starts : Starts m) : Inv m := by
  obtain ⟨snapshot, complete, generation, sampledAt, origin, statics, stage, log⟩ := starts
  refine ⟨⟨?_, fun set => absurd complete set, fun set => absurd complete set, ?_, ?_⟩, ?_⟩
  · rw [log]
    exact fun reply mem => absurd mem not_mem_nil
  · rw [log]
    exact List.Pairwise.nil
  · rw [log]
    exact fun reply mem => absurd mem not_mem_nil
  · rw [stage]
    exact generation

variable {next : Monitor}

theorem published_unchanged {m} (published : Published m) (shared : next.shared = m.shared)
    (origin : next.origin = m.origin) (source : next.source = m.source) (log : next.log = m.log) : Published next := by
  obtain ⟨behind, numbered, final, ordered, wire⟩ := published
  refine ⟨?_, shared ▸ numbered, ?_, log ▸ ordered, log ▸ wire⟩
  · intro reply mem
    rw [log] at mem
    obtain ⟨generation, same, evemonInstance, complete⟩ := behind reply mem
    exact ⟨shared ▸ generation, shared ▸ same, shared ▸ evemonInstance, shared ▸ complete⟩
  · rw [shared, origin, source]
    exact final

theorem generation_grows {generation : UInt64} (room : generation ≠ generationMax) :
    generation.toNat + 1 = (generation + 1).toNat := by
  have below := generation.toNat_lt
  have away : generation.toNat ≠ 18446744073709551615 := fun same => room (UInt64.toNat_inj.mp same)
  rw [UInt64.toNat_add]
  simp only [UInt64.reduceToNat]
  omega

theorem published_newer {m} (published : Published m) (room : m.shared.generation ≠ generationMax)
    (counted : next.shared.generation = m.shared.generation + 1) (log : next.log = m.log)
    (evemonInstance : next.shared.evemonInstance = m.shared.evemonInstance)
    (complete : m.shared.snapshotComplete = 1 → next.shared.snapshotComplete = 1)
    (final : next.shared.snapshotComplete ≠ 0 → next.origin = .final ∧
    ∃ source, next.source = some source ∧ Finished source next.shared.snapshot) : Published next := by
  have grows := generation_grows room
  refine ⟨?_, ?_, final, log ▸ published.ordered, log ▸ published.wire⟩
  · intro reply mem
    rw [log] at mem
    have behind := published.behind reply mem
    have older := UInt64.le_iff_toNat_le.mp behind.generation
    refine ⟨?_, fun same => ?_, behind.evemonInstance.trans evemonInstance.symm, fun set => complete (behind.complete set)⟩
    · rw [counted, UInt64.le_iff_toNat_le]
      omega
    · rw [counted] at same
      rw [same] at older
      omega
  · intro _ zero
    rw [counted] at zero
    rw [zero] at grows
    simp at grows

variable {snap : ProcSnapshot} {now : Timespec}

theorem replace_published {m} {origin} (published : Published m)
    (room : m.shared.generation ≠ generationMax) (early : m.shared.snapshotComplete = 0) :
    Published (replaceSnapshot m origin snap now) :=
  published_newer published room rfl rfl rfl id fun set => absurd early set

theorem publish_copy_published {m} (origin : Origin) (copy : Option ProcSnapshot) (now : Timespec)
    (published : Published m) (room : m.shared.generation ≠ generationMax)
    (early : copy.isSome → m.shared.snapshotComplete = 0) : Published (publishCopy m origin copy now) := by
  cases copy with
  | none => exact published
  | some snap => exact replace_published published room (early rfl)

section

variable (m : Monitor) {scan : Scan} {turn : Turn}

theorem grow_rows_partial (scan : Scan) (granted partialPublished : Bool) :
    growRows { scan with partialPublished } granted = (growRows scan granted).map ({ · with partialPublished }) := by
  unfold growRows
  split
  · split <;> rfl
  · rfl

theorem visit_partial (scan : Scan) (entry : Dirent × Turn) (partialPublished : Bool) :
    visit { scan with partialPublished } entry = { visit scan entry with partialPublished } := by
  unfold visit
  split
  · rw [ grow_rows_partial]
    cases growRows scan entry.2.grown with
    | none => rfl
    | some grown =>
      dsimp only [Option.map_some]
      cases scanRow grown.snap (atoi entry.1.name) entry.2.reads <;> rfl
  · rfl

theorem visited_next {turns} (entry : Dirent × Turn)
    (soFar : scan = { visited turns with partialPublished := scan.partialPublished }) (partialPublished : Bool) :
    { visit scan entry with partialPublished } = { visited (turns ++ [entry]) with partialPublished } := by
  have last : visited (turns ++ [entry]) = visit (visited turns) entry := foldl_append
  rw [soFar, visit_partial, last]

theorem grow_rows_same {grown} {granted} (made : growRows scan granted = some grown) :
    grown.snap = scan.snap ∧ grown.partialPublished = scan.partialPublished := by
  unfold growRows at made
  split at made
  · split at made
    · cases made
    · rw [← Option.some.inj made]
      exact ⟨rfl, rfl⟩
  · rw [← Option.some.inj made]
    exact ⟨rfl, rfl⟩

theorem publish_preselected_inv {turns} (published : Published m) (room : m.shared.generation ≠ generationMax)
    (pending : scan.partialPublished = false → m.shared.snapshotComplete = 0)
    (soFar : ∀ partialPublished, { scan with partialPublished } = { visited turns with partialPublished }) :
    Inv { publishPreselected m scan turn with turns } := by
  unfold publishPreselected
  split
  · rename_i wanted
    have unpublished : scan.partialPublished = false := by
      simp only [wantsPreselected, Bool.and_eq_true, Bool.not_eq_true'] at wanted
      exact wanted.1.1.1.2
    have copied := publish_copy_published .preselected (snapshotCopyPreSteam scan.snap turn.copied) turn.now published
      room fun _ => pending unpublished
    exact ⟨published_unchanged copied rfl rfl rfl rfl, And.intro (fun impossible => by cases impossible) (soFar true)⟩
  · exact ⟨published_unchanged published rfl rfl rfl rfl, And.intro pending (soFar scan.partialPublished)⟩

theorem scan_entry_inv {dirent} (inv : Inv m) (stage : m.stage = .scanning scan)
    (room : m.shared.generation ≠ generationMax) :
    Inv { scanEntry m scan dirent turn with turns := m.turns ++ [(dirent, turn)] } := by
  have atStage := inv.atStage
  rw [stage] at atStage
  obtain ⟨pending, soFar⟩ := atStage
  have visits := visited_next (dirent, turn) soFar
  unfold visit at visits
  unfold scanEntry
  split
  · rename_i process
    rw [if_pos process] at visits
    cases made : growRows scan turn.grown with
    | none =>
      rw [made] at visits
      have rows := congrArg Scan.snap (visits false)
      exact ⟨published_unchanged inv.published rfl rfl rfl rfl, rows⟩
    | some grown =>
      rw [made] at visits
      rw [← (grow_rows_same made).2] at pending
      dsimp only at visits ⊢
      cases row : scanRow grown.snap (atoi dirent.name) turn.reads with
      | none =>
        rw [row] at visits
        exact ⟨published_unchanged inv.published rfl rfl rfl rfl, And.intro pending (visits grown.partialPublished)⟩
      | some snap =>
        rw [row] at visits
        exact publish_preselected_inv m inv.published room pending visits
  · rename_i other
    rw [if_neg other] at visits
    refine ⟨published_unchanged inv.published rfl rfl rfl rfl, ?_⟩
    rw [stage]
    exact ⟨pending, visits scan.partialPublished⟩

theorem publish_pre_steam_published {steam copied} (now : Timespec) (published : Published m)
    (stage : m.stage = .scanned snap) (room : m.shared.generation ≠ generationMax)
    (kept : replacesComplete m steam copied = false) : Published (publishPreSteam m snap steam copied now) := by
  unfold publishPreSteam
  split
  · rename_i first
    refine publish_copy_published .preSteam _ now published room fun made => ?_
    simp only [snapshotCopyPreSteam] at made
    split at made
    · cases made
    · rename_i copyable
      simp only [not_or, Bool.not_eq_false] at copyable
      simpa [replacesComplete, stage, first.1, first.2, copyable.1, copyable.2] using kept
  · exact published

theorem publish_pre_steam_turns (steam copied : Bool) (now : Timespec) :
    (publishPreSteam m snap steam copied now).turns = m.turns := by
  unfold publishPreSteam publishCopy
  split
  · split <;> rfl
  · rfl

theorem scan_row_fresh {next} {pid} {reads}
    (fresh : ∀ row ∈ snap.entries, row.extraIdx = uint32Max) (made : scanRow snap pid reads = some next) :
    ∀ row ∈ next.entries, row.extraIdx = uint32Max := by
  obtain ⟨new, shape, entries⟩ := scan_row_cases made
  rw [entries]
  exact forall_mem_append.mpr ⟨fresh, forall_mem_singleton.mpr shape.extraIdx⟩

theorem visit_fresh (entry : Dirent × Turn) (fresh : ∀ row ∈ scan.snap.entries, row.extraIdx = uint32Max) :
    ∀ row ∈ (visit scan entry).snap.entries, row.extraIdx = uint32Max := by
  unfold visit
  split
  · split
    · exact fresh
    · rename_i grown made
      rw [← (grow_rows_same made).1] at fresh
      cases row : scanRow grown.snap (atoi entry.1.name) entry.2.reads with
      | none => exact fresh
      | some next => exact scan_row_fresh fresh row
  · exact fresh

theorem visited_fresh (turns : List (Dirent × Turn)) : ∀ row ∈ (visited turns).snap.entries, row.extraIdx = uint32Max := by
  induction turns using reverseRecOn with
  | nil => exact fun row mem => absurd mem not_mem_nil
  | append_singleton turns entry ih =>
    rw [visited, foldl_append]
    exact visit_fresh entry ih

theorem built_finished (source : Source) :
    Finished source (fillRates source.statics source.sample (built source.world source.turns)).2 := by
  refine ⟨rfl, fun world known available granted index row there => ?_⟩
  have filled := enrich_fills _ (visited_fresh source.turns) available granted index row there
  rw [known]
  exact filled.imp_left (fill_rates_recorded _ _)

theorem publish_final_inv {sample} {system} (published : Published m)
    (whole : snap = built m.world m.turns) (room : m.shared.generation ≠ generationMax) :
    Inv { publishFinal m snap sample system now with source := some ⟨m.turns, m.world, m.statics, sample⟩ } := by
  refine ⟨published_newer published room rfl rfl rfl (fun _ => rfl) fun _ => ⟨rfl, _, rfl, ?_⟩, trivial⟩
  rw [whole]
  exact built_finished ⟨m.turns, m.world, m.statics, sample⟩

theorem reply_after (published : Published m) {fresh : Reply} (held : fresh.held = m.shared)
    (origin : fresh.origin = m.origin) (source : fresh.source = m.source) {reply : Reply} (mem : reply ∈ m.log) :
    Ordered reply fresh := by
  have behind := published.behind reply mem
  refine ⟨held ▸ behind.generation, fun same some => ?_, fun ready => ?_⟩
  · rw [held] at same ⊢
    obtain ⟨snapshot, complete, system⟩ := behind.same same some
    exact ⟨fun pid => by rw [replyRows, replyRows, snapshot, behind.evemonInstance], complete, system⟩
  · rw [held, origin, source]
    exact published.final (by rw [behind.complete ready]; decide)

theorem answer_published (type : UInt16) (pid : Int32) (sent : Timespec) (heap : Heap)
    (published : Published m) : Published (answer m type pid sent heap) := by
  unfold answer
  dsimp only
  split
  · exact published
  · rename_i accepted
    refine ⟨?_, published.numbered, published.final, ?_, ?_⟩
    · intro reply mem
      rcases mem_append.mp mem with old | _ | ⟨_, ⟨⟩⟩
      · obtain ⟨generation, same, evemonInstance, complete⟩ := published.behind reply old
        exact ⟨generation, same, evemonInstance, complete⟩
      · exact ⟨UInt64.le_refl _, fun _ _ => ⟨rfl, rfl, rfl⟩, rfl, id⟩
    · refine pairwise_append.mpr ⟨published.ordered, pairwise_singleton _ _, fun reply old fresh new => ?_⟩
      cases mem_singleton.mp new
      exact reply_after m published rfl rfl rfl old
    · intro reply mem
      rcases mem_append.mp mem with old | _ | ⟨_, ⟨⟩⟩
      · exact published.wire reply old
      · unfold Reply.wire
        by_cases status : type = ipcStatus
        · subst status
          rw [if_pos rfl]
          exact Ipc.encoded_status_bytes pid sent accepted
        · rw [if_neg status]
          exact (Ipc.encoded_reply_bytes pid sent status accepted).1

theorem step_inv (action : Action) (inv : Inv m) (guard : guarded m action) : Inv (step m action) := by
  have published := inv.published
  have atStage := inv.atStage
  unfold step
  split
  · rename_i system stage
    rw [stage] at atStage
    have zero : m.shared.generation = 0 := atStage
    refine ⟨⟨fun reply mem => ?_, published.numbered, published.final, published.ordered, published.wire⟩, trivial⟩
    obtain ⟨generation, same, evemonInstance, complete⟩ := published.behind reply mem
    exact ⟨generation, fun equal some => absurd (equal.trans zero) some, evemonInstance, complete⟩
  · refine ⟨published_unchanged published rfl rfl rfl rfl, fun unpublished => ?_⟩
    by_contra set
    have none := of_decide_eq_false unpublished
    exact none (published.numbered set)
  · rename_i granted partialPublished stage
    rw [stage] at atStage
    split
    · exact ⟨published_unchanged published rfl rfl rfl rfl, And.intro atStage rfl⟩
    · exact ⟨published_unchanged published rfl rfl rfl rfl, rfl⟩
  · rename_i dirent turn scan stage
    exact scan_entry_inv m inv stage (of_decide_eq_true guard)
  · rename_i scan stage
    rw [stage] at atStage
    have rows := congrArg Scan.snap atStage.2
    exact ⟨published_unchanged published rfl rfl rfl rfl, rows⟩
  · rename_i steam copied now snap stage
    rw [stage] at atStage
    simp only [guarded, Bool.and_eq_true, decide_eq_true_eq, Bool.not_eq_true'] at guard
    have early := publish_pre_steam_published m now published stage guard.1 guard.2
    refine ⟨published_unchanged early rfl rfl rfl rfl, ?_⟩
    rwa [AtStage, publish_pre_steam_turns]
  · rename_i world snap stage
    rw [stage] at atStage
    exact ⟨published_unchanged published rfl rfl rfl rfl, congrArg (enrich world) atStage⟩
  · rename_i sample system now snap stage
    rw [stage] at atStage
    exact publish_final_inv m published atStage (of_decide_eq_true guard)
  · rename_i type pid sent heap
    refine ⟨answer_published m type pid sent heap published, ?_⟩
    unfold answer
    dsimp only
    split <;> exact atStage
  · exact inv

end

theorem publication_order (m : Monitor)
    (reached : Runs.Reachable Starts (fun state action => guarded state action = true) step m) :
    m.log.Pairwise Ordered ∧ ∀ reply ∈ m.log, reply.bytes = reply.wire := by
  have inv := Runs.invariant Inv starts_inv (fun state action held guard => step_inv state action held guard) m reached
  exact ⟨inv.published.ordered, inv.published.wire⟩

def freshMonitor : Monitor where
  shared := { monitorStateInit with intervalMs := 1000, evemonInstance := 7 }
  origin := .initial
  statics := staticsInit
  stage := .starting
  log := []

theorem fresh_monitor_starts : Starts freshMonitor := ⟨rfl, rfl, rfl, rfl, rfl, rfl, rfl, rfl⟩

def quietClock : Timespec := .seconds 5

def bareReads (ppidStatus : Option CText.Text) : Reads := { ppidStatus, comm := some [97, 10] }

def initTurn (preselect : Int32) : Turn where
  reads := bareReads (some [80, 80, 105, 100, 58, 9, 48, 10])
  grown := true
  preselect := preselect
  copied := true
  now := quietClock

def initDirent : Dirent := ⟨true, [49]⟩

def plainSample : Sample := ⟨quietClock, 1, 100, none⟩

def steamless : SteamWorld := ⟨true, true, fun _ _ _ _ _ => none, fun _ _ => true⟩

def wholeScan (steam : Bool) : List Action :=
  [.begin, .opened true, .entry initDirent (initTurn 0), .exhausted, .closed steam true quietClock, .enriched steamless,
    .publish plainSample monitorStateInit.system quietClock]

def askRows : Action := .request ipcSnapshot 0 quietClock Ipc.allGranted

def steamRun : List Action :=
  [.start monitorStateInit.system] ++ (wholeScan true).take 5 ++ [askRows] ++ (wholeScan true).drop 5 ++ [askRows]

theorem publication_order_steam_run : (steamRun.foldl step freshMonitor).log.length = 2 ∧
    (steamRun.foldl step freshMonitor).log.Pairwise Ordered ∧
    ∀ reply ∈ (steamRun.foldl step freshMonitor).log, reply.bytes = reply.wire :=
  ⟨by decide +kernel, publication_order _ (Runs.reachable_follows guarded (fun _ _ passed => passed) steamRun freshMonitor
    (.start _ fresh_monitor_starts) (by decide +kernel))⟩

def failedRun : List Action :=
  [.start monitorStateInit.system, .begin, .opened false, .publish plainSample monitorStateInit.system quietClock,
    askRows] ++ (wholeScan true).take 5 ++ [askRows]

theorem empty_scan_reopens_early_publication :
    Runs.Reachable Starts (fun _ _ => True) step (failedRun.foldl step freshMonitor) ∧
    (failedRun.foldl step freshMonitor).log.map (fun reply => (reply.held.generation, reply.held.snapshotComplete,
    reply.origin, (replyRows reply.held reply.pid).map fun row => (row.pid, row.ioHistoryCount))) =
    [(1, 1, .final, []), (2, 1, .preSteam, [(1, 0)])] :=
  ⟨Runs.reachable_follows (fun _ _ => true) (fun _ _ _ => trivial) failedRun freshMonitor
    (.start _ fresh_monitor_starts) (by decide +kernel), by decide +kernel⟩

end Evemon.Monitor
