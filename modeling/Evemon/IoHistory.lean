import Evemon.Lib.ProbeMap
import Evemon.Lib.Runs
import Evemon.MonitorRates

namespace Evemon.Monitor

open List Function ProbeTable

open ProbeTable (Table Represents Held advance find locate store)

def recent (count : Nat) {α : Type} (items : List α) : List α := items.drop (items.length - count)

theorem recent_short {α : Type} {count : Nat} {items : List α} (few : items.length ≤ count) : recent count items =
    items := by
  rw [recent, Nat.sub_eq_zero_of_le few, drop_zero]

theorem recent_recent {α : Type} (count : Nat) (items : List α) (last : α) :
    recent count (recent count items ++ [last]) = recent count (items ++ [last]) := by
  by_cases few : items.length ≤ count
  · rw [recent_short few]
  · have split : recent count (items ++ [last]) = (recent count items ++ [last]).drop 1 := by
      simp only [recent, length_append, length_singleton]
      rw [← drop_append_of_le_length (by omega), drop_drop]
      congr 1
      omega
    rw [split, recent]
    congr 1
    simp only [recent, length_append, length_singleton, length_drop]
    omega

def IoHist.valid (hist : IoHist) : List Float32 := hist.samples.toList.take hist.count

variable (hist : IoHist)

theorem valid_length : hist.valid.length = hist.count := by
  rw [IoHist.valid, length_take, List.Vector.toList_length]
  exact Nat.min_eq_left hist.bounded

theorem push_valid (value : Float32) : (ioHistPush hist value).valid = recent ioHistoryLen (hist.valid ++ [value]) := by
  have length := hist.samples.toList_length
  by_cases full : ioHistoryLen ≤ hist.count
  · have count : hist.count = ioHistoryLen := le_antisymm hist.bounded full
    have whole : hist.valid = hist.samples.toList := take_of_length_le (by omega)
    have pushed : (ioHistPush hist value).valid = hist.samples.toList.tail ++ [value] := by
      rw [ioHistPush, dif_pos full]
      apply take_of_length_le
      rw [List.Vector.toList_mk, length_append, length_tail, length, count]
      exact le_refl ioHistoryLen
    rw [pushed, whole, recent, length_append, length_singleton, length,
      show ioHistoryLen + 1 - ioHistoryLen = 1 from rfl, drop_append_of_le_length (by rw [length]; decide), drop_one]
  · have inside : hist.count < hist.samples.toList.length := by omega
    have kept : (hist.samples.toList.take hist.count).length = hist.count := length_take_of_le inside.le
    have pushed : (ioHistPush hist value).valid = hist.valid ++ [value] := by
      rw [ioHistPush, dif_neg full]
      simp only [IoHist.valid, List.Vector.toList_mk]
      rw [set_eq_take_append_cons_drop, if_pos inside, take_append, kept, take_of_length_le (by omega)]
      simp
    rw [pushed, recent_short]
    rw [length_append, valid_length, length_singleton]
    omega

def rate (row : ProcEntry) : Float32 := row.ioReadRate + row.ioWriteRate

def recordRow (map : Int32 → Option IoHist) (row : ProcEntry) : Int32 → Option IoHist :=
  update map row.pid (some (ioHistPush ((map row.pid).getD .fresh) (rate row)))

def recorded (map : Int32 → Option IoHist) (rows : List ProcEntry) : Int32 → Option IoHist := rows.foldl recordRow map

def withHistory (row : ProcEntry) (hist : IoHist) : ProcEntry :=
  { row with ioHistoryCount := UInt8.ofNat hist.count, ioHistory := copySamples hist row.ioHistory }

theorem recorded_other {map : Int32 → Option IoHist} {rows : List ProcEntry} {pid : Int32}
    (absent : pid ∉ rows.map ProcEntry.pid) : recorded map rows pid = map pid := by
  induction rows generalizing map with
  | nil => rfl
  | cons row rest ih =>
    rw [map_cons, mem_cons, not_or] at absent
    rw [recorded, foldl_cons, ← recorded, ih absent.2, recordRow, update_of_ne absent.1]

theorem recorded_row {map : Int32 → Option IoHist} (rows : List ProcEntry) (distinct : (rows.map ProcEntry.pid).Nodup)
    (row : ProcEntry) (mem : row ∈ rows) :
    recorded map rows row.pid = some (ioHistPush ((map row.pid).getD .fresh) (rate row)) := by
  induction rows generalizing map with
  | nil => cases mem
  | cons head rest ih =>
    rw [map_cons, nodup_cons] at distinct
    rw [recorded, foldl_cons, ← recorded]
    rcases mem_cons.mp mem with rfl | later
    · rw [recorded_other distinct.1, recordRow, update_self]
    · have different : row.pid ≠ head.pid := fun same => distinct.1 (same ▸ mem_map_of_mem later)
      rw [ih distinct.2 later, recordRow, update_of_ne different]

variable (table : Table cpuHtSize Int32 IoHist)

theorem history_row_spec (map : Int32 → Option IoHist) (row : ProcEntry) (represents : Represents home table map)
    (keys : Finset Int32) (within : ∀ pid, (map pid).isSome → pid ∈ keys) (room : (insert row.pid keys).card ≤ cpuHtSize) :
    Represents home (historyRow table row).1 (recordRow map row) ∧
    (historyRow table row).2 = withHistory row (ioHistPush ((map row.pid).getD .fresh) (rate row)) := by
  obtain ⟨slot, located⟩ := represents_room home represents within room
  have entry := located_entry home represents located
  have hist : ((table slot).map Prod.snd).getD .fresh = (map row.pid).getD .fresh := by
    rw [entry, Option.map_map]
    cases map row.pid <;> rfl
  rw [historyRow, located]
  simp only [hist]
  exact ⟨represents_update home represents located _, rfl⟩

theorem history_rows_spec {map : Int32 → Option IoHist} {rows : List ProcEntry} (represents : Represents home table map)
    (distinct : (rows.map ProcEntry.pid).Nodup) (keys : Finset Int32) (within : ∀ pid, (map pid).isSome → pid ∈ keys)
    (listed : ∀ row ∈ rows, row.pid ∈ keys) (room : keys.card ≤ cpuHtSize) :
    Represents home (historyRows table rows).1 (recorded map rows) ∧ (historyRows table rows).2 =
    rows.map fun row => withHistory row (ioHistPush ((map row.pid).getD .fresh) (rate row)) := by
  induction rows generalizing table map with
  | nil => exact ⟨represents, rfl⟩
  | cons row rest ih =>
    rw [map_cons, nodup_cons] at distinct
    have known := listed row mem_cons_self
    obtain ⟨first, filled⟩ := history_row_spec table map row represents keys within
      (by rw [Finset.insert_eq_of_mem known]; exact room)
    have still (pid : Int32) (some : (recordRow map row pid).isSome) : pid ∈ keys := by
      by_cases same : pid = row.pid
      · rw [same]
        exact known
      · rw [recordRow, update_of_ne same] at some
        exact within pid some
    obtain ⟨others, more⟩ := ih (historyRow table row).1 first distinct.2 still
      (fun other mem => listed other (mem_cons_of_mem _ mem))
    refine ⟨others, ?_⟩
    change (historyRow table row).2 :: (historyRows (historyRow table row).1 rest).2 = _
    rw [filled, more, map_cons]
    congr 1
    refine map_congr_left fun other mem => ?_
    have different : other.pid ≠ row.pid := fun same => distinct.1 (same ▸ mem_map_of_mem mem)
    rw [recordRow, update_of_ne different]

section

-- The monitor thread from scan to scan. `published` holds the snapshots it has published,
-- the latest first.
structure ScanState where
  published : List ProcSnapshot
  statics : Statics

def scanStep (state : ScanState) (scan : Sample × ProcSnapshot) : ScanState :=
  let filled := fillRates state.statics scan.1 scan.2
  ⟨filled.2 :: state.published, filled.1⟩

structure Scanned (snap : ProcSnapshot) : Prop where
  distinct : (snap.entries.map ProcEntry.pid).Nodup
  positive : ∀ row ∈ snap.entries, row.pid ≠ 0
  few : snap.entries.length < cpuHtSize

def rateIn (pid : Int32) (snap : ProcSnapshot) : Option Float32 :=
  (snap.entries.find? fun row => decide (row.pid = pid)).map rate

-- The rates of a process in the scans it was present in without a break up to the latest.
def streak (pid : Int32) : List ProcSnapshot → List Float32
  | [] => []
  | snap :: older =>
    match rateIn pid snap with
    | none => []
    | some value => streak pid older ++ [value]

def HistoryExact (published : List ProcSnapshot) : Prop :=
  ∀ latest ∈ published.head?, ∀ row ∈ latest.entries,
    row.ioHistoryCount.toNat = min (streak row.pid published).length ioHistoryLen ∧
      row.ioHistory.toList.take row.ioHistoryCount.toNat = recent ioHistoryLen (streak row.pid published)

structure Undisturbed (history : Table cpuHtSize Int32 IoHist) (rows : List ProcEntry) : Prop where
  ticking : ∀ row ∈ rows, ∀ hist, Held history row.pid hist → row.cpuTicks ≠ 0
  gapless : ∀ row ∈ rows, ∀ steps hist, history (advance (home row.pid) steps) = some (row.pid, hist) →
    ∀ earlier, earlier < steps → ∀ pid other, history (advance (home row.pid) earlier) = some (pid, other) →
      pid ∈ rows.map ProcEntry.pid

structure Quiet (state : ScanState) (scan : Sample × ProcSnapshot) : Prop where
  scanned : Scanned scan.2
  undisturbed : Undisturbed state.statics.ioHistory scan.2.entries

def ScanStarts (state : ScanState) : Prop := state = ⟨[], staticsInit⟩

structure Tracked (state : ScanState) (map : Int32 → Option IoHist) : Prop where
  represents : Represents home state.statics.ioHistory map
  nonzero : map 0 = none
  samples : ∀ pid, ((map pid).map IoHist.valid).getD [] = recent ioHistoryLen (streak pid state.published)

section

variable (statics : Statics) (sample : Sample) {rows : List ProcEntry}

theorem rate_rows_map : ∃ rated : ProcEntry → ProcEntry,
    rateRows statics sample.now sample.numCpus sample.clkTck rows = rows.map rated ∧
    ∀ row, (rated row).pid = row.pid ∧ (rated row).cpuTicks = row.cpuTicks := by
  unfold rateRows
  dsimp only
  split
  · exact ⟨_, rfl, fun row => ⟨rfl, rfl⟩⟩
  · exact ⟨id, (map_id rows).symm, fun row => ⟨rfl, rfl⟩⟩

theorem undisturbed_rated {history} {rated : ProcEntry → ProcEntry}
    (same : ∀ row, (rated row).pid = row.pid ∧ (rated row).cpuTicks = row.cpuTicks)
    (undisturbed : Undisturbed history rows) : Undisturbed history (rows.map rated) := by
  have pids : (rows.map rated).map ProcEntry.pid = rows.map ProcEntry.pid := by
    rw [map_map]
    exact map_congr_left fun row _ => (same row).1
  refine ⟨fun row mem => ?_, fun row mem => ?_⟩
  · obtain ⟨source, listed, rfl⟩ := mem_map.mp mem
    rw [(same source).1, (same source).2]
    exact undisturbed.ticking source listed
  · obtain ⟨source, listed, rfl⟩ := mem_map.mp mem
    rw [(same source).1, pids]
    exact undisturbed.gapless source listed

end

theorem collect_stale_represents {history} (map : Int32 → Option IoHist)
    (rows : List ProcEntry) (represents : Represents home history map) (nonzero : map 0 = none)
    (distinct : (rows.map ProcEntry.pid).Nodup) (few : rows.length < cpuHtSize) (undisturbed : Undisturbed history rows) :
    Represents home (collectStale (latchTicks rows) history)
    fun pid => if pid ∈ rows.map ProcEntry.pid then map pid else none := by
  have ticks : Represents home (latchTicks rows) (ProbeTable.latched ProcEntry.pid ProcEntry.cpuTicks rows) := by
    refine latch_represents home ProcEntry.pid ProcEntry.cpuTicks rows ?_
    rw [toFinset_card_of_nodup distinct, length_map]
    exact few.le
  -- For a PID that has a history, being kept and being listed are the same.
  have kept (pid : Int32) (held : (map pid).isSome) :
      (decide (cpuHtGet (latchTicks rows) pid ≠ 0) || decide (pid = 0)) ↔ pid ∈ rows.map ProcEntry.pid := by
    have positive : pid ≠ 0 := by
      rintro rfl
      rw [nonzero] at held
      cases held
    rw [cpuHtGet, represents_find home ticks]
    simp only [positive, decide_false, Bool.or_false, decide_eq_true_eq]
    constructor
    · intro some
      by_contra absent
      have none : ProbeTable.latched ProcEntry.pid ProcEntry.cpuTicks rows pid = none := by
        by_contra known
        exact absent (latched_known _ _ _ (Option.isSome_iff_ne_none.mpr known))
      rw [none] at some
      exact some rfl
    · intro listed
      obtain ⟨row, mem, rfl⟩ := mem_map.mp listed
      obtain ⟨hist, mapped⟩ := Option.isSome_iff_exists.mp held
      rw [latched_row _ _ rows distinct row mem]
      exact undisturbed.ticking row mem hist ((represents.held row.pid hist).mpr mapped)
  have retained := represents_retain home
    (fun pid => decide (cpuHtGet (latchTicks rows) pid ≠ 0) || decide (pid = 0)) map represents ?_
  · refine ⟨retained.chained, retained.unique, fun pid hist => ?_⟩
    rw [collectStale, retained.held]
    cases mapped : map pid with
    | none => simp
    | some other => rw [if_congr (kept pid (by rw [mapped]; rfl)) rfl rfl]
  · intro steps pid hist keep present earlier below other more there
    have mapped := represents_slot home represents _ pid hist present
    obtain ⟨row, mem, rfl⟩ := mem_map.mp ((kept pid (by rw [mapped]; rfl)).mp keep)
    have passed := represents_slot home represents _ other more there
    exact (kept other (by rw [passed]; rfl)).mpr
      (undisturbed.gapless row mem steps hist present earlier below other more there)

theorem rate_in_row (snap : ProcSnapshot) (distinct : (snap.entries.map ProcEntry.pid).Nodup) {row : ProcEntry}
    (mem : row ∈ snap.entries) : rateIn row.pid snap = some (rate row) := by
  unfold rateIn
  cases found : snap.entries.find? fun other => decide (other.pid = row.pid) with
  | none => simpa using List.find?_eq_none.mp found row mem
  | some other =>
    have same : other.pid = row.pid := by simpa using List.find?_some found
    rw [inj_on_of_nodup_map distinct (mem_of_find?_eq_some found) mem same]
    rfl

variable {pid : Int32}

theorem rate_in_none {snap : ProcSnapshot} (absent : pid ∉ snap.entries.map ProcEntry.pid) : rateIn pid snap = none := by
  rw [rateIn, Option.map_eq_none_iff, List.find?_eq_none]
  intro row mem same
  exact absent (mem_map.mpr ⟨row, mem, of_decide_eq_true same⟩)

variable {state : ScanState} {scan : Sample × ProcSnapshot} {map : Int32 → Option IoHist}

theorem fill_rates_spec (kept : Tracked state map) (quiet : Quiet state scan) :
    ∃ rows : List ProcEntry, rows.map ProcEntry.pid = scan.2.entries.map ProcEntry.pid ∧
      Represents home (fillRates state.statics scan.1 scan.2).1.ioHistory
        (recorded (fun pid => if pid ∈ rows.map ProcEntry.pid then map pid else none) rows) ∧
      (fillRates state.statics scan.1 scan.2).2.entries = rows.map fun row =>
        netRow scan.1.net (withHistory row (ioHistPush ((map row.pid).getD .fresh) (rate row))) := by
  obtain ⟨sample, snap⟩ := scan
  obtain ⟨rated, mapped, same⟩ := @rate_rows_map state.statics sample snap.entries
  have pids : (snap.entries.map rated).map ProcEntry.pid = snap.entries.map ProcEntry.pid := by
    rw [map_map]
    exact map_congr_left fun row _ => (same row).1
  have distinct : ((snap.entries.map rated).map ProcEntry.pid).Nodup := by
    rw [pids]
    exact quiet.scanned.distinct
  have few : (snap.entries.map rated).length < cpuHtSize := by
    rw [length_map]
    exact quiet.scanned.few
  have collected := collect_stale_represents map (snap.entries.map rated) kept.represents
    kept.nonzero distinct few (undisturbed_rated same quiet.undisturbed)
  obtain ⟨recording, filled⟩ := history_rows_spec _ collected distinct
    ((snap.entries.map rated).map ProcEntry.pid).toFinset
    (fun pid held => by
      split at held
      · exact mem_toFinset.mpr (by assumption)
      · cases held)
    (fun row mem => mem_toFinset.mpr (mem_map_of_mem mem))
    (by rw [toFinset_card_of_nodup distinct, length_map]; exact few.le)
  refine ⟨snap.entries.map rated, pids, ?_, ?_⟩
  · simp only [fillRates, mapped]
    exact recording
  · simp only [fillRates, mapped]
    rw [filled, map_map]
    refine map_congr_left fun row mem => ?_
    rw [Function.comp_apply, if_pos (mem_map_of_mem mem)]

theorem net_row_fields (net : Option (Int32 → UInt64 × UInt64)) (row : ProcEntry) :
    (netRow net row).pid = row.pid ∧ rate (netRow net row) = rate row ∧
    (netRow net row).ioHistoryCount = row.ioHistoryCount ∧ (netRow net row).ioHistory = row.ioHistory := by
  cases net <;> exact ⟨rfl, rfl, rfl, rfl⟩

theorem with_history_take (row : ProcEntry) (hist : IoHist) :
    (withHistory row hist).ioHistoryCount.toNat = hist.valid.length ∧
    (withHistory row hist).ioHistory.toList.take hist.valid.length = hist.valid := by
  have bounded := hist.bounded
  have small : hist.count < 2 ^ 8 := lt_of_le_of_lt bounded (by decide)
  have kept : hist.valid.length = hist.count := valid_length hist
  refine ⟨?_, ?_⟩
  · rw [kept]
    exact UInt8.toNat_ofNat_of_lt small
  · change List.take hist.valid.length (hist.valid ++ row.ioHistory.toList.drop hist.count) = hist.valid
    exact take_left

variable {published : List ProcSnapshot}

theorem pushed_streak {value}
    (samples : ((map pid).map IoHist.valid).getD [] = recent ioHistoryLen (streak pid published)) :
    (ioHistPush ((map pid).getD .fresh) value).valid = recent ioHistoryLen (streak pid published ++ [value]) := by
  have before : ((map pid).getD .fresh).valid = recent ioHistoryLen (streak pid published) := by
    rw [← samples]
    cases map pid <;> rfl
  rw [push_valid, before, recent_recent]

theorem scan_step_kept (kept : Tracked state map) (quiet : Quiet state scan) :
    HistoryExact (scanStep state scan).published ∧ ∃ next, Tracked (scanStep state scan) next := by
  obtain ⟨rows, pids, represents, entries⟩ := fill_rates_spec kept quiet
  have distinct : (rows.map ProcEntry.pid).Nodup := by
    rw [pids]
    exact quiet.scanned.distinct
  have published : (scanStep state scan).published = (fillRates state.statics scan.1 scan.2).2 :: state.published := rfl
  generalize (fillRates state.statics scan.1 scan.2).2 = latest at entries published
  have listed : latest.entries.map ProcEntry.pid = rows.map ProcEntry.pid := by
    rw [entries, map_map]
    exact map_congr_left fun row _ => (net_row_fields scan.1.net _).1
  have grown (row : ProcEntry) (mem : row ∈ rows) :
      streak row.pid (latest :: state.published) = streak row.pid state.published ++ [rate row] := by
    have shown := rate_in_row latest (by rwa [listed]) (by rw [entries]; exact mem_map_of_mem mem)
    rw [(net_row_fields scan.1.net _).1, (net_row_fields scan.1.net _).2.1] at shown
    change rateIn row.pid latest = some (rate row) at shown
    rw [streak, shown]
  rw [published]
  refine ⟨fun first same row mem => ?_, _, represents, ?_, fun pid => ?_⟩
  · obtain rfl := Option.some.inj same
    rw [entries] at mem
    obtain ⟨source, held, rfl⟩ := mem_map.mp mem
    obtain ⟨pid, -, count, history⟩ := net_row_fields scan.1.net
      (withHistory source (ioHistPush ((map source.pid).getD .fresh) (rate source)))
    obtain ⟨counted, taken⟩ := with_history_take source (ioHistPush ((map source.pid).getD .fresh) (rate source))
    rw [pid, count, history, counted, taken]
    change _ = min (streak source.pid _).length _ ∧ _ = recent ioHistoryLen (streak source.pid _)
    rw [grown source held, pushed_streak (kept.samples source.pid)]
    refine ⟨?_, rfl⟩
    rw [recent, length_drop]
    omega
  · have absent : (0 : Int32) ∉ rows.map ProcEntry.pid := by
      rw [pids]
      intro mem
      obtain ⟨row, held, zero⟩ := mem_map.mp mem
      exact quiet.scanned.positive row held zero
    rw [recorded_other absent, if_neg absent]
  · rw [published]
    by_cases mem : pid ∈ rows.map ProcEntry.pid
    · obtain ⟨row, held, rfl⟩ := mem_map.mp mem
      rw [recorded_row rows distinct row held, if_pos mem, grown row held]
      exact pushed_streak (kept.samples row.pid)
    · rw [recorded_other mem, if_neg mem, streak, rate_in_none (by rwa [listed])]
      rfl

theorem start_tracked : Tracked ⟨[], staticsInit⟩ fun _ => none :=
  ⟨represents_empty home, rfl, fun _ => rfl⟩

theorem io_history_exact (state : ScanState) (reached : Runs.Reachable ScanStarts Quiet scanStep state) :
    HistoryExact state.published := by
  have kept : HistoryExact state.published ∧ ∃ map, Tracked state map := by
    refine Runs.invariant (fun state => HistoryExact state.published ∧ ∃ map, Tracked state map) ?_ ?_ state reached
    · rintro state rfl
      refine ⟨?_, _, start_tracked⟩
      intro latest absent
      cases absent
    · rintro state scan ⟨-, map, kept⟩ quiet
      exact scan_step_kept kept quiet
  exact kept.1

def plainRow (pid : Int32) (ticks : UInt64) : ProcEntry where
  pid := pid
  ppid := 1
  cpuTicks := ticks

def scanOf (now : Timespec) (rows : List ProcEntry) : Sample × ProcSnapshot :=
  ({ now, numCpus := 1, clkTck := 100, net := none }, { entries := rows })

def firstScan : Timespec := .seconds 100

def secondScan : Timespec := .seconds 102

def scansOf (first second : List ProcEntry) : ScanState :=
  scanStep (scanStep ⟨[], staticsInit⟩ (scanOf firstScan first)) (scanOf secondScan second)

theorem scan_step_listed (kept : Tracked state map) (quiet : Quiet state scan) {slot} {pid : Int32} {hist : IoHist}
    (present : (scanStep state scan).statics.ioHistory slot = some (pid, hist)) :
    pid ∈ scan.2.entries.map ProcEntry.pid := by
  obtain ⟨rows, pids, represents, -⟩ := fill_rates_spec kept quiet
  have held := represents_slot home represents slot pid hist present
  rw [← pids]
  by_contra absent
  rw [recorded_other absent, if_neg absent] at held
  cases held

theorem first_scan_quiet (rows : List ProcEntry) (scanned : Scanned { entries := rows }) :
    Quiet ⟨[], staticsInit⟩ (scanOf firstScan rows) := by
  refine ⟨scanned, fun row mem hist held => ?_, fun row mem steps hist present => ?_⟩
  · exact absurd held (not_held_empty row.pid hist)
  · cases present

theorem io_history_exact_two_scans : HistoryExact (scansOf [plainRow 7 5] [plainRow 7 6]).published ∧
    ((scansOf [plainRow 7 5] [plainRow 7 6]).published.map fun snap => snap.entries.map ProcEntry.ioHistoryCount) =
    [[2], [1]] := by
  have scanned (ticks : UInt64) : Scanned { entries := [plainRow 7 ticks] } :=
    ⟨nodup_singleton _, by simp [plainRow], Nat.lt_of_sub_eq_succ rfl⟩
  have quiet := first_scan_quiet [plainRow 7 5] (scanned 5)
  have first : Runs.Reachable ScanStarts Quiet scanStep (scanStep ⟨[], staticsInit⟩ (scanOf firstScan [plainRow 7 5])) :=
    .step _ _ (.start _ rfl) quiet
  refine ⟨io_history_exact _ (.step _ _ first ⟨scanned 6, ⟨fun row mem hist _ => ?_, ?_⟩⟩), by decide +kernel⟩
  · obtain rfl := mem_singleton.mp mem
    exact fun zero => absurd zero (by decide)
  · intro row mem steps hist present earlier below pid other there
    exact scan_step_listed start_tracked quiet there

def countsExact (published : List ProcSnapshot) : Bool :=
  published.head?.all fun latest => latest.entries.all fun row =>
    decide (row.ioHistoryCount.toNat = min (streak row.pid published).length ioHistoryLen)

theorem counts_of_history_exact (holds : HistoryExact published) : countsExact published := by
  cases published with
  | nil => rfl
  | cons latest older =>
    refine all_eq_true.mpr fun row mem => decide_eq_true ?_
    exact (holds latest rfl row mem).1

theorem io_history_lost :
    Scanned { entries := [plainRow 7 0] } ∧ ¬ HistoryExact (scansOf [plainRow 7 0] [plainRow 7 0]).published ∧
      Scanned { entries := [plainRow 1 5, plainRow 8193 5] } ∧ Scanned { entries := [plainRow 8193 6] } ∧
      ¬ HistoryExact (scansOf [plainRow 1 5, plainRow 8193 5] [plainRow 8193 6]).published := by
  have idle : countsExact (scansOf [plainRow 7 0] [plainRow 7 0]).published = false := by decide +kernel
  have bereft : countsExact (scansOf [plainRow 1 5, plainRow 8193 5] [plainRow 8193 6]).published = false := by
    decide +kernel
  refine ⟨⟨by decide, by decide, by decide⟩, fun holds => ?_, ⟨by decide, by decide, by decide⟩,
    ⟨by decide, by decide, by decide⟩, fun holds => ?_⟩
  · rw [counts_of_history_exact holds] at idle
    cases idle
  · rw [counts_of_history_exact holds] at bereft
    cases bereft

end

theorem find_latched {ν : Type} (sets : List (Int32 × ν)) (few : (sets.map Prod.fst).toFinset.card ≤ cpuHtSize)
    (pid : Int32) :
    find home (sets.foldl (fun table set => store home table set.1 set.2) ProbeTable.empty) pid = sets.reverse.lookup pid :=
  (represents_find home (latch_represents home Prod.fst Prod.snd sets few) pid).trans
    (latched_lookup sets pid)

theorem previous_samples_kept (ticks : List (Int32 × UInt64)) (bytes : List (Int32 × UInt64 × UInt64))
    (fewTicks : (ticks.map Prod.fst).toFinset.card ≤ cpuHtSize)
    (fewBytes : (bytes.map Prod.fst).toFinset.card ≤ cpuHtSize) (pid : Int32) :
    cpuHtGet (ticks.foldl (fun table set => cpuHtSet table set.1 set.2) ProbeTable.empty) pid =
    (ticks.reverse.lookup pid).getD 0 ∧
    ioHtGet (bytes.foldl (fun table set => ioHtSet table set.1 set.2) ProbeTable.empty) pid =
    (bytes.reverse.lookup pid).getD (0, 0) :=
  ⟨congrArg (·.getD 0) (find_latched ticks fewTicks pid), congrArg (·.getD (0, 0)) (find_latched bytes fewBytes pid)⟩

theorem previous_samples_collide :
    cpuHtGet ([(1, 5), (8193, 6), (1, 7)].foldl (fun table set => cpuHtSet table set.1 set.2) ProbeTable.empty) 1 = 7 :=
  (previous_samples_kept [(1, 5), (8193, 6), (1, 7)] [] (by decide) (by decide) 1).1

end Evemon.Monitor
