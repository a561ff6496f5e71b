import Evemon.Lib.FloatRange
import Evemon.Publication
import Evemon.SnapshotReplies

namespace Evemon.Monitor

open CText List Int64 Nat
open FloatFormat
open Ipc (Heap ipcStatus ipcSnapshot requested encodedReply decodedReply RowScanned HeaderValid)
open ProbeTable (Table locate Everywhere update_everywhere retain_everywhere empty_everywhere)

section

def Small (top : Int) (value : Float32) : Prop := AtMost .binary32 top value.toModel.unpack

theorem small_finite {top} {value} (small : Small top value) : value.isFinite :=
  at_most_finite top small

theorem zero_small {top} : Small top (Float32.ofBits 0) := by
  have unpacked : (Float32.ofBits 0).toModel.unpack = .zero .positive := rfl
  rw [Small, unpacked]
  exact .zero .positive

theorem hundredth_unpacked : (0.01 : Float).toModel.unpack = .finite .positive 5764607523034235 (-59) (by decide) := by
  have fits : Fits .binary64 5764607523034235 (-59) := by
    constructor <;> decide
  have packed : (0.01 : Float).toModel = .pack (.finite .positive 5764607523034235 (-59) (by decide)) := by
    decide +kernel
  rw [packed]
  exact float_pack_finite (.value _ _ _ fits)

theorem hundred_at_most : AtMost .binary64 6 (100.0 : Float).toModel.unpack := by
  have fits : Fits .binary64 (100 * 2 ^ 46) (-46) := by
    constructor <;> decide
  have packed : (100.0 : Float).toModel = .pack (.finite .positive (100 * 2 ^ 46) (-46) (by decide)) := by
    decide +kernel
  rw [packed]
  exact packed_at_most (.value _ _ _ fits (by decide))

variable (delta : UInt64) {elapsed : Float}

-- 0.01 lies between 2^-7 and 2^-6.
theorem elapsed_at_least (measured : 0.01 < elapsed) : AtLeast .binary64 (-7) elapsed.toModel.unpack :=
  above_at_least 0.01 hundredth_unpacked (by decide) measured

theorem positive_or_pos (value fallback : Int64) (some : 1 ≤ fallback) : 0 < (positiveOr value fallback).toNat := by
  have natural (number : Int64) (least : 1 ≤ number) : 0 < number.toUInt64.toNat := by
    rw [Int64.le_iff_toInt_le] at least
    by_contra none
    have zero : number.toUInt64 = 0 := UInt64.toNat_inj.mp (by simp; omega)
    have same : number = 0 := by
      rw [← Int64.toInt64_toUInt64 number, zero]
      rfl
    rw [same] at least
    simp at least
  unfold positiveOr
  split
  · exact natural fallback some
  · rename_i large
    exact natural value (Int64.not_lt.mp large)

theorem total_ticks_at_least (clkTck numCpus : Int64) (measured : 0.01 < elapsed) : AtLeast .binary64 (-7)
    (elapsed * (positiveOr clkTck 100).toFloat * (positiveOr numCpus 1).toFloat).toModel.unpack := by
  have ticks := of_uint64_at_least (positive_or_pos clkTck 100 (by decide))
  have cpus := of_uint64_at_least (positive_or_pos numCpus 1 (by decide))
  have first := mul_at_least (by decide) 0 (elapsed_at_least measured) ticks
    (by rw [binary64_least]; decide)
  exact mul_at_least (by decide) 0 first cpus (by rw [binary64_least]; decide)

theorem quotient_at_most_72 {divisor : Float} (large : AtLeast .binary64 (-7) divisor.toModel.unpack) :
    AtMost .binary64 72 (delta.toFloat / divisor).toModel.unpack :=
  packed_at_most (div_at_most (by decide) 64 (-7) (of_uint64_at_most delta) large
    (by rw [binary64_least]; decide) (by rw [binary64_bias]; decide))

theorem byte_rate_small (measured : 0.01 < elapsed) : Small 73 (byteRate delta elapsed) :=
  narrow_at_most (quotient_at_most_72 delta (elapsed_at_least measured)) (by decide) (by decide)

theorem cpu_percent_small {totalTicks : Float}
    (large : AtLeast .binary64 (-7) totalTicks.toModel.unpack) : Small 81 (cpuPercent delta totalTicks) := by
  have product := mul_at_most (by decide) 72 6 (quotient_at_most_72 delta large) hundred_at_most
    (by rw [binary64_least]; decide) (by rw [binary64_bias]; decide)
  exact @narrow_at_most _ 80 (packed_at_most product) (by decide) (by decide)

theorem combined_small {readRate writeRate} (small : Small 73 readRate) (other : Small 73 writeRate) :
    Small 75 (readRate + writeRate) :=
  packed_at_most (add_at_most (by decide) 73 small other (by rw [binary32_least]; decide)
    (by rw [binary32_bias]; decide))

end

section

structure RowBounded (row : ProcEntry) : Prop where
  pid : 0 < row.pid
  historyCount : row.ioHistoryCount.toNat ≤ ioHistoryLen
  cpuPercent : Small 81 row.cpuPercent
  ioReadRate : Small 73 row.ioReadRate
  ioWriteRate : Small 73 row.ioWriteRate
  history : ∀ value ∈ row.ioHistory.toList, Small 75 value

variable {row : ProcEntry}

theorem row_bounded_scanned {snap : ProcSnapshot} (bounded : RowBounded row) : RowScanned (snap.row row) where
  pid := bounded.pid
  historyCount := bounded.historyCount
  cpuPercent := small_finite bounded.cpuPercent
  ioReadRate := small_finite bounded.ioReadRate
  ioWriteRate := small_finite bounded.ioWriteRate
  history := fun value mem => small_finite (bounded.history value mem)

theorem fresh_row_bounded {pid} (fresh : FreshRow pid row) (positive : 0 < pid) : RowBounded row := by
  refine ⟨fresh.pid ▸ positive, ?_, ?_, ?_, ?_, ?_⟩
  · rw [fresh.historyCount]
    decide
  · rw [fresh.cpuPercent]
    exact zero_small
  · rw [fresh.ioReadRate]
    exact zero_small
  · rw [fresh.ioWriteRate]
    exact zero_small
  · intro value mem
    rw [fresh.history] at mem
    rw [eq_of_mem_replicate mem]
    exact zero_small

variable {statics : Statics}

theorem rate_row_bounded {elapsed totalTicks : Float} (measured : 0.01 < elapsed)
    (large : AtLeast .binary64 (-7) totalTicks.toModel.unpack) (bounded : RowBounded row) :
    RowBounded (rateRow statics elapsed totalTicks row) := by
  refine ⟨bounded.pid, bounded.historyCount, ?_, ?_, ?_, bounded.history⟩
  · simp only [rateRow]
    split
    · exact cpu_percent_small _ large
    · exact bounded.cpuPercent
  · simp only [rateRow]
    split
    · exact byte_rate_small _ measured
    · exact bounded.ioReadRate
  · simp only [rateRow]
    split
    · exact byte_rate_small _ measured
    · exact bounded.ioWriteRate

variable {rows : List ProcEntry}

theorem rate_rows_bounded (statics : Statics) (now : Timespec) (numCpus clkTck : Int64)
    (bounded : ∀ row ∈ rows, RowBounded row) : ∀ row ∈ rateRows statics now numCpus clkTck rows, RowBounded row := by
  unfold rateRows
  dsimp only
  split
  · rename_i measured
    intro row mem
    obtain ⟨original, listed, rfl⟩ := mem_map.mp mem
    exact rate_row_bounded measured.2.2 (total_ticks_at_least clkTck numCpus measured.2.2) (bounded original listed)
  · exact bounded

theorem rate_rows_length (statics : Statics) (now : Timespec) (numCpus clkTck : Int64) (rows : List ProcEntry) :
    (rateRows statics now numCpus clkTck rows).length = rows.length := by
  unfold rateRows
  dsimp only
  split
  · exact length_map _
  · rfl

def HistSmall (hist : IoHist) : Prop := ∀ value ∈ hist.samples.toList, Small 75 value

theorem fresh_hist_small : HistSmall .fresh := by
  intro value mem
  rw [eq_of_mem_replicate mem]
  exact zero_small

theorem io_hist_push_small {hist} {value} (small : HistSmall hist) (new : Small 75 value) :
    HistSmall (ioHistPush hist value) := by
  intro sample mem
  unfold ioHistPush at mem
  split at mem
  · rcases mem_append.mp mem with old | _ | ⟨_, ⟨⟩⟩
    · exact small sample (mem_of_mem_tail old)
    · exact new
  · rcases mem_or_eq_of_mem_set mem with old | same
    · exact small sample old
    · rw [same]
      exact new

theorem history_row_bounded {table} (row : ProcEntry)
    (all : Everywhere HistSmall table) (bounded : RowBounded row) :
    Everywhere HistSmall (historyRow table row).1 ∧ RowBounded (historyRow table row).2 := by
  obtain ⟨pid, historyCount, cpuPercent, ioReadRate, ioWriteRate, history⟩ := bounded
  unfold historyRow
  split
  · exact ⟨all, pid, zero_le _, cpuPercent, ioReadRate, ioWriteRate, history⟩
  · rename_i slot found
    have old : HistSmall (((table slot).map Prod.snd).getD .fresh) := by
      cases filled : table slot with
      | none => exact fresh_hist_small
      | some entry => exact all slot entry.1 entry.2 filled
    have pushed := io_hist_push_small old (combined_small ioReadRate ioWriteRate)
    refine ⟨update_everywhere HistSmall table slot row.pid _ all pushed, pid, ?_, cpuPercent, ioReadRate, ioWriteRate, ?_⟩
    · exact le_trans (mod_le _ _) (ioHistPush _ _).bounded
    · intro value mem
      rcases mem_append.mp mem with copied | kept
      · exact pushed value (mem_of_mem_take copied)
      · exact history value (mem_of_mem_drop kept)

theorem history_rows_bounded {table} (all : Everywhere HistSmall table) (bounded : ∀ row ∈ rows, RowBounded row) :
    Everywhere HistSmall (historyRows table rows).1 ∧ (∀ row ∈ (historyRows table rows).2, RowBounded row) ∧
    (historyRows table rows).2.length = rows.length := by
  induction rows generalizing table with
  | nil => exact ⟨all, fun row mem => absurd mem not_mem_nil, rfl⟩
  | cons row rest ih =>
    obtain ⟨next, first⟩ := history_row_bounded row all (bounded row mem_cons_self)
    obtain ⟨last, others, length⟩ := ih next fun other mem =>
      bounded other (mem_cons_of_mem _ mem)
    refine ⟨last, fun other mem => ?_, congrArg (· + 1) length⟩
    rcases mem_cons.mp mem with here | later
    · rw [here]
      exact first
    · exact others other later

theorem net_row_bounded {net : Option (Int32 → UInt64 × UInt64)} (bounded : RowBounded row) :
    RowBounded (netRow net row) := by
  obtain ⟨pid, historyCount, cpuPercent, ioReadRate, ioWriteRate, history⟩ := bounded
  cases net with
  | none | some counters => exact ⟨pid, historyCount, cpuPercent, ioReadRate, ioWriteRate, history⟩

structure Kept (snap : ProcSnapshot) : Prop where
  rows : ∀ row ∈ snap.entries, RowBounded row
  few : snap.entries.length ≤ uint32Max

theorem empty_kept {snap : ProcSnapshot} (empty : snap.entries = []) : Kept snap := by
  refine ⟨fun row mem => ?_, ?_⟩
  · rw [empty] at mem
    exact absurd mem not_mem_nil
  · rw [empty]
    exact zero_le _

theorem fill_rates_kept (sample : Sample) {snap} (all : Everywhere HistSmall statics.ioHistory) (kept : Kept snap) :
    Everywhere HistSmall (fillRates statics sample snap).1.ioHistory ∧ Kept (fillRates statics sample snap).2 := by
  have rated := rate_rows_bounded statics sample.now sample.numCpus sample.clkTck kept.rows
  have length := rate_rows_length statics sample.now sample.numCpus sample.clkTck snap.entries
  have stale := retain_everywhere HistSmall (fun pid => decide (cpuHtGet (latchTicks (rateRows statics sample.now
    sample.numCpus sample.clkTck snap.entries)) pid ≠ 0) || decide (pid = 0)) statics.ioHistory all
  obtain ⟨table, rows, count⟩ := history_rows_bounded stale rated
  refine ⟨table, fun row mem => ?_, ?_⟩
  · obtain ⟨original, listed, rfl⟩ := mem_map.mp mem
    exact net_row_bounded (rows original listed)
  · have few := kept.few
    rw [← length, ← count] at few
    simpa [fillRates, collectStale] using few

end

section

theorem attach_kept {pass next : SteamPass} {index : Nat} {row} {info} {granted}
    (here : pass.snap.entries[index]? = some row) (attached : attachSteam pass index row info granted = some next)
    (kept : Kept pass.snap) : Kept next.snap := by
  unfold attachSteam at attached
  split at attached
  · split at attached
    · cases attached
    · obtain rfl := Option.some.inj attached
      refine ⟨fun other listed => ?_, length_set.trans_le kept.few⟩
      rcases mem_or_eq_of_mem_set listed with old | rfl
      · exact kept.rows other old
      · obtain ⟨pid, historyCount, cpuPercent, ioReadRate, ioWriteRate, history⟩ := kept.rows row (mem_of_getElem? here)
        exact ⟨pid, historyCount, cpuPercent, ioReadRate, ioWriteRate, history⟩
  · obtain rfl := Option.some.inj attached
    exact ⟨kept.rows, kept.few⟩

theorem enrich_kept (world : SteamWorld) {snap} (kept : Kept snap) : Kept (enrich world snap) := by
  unfold enrich
  split
  · exact steam_passes_rule Kept attach_kept 4 0 ⟨snap, 0⟩ kept
  · exact kept

end

section

def Documented : Action → Prop
  | .entry dirent _ => isPidDir dirent = true → 0 < atoi dirent.name
  | _ => True

structure Begins (m : Monitor) : Prop where
  starts : Starts m
  interval : 1 ≤ m.shared.intervalMs ∧ m.shared.intervalMs ≤ 3600000

def RowsAt : Stage → Prop
  | .scanning scan =>
    Kept scan.snap ∧ scan.snap.entries.length ≤ scan.capacity ∧ 0 < scan.capacity ∧ scan.capacity ≤ uint32Max
  | .scanned snap => Kept snap
  | .enriching snap => Kept snap
  | .built snap => Kept snap
  | _ => True

structure RowsInv (m : Monitor) : Prop where
  published : Kept m.shared.snapshot
  history : Everywhere HistSmall m.statics.ioHistory
  complete : m.shared.snapshotComplete ≤ 1
  interval : 1 ≤ m.shared.intervalMs ∧ m.shared.intervalMs ≤ 3600000
  stage : RowsAt m.stage

variable (m : Monitor)

theorem begins_rows (begins : Begins m) : RowsInv m := by
  obtain ⟨⟨snapshot, complete, generation, sampledAt, origin, statics, stage, log⟩, interval⟩ := begins
  refine ⟨empty_kept (by rw [snapshot]), ?_, by rw [complete]; decide, interval, by rw [stage]; trivial⟩
  rw [statics]
  exact empty_everywhere HistSmall

variable {scan : Scan}

theorem grow_rows_room {grown} {granted} (made : growRows scan granted = some grown)
    (full : scan.snap.entries.length ≤ scan.capacity) (some : 0 < scan.capacity) (bounded : scan.capacity ≤ uint32Max) :
    grown.snap = scan.snap ∧ scan.snap.entries.length < grown.capacity ∧ grown.capacity ≤ uint32Max := by
  unfold growRows at made
  split at made
  · split at made
    · cases made
    · rename_i reached room
      rw [not_or, not_lt] at room
      obtain rfl := Option.some.inj made
      have half := room.1
      have maximum : uint32Max = 4294967295 := rfl
      exact ⟨rfl, by simp only; omega, by simp only; omega⟩
  · obtain rfl := Option.some.inj made
    exact ⟨rfl, by omega, bounded⟩

variable {snap : ProcSnapshot}

theorem scan_row_kept {next} {pid : Int32} {reads} (positive : 0 < pid)
    (scanned : scanRow snap pid reads = some next) (kept : Kept snap) (room : snap.entries.length < uint32Max) :
    Kept next ∧ next.entries.length = snap.entries.length + 1 := by
  obtain ⟨row, fresh, entries⟩ := scan_row_cases scanned
  have length : next.entries.length = snap.entries.length + 1 := by simp [entries]
  refine ⟨⟨fun other mem => ?_, by omega⟩, length⟩
  rw [entries] at mem
  rcases mem_append.mp mem with old | _ | ⟨_, ⟨⟩⟩
  · exact kept.rows other old
  · exact fresh_row_bounded fresh positive

theorem restage_rows {stage} {log : List Reply} {turns : List (Dirent × Turn)} {world : Option SteamWorld}
    {source : Option Source} (inv : RowsInv m) (rows : RowsAt stage) :
    RowsInv { m with stage, log, turns, world, source } :=
  ⟨inv.published, inv.history, inv.complete, inv.interval, rows⟩

theorem publish_copy_rows {origin} (granted : Bool) (now : Timespec) (inv : RowsInv m)
    (kept : Kept snap) : RowsInv (publishCopy m origin (snapshotCopyPreSteam snap granted) now) := by
  unfold snapshotCopyPreSteam
  split
  · exact inv
  · exact ⟨⟨kept.rows, kept.few⟩, inv.history, inv.complete, inv.interval, inv.stage⟩

theorem publish_preselected_rows {turn} (inv : RowsInv m) (rows : RowsAt (.scanning scan)) :
    RowsInv (publishPreselected m scan turn) := by
  unfold publishPreselected
  split
  · exact restage_rows _ (publish_copy_rows m turn.copied turn.now inv rows.1) rows
  · exact restage_rows m inv rows

theorem scan_entry_rows {dirent} {turn} (inv : RowsInv m) (stage : m.stage = .scanning scan)
    (documented : Documented (.entry dirent turn)) : RowsInv (scanEntry m scan dirent turn) := by
  have rows := inv.stage
  rw [stage] at rows
  obtain ⟨kept, full, some, bounded⟩ := rows
  unfold scanEntry
  split
  · rename_i numeric
    cases made : growRows scan turn.grown with
    | none => exact restage_rows m inv kept
    | some grown =>
      obtain ⟨same, space, limit⟩ := grow_rows_room made full some bounded
      rw [← same] at kept space
      dsimp only
      split
      · exact restage_rows m inv ⟨kept, by omega, by omega, limit⟩
      · rename_i snap scanned
        obtain ⟨next, length⟩ := scan_row_kept (documented numeric) scanned kept (by omega)
        exact publish_preselected_rows m inv ⟨next, by simp only; omega, by simp only; omega, limit⟩
  · exact inv

theorem publish_final_rows {sample} {system} {now} (inv : RowsInv m)
    (kept : Kept snap) : RowsInv (publishFinal m snap sample system now) := by
  obtain ⟨history, filled⟩ := fill_rates_kept sample inv.history kept
  exact ⟨filled, history, UInt32.le_refl 1, inv.interval, trivial⟩

variable {action : Action}

theorem step_rows (inv : RowsInv m) (documented : Documented action) : RowsInv (step m action) := by
  have rows := inv.stage
  unfold step
  split
  · exact ⟨inv.published, inv.history, inv.complete, inv.interval, trivial⟩
  · exact restage_rows m inv trivial
  · split
    · have room : 0 < 512 ∧ 512 ≤ uint32Max := by decide
      exact restage_rows m inv ⟨empty_kept rfl, zero_le _, room⟩
    · exact restage_rows m inv (empty_kept rfl)
  · rename_i dirent turn scan stage
    have scanned := scan_entry_rows m inv stage documented
    exact restage_rows _ scanned scanned.stage
  · rename_i scan stage
    rw [stage] at rows
    exact restage_rows m inv rows.1
  · rename_i steam copied now snap stage
    rw [stage] at rows
    refine restage_rows _ ?_ rows
    unfold publishPreSteam
    split
    · exact publish_copy_rows m copied now inv rows
    · exact inv
  · rename_i world snap stage
    rw [stage] at rows
    exact restage_rows m inv (enrich_kept world rows)
  · rename_i sample system now snap stage
    rw [stage] at rows
    have final := @publish_final_rows m snap sample system now inv rows
    exact restage_rows _ final final.stage
  · unfold answer
    dsimp only
    split
    · exact inv
    · exact restage_rows m inv rows
  · exact inv

theorem reached_rows (reached : Runs.Reachable Begins (fun _ action => Documented action) step m) :
    RowsInv m :=
  Runs.invariant (RowsInv) begins_rows (fun state _ held documented => step_rows state held documented)
    m reached

theorem published_snapshot_accepted (m : Monitor)
    (reached : Runs.Reachable Begins (fun _ action => Documented action) step m) (client : MonitorState)
    (type : UInt16) (pid : Int32) (sent received : Timespec) (sender receiver : Heap)
    (granted : ∀ index, receiver.grant index = true) (clock : m.shared.sampledAt.ns ≤ sent.ns)
    (encoded : (encodedReply m.shared type pid sent sender).1 = none) :
    (decodedReply (encodedReply m.shared type pid sent sender).2.buf.data (decide (type = ipcStatus)) client received
    receiver).1 = none ↔
    type = ipcStatus ∨ ∀ row ∈ requested pid m.shared.snapshot.entries, 0 ≤ row.ppid := by
  have inv := reached_rows m reached
  have header : HeaderValid m.shared sent := ⟨inv.interval, inv.complete, clock⟩
  by_cases status : type = ipcStatus
  · subst status
    have accepted := Ipc.status_accepted client pid sent received header granted encoded
    exact iff_of_true accepted (.inl rfl)
  · have accepted := Ipc.rows_accepted_iff client type pid sent received status header
      (fun row mem => row_bounded_scanned (inv.published.rows row mem)) inv.published.few granted encoded
    rw [decide_eq_false status, accepted, or_iff_right status]

theorem fresh_monitor_begins : Begins freshMonitor := ⟨fresh_monitor_starts, by decide⟩

def namedByPid (action : Action) : Bool :=
  match action with
  | .entry dirent _ => decide (0 < atoi dirent.name)
  | _ => true

theorem named_documented (named : namedByPid action) : Documented action := by
  cases action with
  | entry dirent turn => exact fun _ => of_decide_eq_true named
  | _ => trivial

-- PID 1 and, in the given turn, PID 100.
def twoRows (turn : Turn) : List Action :=
  [.start monitorStateInit.system, .begin, .opened true, .entry initDirent (initTurn 0),
    .entry ⟨true, [49, 48, 48]⟩ turn, .exhausted, .closed false true quietClock, .enriched steamless,
    .publish plainSample monitorStateInit.system quietClock]

def parentRun : List Action := twoRows { initTurn 0 with reads := bareReads (some [80, 80, 105, 100, 58, 9, 49, 10]) }

theorem published_snapshot_accepted_parent :
    (parentRun.foldl step freshMonitor).shared.snapshot.entries.map (fun row => (row.pid, row.ppid)) =
    [(1, 0), (100, 1)] ∧
    (decodedReply (encodedReply (parentRun.foldl step freshMonitor).shared ipcSnapshot 0 quietClock
    Ipc.allGranted).2.buf.data (decide (ipcSnapshot = ipcStatus)) monitorStateInit quietClock
    Ipc.allGranted).1 = none :=
  ⟨by decide +kernel, (published_snapshot_accepted _ (Runs.reachable_follows (fun _ action => namedByPid action)
    (fun _ action named => named_documented named) parentRun freshMonitor (.start _ fresh_monitor_begins)
    (by decide +kernel)) monitorStateInit ipcSnapshot 0 quietClock quietClock Ipc.allGranted Ipc.allGranted
    (fun _ => rfl) (by decide +kernel) (by decide +kernel)).mpr (.inr (by decide +kernel))⟩

def orphanRun : List Action := twoRows { initTurn 0 with reads := bareReads none }

theorem unreadable_status_refuses_snapshot :
    Runs.Reachable Begins (fun _ action => Documented action) step (orphanRun.foldl step freshMonitor) ∧
    (orphanRun.foldl step freshMonitor).shared.sampledAt.ns ≤ quietClock.ns ∧
    (orphanRun.foldl step freshMonitor).shared.snapshot.entries.map (fun row => (row.pid, row.ppid)) =
    [(1, 0), (100, -1)] ∧
    (encodedReply (orphanRun.foldl step freshMonitor).shared ipcSnapshot 0 quietClock Ipc.allGranted).1 = none ∧
    (decodedReply (encodedReply (orphanRun.foldl step freshMonitor).shared ipcSnapshot 0 quietClock
    Ipc.allGranted).2.buf.data false monitorStateInit quietClock Ipc.allGranted).1 = some .EPROTO :=
  ⟨Runs.reachable_follows (fun _ action => namedByPid action) (fun _ action named => named_documented named)
    orphanRun freshMonitor (.start _ fresh_monitor_begins) (by decide +kernel), by decide +kernel⟩

end

end Evemon.Monitor
