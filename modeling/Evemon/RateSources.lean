import Evemon.IoHistory

-- The differences behind cpu_percent, io_read_rate and io_write_rate, and whose counters they
-- are taken from.
namespace Evemon.Monitor

open List ProbeTable UInt64

open ProbeTable (Table find Represents)

structure Deltas where
  cpu : Option UInt64
  read : Option UInt64
  write : Option UInt64

def Deltas.unused : Deltas := ⟨none, none, none⟩

def deltasFrom (prev : UInt64) (prevIo : UInt64 × UInt64) (row : ProcEntry) : Deltas :=
  let moved := decide (0 < prevIo.1) || decide (0 < prevIo.2)
  { cpu := if 0 < prev ∧ prev ≤ row.cpuTicks then some (row.cpuTicks - prev) else none
    read := if moved ∧ prevIo.1 ≤ row.ioReadBytes then some (row.ioReadBytes - prevIo.1) else none
    write := if moved ∧ prevIo.2 ≤ row.ioWriteBytes then some (row.ioWriteBytes - prevIo.2) else none }

def deltas (statics : Statics) (now : Timespec) (row : ProcEntry) : Deltas :=
  if statics.prevValid = true ∧ statics.prevTs.sec ≠ 0 ∧ 0.01 < elapsedSeconds now statics.prevTs then
    deltasFrom (cpuHtGet statics.prevTicks row.pid) (ioHtGet statics.prevIo row.pid) row
  else .unused

def ratedBy (elapsed totalTicks : Float) (used : Deltas) (row : ProcEntry) : ProcEntry :=
  { row with
    cpuPercent := used.cpu.elim row.cpuPercent (cpuPercent · totalTicks)
    ioReadRate := used.read.elim row.ioReadRate (byteRate · elapsed)
    ioWriteRate := used.write.elim row.ioWriteRate (byteRate · elapsed) }

theorem ite_elim (condition : Prop) [Decidable condition] (value : UInt64) (kept : Float32) (rate : UInt64 → Float32) :
    (if condition then some value else none).elim kept rate = if condition then rate value else kept := by
  split <;> rfl

theorem rate_row_deltas (statics : Statics) (elapsed totalTicks : Float) (row : ProcEntry) :
    rateRow statics elapsed totalTicks row = ratedBy elapsed totalTicks
    (deltasFrom (cpuHtGet statics.prevTicks row.pid) (ioHtGet statics.prevIo row.pid) row) row := by
  simp only [rateRow, ratedBy, deltasFrom, ite_elim]

def totalTicks (elapsed : Float) (clkTck numCpus : Int64) : Float :=
  elapsed * (positiveOr clkTck 100).toFloat * (positiveOr numCpus 1).toFloat

theorem rate_rows_deltas (statics : Statics) (now : Timespec) (numCpus clkTck : Int64) (rows : List ProcEntry) :
    rateRows statics now numCpus clkTck rows = rows.map fun row =>
        ratedBy (elapsedSeconds now statics.prevTs) (totalTicks (elapsedSeconds now statics.prevTs) clkTck numCpus)
          (deltas statics now row) row := by
  unfold rateRows
  dsimp only
  by_cases measured : statics.prevValid ∧ statics.prevTs.sec ≠ 0 ∧ 0.01 < elapsedSeconds now statics.prevTs
  · rw [if_pos measured]
    refine map_congr_left fun row _ => ?_
    rw [rate_row_deltas, deltas, if_pos measured]
    rfl
  · rw [if_neg measured]
    have kept (row : ProcEntry) : ratedBy (elapsedSeconds now statics.prevTs)
        (totalTicks (elapsedSeconds now statics.prevTs) clkTck numCpus) (deltas statics now row) row = row := by
      rw [deltas, if_neg measured]
      rfl
    simp only [kept, map_id']

section

variable (statics : Statics) (sample : Sample) {snap : ProcSnapshot} (rows : List ProcEntry)

theorem latch_ticks_rated (now : Timespec) (numCpus clkTck : Int64) :
    latchTicks (rateRows statics now numCpus clkTck rows) = latchTicks rows := by
  rw [rate_rows_deltas, latchTicks, foldl_map]
  rfl

theorem latch_io_rated (now : Timespec) (numCpus clkTck : Int64) :
    latchIo (rateRows statics now numCpus clkTck rows) = latchIo rows := by
  rw [rate_rows_deltas, latchIo, foldl_map]
  rfl

theorem latched_few (scanned : Scanned snap) : (snap.entries.map ProcEntry.pid).toFinset.card ≤ cpuHtSize := by
  rw [toFinset_card_of_nodup scanned.distinct, length_map]
  exact scanned.few.le

theorem previous_ticks (scanned : Scanned snap) (pid : Int32) : find home (fillRates statics sample snap).1.prevTicks pid =
    ProbeTable.latched ProcEntry.pid ProcEntry.cpuTicks snap.entries pid := by
  change find home (latchTicks (rateRows statics sample.now sample.numCpus sample.clkTck snap.entries)) pid = _
  rw [latch_ticks_rated]
  exact represents_find home
    (latch_represents home ProcEntry.pid ProcEntry.cpuTicks snap.entries (latched_few scanned)) pid

theorem previous_io (scanned : Scanned snap) (pid : Int32) : find home (fillRates statics sample snap).1.prevIo pid =
    ProbeTable.latched ProcEntry.pid (fun row => (row.ioReadBytes, row.ioWriteBytes)) snap.entries pid := by
  change find home (latchIo (rateRows statics sample.now sample.numCpus sample.clkTck snap.entries)) pid = _
  rw [latch_io_rated]
  exact represents_find home
    (latch_represents home ProcEntry.pid (fun row : ProcEntry => (row.ioReadBytes, row.ioWriteBytes))
      snap.entries (latched_few scanned)) pid

theorem latched_absent {ν : Type} {value : ProcEntry → ν} {rows : List ProcEntry} {pid : Int32}
    (absent : ∀ old ∈ rows, old.pid ≠ pid) : ProbeTable.latched ProcEntry.pid value rows pid = none := by
  by_contra known
  have listed := latched_known ProcEntry.pid value rows (Option.isSome_iff_ne_none.mpr known)
  obtain ⟨old, mem, same⟩ := mem_map.mp listed
  exact absent old mem same

end

structure Grew (old row : ProcEntry) : Prop where
  cpu : old.cpuTicks ≤ row.cpuTicks
  read : old.ioReadBytes ≤ row.ioReadBytes
  write : old.ioWriteBytes ≤ row.ioWriteBytes

structure Exact (old row : ProcEntry) (used : Deltas) : Prop where
  cpu : used.cpu.getD 0 = row.cpuTicks - old.cpuTicks
  read : used.read.getD 0 = row.ioReadBytes - old.ioReadBytes
  write : used.write.getD 0 = row.ioWriteBytes - old.ioWriteBytes

structure OwnCounters (first : List ProcEntry) (row : ProcEntry) (used : Deltas) : Prop where
  same : ∀ old ∈ first, old.pid = row.pid → old.startTicks = row.startTicks → Grew old row → Exact old row used
  other : (∀ old ∈ first, old.pid = row.pid → old.startTicks ≠ row.startTicks) → used = .unused

structure StillIdle (started : Prop) (old row : ProcEntry) : Prop where
  cpu : ¬ started ∨ old.cpuTicks = 0 → row.cpuTicks = old.cpuTicks
  io : ¬ started ∨ (old.ioReadBytes = 0 ∧ old.ioWriteBytes = 0) →
    row.ioReadBytes = old.ioReadBytes ∧ row.ioWriteBytes = old.ioWriteBytes

structure FellShort (old row : ProcEntry) : Prop where
  cpu : old.cpuTicks = 0 ∨ row.cpuTicks < old.cpuTicks
  io : (old.ioReadBytes = 0 ∧ old.ioWriteBytes = 0) ∨
    (row.ioReadBytes < old.ioReadBytes ∧ row.ioWriteBytes < old.ioWriteBytes)

-- `started` is that the clock had passed its first second at the first scan.
structure Telling (started : Prop) (first : List ProcEntry) (row : ProcEntry) : Prop where
  same : ∀ old ∈ first, old.pid = row.pid → old.startTicks = row.startTicks → Grew old row → StillIdle started old row
  other : ∀ old ∈ first, old.pid = row.pid → old.startTicks ≠ row.startTicks → started → FellShort old row

variable (measured : Prop)

theorem counted_iff [Decidable measured] {prev now : UInt64} (grew : prev ≤ now) :
    (if measured ∧ prev ≤ now then some (now - prev) else none).getD 0 = now - prev ↔ (¬ measured → now = prev) := by
  by_cases known : measured
  · rw [if_pos ⟨known, grew⟩]
    exact ⟨fun _ unknown => absurd known unknown, fun _ => rfl⟩
  · rw [if_neg fun both => known both.1]
    refine ⟨fun zero _ => sub_eq_zero.mp zero.symm, fun equal => ?_⟩
    rw [equal known, sub_self]
    rfl

theorem uncounted_iff [Decidable measured] (prev now : UInt64) :
    (if measured ∧ prev ≤ now then some (now - prev) else none) = none ↔ ¬ measured ∨ now < prev := by
  rw [ite_eq_right_iff, ← UInt64.not_le, ← not_and_or]
  exact ⟨fun absent both => Option.some_ne_none _ (absent both), fun absent both => absurd both absent⟩

theorem not_positive_iff (value : UInt64) : ¬ 0 < value ↔ value = 0 := by
  rw [UInt64.not_lt, UInt64.le_zero_iff]

theorem not_moved_iff (read write : UInt64) : ¬ (decide (0 < read) || decide (0 < write)) ↔ read = 0 ∧ write = 0 := by
  rw [Bool.or_eq_true, decide_eq_true_eq, decide_eq_true_eq, not_or, not_positive_iff, not_positive_iff]

theorem exact_iff {started : Prop} [Decidable started] (old row : ProcEntry) (grew : Grew old row) :
    Exact old row (if started then deltasFrom old.cpuTicks (old.ioReadBytes, old.ioWriteBytes) row else .unused) ↔
    StillIdle started old row := by
  by_cases passed : started
  · have cpu := counted_iff (0 < old.cpuTicks) grew.cpu
    have read := counted_iff ((decide (0 < old.ioReadBytes) || decide (0 < old.ioWriteBytes))) grew.read
    have write := counted_iff ((decide (0 < old.ioReadBytes) || decide (0 < old.ioWriteBytes))) grew.write
    rw [not_positive_iff] at cpu
    rw [not_moved_iff] at read write
    rw [if_pos passed]
    constructor
    · intro exact
      refine ⟨fun idle => cpu.mp exact.cpu (idle.resolve_left (not_not_intro passed)), fun idle => ?_⟩
      have still := idle.resolve_left (not_not_intro passed)
      exact ⟨read.mp exact.read still, write.mp exact.write still⟩
    · intro idle
      exact ⟨cpu.mpr fun zero => idle.cpu (.inr zero), read.mpr fun zero => (idle.io (.inr zero)).1,
        write.mpr fun zero => (idle.io (.inr zero)).2⟩
  · rw [if_neg passed]
    constructor
    · intro exact
      exact ⟨fun _ => sub_eq_zero.mp exact.cpu.symm,
        fun _ => ⟨sub_eq_zero.mp exact.read.symm, sub_eq_zero.mp exact.write.symm⟩⟩
    · intro idle
      have io := idle.io (.inl passed)
      exact ⟨(sub_eq_zero.mpr (idle.cpu (.inl passed))).symm, (sub_eq_zero.mpr io.1).symm, (sub_eq_zero.mpr io.2).symm⟩

theorem unused_from_iff (old row : ProcEntry) :
    deltasFrom old.cpuTicks (old.ioReadBytes, old.ioWriteBytes) row = .unused ↔ FellShort old row := by
  have cpu := uncounted_iff (0 < old.cpuTicks) old.cpuTicks row.cpuTicks
  have read := uncounted_iff ((decide (0 < old.ioReadBytes) || decide (0 < old.ioWriteBytes)))
    old.ioReadBytes row.ioReadBytes
  have write := uncounted_iff ((decide (0 < old.ioReadBytes) || decide (0 < old.ioWriteBytes)))
    old.ioWriteBytes row.ioWriteBytes
  rw [not_positive_iff] at cpu
  rw [not_moved_iff] at read write
  constructor
  · intro unused
    refine ⟨cpu.mp (congrArg Deltas.cpu unused), ?_⟩
    rw [or_and_left]
    exact ⟨read.mp (congrArg Deltas.read unused), write.mp (congrArg Deltas.write unused)⟩
  · intro short
    have io := or_and_left.mp short.io
    rw [deltasFrom, Deltas.unused, Deltas.mk.injEq]
    exact ⟨cpu.mpr short.cpu, read.mpr io.1, write.mpr io.2⟩

section

variable (statics : Statics) (first second : Sample × ProcSnapshot) {row : ProcEntry}

theorem deltas_of_old (scanned : Scanned first.2) (apart : 0.01 < elapsedSeconds second.1.now first.1.now)
    {old : ProcEntry} (mem : old ∈ first.2.entries) (same : old.pid = row.pid) :
    deltas (fillRates statics first.1 first.2).1 second.1.now row =
    if first.1.now.sec ≠ 0 then deltasFrom old.cpuTicks (old.ioReadBytes, old.ioWriteBytes) row else .unused := by
  have ticks := previous_ticks statics first.1 scanned row.pid
  have io := previous_io statics first.1 scanned row.pid
  rw [← same, latched_row _ _ _ scanned.distinct old mem] at ticks io
  rw [deltas, ← same, cpuHtGet, ticks, ioHtGet, io]
  refine if_congr ⟨fun measured => measured.2.1, fun started => ⟨rfl, started, apart⟩⟩ rfl rfl

theorem deltas_of_new (scanned : Scanned first.2) (absent : ∀ old ∈ first.2.entries, old.pid ≠ row.pid) :
    deltas (fillRates statics first.1 first.2).1 second.1.now row = .unused := by
  have ticks := previous_ticks statics first.1 scanned row.pid
  have io := previous_io statics first.1 scanned row.pid
  rw [latched_absent absent] at ticks io
  rw [deltas, cpuHtGet, ticks, ioHtGet, io]
  split
  · rfl
  · rfl

theorem own_counters_iff (scanned : Scanned first.2) (apart : 0.01 < elapsedSeconds second.1.now first.1.now)
    (row : ProcEntry) : OwnCounters first.2.entries row (deltas (fillRates statics first.1 first.2).1 second.1.now row) ↔
    Telling (first.1.now.sec ≠ 0) first.2.entries row := by
  by_cases present : ∃ old ∈ first.2.entries, old.pid = row.pid
  · obtain ⟨old, mem, same⟩ := present
    have only (other : ProcEntry) (listed : other ∈ first.2.entries) (equal : other.pid = row.pid) : other = old :=
      inj_on_of_nodup_map scanned.distinct listed mem (equal.trans same.symm)
    rw [deltas_of_old statics first second scanned apart mem same]
    constructor
    · intro own
      refine ⟨fun other listed equal process grew => ?_, fun other listed equal process started => ?_⟩
      · obtain rfl := only other listed equal
        exact (exact_iff other row grew).mp (own.same other listed equal process grew)
      · obtain rfl := only other listed equal
        have unused := own.other fun third found pids => (only third found pids).symm ▸ process
        rw [if_pos started] at unused
        exact (unused_from_iff other row).mp unused
    · intro telling
      refine ⟨fun other listed equal process grew => ?_, fun different => ?_⟩
      · obtain rfl := only other listed equal
        exact (exact_iff other row grew).mpr (telling.same other listed equal process grew)
      · by_cases started : first.1.now.sec ≠ 0
        · rw [if_pos started]
          exact (unused_from_iff old row).mpr (telling.other old mem same (different old mem same) started)
        · rw [if_neg started]
  · have absent (old : ProcEntry) (mem : old ∈ first.2.entries) : old.pid ≠ row.pid :=
      fun same => present ⟨old, mem, same⟩
    rw [deltas_of_new statics first second scanned absent]
    constructor
    · intro _
      exact ⟨fun old mem same => absurd same (absent old mem), fun old mem same => absurd same (absent old mem)⟩
    · intro _
      exact ⟨fun old mem same => absurd same (absent old mem), fun _ => rfl⟩

theorem rates_from_own_counters_iff (scanned : Scanned first.2) (apart : 0.01 < elapsedSeconds second.1.now first.1.now) :
    (rateRows (fillRates statics first.1 first.2).1 second.1.now second.1.numCpus second.1.clkTck second.2.entries =
        second.2.entries.map fun row =>
          ratedBy (elapsedSeconds second.1.now first.1.now)
            (totalTicks (elapsedSeconds second.1.now first.1.now) second.1.clkTck second.1.numCpus)
            (deltas (fillRates statics first.1 first.2).1 second.1.now row) row) ∧
      ∀ row ∈ second.2.entries,
        OwnCounters first.2.entries row (deltas (fillRates statics first.1 first.2).1 second.1.now row) ↔
          Telling (first.1.now.sec ≠ 0) first.2.entries row :=
  ⟨rate_rows_deltas _ _ _ _ _, fun row _ => own_counters_iff statics first second scanned apart row⟩

def usingRow (pid : Int32) (start ticks read : UInt64) : ProcEntry :=
  { plainRow pid ticks with startTicks := start, ioReadBytes := read }

theorem rates_from_own_counters_iff_busy : OwnCounters [usingRow 7 1 5 10] (usingRow 7 1 8 30)
      (deltas (fillRates staticsInit (scanOf firstScan []).1 { entries := [usingRow 7 1 5 10] }).1 secondScan
        (usingRow 7 1 8 30)) := by
  have scanned : Scanned { entries := [usingRow 7 1 5 10] } := ⟨by decide, by decide, by decide⟩
  have both := rates_from_own_counters_iff staticsInit ((scanOf firstScan []).1, { entries := [usingRow 7 1 5 10] })
    (scanOf secondScan [usingRow 7 1 8 30]) scanned (by decide +kernel)
  refine (both.2 (usingRow 7 1 8 30) mem_cons_self).mpr ⟨fun old mem _ _ _ => ?_, fun old mem _ other => ?_⟩
  · obtain rfl := mem_singleton.mp mem
    exact ⟨by decide, by decide⟩
  · obtain rfl := mem_singleton.mp mem
    exact absurd rfl other

theorem rates_from_wrong_counters :
    Scanned { entries := [usingRow 7 1 0 0, usingRow 9 1 5 10] } ∧ 0.01 < elapsedSeconds secondScan firstScan ∧
      ¬ OwnCounters [usingRow 7 1 0 0, usingRow 9 1 5 10] (usingRow 7 1 3 20)
        (deltas (fillRates staticsInit (scanOf firstScan []).1 { entries := [usingRow 7 1 0 0, usingRow 9 1 5 10] }).1
          secondScan (usingRow 7 1 3 20)) ∧
      ¬ OwnCounters [usingRow 7 1 0 0, usingRow 9 1 5 10] (usingRow 9 2 6 20)
        (deltas (fillRates staticsInit (scanOf firstScan []).1 { entries := [usingRow 7 1 0 0, usingRow 9 1 5 10] }).1
          secondScan (usingRow 9 2 6 20)) := by
  have scanned : Scanned { entries := [usingRow 7 1 0 0, usingRow 9 1 5 10] } := ⟨by decide, by decide, by decide⟩
  refine ⟨scanned, by decide +kernel, fun own => ?_, fun own => ?_⟩
  · have exact := own.same _ mem_cons_self rfl rfl ⟨by decide, by decide, by decide⟩
    exact absurd exact.cpu (by decide +kernel)
  · have unused := own.other (by decide)
    exact absurd (congrArg Deltas.cpu unused) (by decide +kernel)

end

end Evemon.Monitor
