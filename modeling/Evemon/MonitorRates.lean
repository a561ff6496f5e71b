import Evemon.Lib.ProbeTable
import Evemon.ProcReads

namespace Evemon.Monitor

open FloatFormat (narrow)
open ProbeTable (Table locate find store retain)

def cpuHtSize : Nat := 8192

def home (pid : Int32) : Fin cpuHtSize := ⟨pid.toUInt32.toNat % cpuHtSize, Nat.mod_lt _ (by decide)⟩

def cpuHtGet (table : Table cpuHtSize Int32 UInt64) (pid : Int32) : UInt64 := (find home table pid).getD 0

def cpuHtSet (table : Table cpuHtSize Int32 UInt64) (pid : Int32) (ticks : UInt64) : Table cpuHtSize Int32 UInt64 :=
  store home table pid ticks

def ioHtGet (table : Table cpuHtSize Int32 (UInt64 × UInt64)) (pid : Int32) : UInt64 × UInt64 :=
  (find home table pid).getD (0, 0)

def ioHtSet (table : Table cpuHtSize Int32 (UInt64 × UInt64)) (pid : Int32) (bytes : UInt64 × UInt64) :
    Table cpuHtSize Int32 (UInt64 × UInt64) := store home table pid bytes

structure IoHist where
  samples : List.Vector Float32 ioHistoryLen
  count : Nat
  bounded : count ≤ ioHistoryLen

def IoHist.fresh : IoHist := ⟨.replicate ioHistoryLen (Float32.ofBits 0), 0, Nat.zero_le _⟩

def ioHistPush (hist : IoHist) (value : Float32) : IoHist :=
  if full : ioHistoryLen ≤ hist.count then
    { hist with samples := ⟨hist.samples.toList.tail ++ [value], by
        simp only [List.length_append, List.length_tail, List.Vector.toList_length]
        rfl⟩ }
  else
    { samples := ⟨hist.samples.toList.set hist.count value, by simp⟩
      count := hist.count + 1
      bounded := by omega }

def copySamples (hist : IoHist) (row : List.Vector Float32 ioHistoryLen) : List.Vector Float32 ioHistoryLen :=
  ⟨hist.samples.toList.take hist.count ++ row.toList.drop hist.count, by
    have bounded := hist.bounded
    simp only [List.length_append, List.length_take, List.length_drop, List.Vector.toList_length]
    omega⟩

def historyRow (table : Table cpuHtSize Int32 IoHist) (row : ProcEntry) :
    Table cpuHtSize Int32 IoHist × ProcEntry :=
  match locate home table row.pid with
  | none => (table, { row with ioHistoryCount := 0 })
  | some slot =>
    let hist := ((table slot).map Prod.snd).getD .fresh
    let pushed := ioHistPush hist (row.ioReadRate + row.ioWriteRate)
    (Function.update table slot (some (row.pid, pushed)),
      { row with
        ioHistoryCount := UInt8.ofNat pushed.count
        ioHistory := copySamples pushed row.ioHistory })

def historyRows (table : Table cpuHtSize Int32 IoHist) :
    List ProcEntry → Table cpuHtSize Int32 IoHist × List ProcEntry
  | [] => (table, [])
  | row :: rest =>
    let first := historyRow table row
    let others := historyRows first.1 rest
    (others.1, first.2 :: others.2)

structure Statics where
  prevTicks : Table cpuHtSize Int32 UInt64
  prevIo : Table cpuHtSize Int32 (UInt64 × UInt64)
  ioHistory : Table cpuHtSize Int32 IoHist
  prevValid : Bool
  prevTs : Timespec

def staticsInit : Statics where
  prevTicks := ProbeTable.empty
  prevIo := ProbeTable.empty
  ioHistory := ProbeTable.empty
  prevValid := false
  prevTs := .seconds 0

def elapsedSeconds (now prev : Timespec) : Float :=
  Float.ofInt ((now.sec.toNat : Int) - prev.sec.toNat) +
    Float.ofInt ((now.nsec.toNat : Int) - prev.nsec.toNat) / 1000000000.0

def cpuPercent (delta : UInt64) (totalTicks : Float) : Float32 := narrow (delta.toFloat / totalTicks * 100.0)

def byteRate (delta : UInt64) (elapsed : Float) : Float32 := narrow (delta.toFloat / elapsed)

def rateRow (statics : Statics) (elapsed totalTicks : Float) (row : ProcEntry) : ProcEntry :=
  let prev := cpuHtGet statics.prevTicks row.pid
  let prevIo := ioHtGet statics.prevIo row.pid
  let moved := decide (0 < prevIo.1) || decide (0 < prevIo.2)
  { row with
    cpuPercent :=
      if 0 < prev ∧ prev ≤ row.cpuTicks then cpuPercent (row.cpuTicks - prev) totalTicks else row.cpuPercent
    ioReadRate :=
      if moved ∧ prevIo.1 ≤ row.ioReadBytes then byteRate (row.ioReadBytes - prevIo.1) elapsed else row.ioReadRate
    ioWriteRate :=
      if moved ∧ prevIo.2 ≤ row.ioWriteBytes then byteRate (row.ioWriteBytes - prevIo.2) elapsed
      else row.ioWriteRate }

def rateRows (statics : Statics) (now : Timespec) (numCpus clkTck : Int64) (rows : List ProcEntry) :
    List ProcEntry :=
  let elapsed := elapsedSeconds now statics.prevTs
  let totalTicks := elapsed * (positiveOr clkTck 100).toFloat * (positiveOr numCpus 1).toFloat
  if statics.prevValid = true ∧ statics.prevTs.sec ≠ 0 ∧ 0.01 < elapsed then
    rows.map (rateRow statics elapsed totalTicks)
  else rows

def latchTicks (rows : List ProcEntry) : Table cpuHtSize Int32 UInt64 :=
  rows.foldl (fun table row => cpuHtSet table row.pid row.cpuTicks) ProbeTable.empty

def latchIo (rows : List ProcEntry) : Table cpuHtSize Int32 (UInt64 × UInt64) :=
  rows.foldl (fun table row => ioHtSet table row.pid (row.ioReadBytes, row.ioWriteBytes)) ProbeTable.empty

-- A process that is gone, or that has used no tick yet, loses its history.
def collectStale (ticks : Table cpuHtSize Int32 UInt64) (history : Table cpuHtSize Int32 IoHist) :
    Table cpuHtSize Int32 IoHist :=
  retain (fun pid => decide (cpuHtGet ticks pid ≠ 0) || decide (pid = 0)) history

def netRow (net : Option (Int32 → UInt64 × UInt64)) (row : ProcEntry) : ProcEntry :=
  match net with
  | none => row
  | some counters => { row with netSendBytes := (counters row.pid).1, netRecvBytes := (counters row.pid).2 }

structure Sample where
  now : Timespec
  numCpus : Int64
  clkTck : Int64
  net : Option (Int32 → UInt64 × UInt64)

def fillRates (statics : Statics) (sample : Sample) (snap : ProcSnapshot) : Statics × ProcSnapshot :=
  let rated := rateRows statics sample.now sample.numCpus sample.clkTck snap.entries
  let ticks := latchTicks rated
  let filled := historyRows (collectStale ticks statics.ioHistory) rated
  ({ prevTicks := ticks, prevIo := latchIo rated, ioHistory := filled.1, prevValid := true, prevTs := sample.now },
    { snap with entries := filled.2.map (netRow sample.net) })

end Evemon.Monitor
