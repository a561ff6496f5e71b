import Evemon.Lib.CText
import Evemon.SnapshotRows
import Evemon.Utf8Sanitize

namespace Evemon.Monitor

open CText

-- What the reads of one PID directory give, in the order of the scan. Each file is opened
-- on its own, so the process may be gone, or be another one, from one read to the next.
structure Reads where
  ppidStatus : Option Text
  comm : Option Text
  -- The bytes fread left in the buffer, none where the file or the buffer could not be had.
  cmdline : Option Text := none
  userStatus : Option Text := none
  passwd : UInt32 → Option Text := fun _ => none
  cwd : Option Text := none
  longCwd : Option Text := none
  rssStatus : Option Text := none
  cpuStat : Option Text := none
  io : Option Text := none
  bootTime : UInt64 := 0
  startStat : Option Text := none
  clockTicks : Int64 := 100
  container : Text := []
  unit : Text := []
  nameGranted : Bool := true
  cmdGranted : Bool := true
  userGranted : Bool := true
  cwdGranted : Bool := true
  containerGranted : Bool := true
  serviceGranted : Bool := true

def procNameMax : Nat := 256

def ppidLabel : Text := [80, 80, 105, 100, 58]
def uidLabel : Text := [85, 105, 100, 58]
def rssLabel : Text := [86, 109, 82, 83, 83, 58]
def readBytesLabel : Text := [114, 101, 97, 100, 95, 98, 121, 116, 101, 115, 58]
def writeBytesLabel : Text := [119, 114, 105, 116, 101, 95, 98, 121, 116, 101, 115, 58]

def statusField (label : Text) (status : Option Text) : Option Text :=
  status.bind fun file => labelled label (fileLines 256 file)

def readPpid (status : Option Text) : Int32 :=
  match statusField ppidLabel status with
  | none => -1
  | some value => atoi value

def stripNewline (line : Text) : Text := if line.getLast? = some 10 then line.dropLast else line

def readComm (comm : Option Text) : Option Text :=
  (comm.bind (fgets procNameMax)).map stripNewline

-- The NULs between the arguments become blanks; the last byte stays as it is.
def spaceNuls : Text → Text
  | [] => []
  | [last] => [last]
  | byte :: rest => (if byte = 0 then 32 else byte) :: spaceNuls rest

def commandText (cmdline : Option Text) (comm : Text) : Text :=
  match cmdline with
  | none | some [] => if comm = [] then [] else [91] ++ comm ++ [93]
  | some (byte :: rest) => Utf8.utf8Sanitize (cString (spaceNuls (byte :: rest)))

def readUser (status : Option Text) (passwd : UInt32 → Option Text) : Option Text :=
  match statusField uidLabel status with
  | none => none
  | some value =>
    let uid := (atoi value).toUInt32
    if uid = 4294967295 then none
    else
      match passwd uid with
      | some name => some ((cString name).take 63)
      | none => some (decimal uid.toNat)

-- A link that fills the buffer of 4095 bytes is read again into a larger one.
def cwdText (cwd longCwd : Option Text) : Text :=
  match cwd with
  | none => []
  | some path =>
    if path.length < 4095 then cString path
    else cString (longCwd.getD path)

def readRss (status : Option Text) : UInt64 :=
  match statusField rssLabel status with
  | none => 0
  | some value => (strtol value).toUInt64

def statFields (stat : Option Text) (skipped : Nat) (wanted : List Conversion) : List UInt64 :=
  match (stat.bind (fgets 1024)).bind (afterLast 41) with
  | none => []
  | some fields => sscanf (.skipChar :: List.replicate skipped .skipNumber ++ wanted) fields

def readCpuTicks (stat : Option Text) : UInt64 :=
  match statFields stat 10 [.unsignedLong, .unsignedLong] with
  | [utime, stime] => utime + stime
  | _ => 0

def ioLoop : List Text → Nat → UInt64 → UInt64 → Nat × UInt64 × UInt64
  | [], found, rd, wr => (found, rd, wr)
  | line :: rest, found, rd, wr =>
    let next :=
      if readBytesLabel.isPrefixOf line then (found + 1, strtoull (line.drop 11), wr)
      else if writeBytesLabel.isPrefixOf line then (found + 1, rd, strtoull (line.drop 12))
      else (found, rd, wr)
    if next.1 = 2 then next else ioLoop rest next.1 next.2.1 next.2.2

def readIoBytes (io : Option Text) : UInt64 × UInt64 :=
  match io with
  | none => (0, 0)
  | some file =>
    let result := ioLoop (fileLines 128 file) 0 0 0
    if result.1 = 2 then result.2 else (0, 0)

def positiveOr (value fallback : Int64) : UInt64 := (if value < 1 then fallback else value).toUInt64

def readStartTime (bootTime : UInt64) (stat : Option Text) (clockTicks : Int64) : UInt64 × UInt64 :=
  if bootTime = 0 then (0, 0)
  else
    match statFields stat 18 [.unsignedLong] with
    | [starttime] => (bootTime + starttime / positiveOr clockTicks 100, starttime)
    | _ => (0, 0)

def serviceText (ppid : Int32) (unit : Text) : Text := if ppid = 0 ∨ ppid = 1 then unit else []

def strLen (text : Text) : UInt16 := UInt16.ofNat text.length

-- One turn of the directory loop. A process without a comm has vanished and leaves no row.
def scanRow (snap : ProcSnapshot) (pid : Int32) (reads : Reads) : Option ProcSnapshot :=
  match readComm reads.comm with
  | none => none
  | some comm =>
    let ppid := readPpid reads.ppidStatus
    let name := strtabPush snap.strtab comm reads.nameGranted
    let cmd := strtabPush name.1 (commandText reads.cmdline comm) reads.cmdGranted
    let userName := (readUser reads.userStatus reads.passwd).getD [63]
    let user := strtabPush cmd.1 userName reads.userGranted
    let cwd := strtabPush user.1 (cwdText reads.cwd reads.longCwd) reads.cwdGranted
    let container := strtabPush cwd.1 (cString reads.container) reads.containerGranted
    let unit := serviceText ppid (cString reads.unit)
    let service := strtabPush container.1 unit reads.serviceGranted
    let bytes := readIoBytes reads.io
    let started := readStartTime reads.bootTime reads.startStat reads.clockTicks
    let row : ProcEntry := {
      pid, ppid
      name := ⟨name.2, strLen comm⟩
      cmd := ⟨cmd.2, strLen (procStr cmd.1 cmd.2)⟩
      user := ⟨user.2, strLen userName⟩
      cwd := ⟨cwd.2, strLen (procStr cwd.1 cwd.2)⟩
      container := ⟨container.2, strLen (cString reads.container)⟩
      service := ⟨service.2, strLen unit⟩
      memRssKb := readRss reads.rssStatus
      cpuTicks := readCpuTicks reads.cpuStat
      startTime := started.1, startTicks := started.2
      ioReadBytes := bytes.1, ioWriteBytes := bytes.2
      extraIdx := uint32Max }
    some { snap with entries := snap.entries ++ [row], strtab := service.1 }

structure FreshRow (pid : Int32) (row : ProcEntry) : Prop where
  pid : row.pid = pid
  cpuPercent : row.cpuPercent = Float32.ofBits 0
  ioReadRate : row.ioReadRate = Float32.ofBits 0
  ioWriteRate : row.ioWriteRate = Float32.ofBits 0
  historyCount : row.ioHistoryCount = 0
  history : row.ioHistory = .replicate ioHistoryLen (Float32.ofBits 0)
  extraIdx : row.extraIdx = uint32Max

theorem scan_row_cases {snap next} {pid} {reads}
    (scanned : scanRow snap pid reads = some next) : ∃ row, FreshRow pid row ∧ next.entries = snap.entries ++ [row] := by
  unfold scanRow at scanned
  cases comm : readComm reads.comm with
  | none =>
    rw [comm] at scanned
    cases scanned
  | some text =>
    rw [comm] at scanned
    obtain rfl := Option.some.inj scanned
    exact ⟨_, ⟨rfl, rfl, rfl, rfl, rfl, rfl, rfl⟩, rfl⟩

end Evemon.Monitor
