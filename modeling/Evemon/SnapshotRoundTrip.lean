import Evemon.SnapshotRows

namespace Evemon.Ipc

open Prog BigEndian List UInt32 FloatFormat UInt16
open FloatFormat (widen)

def loadBytes (load : List Finite) : Bytes := load.flatMap fun value => encode64 value.val.toBits

def systemBytes (system : MonitorSystem) : Bytes :=
  encode64 system.uptimeSeconds ++ (encode64 system.memoryTotal ++ (encode64 system.memoryFree ++
    (encode64 system.memoryAvailable ++ (loadBytes system.load.toList ++
      (encode32 system.cpus ++ (encode32 system.users ++ encode32 system.fdmonBackend))))))

variable {system : MonitorSystem}

theorem put_system_puts : Puts (putSystem system) (systemBytes system) := by
  iterate 4 apply emits_bind ipc_put_u64_puts
  apply emits_bind (emits_for_m (fun value => ipc_put_f64_puts) _)
  apply emits_bind (ipc_put_u32_puts _)
  exact emits_bind (ipc_put_u32_puts _) (ipc_put_u32_puts _)

theorem get_loads_consumes (count : Nat) {load : List.Vector Finite count} :
    Consumes Unread (getLoads count) (loadBytes load.toList) (· = load) := by
  induction count with
  | zero =>
    rw [load.eq_nil]
    exact consumes_pure _ rfl
  | succ count ih =>
    obtain ⟨value, rest, rfl⟩ := load.exists_eq_cons
    rw [List.Vector.toList_cons]
    exact consumes_value (ipc_get_f64_consumes value) (consumes_last ih fun _ same => by rw [same])

theorem get_system_consumes : Consumes Unread getSystem (systemBytes system) (· = system) := by
  iterate 4 refine consumes_value ipc_get_u64_consumes ?_
  refine consumes_value (get_loads_consumes 3) ?_
  iterate 2 refine consumes_value (ipc_get_u32_consumes _) ?_
  exact consumes_last (ipc_get_u32_consumes _) fun _ same => by rw [same]

def steamFieldBytes (s : SteamInfo) : Bytes :=
  encode32 s.isSteam.toUInt32 ++ (encode32 s.isWine.toUInt32 ++ (stringBytes s.appId.bytes ++
    (stringBytes s.gameName.bytes ++ (stringBytes s.protonVersion.bytes ++ (stringBytes s.protonDist.bytes ++
      (stringBytes s.compatData.bytes ++ (stringBytes s.gameDir.bytes ++ (stringBytes s.runtimeLayer.bytes ++
        stringBytes s.displayLabel.bytes))))))))

def steamBytes : Option SteamInfo → Bytes
  | none => encode32 0
  | some s => encode32 1 ++ steamFieldBytes s

variable (rows : List Row) (snap : ProcSnapshot) (p : ProcEntry) (tab : StrTab) (steam : Option SteamInfo) (row : Row)
  (state : MonitorState) (copy : ProcSnapshot)

theorem put_steam_puts : Puts (putSteam steam) (steamBytes steam) := by
  cases steam with
  | none => exact ipc_put_u32_puts 0
  | some s =>
    iterate 3 apply emits_bind (ipc_put_u32_puts _)
    iterate 6 apply emits_bind (ipc_put_string_puts _)
    exact emits_bind (ipc_put_string_puts _) (ipc_put_string_puts _)

theorem get_steam_fields_consumes (s : SteamInfo) : Consumes Unread getSteamFields (steamFieldBytes s) (· = s) := by
  iterate 2 refine consumes_value (ipc_get_u32_consumes _) ?_
  refine consumes_value (ipc_get_fixed_consumes 32 _ (by decide) (by decide)) ?_
  refine consumes_value (ipc_get_fixed_consumes 256 _ (by decide) (by decide)) ?_
  refine consumes_value (ipc_get_fixed_consumes 128 _ (by decide) (by decide)) ?_
  iterate 3 refine consumes_value (ipc_get_fixed_consumes 1024 _ (by decide) (by decide)) ?_
  refine consumes_value (ipc_get_fixed_consumes 128 _ (by decide) (by decide)) ?_
  refine consumes_last (ipc_get_fixed_consumes 256 s.displayLabel (by decide) (by decide)) fun _ same => ?_
  rw [same]
  rfl

theorem get_steam_consumes : Consumes Unread getSteam (steamBytes steam) (· = steam) := by
  cases steam with
  | none =>
    rw [steamBytes, ← append_nil (encode32 0)]
    refine consumes_value (ipc_get_u32_consumes _) ?_
    refine consumes_skip (reject_if_consumes (by decide)) ?_
    exact consumes_skip has_error_consumes (consumes_pure _ rfl)
  | some s =>
    refine consumes_value (ipc_get_u32_consumes _) ?_
    refine consumes_skip (reject_if_consumes (by decide)) ?_
    refine consumes_skip has_error_consumes ?_
    refine consumes_skip malloc_consumes ?_
    exact consumes_last (get_steam_fields_consumes s) fun _ same => by rw [same]

theorem get_float_consumes {value : Float32} (finite : value.isFinite) :
    Consumes Unread getFloat (encode64 (widen value).toBits) (· = value) := by
  rw [← append_nil (encode64 (widen value).toBits)]
  refine consumes_value (ipc_get_f64_consumes ⟨widen value, widen_finite finite⟩) ?_
  rw [if_neg (widen_le_flt_max finite)]
  exact consumes_pure _ (narrow_widen finite)

def historyBytes (history : List Float32) : Bytes := history.flatMap fun value => encode64 (widen value).toBits

theorem get_history_consumes {count : Nat} {history : List.Vector Float32 count}
    (finite : ∀ value ∈ history.toList, value.isFinite) :
    Consumes Unread (getHistory count) (historyBytes history.toList) (· = history) := by
  induction count with
  | zero =>
    rw [history.eq_nil]
    exact consumes_pure _ rfl
  | succ count ih =>
    obtain ⟨value, rest, rfl⟩ := history.exists_eq_cons
    rw [List.Vector.toList_cons] at finite ⊢
    have first := finite value mem_cons_self
    have others := fun other mem => finite other (mem_cons_of_mem _ mem)
    exact consumes_value (get_float_consumes first) (consumes_last (ih others) fun _ same => by rw [same])

structure StrRead (tab : StrTab) (s : Bytes) (result : StrTab × StrRef) : Prop where
  terminated : Terminated result.1
  grown : Extends tab result.1
  holds : Holds result.1 result.2 s
  size : result.1.buf.length ≤ tab.buf.length + s.length + 1

theorem push_string_consumes (s : Bytes) : Consumes Unread (pushString tab s) [] (· = strtabPush tab s true) := by
  unfold pushString
  by_cases grows : strtabGrows tab s
  · rw [if_pos grows]
    exact consumes_skip malloc_consumes (consumes_pure _ rfl)
  · rw [if_neg grows]
    exact consumes_pure _ rfl

theorem get_str_consumes {s : Bytes} (terminated : Terminated tab) (nulFree : 0 ∉ s)
    (room : tab.buf.length + s.length + 1 ≤ uint32Max) : Consumes Unread (getStr tab) (stringBytes s) (StrRead tab s) := by
  have fits : s.length < 2 ^ 32 := by
    unfold uint32Max at room
    omega
  obtain ⟨ends, grown, holds, sentinel, size⟩ :=
    strtab_push_holds (UInt16.ofNat (min s.length 65535)) terminated nulFree room
  rw [← append_nil (stringBytes s)]
  refine consumes_value (ipc_get_string_consumes s fits nulFree) ?_
  refine consumes_skip (push_string_consumes tab s) ?_
  have stored : decide (s.length ≠ 0 ∧ (strtabPush tab s true).2 = 0) = false := by
    simp only [decide_eq_false_iff_not, not_and]
    exact fun some none => some (sentinel none)
  refine consumes_skip (reject_if_consumes stored) ?_
  exact consumes_pure _ ⟨ends, grown, holds, size⟩

def rowBytes (row : Row) : Bytes :=
  encode32 row.pid.toUInt32 ++ (encode32 row.ppid.toUInt32 ++ (encode64 row.memRssKb ++ (encode64 row.cpuTicks ++
    (encode64 row.startTime ++ (encode64 row.startTicks ++ (encode64 row.evemonInstance ++
      (encode64 row.ioReadBytes ++ (encode64 row.ioWriteBytes ++ (encode64 row.netSendBytes ++
        (encode64 row.netRecvBytes ++ (encode64 (widen row.cpuPercent).toBits ++
          (encode64 (widen row.ioReadRate).toBits ++ (encode64 (widen row.ioWriteRate).toBits ++
            (encode32 row.ioHistoryCount.toUInt32 ++ (encode32 row.flags.toUInt32 ++
              (historyBytes row.ioHistory.toList ++ (stringBytes row.name ++ (stringBytes row.cmd ++
                (stringBytes row.user ++ (stringBytes row.cwd ++ (stringBytes row.container ++
                  (stringBytes row.service ++ steamBytes row.steam))))))))))))))))))))))

theorem put_row_puts : Puts (putRow snap p) (rowBytes (snap.row p)) := by
  iterate 2 apply emits_bind (ipc_put_u32_puts _)
  iterate 9 apply emits_bind ipc_put_u64_puts
  iterate 3 apply emits_bind ipc_put_f64_puts
  iterate 2 apply emits_bind (ipc_put_u32_puts _)
  apply emits_bind (emits_for_m (fun value => ipc_put_f64_puts) _)
  iterate 5 apply emits_bind (ipc_put_string_puts _)
  exact emits_bind (ipc_put_string_puts _) (put_steam_puts _)

-- The rows the service may send: what the protocol allows in one row.
structure RowValid (row : Row) : Prop where
  pid : 0 < row.pid
  ppid : 0 ≤ row.ppid
  historyCount : row.ioHistoryCount.toNat ≤ ioHistoryLen
  cpuPercent : row.cpuPercent.isFinite = true
  ioReadRate : row.ioReadRate.isFinite = true
  ioWriteRate : row.ioWriteRate.isFinite = true
  history : ∀ value ∈ row.ioHistory.toList, value.isFinite = true

structure RowNulFree (row : Row) : Prop where
  name : 0 ∉ row.name
  cmd : 0 ∉ row.cmd
  user : 0 ∉ row.user
  cwd : 0 ∉ row.cwd
  container : 0 ∉ row.container
  service : 0 ∉ row.service

structure RowAdded (snap : ProcSnapshot) (row : Row) (next : ProcSnapshot) : Prop where
  sound : Sound next
  rows : next.rows = snap.rows ++ [row]
  count : next.entries.length = snap.entries.length + 1
  size : next.strtab.buf.length ≤ snap.strtab.buf.length + (rowBytes row).length

theorem row_bytes_length : (rowBytes row).length = 136 + (historyBytes row.ioHistory.toList).length +
    row.name.length + row.cmd.length + row.user.length + row.cwd.length + row.container.length +
    row.service.length + (steamBytes row.steam).length := by
  simp only [rowBytes, length_append, encode32_length, encode64_length, string_bytes_length]
  omega

def withSteam (snap : ProcSnapshot) (steam : Option SteamInfo) : List (Option SteamInfo) :=
  if steam.isSome then snap.extras ++ [steam] else snap.extras

variable {entries : List ProcEntry}

theorem new_row_steam {tab : StrTab} {steam : Option SteamInfo} (few : snap.extras.length < uint32Max)
    (index : p.extraIdx = if steam.isSome then snap.extras.length else uint32Max) :
    ({ entries := entries, strtab := tab, extras := withSteam snap steam } : ProcSnapshot).steam p = steam := by
  unfold ProcSnapshot.steam withSteam
  rw [index]
  cases steam with
  | none => simp [List.getElem?_eq_none few.le]
  | some s => simp

theorem with_steam_grows (snap : ProcSnapshot) (steam : Option SteamInfo) :
    ∃ more, withSteam snap steam = snap.extras ++ more ∧ more.length ≤ 1 ∧
    (withSteam snap steam).length = snap.extras.length + more.length := by
  cases steam with
  | none => exact ⟨[], by simp [withSteam]⟩
  | some s => exact ⟨[some s], by simp [withSteam]⟩

theorem with_steam_indexed {steam : Option SteamInfo}
    (indexed : ∀ q ∈ snap.entries, q.extraIdx < snap.extras.length ∨ q.extraIdx = uint32Max)
    (index : p.extraIdx = if steam.isSome then snap.extras.length else uint32Max) :
    ∀ q ∈ snap.entries ++ [p], q.extraIdx < (withSteam snap steam).length ∨ q.extraIdx = uint32Max := by
  intro q mem
  rcases mem_append.mp mem with old | _ | ⟨_, ⟨⟩⟩
  · obtain ⟨more, _, _, length⟩ := with_steam_grows snap steam
    exact (indexed q old).imp_left (by omega)
  · rw [index]
    cases steam with
    | none => exact .inr rfl
    | some s => exact .inl (by simp [withSteam])

theorem row_added (sound : Sound snap) (few : snap.entries.length < uint32Max) (terminated : Terminated tab)
    (grown : Extends snap.strtab tab) (size : tab.buf.length ≤ snap.strtab.buf.length + (rowBytes row).length)
    (strings : ∀ ref ∈ p.refs, ref.off < tab.buf.length)
    (index : p.extraIdx = if steam.isSome then snap.extras.length else uint32Max)
    (shown : ({ entries := snap.entries ++ [p], strtab := tab, extras := withSteam snap steam } :
      ProcSnapshot).row p = row) :
    RowAdded snap row { entries := snap.entries ++ [p], strtab := tab, extras := withSteam snap steam } := by
  have fewExtras := sound.few
  obtain ⟨more, extras, short, length⟩ := with_steam_grows snap steam
  refine ⟨⟨terminated, ?_, with_steam_indexed snap p sound.indexed index, ?_⟩, ?_, by simp, size⟩
  · intro q mem ref listed
    rcases mem_append.mp mem with old | _ | ⟨_, ⟨⟩⟩
    · obtain ⟨tail, longer⟩ := grown
      have inside := sound.strings q old ref listed
      simp only [longer, length_append]
      omega
    · exact strings ref listed
  · simp only [length, length_append, length_singleton]
    omega
  · have kept := rows_extends snap { entries := snap.entries ++ [p], strtab := tab, extras := withSteam snap steam }
      more [p] sound rfl grown extras (by simp only [length]; omega)
    rw [kept, map_singleton, shown]

theorem int_fits {value : Int32} (natural : 0 ≤ value) : decide (value.toUInt32 > intMax) = false := by
  have same := Int32.toNat_toUInt32_of_le natural
  have bound := Int32.toNatClampNeg_lt value
  have limit : intMax.toNat = 2147483647 := rfl
  rw [decide_eq_false_iff_not, gt_iff_lt, UInt32.lt_iff_toNat_lt]
  omega

theorem pid_accepted (valid : RowValid row) :
    (row.pid.toUInt32 == 0 || decide (row.pid.toUInt32 > intMax) || decide (row.ppid.toUInt32 > intMax)) = false := by
  have natural : 0 ≤ row.pid := Int32.le_of_lt valid.pid
  have same := Int32.toNat_toUInt32_of_le natural
  have positive := (Int32.toNatClampNeg_pos_iff row.pid).mpr valid.pid
  have nonzero : (row.pid.toUInt32 == 0) = false := by
    rw [beq_eq_false_iff_ne]
    intro zero
    rw [zero, UInt32.toNat_zero] at same
    omega
  rw [nonzero, int_fits natural, int_fits valid.ppid]
  rfl

theorem history_accepted (valid : RowValid row) :
    (decide (row.ioHistoryCount.toUInt32.toNat > ioHistoryLen) || decide (row.flags.toUInt32 > 65535)) = false := by
  have count := valid.historyCount
  have flags := UInt16.toNat_lt row.flags
  simp only [Bool.or_eq_false_iff, decide_eq_false_iff_not, UInt8.toNat_toUInt32, gt_iff_lt,
    UInt32.lt_iff_toNat_lt, UInt16.toNat_toUInt32, UInt32.reduceToNat]
  omega

theorem get_row_consumes (sound : Sound snap) (valid : RowValid row)
    (nulFree : RowNulFree row) (room : snap.strtab.buf.length + (rowBytes row).length ≤ uint32Max)
    (few : snap.entries.length < uint32Max) : Consumes Unread (getRow snap) (rowBytes row) (RowAdded snap row) := by
  have length := row_bytes_length row
  iterate 2 refine consumes_value (ipc_get_u32_consumes _) ?_
  refine consumes_skip (reject_if_consumes (pid_accepted row valid)) ?_
  iterate 9 refine consumes_value ipc_get_u64_consumes ?_
  refine consumes_value (get_float_consumes valid.cpuPercent) ?_
  refine consumes_value (get_float_consumes valid.ioReadRate) ?_
  refine consumes_value (get_float_consumes valid.ioWriteRate) ?_
  iterate 2 refine consumes_value (ipc_get_u32_consumes _) ?_
  refine consumes_skip (reject_if_consumes (history_accepted row valid)) ?_
  refine consumes_value (get_history_consumes valid.history) ?_
  refine consumes_bind (get_str_consumes _ sound.terminated nulFree.name (by omega)) fun name atName => ?_
  have nameSize := atName.size
  refine consumes_bind (get_str_consumes _ atName.terminated nulFree.cmd (by omega)) fun cmd atCmd => ?_
  have cmdSize := atCmd.size
  refine consumes_bind (get_str_consumes _ atCmd.terminated nulFree.user (by omega)) fun user atUser => ?_
  have userSize := atUser.size
  refine consumes_bind (get_str_consumes _ atUser.terminated nulFree.cwd (by omega)) fun cwd atCwd => ?_
  have cwdSize := atCwd.size
  refine consumes_bind (get_str_consumes _ atCwd.terminated nulFree.container (by omega))
    fun container atContainer => ?_
  have containerSize := atContainer.size
  refine consumes_bind (get_str_consumes _ atContainer.terminated nulFree.service (by omega))
    fun service atService => ?_
  have serviceSize := atService.size
  refine consumes_last (get_steam_consumes row.steam) fun steam sameSteam => ?_
  subst sameSteam
  have fromCwd := extends_trans atContainer.grown atService.grown
  have fromUser := extends_trans atCwd.grown fromCwd
  have fromCmd := extends_trans atUser.grown fromUser
  have fromName := extends_trans atCmd.grown fromCmd
  have nameHeld := holds_extends atName.terminated fromName atName.holds
  have cmdHeld := holds_extends atCmd.terminated fromCmd atCmd.holds
  have userHeld := holds_extends atUser.terminated fromUser atUser.holds
  have cwdHeld := holds_extends atCwd.terminated fromCwd atCwd.holds
  have containerHeld := holds_extends atContainer.terminated atService.grown atContainer.holds
  refine row_added snap _ service.1 row.steam row sound few atService.terminated
    (extends_trans atName.grown fromName) (by omega) ?_ rfl ?_
  · simp only [ProcEntry.refs, mem_cons, not_mem_nil, or_false, forall_eq_or_imp, forall_eq]
    exact ⟨nameHeld.inside, cmdHeld.inside, userHeld.inside, cwdHeld.inside, containerHeld.inside, atService.holds.inside⟩
  · have fewExtras := sound.few
    simp only [ProcSnapshot.row, nameHeld.reads, cmdHeld.reads, userHeld.reads, cwdHeld.reads,
      containerHeld.reads, atService.holds.reads]
    rw [new_row_steam snap _ (by omega) rfl]
    simp only [UInt8.toUInt8_toUInt32, toUInt16_toUInt32]
    rfl

theorem history_bytes_length (history : List Float32) : (historyBytes history).length = 8 * history.length := by
  induction history with
  | nil => rfl
  | cons value rest ih =>
    simp only [historyBytes, flatMap_cons, length_append, encode64_length, length_cons] at ih ⊢
    omega

theorem row_bytes_min : 300 ≤ (rowBytes row).length := by
  have history : (historyBytes row.ioHistory.toList).length = 160 := by
    rw [history_bytes_length, List.Vector.toList_length]
    rfl
  have steam : 4 ≤ (steamBytes row.steam).length := by
    cases row.steam with
    | none | some s => simp [steamBytes]
  rw [row_bytes_length]
  omega

theorem rows_bytes_min : 300 * rows.length ≤ (rows.flatMap rowBytes).length := by
  induction rows with
  | nil => simp
  | cons row rest ih =>
    have least := row_bytes_min row
    rw [flatMap_cons, length_append, length_cons]
    omega

theorem get_rows_consumes (sound : Sound snap)
    (valid : ∀ row ∈ rows, RowValid row) (nulFree : ∀ row ∈ rows, RowNulFree row)
    (room : snap.strtab.buf.length + (rows.flatMap rowBytes).length ≤ uint32Max)
    (few : snap.entries.length + rows.length ≤ uint32Max) :
    Consumes Unread (getRows rows.length snap) (rows.flatMap rowBytes) (·.rows = snap.rows ++ rows) := by
  induction rows generalizing snap with
  | nil => exact consumes_pure _ (append_nil _).symm
  | cons row rest ih =>
    rw [flatMap_cons, length_append] at room
    rw [length_cons] at few
    refine consumes_skip has_error_consumes ?_
    refine consumes_bind (get_row_consumes snap row sound (valid row mem_cons_self)
      (nulFree row mem_cons_self) (by omega) (by omega)) fun next added => ?_
    have size := added.size
    have count := added.count
    have tail := ih next added.sound (fun other mem => valid other (mem_cons_of_mem _ mem))
      (fun other mem => nulFree other (mem_cons_of_mem _ mem)) (by omega) (by omega)
    simp only [added.rows, append_assoc, singleton_append] at tail
    exact tail

theorem rows_ahead (state : WireState) (later : Bytes) (available : Unread state (rows.flatMap rowBytes ++ later)) :
    300 * rows.length ≤ sizeSub state.buf.data.length state.buf.pos := by
  have least := rows_bytes_min rows
  rw [available.left_length, length_append]
  omega

theorem rows_counted {total : UInt32} {rows : List Row} {buf : IpcBuf} (whole : rows.length ≤ total.toNat)
    (count : (UInt32.ofNat rows.length).toNat = rows.length)
    (enough : 300 * rows.length ≤ sizeSub buf.data.length buf.pos) :
    (decide (UInt32.ofNat rows.length > total) || decide ((UInt32.ofNat rows.length).toNat >
    sizeSub buf.data.length buf.pos / 300)) = false := by
  simp only [Bool.or_eq_false_iff, decide_eq_false_iff_not, gt_iff_lt, UInt32.lt_iff_toNat_lt, count]
  omega

theorem decode_rows_consumes {total : UInt32} {rows : List Row} (whole : rows.length ≤ total.toNat)
    (valid : ∀ row ∈ rows, RowValid row) (nulFree : ∀ row ∈ rows, RowNulFree row)
    (room : (rows.flatMap rowBytes).length ≤ ipcLimit) :
    Consumes Unread (decodeRows total) (encode32 (UInt32.ofNat rows.length) ++ rows.flatMap rowBytes) (·.rows = rows) := by
  have least := rows_bytes_min rows
  have limit : ipcLimit = 33554432 := rfl
  have maximum : uint32Max = 4294967295 := rfl
  have count : (UInt32.ofNat rows.length).toNat = rows.length := toNat_ofNat_of_lt' (by
    rw [UInt32.size]
    omega)
  refine consumes_value (ipc_get_u32_consumes _) ?_
  refine consumes_inspect (rows_ahead rows) fun buf (enough : 300 * rows.length ≤ sizeSub buf.data.length buf.pos) => ?_
  refine consumes_skip (reject_if_consumes (rows_counted whole count enough)) ?_
  refine consumes_skip has_error_consumes ?_
  iterate 3 refine consumes_skip malloc_consumes ?_
  refine consumes_skip (reject_if_consumes rfl) ?_
  rw [count]
  exact get_rows_consumes rows _ (empty_sound (strtab_init_terminated 4096)) valid nulFree
    (by simp only [strtabInit, if_true, length_singleton]; omega) (by simp; omega)

def replyBytes (state : MonitorState) (sent : Timespec) (tail : Bytes) : Bytes :=
  encode64 state.generation ++ (encode64 state.sampledAt.ns ++ (encode32 state.intervalMs ++
    (encode32 state.snapshotComplete ++ (encode32 (UInt32.ofNat state.snapshot.entries.length) ++
      (systemBytes state.system ++ (encode64 sent.ns ++ tail))))))

def headerBytes (state : MonitorState) (sent : Timespec) : Bytes := replyBytes state sent []

def snapshotBytes (state : MonitorState) (sent : Timespec) (rows : List Row) : Bytes :=
  replyBytes state sent (encode32 (UInt32.ofNat rows.length) ++ rows.flatMap rowBytes)

variable {evemonInstance : UInt64}

theorem put_rows_puts : Puts (putRows copy evemonInstance entries)
    ((entries.map fun p => copy.row { p with evemonInstance }).flatMap rowBytes) := by
  induction entries with
  | nil => exact emits_pure
  | cons p rest ih =>
    rw [map_cons, flatMap_cons]
    exact puts_unless_failed (emits_bind (put_row_puts copy _) ih)

def sentRows (copy : ProcSnapshot) (evemonInstance : UInt64) : List Row :=
  copy.rows.map fun row => { row with evemonInstance }

theorem sent_rows_eq (evemonInstance : UInt64) :
    (copy.entries.map fun p => copy.row { p with evemonInstance }) = sentRows copy evemonInstance := by
  simp only [sentRows, ProcSnapshot.rows, map_map]
  rfl

theorem put_header_puts (type : UInt16) (copy : ProcSnapshot) (sent : Timespec)
    (tail : Bytes) (rest : Wire Unit) (puts : Puts rest tail)
    (shape : (if type = ipcStatus then pure () else do
      ipcPutU32 (UInt32.ofNat copy.entries.length)
      putRows copy state.evemonInstance copy.entries) = rest) :
    Puts (putSnapshot state type copy sent) (replyBytes state sent tail) := by
  iterate 2 apply emits_bind ipc_put_u64_puts
  iterate 3 apply emits_bind (ipc_put_u32_puts _)
  apply emits_bind put_system_puts
  apply emits_bind ipc_put_u64_puts
  rw [shape]
  exact puts

theorem put_snapshot_puts {type : UInt16} (copy : ProcSnapshot) (sent : Timespec) (rowed : type ≠ ipcStatus) :
    Puts (putSnapshot state type copy sent) (snapshotBytes state sent (sentRows copy state.evemonInstance)) := by
  have count : copy.entries.length = (sentRows copy state.evemonInstance).length := by
    simp [sentRows, ProcSnapshot.rows]
  refine put_header_puts state type copy sent _ _ ?_ (if_neg rowed)
  rw [count, ← sent_rows_eq]
  exact emits_bind (ipc_put_u32_puts _) (put_rows_puts copy)

theorem put_status_puts (sent : Timespec) : Puts (putSnapshot state ipcStatus copy sent) (headerBytes state sent) :=
  put_header_puts state ipcStatus copy sent [] (pure ()) emits_pure (if_pos rfl)

section

structure CopyInv (source : ProcSnapshot) (done : List ProcEntry) (copy : ProcSnapshot) : Prop where
  strings : copy.strtab.buf = source.strtab.buf
  count : copy.entries.length = done.length
  few : copy.extras.length ≤ copy.entries.length
  indexed : ∀ p ∈ copy.entries, p.extraIdx < copy.extras.length ∨ p.extraIdx = uint32Max
  rows : copy.entries.length ≤ uint32Max → copy.rows = done.map source.row

theorem row_same_strings {first second : ProcSnapshot} (p q : ProcEntry) (strings : first.strtab.buf = second.strtab.buf)
    (fields : q = { p with extraIdx := q.extraIdx }) (steam : first.steam q = second.steam p) :
    first.row q = second.row p := by
  have same : ∀ off, procStr first.strtab off = procStr second.strtab off := by
    intro off
    unfold procStr
    rw [strings]
  rw [fields] at steam ⊢
  simp only [ProcSnapshot.row, same, steam]

variable (source : ProcSnapshot) (pid : Int32) {done : List ProcEntry}

theorem copy_added {copy} (entry : ProcEntry) (inv : CopyInv source done copy) :
    CopyInv source (done ++ [entry]) { copy with
      entries := copy.entries ++ [{ entry with
        extraIdx := if (source.steam entry).isSome then copy.extras.length else uint32Max }]
      extras := withSteam copy (source.steam entry) } := by
  obtain ⟨more, extras, short, length⟩ := with_steam_grows copy (source.steam entry)
  have few := inv.few
  refine ⟨inv.strings, by simp [inv.count], ?_, with_steam_indexed copy _ inv.indexed rfl, ?_⟩
  · simp only [length, length_append, length_singleton]
    omega
  · intro bound
    simp only [length_append, length_singleton] at bound
    rw [ProcSnapshot.rows, map_append, map_append, map_singleton, map_singleton, ← inv.rows (by omega), ProcSnapshot.rows]
    congr 1
    · refine map_congr_left fun p mem => row_same_strings p p rfl rfl ?_
      exact steam_extends p extras (by simp only [length]; omega) (inv.indexed p mem)
    · congr 1
      refine row_same_strings entry _ inv.strings rfl ?_
      exact new_row_steam copy _ (by omega) rfl

variable {entry : ProcEntry}

theorem copy_row_spec {copy next} {state} (inv : CopyInv source done copy)
    (copied : ((copyRow source entry copy).run state).1 = some next) : CopyInv source (done ++ [entry]) next := by
  have added := copy_added source entry inv
  unfold copyRow at copied
  cases steam : source.steam entry with
  | none =>
    simp only [steam, run_pure, Option.some_inj] at copied
    rw [steam] at added
    rw [← copied]
    simpa [withSteam] using added
  | some s =>
    simp only [steam, run_bind, run_ite] at copied
    split at copied
    · simp only [run_pure, Option.some_inj] at copied
      rw [steam] at added
      rw [← copied]
      simpa [withSteam] using added
    · cases copied

theorem copy_row_buf (copy : ProcSnapshot) (entry : ProcEntry) (state : WireState) :
    ((copyRow source entry copy).run state).2.buf = state.buf := by
  unfold copyRow
  cases source.steam entry with
  | none => rfl
  | some s =>
    simp only [run_bind, run_ite]
    split <;> rfl

def requested (pid : Int32) (rows : List ProcEntry) : List ProcEntry :=
  if pid = 0 then rows else (rows.find? fun row => decide (row.pid = pid)).toList

theorem requested_skips {rest : List ProcEntry} (one : pid ≠ 0) (other : entry.pid ≠ pid) :
    requested pid (entry :: rest) = requested pid rest := by
  simp [requested, one, other]

theorem requested_stops (rest : List ProcEntry) (one : pid ≠ 0) (same : entry.pid = pid) :
    requested pid (entry :: rest) = [entry] := by
  simp [requested, one, same]

theorem copy_rows_spec (rest done : List ProcEntry) {copy} (state : WireState) (inv : CopyInv source done copy) :
    ((copyRows source pid rest copy).run state).2.buf = state.buf ∧
    ∀ next, ((copyRows source pid rest copy).run state).1 = some next →
    CopyInv source (done ++ requested pid rest) next := by
  induction rest generalizing done copy state with
  | nil =>
    have none : requested pid [] = [] := by simp [requested]
    refine ⟨rfl, fun next copied => ?_⟩
    rw [none, append_nil, ← Option.some_inj.mp copied]
    exact inv
  | cons entry rest ih =>
    unfold copyRows
    by_cases skipped : (pid != 0 && entry.pid != pid)
    · rw [if_pos skipped]
      simp only [Bool.and_eq_true, bne_iff_ne, ne_eq] at skipped
      rw [requested_skips pid skipped.1 skipped.2]
      exact ih done state inv
    · rw [if_neg skipped, run_bind]
      cases copied : ((copyRow source entry copy).run state).1 with
      | none =>
        refine ⟨copy_row_buf source copy entry state, fun next impossible => ?_⟩
        cases impossible
      | some next =>
        have added := copy_row_spec source inv copied
        simp only [run_ite, run_pure]
        by_cases one : pid = 0
        · have later := ih (done ++ [entry]) ((copyRow source entry copy).run state).2 added
          rw [if_neg (by simp [one])]
          rw [append_assoc, singleton_append, copy_row_buf] at later
          subst one
          exact later
        · have same : entry.pid = pid := by simpa [one] using skipped
          rw [if_pos (by simp [one]), requested_stops pid rest one same]
          exact ⟨copy_row_buf source copy entry state, fun result made => Option.some.inj made ▸ added⟩

theorem copy_snapshot_spec (state : WireState) : ((copySnapshot source pid).run state).2.buf = state.buf ∧
    ∀ copy, ((copySnapshot source pid).run state).1 = some copy →
    copy.entries.length = (requested pid source.entries).length ∧
    (copy.entries.length ≤ uint32Max → copy.rows = (requested pid source.entries).map source.row) := by
  have start : CopyInv source [] { strtab := { buf := source.strtab.buf } } :=
    ⟨rfl, rfl, le_rfl, (fun p mem => by cases mem), fun _ => rfl⟩
  unfold copySnapshot
  simp only [run_ite, run_bind]
  split
  · rename_i empty
    have none : requested pid source.entries = [] := by simp [requested, isEmpty_iff.mp empty]
    refine ⟨rfl, fun copy copied => ?_⟩
    rw [← Option.some_inj.mp copied, none]
    exact ⟨rfl, fun _ => rfl⟩
  · split
    · obtain ⟨buf, copied⟩ := copy_rows_spec source pid source.entries []
        (malloc.run (malloc.run (malloc.run state).2).2).2 start
      exact ⟨buf, fun copy made => ⟨(copied copy made).count, (copied copy made).rows⟩⟩
    · exact ⟨rfl, fun copy impossible => by cases impossible⟩

end

def encodedReply (state : MonitorState) (type : UInt16) (pid : Int32) (sent : Timespec) (heap : Heap) :
    Option IpcCode × WireState :=
  (querySnapshotEncode state type pid sent).run (writerStart heap)

def encodedSnapshot (state : MonitorState) (sent : Timespec) (heap : Heap) : Option IpcCode × WireState :=
  (querySnapshotEncode state ipcSnapshot 0 sent).run (writerStart heap)

def replyRows (state : MonitorState) (pid : Int32) : List Row :=
  ((requested pid state.snapshot.entries).map state.snapshot.row).map fun row =>
    { row with evemonInstance := state.evemonInstance }

variable {state : MonitorState} {type : UInt16} (pid : Int32) (sent : Timespec) {heap : Heap}

theorem reply_rows_all : replyRows state 0 = sentRows state.snapshot state.evemonInstance := rfl

variable (state) in
theorem sent_rows_bytes_le (rows : List Row) :
    (rows.flatMap rowBytes).length ≤ (snapshotBytes state sent rows).length := by
  simp only [snapshotBytes, replyBytes, length_append]
  omega

theorem encoded_puts {copy} {sent} {bytes}
    (puts : Puts (putSnapshot state type copy sent) bytes) (after : WireState) (start : Written after [])
    (accepted : ((hasError.run ((putSnapshot state type copy sent).run after).2).1) = false) :
    ((putSnapshot state type copy sent).run after).2.buf.data = bytes ∧ bytes.length ≤ ipcLimit := by
  rcases puts.writes after [] start with lost | written
  · rw [Failed] at lost
    simp [hasError, lost] at accepted
  · have holds := written.holds
    have bounded := written.bounded
    rw [nil_append] at holds bounded
    exact ⟨holds, bounded⟩

theorem encoded_reply_run (accepted : (encodedReply state type pid sent heap).1 = none) : ∃ copy after, Written after [] ∧
    ((copyRequested state type pid).run (writerStart heap)).1 = some copy ∧
    (hasError.run ((putSnapshot state type copy sent).run after).2).1 = false ∧
    (encodedReply state type pid sent heap).2.buf = ((putSnapshot state type copy sent).run after).2.buf := by
  have untouched : ((copyRequested state type pid).run (writerStart heap)).2.buf = (writerStart heap).buf := by
    unfold copyRequested
    split
    · rfl
    · exact (copy_snapshot_spec state.snapshot pid (writerStart heap)).1
  unfold encodedReply querySnapshotEncode at accepted ⊢
  rw [run_bind] at accepted ⊢
  generalize (copyRequested state type pid).run (writerStart heap) = made at accepted untouched ⊢
  obtain ⟨result, after⟩ := made
  have start : Written after [] := by
    rw [writerStart] at untouched
    simp only at untouched
    exact ⟨by rw [untouched], by rw [untouched], Nat.zero_le _⟩
  cases result with
  | none => cases accepted
  | some copy =>
    simp only [run_ite] at accepted ⊢
    split at accepted
    · cases accepted
    · rename_i present
      refine ⟨copy, after, start, rfl, ?_, ?_⟩
      · simp only [run_bind, run_pure] at accepted
        split at accepted
        · cases accepted
        · rename_i clean
          simpa using clean
      · rw [if_neg present]
        rfl

theorem encoded_reply_bytes (rowed : type ≠ ipcStatus) (accepted : (encodedReply state type pid sent heap).1 = none) :
    (encodedReply state type pid sent heap).2.buf.data = snapshotBytes state sent (replyRows state pid) ∧
    (snapshotBytes state sent (replyRows state pid)).length ≤ ipcLimit := by
  obtain ⟨copy, after, start, copied, clean, buf⟩ := encoded_reply_run pid sent accepted
  rw [copyRequested, if_neg rowed] at copied
  obtain ⟨-, rows⟩ := (copy_snapshot_spec state.snapshot pid (writerStart heap)).2 copy copied
  obtain ⟨holds, bounded⟩ := encoded_puts (put_snapshot_puts state copy sent rowed) after start clean
  have few : copy.entries.length ≤ uint32Max := by
    have least := rows_bytes_min (sentRows copy state.evemonInstance)
    have whole := sent_rows_bytes_le state sent (sentRows copy state.evemonInstance)
    have limit : ipcLimit = 33554432 := rfl
    have maximum : uint32Max = 4294967295 := rfl
    have length : (sentRows copy state.evemonInstance).length = copy.entries.length := by
      simp [sentRows, ProcSnapshot.rows]
    omega
  have same : sentRows copy state.evemonInstance = replyRows state pid := by
    rw [sentRows, replyRows, rows few]
  rw [buf, holds, same]
  exact ⟨rfl, same ▸ bounded⟩

theorem encoded_status_bytes (accepted : (encodedReply state ipcStatus pid sent heap).1 = none) :
    (encodedReply state ipcStatus pid sent heap).2.buf.data = headerBytes state sent := by
  obtain ⟨copy, after, start, -, clean, buf⟩ := encoded_reply_run pid sent accepted
  rw [buf]
  exact (encoded_puts (put_status_puts state copy sent) after start clean).1

theorem sent_rows_nul_free {snap} : ∀ row ∈ sentRows snap evemonInstance, RowNulFree row := by
  intro row mem
  simp only [sentRows, ProcSnapshot.rows, map_map, mem_map, Function.comp_apply] at mem
  obtain ⟨p, listed, rfl⟩ := mem
  constructor <;> exact proc_str_nul_free _ _

variable (state) (type) (heap)

theorem sent_rows_valid {snap : ProcSnapshot} (valid : ∀ row ∈ snap.rows, RowValid row) :
    ∀ row ∈ sentRows snap evemonInstance, RowValid row := by
  intro row mem
  obtain ⟨original, listed, rfl⟩ := mem_map.mp mem
  obtain ⟨pid, ppid, historyCount, cpuPercent, ioReadRate, ioWriteRate, history⟩ := valid original listed
  exact ⟨pid, ppid, historyCount, cpuPercent, ioReadRate, ioWriteRate, history⟩

structure HeaderValid (state : MonitorState) (sent : Timespec) : Prop where
  interval : 1 ≤ state.intervalMs ∧ state.intervalMs ≤ 3600000
  ready : state.snapshotComplete ≤ 1
  ordered : state.sampledAt.ns ≤ sent.ns

structure ReplyMatches (state : MonitorState) (sent : Timespec) (rows : List Row) (reply : SnapshotReply) : Prop where
  generation : reply.generation = state.generation
  ns : reply.ns = state.sampledAt.ns
  interval : reply.interval = state.intervalMs
  ready : reply.ready = state.snapshotComplete
  system : reply.system = state.system
  sent : reply.sent = sent.ns
  rows : reply.next.rows = rows

theorem header_accepted (header : HeaderValid state sent) : decide (sent.ns < state.sampledAt.ns) = false ∧
    (state.intervalMs == 0 || decide (state.intervalMs > 3600000) || decide (state.snapshotComplete > 1)) = false := by
  have low := header.interval.1
  have high := header.interval.2
  have ready := header.ready
  rw [UInt32.le_iff_toNat_le] at low high ready
  simp only [UInt32.reduceToNat] at low high ready
  constructor
  · rw [decide_eq_false_iff_not, UInt64.not_lt]
    exact header.ordered
  · simp only [Bool.or_eq_false_iff, beq_eq_false_iff_ne, ne_eq, decide_eq_false_iff_not, gt_iff_lt,
      UInt32.lt_iff_toNat_lt, UInt32.reduceToNat]
    refine ⟨⟨fun zero => ?_, by omega⟩, by omega⟩
    rw [zero, UInt32.toNat_zero] at low
    omega

theorem get_reply_consumes (statusOnly : Bool) (kept : ProcSnapshot)
    (rows : List Row) (tail : Bytes) (header : HeaderValid state sent)
    (reads : Consumes Unread (getReplyRows statusOnly kept (UInt32.ofNat state.snapshot.entries.length)) tail
    fun next => next.rows = rows) :
    Consumes Unread (getReply statusOnly kept) (replyBytes state sent tail) (ReplyMatches state sent rows) := by
  obtain ⟨ordered, ranges⟩ := header_accepted state sent header
  iterate 2 refine consumes_value ipc_get_u64_consumes ?_
  iterate 3 refine consumes_value (ipc_get_u32_consumes _) ?_
  refine consumes_value get_system_consumes ?_
  refine consumes_value ipc_get_u64_consumes ?_
  refine consumes_skip (reject_if_consumes ordered) ?_
  refine consumes_skip (reject_if_consumes ranges) ?_
  exact consumes_last reads fun next same => ⟨rfl, rfl, rfl, rfl, rfl, rfl, same⟩

theorem get_status_consumes (kept : ProcSnapshot) (header : HeaderValid state sent) :
    Consumes Unread (getReply true kept) (headerBytes state sent) (ReplyMatches state sent kept.rows) :=
  get_reply_consumes state sent true kept kept.rows [] header (consumes_pure kept rfl)

theorem get_rows_reply_consumes (rows : List Row) (kept : ProcSnapshot)
    (header : HeaderValid state sent) (whole : rows.length ≤ (UInt32.ofNat state.snapshot.entries.length).toNat)
    (valid : ∀ row ∈ rows, RowValid row) (nulFree : ∀ row ∈ rows, RowNulFree row)
    (room : (rows.flatMap rowBytes).length ≤ ipcLimit) :
    Consumes Unread (getReply false kept) (snapshotBytes state sent rows) (ReplyMatches state sent rows) :=
  get_reply_consumes state sent false kept rows _ header (decode_rows_consumes whole valid nulFree room)

def decodedSnapshot (body : Bytes) (client : MonitorState) (received : Timespec) (heap : Heap) :
    Option Errno × MonitorState :=
  ((querySnapshotDecode client false received).run (readerStart body heap)).1

structure RoundTrip (state : MonitorState) (sent received : Timespec) (result : Option Errno × MonitorState) :
    Prop where
  accepted : result.1 = none
  rows : result.2.snapshot.rows = sentRows state.snapshot state.evemonInstance
  generation : result.2.generation = state.generation
  interval : result.2.intervalMs = state.intervalMs
  ready : result.2.snapshotComplete = state.snapshotComplete
  system : result.2.system = state.system
  age : state.sampledAt.ns ≠ 0 → sent.ns - state.sampledAt.ns ≤ received.ns →
    (received.ns.toNat : Int) - result.2.sampledAt.ns.toNat = sent.ns.toNat - state.sampledAt.ns.toNat

variable {received : Timespec}

theorem decoded_age {sent : Timespec} (ordered : state.sampledAt.ns ≤ sent.ns) (sampled : state.sampledAt.ns ≠ 0)
    (recent : sent.ns - state.sampledAt.ns ≤ received.ns) :
    (received.ns.toNat : Int) - (localSample received state.sampledAt.ns sent.ns).toNat =
    sent.ns.toNat - state.sampledAt.ns.toNat := by
  have age := UInt64.toNat_sub_of_le _ _ ordered
  have younger := UInt64.toNat_sub_of_le _ _ recent
  rw [UInt64.le_iff_toNat_le] at ordered recent
  simp only [localSample]
  rw [if_pos ⟨sampled, UInt64.le_iff_toNat_le.mpr recent⟩, younger]
  omega

theorem install_round_trip {state client} {sent} {reply}
    (same : ReplyMatches state sent (sentRows state.snapshot state.evemonInstance) reply)
    (ordered : state.sampledAt.ns ≤ sent.ns) :
    RoundTrip state sent received (none, installReply client reply received) := by
  refine ⟨rfl, same.rows, same.generation, same.interval, same.ready, same.system, fun sampled recent => ?_⟩
  have sample := decoded_age state ordered sampled recent
  simp only [installReply, timespec_ns_of_ns, same.ns, same.sent]
  exact sample

theorem snapshot_round_trip (state client : MonitorState) (sent received : Timespec) (sender receiver : Heap)
    (rows : ∀ row ∈ state.snapshot.rows, RowValid row) (header : HeaderValid state sent)
    (granted : ∀ index, receiver.grant index = true) (accepted : (encodedSnapshot state sent sender).1 = none) :
    RoundTrip state sent received
    (decodedSnapshot (encodedSnapshot state sent sender).2.buf.data client received receiver) := by
  obtain ⟨bytes, bounded⟩ := encoded_reply_bytes 0 sent (by decide) accepted
  rw [reply_rows_all] at bytes bounded
  have room := sent_rows_bytes_le state sent (sentRows state.snapshot state.evemonInstance)
  have total : (sentRows state.snapshot state.evemonInstance).length = state.snapshot.entries.length := by
    simp [sentRows, ProcSnapshot.rows]
  have whole : (sentRows state.snapshot state.evemonInstance).length ≤
      (UInt32.ofNat state.snapshot.entries.length).toNat := by
    have least := rows_bytes_min (sentRows state.snapshot state.evemonInstance)
    have limit : ipcLimit = 33554432 := rfl
    rw [UInt32.toNat_ofNat_of_lt' (by rw [UInt32.size]; omega), total]
  have start := reader_start_unread (snapshotBytes state sent (sentRows state.snapshot state.evemonInstance))
    receiver granted
  rw [← append_nil (snapshotBytes state sent (sentRows state.snapshot state.evemonInstance))] at start
  obtain ⟨reply, finished⟩ := get_rows_reply_consumes state sent (sentRows state.snapshot state.evemonInstance)
    client.snapshot header whole (sent_rows_valid rows) sent_rows_nul_free (by omega) _ [] start
  rw [append_nil] at reply finished
  have done := unread_done finished
  have same : (encodedSnapshot state sent sender).2.buf.data =
      snapshotBytes state sent (sentRows state.snapshot state.evemonInstance) := bytes
  rw [same, decodedSnapshot, query_snapshot_decode_run, if_pos done]
  exact install_round_trip reply header.ordered

def sampleSteam : SteamInfo where
  isSteam := 1
  isWine := 0
  appId := ⟨[52, 50], by decide, by decide⟩
  gameName := .empty 256
  protonVersion := .empty 128
  protonDist := .empty 1024
  compatData := .empty 1024
  gameDir := .empty 1024
  runtimeLayer := .empty 128
  displayLabel := .empty 256

def sampleEntry : ProcEntry where
  pid := 42
  ppid := 0
  name := ⟨1, 4⟩
  memRssKb := 512
  cpuTicks := 7
  startTime := 1
  startTicks := 1
  cpuPercent := Float32.ofBits 0x3fc00000
  ioHistoryCount := 1
  extraIdx := 0

def sampleState : MonitorState where
  snapshot := { entries := [sampleEntry], strtab := ⟨[0, 105, 110, 105, 116, 0], 4096⟩, extras := [some sampleSteam] }
  snapshotComplete := 1
  generation := 3
  sampledAt := .seconds 5
  intervalMs := 1000
  system := {
    uptimeSeconds := 100, memoryTotal := 8, memoryFree := 4, memoryAvailable := 6
    load := .replicate 3 Finite.zero, cpus := 4, users := 1, fdmonBackend := 1 }
  evemonInstance := 9
  connected := false

def sampleSent : Timespec := .seconds 6

theorem sample_rows_valid : ∀ row ∈ sampleState.snapshot.rows, RowValid row := by
  intro row mem
  rw [ProcSnapshot.rows, sampleState, map_singleton, mem_singleton] at mem
  subst mem
  refine ⟨by decide, by decide, by decide, by decide +kernel, by decide +kernel, by decide +kernel, ?_⟩
  decide +kernel

theorem sample_header_valid : HeaderValid sampleState sampleSent := ⟨by decide, by decide, by decide⟩

theorem snapshot_round_trip_sample : RoundTrip sampleState sampleSent sampleSent
    (decodedSnapshot (encodedSnapshot sampleState sampleSent allGranted).2.buf.data sampleState sampleSent allGranted) :=
  snapshot_round_trip sampleState sampleState sampleSent sampleSent allGranted allGranted sample_rows_valid
    sample_header_valid (fun _ => rfl) (by decide +kernel)

end Evemon.Ipc
