import Evemon.Decoders
import Evemon.SnapshotRoundTrip
import Evemon.WireParse

namespace Evemon.Ipc

open Prog BigEndian List Int32 UInt32

theorem failed_preserved : Preserved Failed where
  u32 := ipc_get_u32_sticky
  u64 := (@ipc_get_u64_gets (fun _ => true) True 0).sticky
  f64 := (@ipc_get_f64_gets (fun _ => true) True 0).sticky
  string := (@ipc_get_string_gets (fun _ => true) True [] not_mem_nil).sticky
  fixed capacity := ipc_get_fixed_sticky capacity
  alloc _ lost := lost
  error _ _ _ := rfl

structure RowScanned (row : Row) : Prop where
  pid : 0 < row.pid
  historyCount : row.ioHistoryCount.toNat ≤ ioHistoryLen
  cpuPercent : row.cpuPercent.isFinite = true
  ioReadRate : row.ioReadRate.isFinite = true
  ioWriteRate : row.ioWriteRate.isFinite = true
  history : ∀ value ∈ row.ioHistory.toList, value.isFinite = true

theorem RowScanned.valid {row : Row} (scanned : RowScanned row) (known : 0 ≤ row.ppid) : RowValid row :=
  ⟨scanned.pid, known, scanned.historyCount, scanned.cpuPercent, scanned.ioReadRate, scanned.ioWriteRate,
    scanned.history⟩

theorem reject_if_refuses {code} {input} : Refuses Unread Failed (rejectIf true code) input :=
  fun _ _ _ => rfl

theorem negative_too_large {value : Int32} (negative : ¬ 0 ≤ value) : decide (value.toUInt32 > intMax) := by
  have below : value.toInt < 0 := by
    rw [le_iff_toInt_le, toInt_zero] at negative
    omega
  have least := le_toInt value
  have word : value.toInt = value.toUInt32.toNat ∨ value.toInt = value.toUInt32.toNat - 2 ^ 32 := by
    change value.toBitVec.toInt = value.toBitVec.toNat ∨ value.toBitVec.toInt = value.toBitVec.toNat - 2 ^ 32
    rw [BitVec.toInt_eq_toNat_cond]
    split
    · exact .inl rfl
    · exact .inr rfl
  have limit : intMax.toNat = 2147483647 := rfl
  rw [decide_eq_true_eq, gt_iff_lt, lt_iff_toNat_lt]
  omega

theorem get_row_refuses (snap : ProcSnapshot) (row : Row) (negative : ¬ 0 ≤ row.ppid) :
    Refuses Unread Failed (getRow snap) (rowBytes row) := by
  have refused : (row.pid.toUInt32 == 0 || decide (row.pid.toUInt32 > intMax) ||
      decide (row.ppid.toUInt32 > intMax)) := by
    rw [negative_too_large negative, Bool.or_true]
  iterate 2 refine refuses_value (ipc_get_u32_consumes _) ?_
  rw [refused, ← nil_append (encode64 row.memRssKb ++ _)]
  refine refuses_first reject_if_refuses fun _ => ?_
  iterate 9 refine keeps_bind failed_preserved.u64 fun _ => ?_
  iterate 3 refine keeps_bind (get_float_keeps failed_preserved) fun _ => ?_
  iterate 2 refine keeps_bind ipc_get_u32_sticky fun _ => ?_
  refine keeps_bind reject_if_sticky fun _ => ?_
  refine keeps_bind (get_history_keeps failed_preserved _) fun _ => ?_
  iterate 6 refine keeps_bind (get_str_keeps failed_preserved) fun _ => ?_
  exact keeps_bind (get_steam_keeps failed_preserved) fun _ => keeps_pure _

theorem get_rows_refuses (rows : List Row) {snap} (sound : Sound snap)
    (scanned : ∀ row ∈ rows, RowScanned row) (nulFree : ∀ row ∈ rows, RowNulFree row)
    (room : snap.strtab.buf.length + (rows.flatMap rowBytes).length ≤ uint32Max)
    (few : snap.entries.length + rows.length ≤ uint32Max) (negative : ¬ ∀ row ∈ rows, 0 ≤ row.ppid) :
    Refuses Unread Failed (getRows rows.length snap) (rows.flatMap rowBytes) := by
  induction rows generalizing snap with
  | nil => exact absurd (fun row mem => absurd mem not_mem_nil) negative
  | cons row rest ih =>
    rw [flatMap_cons, length_append] at room
    rw [length_cons] at few
    refine refuses_skip has_error_consumes ?_
    by_cases known : 0 ≤ row.ppid
    · have valid := (scanned row mem_cons_self).valid known
      refine refuses_bind (get_row_consumes snap row sound valid (nulFree row mem_cons_self) (by omega) (by omega))
        fun next added => ?_
      have size := added.size
      have count := added.count
      refine ih added.sound (fun other mem => scanned other (mem_cons_of_mem _ mem))
        (fun other mem => nulFree other (mem_cons_of_mem _ mem)) (by omega) (by omega) fun all => ?_
      exact negative fun other mem => by
        rcases mem_cons.mp mem with here | later
        · rw [here]
          exact known
        · exact all other later
    · exact refuses_first (get_row_refuses snap row known) fun next => get_rows_keeps failed_preserved _ next

theorem decode_rows_refuses {total : UInt32} {rows : List Row} (whole : rows.length ≤ total.toNat)
    (scanned : ∀ row ∈ rows, RowScanned row) (nulFree : ∀ row ∈ rows, RowNulFree row)
    (room : (rows.flatMap rowBytes).length ≤ ipcLimit) (negative : ¬ ∀ row ∈ rows, 0 ≤ row.ppid) :
    Refuses Unread Failed (decodeRows total) (encode32 (UInt32.ofNat rows.length) ++ rows.flatMap rowBytes) := by
  have least := rows_bytes_min rows
  have limit : ipcLimit = 33554432 := rfl
  have maximum : uint32Max = 4294967295 := rfl
  have count : (UInt32.ofNat rows.length).toNat = rows.length := toNat_ofNat_of_lt' (by
    rw [UInt32.size]
    omega)
  refine refuses_value (ipc_get_u32_consumes _) ?_
  refine refuses_inspect (rows_ahead rows) fun buf (enough : 300 * rows.length ≤ sizeSub buf.data.length buf.pos) => ?_
  refine refuses_skip (reject_if_consumes (rows_counted whole count enough)) ?_
  refine refuses_skip has_error_consumes ?_
  iterate 3 refine refuses_skip malloc_consumes ?_
  refine refuses_skip (reject_if_consumes rfl) ?_
  rw [count]
  exact get_rows_refuses rows (empty_sound (strtab_init_terminated 4096)) scanned nulFree
    (by simp only [strtabInit, if_true, length_singleton]; omega) (by simp; omega) negative

theorem get_reply_refuses (state : MonitorState) (sent : Timespec) (rows : List Row) (kept : ProcSnapshot)
    (header : HeaderValid state sent) (whole : rows.length ≤ (UInt32.ofNat state.snapshot.entries.length).toNat)
    (scanned : ∀ row ∈ rows, RowScanned row) (nulFree : ∀ row ∈ rows, RowNulFree row)
    (room : (rows.flatMap rowBytes).length ≤ ipcLimit) (negative : ¬ ∀ row ∈ rows, 0 ≤ row.ppid) :
    Refuses Unread Failed (getReply false kept) (snapshotBytes state sent rows) := by
  obtain ⟨ordered, ranges⟩ := header_accepted state sent header
  iterate 2 refine refuses_value ipc_get_u64_consumes ?_
  iterate 3 refine refuses_value (ipc_get_u32_consumes _) ?_
  refine refuses_value get_system_consumes ?_
  refine refuses_value ipc_get_u64_consumes ?_
  refine refuses_skip (reject_if_consumes ordered) ?_
  refine refuses_skip (reject_if_consumes ranges) ?_
  rw [← append_nil (encode32 _ ++ _)]
  exact refuses_first (decode_rows_refuses whole scanned nulFree room negative) fun _ => keeps_pure _

section

def decodedReply (body : Bytes) (statusOnly : Bool) (client : MonitorState) (received : Timespec) (heap : Heap) :
    Option Errno × MonitorState :=
  ((querySnapshotDecode client statusOnly received).run (readerStart body heap)).1

theorem decoded_reply_iff (body : Bytes) (statusOnly : Bool) (client : MonitorState) (received : Timespec) (heap : Heap) :
    (decodedReply body statusOnly client received heap).1 = none ↔
    ipcDone ((getReply statusOnly client.snapshot).run (readerStart body heap)).2.buf := by
  rw [decodedReply, query_snapshot_decode_run]
  split
  · rename_i done
    exact iff_of_true rfl done
  · rename_i unfinished
    refine iff_of_false (fun impossible => ?_) unfinished
    cases impossible

variable (state : MonitorState) (pid : Int32)

theorem requested_mem {rows} {row : ProcEntry} (mem : row ∈ requested pid rows) : row ∈ rows := by
  unfold requested at mem
  split at mem
  · exact mem
  · rw [Option.mem_toList] at mem
    exact mem_of_find?_eq_some mem

theorem requested_length (rows : List ProcEntry) : (requested pid rows).length ≤ rows.length := by
  unfold requested
  split
  · exact le_rfl
  · cases found : rows.find? fun row => decide (row.pid = pid) with
    | none => exact Nat.zero_le _
    | some row => exact length_pos_of_mem (mem_of_find?_eq_some found)

theorem reply_rows_mem {row : Row} (mem : row ∈ replyRows state pid) : ∃ entry ∈ requested pid state.snapshot.entries,
      row = { state.snapshot.row entry with evemonInstance := state.evemonInstance } := by
  obtain ⟨original, listed, same⟩ := mem_map.mp mem
  obtain ⟨entry, asked, rfl⟩ := mem_map.mp listed
  exact ⟨entry, asked, same.symm⟩

theorem reply_rows_scanned (scanned : ∀ entry ∈ state.snapshot.entries, RowScanned (state.snapshot.row entry)) :
    ∀ row ∈ replyRows state pid, RowScanned row := by
  intro row mem
  obtain ⟨entry, asked, rfl⟩ := reply_rows_mem state pid mem
  obtain ⟨pid, historyCount, cpuPercent, ioReadRate, ioWriteRate, history⟩ := scanned entry (requested_mem _ asked)
  exact ⟨pid, historyCount, cpuPercent, ioReadRate, ioWriteRate, history⟩

theorem reply_rows_nul_free : ∀ row ∈ replyRows state pid, RowNulFree row := by
  intro row mem
  obtain ⟨entry, -, rfl⟩ := reply_rows_mem state pid mem
  constructor <;> exact proc_str_nul_free _ _

theorem reply_parents :
    (∀ row ∈ replyRows state pid, 0 ≤ row.ppid) ↔ ∀ entry ∈ requested pid state.snapshot.entries, 0 ≤ entry.ppid := by
  constructor
  · intro known entry asked
    exact known _ (mem_map_of_mem (mem_map_of_mem asked))
  · intro known row mem
    obtain ⟨entry, asked, rfl⟩ := reply_rows_mem state pid mem
    exact known entry asked

theorem status_accepted {state} (client : MonitorState) (pid : Int32) (sent received : Timespec) {sender receiver : Heap}
    (header : HeaderValid state sent) (granted : ∀ index, receiver.grant index)
    (accepted : (encodedReply state ipcStatus pid sent sender).1 = none) :
    (decodedReply (encodedReply state ipcStatus pid sent sender).2.buf.data true client received receiver).1 = none := by
  have bytes := encoded_status_bytes pid sent accepted
  have start := reader_start_unread (headerBytes state sent) receiver granted
  rw [← append_nil (headerBytes state sent)] at start
  obtain ⟨-, finished⟩ := get_status_consumes state sent client.snapshot header _ [] start
  rw [append_nil] at finished
  rw [bytes, decoded_reply_iff]
  exact unread_done finished

theorem rows_accepted_iff {state} (client : MonitorState) (type : UInt16) (pid : Int32) (sent received : Timespec)
    {sender receiver : Heap} (rowed : type ≠ ipcStatus) (header : HeaderValid state sent)
    (scanned : ∀ entry ∈ state.snapshot.entries, RowScanned (state.snapshot.row entry))
    (few : state.snapshot.entries.length ≤ uint32Max) (granted : ∀ index, receiver.grant index)
    (accepted : (encodedReply state type pid sent sender).1 = none) :
    (decodedReply (encodedReply state type pid sent sender).2.buf.data false client received receiver).1 = none ↔
    ∀ entry ∈ requested pid state.snapshot.entries, 0 ≤ entry.ppid := by
  obtain ⟨bytes, bounded⟩ := encoded_reply_bytes pid sent rowed accepted
  have room := sent_rows_bytes_le state sent (replyRows state pid)
  have whole : (replyRows state pid).length ≤ (UInt32.ofNat state.snapshot.entries.length).toNat := by
    have maximum : uint32Max = 4294967295 := rfl
    have length := requested_length pid state.snapshot.entries
    rw [toNat_ofNat_of_lt' (by rw [UInt32.size]; omega)]
    simpa [replyRows] using length
  have start := reader_start_unread (snapshotBytes state sent (replyRows state pid)) receiver granted
  rw [← append_nil (snapshotBytes state sent (replyRows state pid))] at start
  have sound := reply_rows_scanned state pid scanned
  rw [bytes, decoded_reply_iff, ← reply_parents]
  constructor
  · intro done
    by_contra negative
    have lost := get_reply_refuses state sent (replyRows state pid) client.snapshot header whole sound
      (reply_rows_nul_free state pid) (by omega) negative _ [] start
    rw [append_nil, Failed, done_healthy done] at lost
    cases lost
  · intro known
    obtain ⟨-, finished⟩ := get_rows_reply_consumes state sent (replyRows state pid) client.snapshot header whole
      (fun row mem => (sound row mem).valid (known row mem)) (reply_rows_nul_free state pid) (by omega) _ [] start
    rw [append_nil] at finished
    exact unread_done finished

end

end Evemon.Ipc
