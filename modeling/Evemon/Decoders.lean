import Evemon.EventFrame
import Evemon.Gpu
import Evemon.Snapshot
import Evemon.WireReader

namespace Evemon.Ipc

open Prog List

section

variable {inv : WireState → Prop} (kept : Preserved inv) (count : Nat)

include kept

theorem reject_if_keeps {condition} {code} : Keeps inv (rejectIf condition code) :=
  keeps_ite (kept.error code) (keeps_pure ())

theorem get_loads_keeps : Keeps inv (getLoads count) := by
  induction count with
  | zero => exact keeps_pure _
  | succ count ih => exact keeps_bind kept.f64 fun _ => keeps_bind ih fun _ => keeps_pure _

theorem get_system_keeps : Keeps inv getSystem := by
  unfold getSystem
  iterate 4 refine keeps_bind kept.u64 fun _ => ?_
  refine keeps_bind (get_loads_keeps kept 3) fun _ => ?_
  iterate 3 refine keeps_bind kept.u32 fun _ => ?_
  exact keeps_pure _

theorem get_steam_keeps : Keeps inv getSteam := by
  unfold getSteam getSteamFields
  refine keeps_bind kept.u32 fun _ => ?_
  refine keeps_bind (reject_if_keeps kept) fun _ => keeps_bind keeps_inspect fun _ => ?_
  refine keeps_ite (keeps_pure _) (keeps_bind kept.alloc fun _ => keeps_ite ?_ ?_)
  · refine keeps_bind ?_ fun _ => keeps_pure _
    iterate 2 refine keeps_bind kept.u32 fun _ => ?_
    iterate 8 refine keeps_bind (kept.fixed _) fun _ => ?_
    exact keeps_pure _
  · exact keeps_bind (kept.error _) fun _ => keeps_pure _

theorem get_float_keeps : Keeps inv getFloat := by
  refine keeps_bind kept.f64 fun _ => keeps_ite ?_ (keeps_pure _)
  exact keeps_bind (kept.error _) fun _ => keeps_pure _

theorem get_history_keeps : Keeps inv (getHistory count) := by
  induction count with
  | zero => exact keeps_pure _
  | succ count ih => exact keeps_bind (get_float_keeps kept) fun _ => keeps_bind ih fun _ => keeps_pure _

theorem get_str_keeps {tab} : Keeps inv (getStr tab) := by
  refine keeps_bind kept.string fun text => ?_
  cases text with
  | none => exact keeps_pure _
  | some s =>
    have pushed : Keeps inv (pushString tab s) :=
      keeps_ite (keeps_bind kept.alloc fun _ => keeps_pure _) (keeps_pure _)
    exact keeps_bind pushed fun _ => keeps_bind (reject_if_keeps kept) fun _ => keeps_pure _

variable (snap : ProcSnapshot)

theorem get_row_keeps : Keeps inv (getRow snap) := by
  unfold getRow
  iterate 2 refine keeps_bind kept.u32 fun _ => ?_
  refine keeps_bind (reject_if_keeps kept) fun _ => ?_
  iterate 9 refine keeps_bind kept.u64 fun _ => ?_
  iterate 3 refine keeps_bind (get_float_keeps kept) fun _ => ?_
  iterate 2 refine keeps_bind kept.u32 fun _ => ?_
  refine keeps_bind (reject_if_keeps kept) fun _ => ?_
  refine keeps_bind (get_history_keeps kept _) fun _ => ?_
  iterate 6 refine keeps_bind (get_str_keeps kept) fun _ => ?_
  exact keeps_bind (get_steam_keeps kept) fun _ => keeps_pure _

theorem get_rows_keeps : Keeps inv (getRows count snap) := by
  induction count generalizing snap with
  | zero => exact keeps_pure _
  | succ count ih =>
    refine keeps_bind keeps_inspect fun _ => keeps_ite (keeps_pure _) ?_
    exact keeps_bind (get_row_keeps kept snap) fun next => ih next

theorem decode_rows_keeps {total} : Keeps inv (decodeRows total) := by
  refine keeps_bind kept.u32 fun _ => keeps_bind keeps_inspect fun _ => ?_
  refine keeps_bind (reject_if_keeps kept) fun _ => keeps_bind keeps_inspect fun _ => ?_
  refine keeps_ite (keeps_pure _) ?_
  iterate 2 refine keeps_bind kept.alloc fun _ => ?_
  refine keeps_bind (keeps_ite kept.alloc (keeps_pure _)) fun _ => ?_
  exact keeps_bind (reject_if_keeps kept) fun _ => get_rows_keeps kept _ _

theorem get_reply_keeps {statusOnly} {old} : Keeps inv (getReply statusOnly old) := by
  unfold getReply
  iterate 2 refine keeps_bind kept.u64 fun _ => ?_
  iterate 3 refine keeps_bind kept.u32 fun _ => ?_
  refine keeps_bind (get_system_keeps kept) fun _ => ?_
  refine keeps_bind kept.u64 fun _ => ?_
  iterate 2 refine keeps_bind (reject_if_keeps kept) fun _ => ?_
  exact keeps_bind (keeps_ite (keeps_pure _) (decode_rows_keeps kept)) fun _ => keeps_pure _

omit kept in
theorem get_until_error_keeps {α : Type} {item : Wire α} (each : Keeps inv item) :
    Keeps inv (getUntilError item count) := by
  induction count with
  | zero => exact keeps_pure _
  | succ count ih =>
    refine keeps_bind keeps_inspect fun _ => keeps_ite (keeps_pure _) ?_
    exact keeps_bind each fun _ => keeps_bind ih fun _ => keeps_pure _

theorem get_gpu_device_keeps : Keeps inv getGpuDevice := by
  unfold getGpuDevice
  iterate 4 refine keeps_bind (kept.fixed _) fun _ => ?_
  iterate 14 refine keeps_bind kept.u32 fun _ => ?_
  iterate 2 refine keeps_bind kept.u64 fun _ => ?_
  exact keeps_pure _

variable {deviceCount : UInt32}

theorem get_gpu_process_keeps : Keeps inv (getGpuProcess deviceCount) := by
  unfold getGpuProcess
  iterate 6 refine keeps_bind kept.u32 fun _ => ?_
  refine keeps_bind kept.u64 fun _ => ?_
  iterate 2 refine keeps_bind (kept.fixed _) fun _ => ?_
  exact keeps_bind (reject_if_keeps kept) fun _ => keeps_pure _

theorem get_gpu_processes_keeps {monotonicNs : UInt64} {devices : List GpuDevice} :
    Keeps inv (getGpuProcesses monotonicNs deviceCount devices) := by
  refine keeps_bind kept.u32 fun _ => keeps_bind keeps_inspect fun _ => ?_
  refine keeps_ite (keeps_pure _) (keeps_bind kept.alloc fun _ => keeps_ite ?_ (keeps_pure _))
  refine keeps_bind (get_until_error_keeps _ (get_gpu_process_keeps kept)) fun _ => ?_
  exact keeps_bind keeps_inspect fun _ => keeps_pure _

theorem get_gpu_snapshot_keeps : Keeps inv getGpuSnapshot := by
  refine keeps_bind kept.u64 fun _ => keeps_bind kept.u32 fun _ => ?_
  refine keeps_bind keeps_inspect fun _ => keeps_ite (keeps_pure _) ?_
  refine keeps_bind kept.alloc fun _ => keeps_ite ?_ (keeps_pure _)
  refine keeps_bind (get_until_error_keeps _ (get_gpu_device_keeps kept)) fun _ => ?_
  exact get_gpu_processes_keeps kept

end

section

variable {body : Bytes}

theorem get_fd_write_keeps : Keeps (ReaderInv body) getFdWrite := by
  unfold getFdWrite
  iterate 5 refine keeps_bind reader_preserved.u32 fun _ => ?_
  intro state inv
  simp only [↓run_inspect_bind, run_ite]
  split
  · exact reader_preserved.error _ state inv
  · rename_i len accepted
    have fits : len.toNat ≤ body.length - state.buf.pos := by
      rw [inv.cursor.same, size_sub_exact inv.cursor.bounded] at accepted
      omega
    exact ⟨touch_advance_cursor inv.cursor fits, inv.latch.reported, inv.latch.latched⟩

theorem get_event_keeps : Keeps (ReaderInv body) getEvent := by
  refine keeps_bind reader_preserved.u32 fun _ => keeps_ite get_fd_write_keeps (keeps_ite ?_ ?_)
  · unfold getExec
    iterate 2 refine keeps_bind reader_preserved.u32 fun _ => ?_
    exact keeps_bind (reader_preserved.fixed _) fun _ => keeps_pure _
  · exact keeps_bind (reader_preserved.error _) fun _ => keeps_pure _

theorem query_snapshot_decode_keeps (state : MonitorState) (statusOnly : Bool) (received : Timespec) :
    Keeps (ReaderInv body) (querySnapshotDecode state statusOnly received) := by
  refine keeps_bind (get_reply_keeps reader_preserved) fun _ => keeps_bind keeps_inspect fun _ => ?_
  exact keeps_ite (keeps_pure _) (keeps_pure _)

theorem query_gpu_decode_keeps (out : GpuSnapshot) : Keeps (ReaderInv body) (queryGpuDecode out) := by
  refine keeps_bind (get_gpu_snapshot_keeps reader_preserved) fun decoded => ?_
  cases decoded with
  | none | some snapshot => exact keeps_pure _

theorem query_events_dispatch_keeps (bus : List Event) : Keeps (ReaderInv body) (queryEventsDispatch bus) := by
  refine keeps_bind reader_preserved.u64 fun _ => keeps_bind reader_preserved.u32 fun _ => ?_
  refine keeps_ite (keeps_pure _) (keeps_bind reader_preserved.alloc fun _ => keeps_ite ?_ (keeps_pure _))
  refine keeps_bind (get_until_error_keeps _ get_event_keeps) fun _ => ?_
  exact keeps_bind keeps_inspect fun _ => keeps_ite (keeps_pure _) (keeps_pure _)

end

structure Guarded {σ : Type} (before : σ) (outcome : (Option Errno × σ) × WireState) : Prop where
  unchanged : outcome.1.1 ≠ none → outcome.1.2 = before
  done : outcome.1.1 = none → ipcDone outcome.2.buf = true

variable {start : WireState}

theorem query_snapshot_decode_guarded {state} {statusOnly} {received} :
    Guarded state ((querySnapshotDecode state statusOnly received).run start) := by
  rw [query_snapshot_decode_run]
  split
  · rename_i done
    exact ⟨fun failed => absurd rfl failed, fun _ => done⟩
  · exact ⟨fun _ => rfl, fun impossible => by cases impossible⟩

theorem get_gpu_processes_done {monotonicNs} {deviceCount} {devices} {state} {snapshot}
    (decoded : ((getGpuProcesses monotonicNs deviceCount devices).run state).1 = some snapshot) :
    ipcDone ((getGpuProcesses monotonicNs deviceCount devices).run state).2.buf := by
  unfold getGpuProcesses at decoded ⊢
  simp only [run_bind, ↓run_inspect_bind, run_ite, run_pure] at decoded ⊢
  split at decoded
  · cases decoded
  · rename_i accepted
    rw [if_neg accepted]
    split at decoded
    · rename_i granted
      rw [if_pos granted]
      split at decoded
      · rename_i done
        exact done
      · cases decoded
    · cases decoded

theorem get_gpu_snapshot_done (state : WireState) (snapshot : GpuSnapshot)
    (decoded : (getGpuSnapshot.run state).1 = some snapshot) : ipcDone (getGpuSnapshot.run state).2.buf := by
  unfold getGpuSnapshot at decoded ⊢
  simp only [run_bind, ↓run_inspect_bind, run_ite, run_pure] at decoded ⊢
  split at decoded
  · cases decoded
  · rename_i accepted
    rw [if_neg accepted]
    split at decoded
    · rename_i granted
      rw [if_pos granted]
      exact get_gpu_processes_done decoded
    · cases decoded

theorem query_gpu_decode_guarded (out : GpuSnapshot) (start : WireState) :
    Guarded out ((queryGpuDecode out).run start) := by
  have finished := get_gpu_snapshot_done start
  unfold queryGpuDecode
  rw [run_bind]
  cases decoded : (getGpuSnapshot.run start).1 with
  | none => exact ⟨fun _ => rfl, fun impossible => by cases impossible⟩
  | some snapshot => exact ⟨fun failed => absurd rfl failed, fun _ => finished snapshot decoded⟩

theorem query_events_dispatch_guarded {bus} : Guarded bus ((queryEventsDispatch bus).run start) := by
  have refused : ∀ code after, Guarded bus ((some code, bus), after) := fun code after =>
    ⟨fun _ => rfl, fun impossible => by cases impossible⟩
  unfold queryEventsDispatch
  simp only [run_bind, ↓run_inspect_bind, run_ite, run_pure]
  split
  · exact refused _ _
  · split
    · split
      · rename_i done
        exact ⟨fun failed => absurd rfl failed, fun _ => done⟩
      · exact refused _ _
    · exact refused _ _

structure AllOrNothing {σ : Type} (body : Bytes) (before : σ) (outcome : (Option Errno × σ) × WireState) : Prop where
  unchanged : outcome.1.1 ≠ none → outcome.1.2 = before
  consumed : outcome.1.1 = none → outcome.2.buf.pos = body.length
  allSucceeded : outcome.1.1 = none → ∀ call ∈ outcome.2.calls, call.failed = false
  latched : outcome.2.calls.Pairwise fun earlier later =>
    earlier.failed = true → later.failed = true ∧ later.empty = true
  reported : (∃ call ∈ outcome.2.calls, call.failed = true) → outcome.1.1 ≠ none

theorem guarded_all_or_nothing {σ : Type} {body : Bytes} {before : σ} {outcome}
    (guarded : Guarded before outcome) (inv : ReaderInv body outcome.2) : AllOrNothing body before outcome := by
  have finished : outcome.1.1 = none → outcome.2.buf.error = none ∧ outcome.2.buf.pos = body.length := by
    intro success
    have done := guarded.done success
    rw [ipcDone, Bool.and_eq_true, beq_iff_eq, Option.isNone_iff_eq_none, inv.cursor.same] at done
    exact done
  have clean : outcome.1.1 = none → ∀ call ∈ outcome.2.calls, call.failed = false := by
    intro success call mem
    cases failed : call.failed with
    | false => rfl
    | true =>
      have reported := inv.latch.reported call mem failed
      rw [(finished success).1] at reported
      cases reported
  refine ⟨guarded.unchanged, fun success => (finished success).2, clean, inv.latch.latched, ?_⟩
  rintro ⟨call, mem, failed⟩ success
  rw [clean success call mem] at failed
  cases failed

theorem decoding_all_or_nothing (body : Bytes) (heap : Heap) (client : MonitorState) (statusOnly : Bool)
    (received : Timespec) (bus : List Event) (out : GpuSnapshot) :
    AllOrNothing body client ((querySnapshotDecode client statusOnly received).run (readerStart body heap)) ∧
    AllOrNothing body bus ((queryEventsDispatch bus).run (readerStart body heap)) ∧
    AllOrNothing body out ((queryGpuDecode out).run (readerStart body heap)) := by
  have start := reader_start_inv body heap
  refine ⟨?_, ?_, ?_⟩
  · exact guarded_all_or_nothing query_snapshot_decode_guarded (query_snapshot_decode_keeps _ _ _ _ start)
  · exact guarded_all_or_nothing query_events_dispatch_guarded (query_events_dispatch_keeps _ _ start)
  · exact guarded_all_or_nothing (query_gpu_decode_guarded _ _) (query_gpu_decode_keeps _ _ start)

def InBounds (body : Bytes) (state : WireState) : Prop := ∀ range ∈ state.buf.reads, range.1 + range.2 ≤ body.length

instance (body : Bytes) (state : WireState) : Decidable (InBounds body state) :=
  inferInstanceAs (Decidable (∀ range ∈ state.buf.reads, range.1 + range.2 ≤ body.length))

-- The count is read through a second cursor over the reply, set to byte 24 by hand.
def peekCount (body : Bytes) (heap : Heap) : UInt32 × WireState :=
  ipcGetU32.run ⟨{ data := body, pos := 24 }, heap, []⟩

-- What query_client does to the reply of a successful exchange, as the states its cursors end in.
-- The binary form copies the body out and uses no cursor.
def queryClient (type : UInt16) (binary initialised : Bool) (body : Bytes) (heap : Heap) (received : Timespec) :
    List WireState :=
  if binary then []
  else if type = ipcGpu then [((queryGpuDecode {}).run (readerStart body heap)).2]
  else if initialised then
    let peeked := (peekCount body heap).2
    [peeked, ((querySnapshotDecode monitorStateInit (type == ipcStatus) received).run
      (readerStart body peeked.heap)).2]
  else []

theorem peek_reads (body : Bytes) (heap : Heap) :
    (peekCount body heap).2.buf.reads = if sizeSub body.length 24 < 4 then [] else [(24, 4)] := by
  simp only [peekCount, ipcGetU32, called, readU32, Option.isSome_none, Bool.false_or, decide_eq_true_eq]
  split <;> rfl

-- On a body of fewer than 24 bytes the subtraction wraps and the check passes.
theorem peek_in_bounds_iff (body : Bytes) (heap : Heap) : InBounds body (peekCount body heap).2 ↔ 24 ≤ body.length := by
  rw [InBounds, peek_reads]
  by_cases long : 24 ≤ body.length
  · rw [size_sub_exact long]
    simp only [long, iff_true]
    split
    · simp
    · simp only [mem_singleton, forall_eq]
      omega
  · rw [size_sub_wraps (by omega), if_neg (by omega)]
    simp only [mem_singleton, forall_eq, long, iff_false]
    omega

theorem keeps_in_bounds {α : Type} (body : Bytes) (heap : Heap) {prog : Wire α} (keeps : Keeps (ReaderInv body) prog) :
    InBounds body (prog.run (readerStart body heap)).2 :=
  (keeps _ (reader_start_inv body heap)).cursor.inside

-- Every cursor that query_client, or one of the decoders on its own, moves over one reply body.
def replyCursors (type : UInt16) (binary initialised : Bool) (body : Bytes) (heap : Heap) (received : Timespec)
    (client : MonitorState) (statusOnly : Bool) (bus : List Event) (out : GpuSnapshot) : List WireState :=
  queryClient type binary initialised body heap received ++
    [((querySnapshotDecode client statusOnly received).run (readerStart body heap)).2,
     ((queryEventsDispatch bus).run (readerStart body heap)).2,
     ((queryGpuDecode out).run (readerStart body heap)).2]

theorem query_client_in_bounds_iff (type : UInt16) {binary initialised : Bool} (body : Bytes) (heap : Heap)
    {received : Timespec} : (∀ cursor ∈ queryClient type binary initialised body heap received, InBounds body cursor) ↔
    binary ∨ type = ipcGpu ∨ initialised = false ∨ 24 ≤ body.length := by
  unfold queryClient
  cases binary with
  | true => simp
  | false =>
    by_cases gpu : type = ipcGpu
    · have inside := keeps_in_bounds body heap (query_gpu_decode_keeps {})
      simpa [gpu] using inside
    · cases initialised with
      | false => simp [gpu]
      | true =>
        have inside := keeps_in_bounds body (peekCount body heap).2.heap
          (query_snapshot_decode_keeps monitorStateInit (type == ipcStatus) received)
        simp only [Bool.false_eq_true, if_false, gpu, if_true, mem_cons, not_mem_nil, or_false,
          forall_eq_or_imp, forall_eq, peek_in_bounds_iff, inside, and_true, false_or, Bool.true_eq_false]

theorem reply_reads_in_bounds_iff (type : UInt16) (binary initialised : Bool) (body : Bytes) (heap : Heap)
    (received : Timespec) (client : MonitorState) (statusOnly : Bool) (bus : List Event) (out : GpuSnapshot) :
    (∀ cursor ∈ replyCursors type binary initialised body heap received client statusOnly bus out, InBounds body cursor) ↔
    binary = true ∨ type = ipcGpu ∨ initialised = false ∨ 24 ≤ body.length := by
  have snapshot := keeps_in_bounds body heap (query_snapshot_decode_keeps client statusOnly received)
  have events := keeps_in_bounds body heap (query_events_dispatch_keeps bus)
  have gpu := keeps_in_bounds body heap (query_gpu_decode_keeps out)
  rw [← @query_client_in_bounds_iff type binary initialised body heap received]
  simp only [replyCursors, mem_append, mem_cons, not_mem_nil, or_false, or_imp, forall_and, forall_eq,
    snapshot, events, gpu, and_true]

theorem empty_reply_read_out_of_bounds :
    ∃ cursor ∈ queryClient ipcStatus false true [] allGranted ⟨0, 0, by decide, by decide⟩, ¬ InBounds [] cursor :=
  ⟨(peekCount [] allGranted).2, mem_cons_self, by decide⟩

end Evemon.Ipc
