import Evemon.Decoders
import Evemon.WireParse

namespace Evemon.Ipc

open Prog BigEndian List UInt32 Nat

def gpuDeviceBytes (v : GpuDevice) : Bytes :=
  stringBytes v.name.bytes ++ (stringBytes v.vendor.bytes ++ (stringBytes v.driver.bytes ++ (
    stringBytes v.pdev.bytes ++ (encode32 v.valid ++ (encode32 v.utilizationPercent ++ (encode32 v.temperatureC ++ (
    encode32 v.powerMw ++ (encode32 v.powerLimitMw ++ (encode32 v.fanPercent ++ (encode32 v.fanRpm ++ (
    encode32 v.coreClockMhz ++ (encode32 v.coreClockMaxMhz ++ (encode32 v.memoryClockMhz ++ (
    encode32 v.memoryClockMaxMhz ++ (encode32 v.pcieGeneration ++ (encode32 v.pcieWidth ++ (
    encode32 v.encoderPercent ++ (encode64 v.memoryTotalBytes ++ encode64 v.memoryUsedBytes))))))))))))))))))

theorem gpu_device_coded : Coded putGpuDevice getGpuDevice 88 gpuDeviceBytes (fun _ => True) id where
  puts v := by
    iterate 4 apply emits_bind (ipc_put_string_puts _)
    iterate 14 apply emits_bind (ipc_put_u32_puts _)
    exact emits_bind ipc_put_u64_puts ipc_put_u64_puts
  gets _ v := by
    iterate 4 refine parses_step (ipc_get_fixed_gets _ (by decide)) fun _ => ?_
    iterate 14 refine parses_step (ipc_get_u32_gets _) fun _ => ?_
    refine parses_step (ipc_get_u64_gets _) fun _ => ?_
    refine parses_last (ipc_get_u64_gets _) fun read _ same => ?_
    simp only [read, same, id]
  least v := by
    simp [gpuDeviceBytes]
    omega

def gpuProcessBytes (v : GpuProcess) : Bytes :=
  encode32 v.deviceIndex ++ (encode32 v.pid.toUInt32 ++ (encode32 v.valid ++ (encode32 v.utilizationPercent ++ (
    encode32 v.encodePercent ++ (encode32 v.decodePercent ++ (encode64 v.memoryBytes ++ (stringBytes v.name.bytes ++
    stringBytes v.user.bytes)))))))

variable (deviceCount : UInt32)

theorem gpu_process_coded : Coded putGpuProcess (getGpuProcess deviceCount) 40 gpuProcessBytes
    (fun v => v.deviceIndex < deviceCount) id where
  puts v := by
    iterate 6 apply emits_bind (ipc_put_u32_puts _)
    apply emits_bind ipc_put_u64_puts
    exact emits_bind (ipc_put_string_puts _) (ipc_put_string_puts _)
  gets _ v := by
    iterate 6 refine parses_step (ipc_get_u32_gets _) fun _ => ?_
    refine parses_step (ipc_get_u64_gets _) fun _ => ?_
    refine parses_step (ipc_get_fixed_gets _ (by decide)) fun _ => ?_
    rw [← append_nil (stringBytes v.user.bytes)]
    refine parses_step (ipc_get_fixed_gets _ (by decide)) fun _ => ?_
    refine (parses_last (reject_if_gets _ _) fun read _ _ => ?_).valid_iff fun read => ?_
    · simp only [read, id]
      rfl
    · simp only [read]
      simp
  least v := by
    simp [gpuProcessBytes]
    omega

def gpuProcessesBytes (processes : List GpuProcess) : Bytes :=
  encode32 (UInt32.ofNat processes.length) ++ processes.flatMap gpuProcessBytes

def gpuBytes (s : GpuSnapshot) : Bytes :=
  encode64 s.monotonicNs ++ (encode32 (UInt32.ofNat s.devices.length) ++ (s.devices.flatMap gpuDeviceBytes ++
    gpuProcessesBytes s.processes))

theorem query_gpu_encode_puts (s : GpuSnapshot) : Puts (queryGpuEncode s) (gpuBytes s) := by
  apply emits_bind ipc_put_u64_puts
  apply emits_bind (ipc_put_u32_puts _)
  apply emits_bind (put_until_error_puts gpu_device_coded.puts _)
  exact emits_bind (ipc_put_u32_puts _) (put_until_error_puts (gpu_process_coded 0).puts _)

section

structure GpuValid (s : GpuSnapshot) : Prop where
  devices : s.devices.length ≤ 65536
  processes : s.processes.length ≤ 65536
  indices : ∀ v ∈ s.processes, v.deviceIndex.toNat < s.devices.length

variable {grant : Nat → Bool}

theorem count_of_nat {count : Nat} (few : count ≤ 65536) : (UInt32.ofNat count).toNat = count :=
  toNat_ofNat_of_lt' (lt_of_le_of_lt few (by decide))

def countRefused (minimum : Nat) (count : UInt32) (buf : IpcBuf) : Bool :=
  buf.error.isSome || decide (count > 65536) || decide (count.toNat > sizeSub buf.data.length buf.pos / minimum)

variable {minimum : Nat}

theorem counted_complete {α : Type} {put : α → Wire Unit} {get} {bytes : α → Bytes} {valid : α → Prop}
    (coded : Coded put get minimum bytes valid id) (values : List α) (state : WireState) (later : Bytes)
    (some : 0 < minimum) (few : values.length ≤ 65536) (each : ∀ value ∈ values, valid value)
    (granted : ∀ index, grant index)
    (available : Reading grant state (encode32 (UInt32.ofNat values.length) ++ (values.flatMap bytes ++ later))) :
    (ipcGetU32.run state).1 = UInt32.ofNat values.length ∧
    countRefused minimum (UInt32.ofNat values.length) (ipcGetU32.run state).2.buf = false ∧
    (malloc.run (ipcGetU32.run state).2).1 ∧
    ((getUntilError get values.length).run (malloc.run (ipcGetU32.run state).2).2).1 = values ∧
    Reading grant ((getUntilError get values.length).run (malloc.run (ipcGetU32.run state).2).2).2 later := by
  obtain ⟨same, rest⟩ := (@ipc_get_u32_gets grant True _).complete trivial granted trivial state _ available
  have loop := @get_until_error_gets α grant True α get bytes valid id values fun value _ => coded.gets grant value
  obtain ⟨read, after⟩ := loop.complete trivial granted each _ later (malloc_reading rest)
  rw [map_id] at read
  refine ⟨same, ?_, by rw [← rest.heap] at granted; exact granted _, read, after⟩
  have least := items_bytes_min coded.least values
  have unread := rest.left_length
  have room : values.length ≤ sizeSub (ipcGetU32.run state).2.buf.data.length (ipcGetU32.run state).2.buf.pos / minimum := by
    rw [unread, le_div_iff_mul_le some, length_append]
    omega
  have number := count_of_nat few
  have bounded : UInt32.ofNat values.length ≤ 65536 := by
    rw [le_iff_toNat_le, number]
    exact few
  simp [countRefused, rest.clear, number, bounded, room]

variable {s : GpuSnapshot} {state : WireState}

theorem get_gpu_processes_complete (valid : GpuValid s) (granted : ∀ index, grant index)
    (available : Reading grant state (gpuProcessesBytes s.processes)) :
    ((getGpuProcesses s.monotonicNs (UInt32.ofNat s.devices.length) s.devices).run state).1 = some s := by
  have indices : ∀ v ∈ s.processes, v.deviceIndex < UInt32.ofNat s.devices.length := by
    intro v mem
    rw [lt_iff_toNat_lt, count_of_nat valid.devices]
    exact valid.indices v mem
  rw [gpuProcessesBytes, ← append_nil (s.processes.flatMap gpuProcessBytes)] at available
  obtain ⟨count, accepted, memory, read, rest⟩ := counted_complete (gpu_process_coded _) s.processes state [] (by decide)
    valid.processes indices granted available
  have done := unread_done ⟨rest.clear, rest.bounded, rest.left, by rw [rest.heap]; exact granted⟩
  simp only [getGpuProcesses, ↓run_inspect_bind, run_bind, run_ite, run_pure]
  rw [count]
  unfold countRefused at accepted
  rw [accepted, if_neg (by decide), memory, if_pos rfl, count_of_nat valid.processes, done, read]
  rfl

theorem get_gpu_snapshot_complete (valid : GpuValid s) (granted : ∀ index, grant index)
    (available : Reading grant state (gpuBytes s)) : (getGpuSnapshot.run state).1 = some s := by
  obtain ⟨time, rest⟩ := (@ipc_get_u64_gets grant True _).complete trivial granted trivial state _ available
  obtain ⟨count, accepted, memory, read, after⟩ := counted_complete gpu_device_coded s.devices _ _ (by decide)
    valid.devices (fun _ _ => trivial) granted rest
  simp only [getGpuSnapshot, ↓run_inspect_bind, run_bind, run_ite, run_pure]
  rw [time, count]
  unfold countRefused at accepted
  rw [accepted, if_neg (by decide), memory, if_pos rfl, count_of_nat valid.devices, read]
  exact get_gpu_processes_complete valid granted after

theorem get_gpu_process_index (state : WireState) (healthy : ¬ Failed ((getGpuProcess deviceCount).run state).2) :
    ((getGpuProcess deviceCount).run state).1.deviceIndex < deviceCount := by
  simp only [getGpuProcess, run_bind, run_pure] at healthy ⊢
  by_contra outside
  apply healthy
  have refused : decide ((ipcGetU32.run state).1 ≥ deviceCount) := by
    simpa using outside
  rw [refused]
  rfl

theorem not_refused {count} {buf} (accepted : ¬ countRefused minimum count buf) :
    buf.error.isSome = false ∧ count.toNat ≤ 65536 := by
  simp only [countRefused, Bool.or_eq_true, not_or, Bool.not_eq_true] at accepted
  refine ⟨accepted.1.1, ?_⟩
  have bounded := accepted.1.2
  simp only [decide_eq_false_iff_not, gt_iff_lt, lt_iff_toNat_lt] at bounded
  exact not_lt.mp bounded

variable {snapshot : GpuSnapshot}

theorem get_gpu_processes_valid {monotonicNs} {deviceCount} {devices}
    (decoded : ((getGpuProcesses monotonicNs deviceCount devices).run state).1 = some snapshot) :
    ¬ Failed state ∧ snapshot.devices = devices ∧ snapshot.processes.length ≤ 65536 ∧
    ∀ v ∈ snapshot.processes, v.deviceIndex < deviceCount := by
  unfold getGpuProcesses at decoded
  simp only [run_bind, ↓run_inspect_bind, run_ite, run_pure] at decoded
  split at decoded
  · cases decoded
  rename_i accepted
  obtain ⟨clear, few⟩ := not_refused accepted
  split at decoded
  · split at decoded
    · rename_i done
      cases decoded
      have healthy := done_healthy done
      obtain ⟨length, indices⟩ := @get_until_error_healthy _ (fun v => v.deviceIndex < deviceCount)
        (getGpuProcess deviceCount) (get_gpu_process_index deviceCount) (ipcGetU32.run state).1.toNat _
        (by unfold Failed; rw [healthy]; decide)
      refine ⟨fun lost => ?_, rfl, ?_, indices⟩
      · have kept : (ipcGetU32.run state).2.buf.error.isSome := (read_u32_sticky lost).1
        rw [clear] at kept
        cases kept
      · rw [length]
        exact few
    · cases decoded
  · cases decoded

theorem get_gpu_snapshot_valid (decoded : (getGpuSnapshot.run state).1 = some snapshot) : GpuValid snapshot := by
  unfold getGpuSnapshot at decoded
  simp only [run_bind, ↓run_inspect_bind, run_ite, run_pure] at decoded
  split at decoded
  · cases decoded
  rename_i accepted
  obtain ⟨_, few⟩ := not_refused accepted
  split at decoded
  · obtain ⟨healthy, devices, processes, indices⟩ := get_gpu_processes_valid decoded
    obtain ⟨length, _⟩ := @get_until_error_healthy _ (fun _ => True) getGpuDevice (fun _ _ => trivial) _ _ healthy
    rw [← devices] at length
    refine ⟨by omega, processes, fun v mem => ?_⟩
    rw [length]
    exact lt_iff_toNat_lt.mp (indices v mem)
  · cases decoded

end

def encodedGpu (s : GpuSnapshot) (heap : Heap) : WireState := ((queryGpuEncode s).run (writerStart heap)).2

theorem gpu_round_trip (s out : GpuSnapshot) (sender receiver : Heap) (valid : GpuValid s)
    (granted : ∀ index, receiver.grant index) (clear : (encodedGpu s sender).buf.error = none) :
    ((queryGpuDecode out).run (readerStart (encodedGpu s sender).buf.data receiver)).1 = (none, s) := by
  rcases (query_gpu_encode_puts s).writes (writerStart sender) [] (writer_start_written sender) with lost | written
  · unfold Failed at lost
    unfold encodedGpu at clear
    rw [clear] at lost
    cases lost
  · have start : Reading receiver.grant (readerStart (encodedGpu s sender).buf.data receiver) (gpuBytes s) :=
      ⟨⟨rfl, zero_le _, written.holds⟩, rfl, written.bounded⟩
    simp only [queryGpuDecode, run_bind, get_gpu_snapshot_complete valid granted start, run_pure]

variable {body : Bytes} {heap : Heap} {out : GpuSnapshot}

theorem gpu_decoded_valid {snapshot : GpuSnapshot}
    (accepted : ((queryGpuDecode out).run (readerStart body heap)).1 = (none, snapshot)) : GpuValid snapshot := by
  unfold queryGpuDecode at accepted
  rw [run_bind] at accepted
  cases decoded : (getGpuSnapshot.run (readerStart body heap)).1 with
  | none =>
    rw [decoded] at accepted
    cases accepted
  | some found =>
    rw [decoded] at accepted
    cases accepted
    exact get_gpu_snapshot_valid decoded

theorem gpu_decoded_consumed {snapshot : GpuSnapshot}
    (accepted : ((queryGpuDecode out).run (readerStart body heap)).1 = (none, snapshot)) :
    ((queryGpuDecode out).run (readerStart body heap)).2.buf.pos = body.length := by
  have outcome := guarded_all_or_nothing (query_gpu_decode_guarded out (readerStart body heap))
    (query_gpu_decode_keeps out _ (reader_start_inv body heap))
  exact outcome.consumed (by rw [accepted])

theorem gpu_codec :
    (∀ (s out : GpuSnapshot) (sender receiver : Heap), GpuValid s → (∀ index, receiver.grant index = true) →
    (encodedGpu s sender).buf.error = none →
    ((queryGpuDecode out).run (readerStart (encodedGpu s sender).buf.data receiver)).1 = (none, s)) ∧
    ∀ (body : Bytes) (heap : Heap) (out snapshot : GpuSnapshot),
    ((queryGpuDecode out).run (readerStart body heap)).1 = (none, snapshot) →
    GpuValid snapshot ∧ ((queryGpuDecode out).run (readerStart body heap)).2.buf.pos = body.length :=
  ⟨gpu_round_trip, fun _ _ _ _ accepted =>
    ⟨gpu_decoded_valid accepted, gpu_decoded_consumed accepted⟩⟩

def sampleGpu : GpuSnapshot where
  monotonicNs := 7
  devices := [{
    name := ⟨[71], by decide, by decide⟩, vendor := .empty 64, driver := .empty 32, pdev := .empty 16, valid := 3
    utilizationPercent := 50, temperatureC := 0, powerMw := 0, powerLimitMw := 0, fanPercent := 0, fanRpm := 0
    coreClockMhz := 0, coreClockMaxMhz := 0, memoryClockMhz := 0, memoryClockMaxMhz := 0, pcieGeneration := 4
    pcieWidth := 16, encoderPercent := 0, memoryTotalBytes := 1024, memoryUsedBytes := 512 }]
  processes := [{
    deviceIndex := 0, pid := 42, valid := 1, utilizationPercent := 9, encodePercent := 0, decodePercent := 0
    memoryBytes := 64, name := ⟨[109, 112, 118], by decide, by decide⟩, user := .empty 64 }]

theorem sample_gpu_valid : GpuValid sampleGpu := ⟨by decide, by decide, by decide⟩

theorem gpu_codec_sample :
    ((queryGpuDecode {}).run (readerStart (encodedGpu sampleGpu allGranted).buf.data allGranted)).1 = (none, sampleGpu) ∧
    ((queryGpuDecode {}).run (readerStart (encodedGpu sampleGpu allGranted).buf.data allGranted)).2.buf.pos =
    (encodedGpu sampleGpu allGranted).buf.data.length := by
  have accepted := gpu_codec.1 sampleGpu {} allGranted allGranted sample_gpu_valid (fun _ => rfl) (by decide +kernel)
  exact ⟨accepted, (gpu_codec.2 _ _ _ _ accepted).2⟩

end Evemon.Ipc
