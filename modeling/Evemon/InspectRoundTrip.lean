import Evemon.InspectCodec

namespace Evemon.Inspect

open Ipc Prog BigEndian

section

def cgroupIfBytes : Option Cgroup → Bytes
  | none => encode32 0
  | some v => encode32 1 ++ cgroupBytes v

def procDataBytes (d : ProcData) : Bytes :=
  encode32 d.pid.toUInt32 ++ (encode32 d.ppid.toUInt32 ++ (textBytes d.name ++ (textBytes d.cmdline ++ (
    textBytes d.user ++ (textBytes d.cwd ++ (encode64 d.cpuPercent.toBits ++ (encode64 d.rssKb.toUInt64 ++ (
    itemsBytes pidBytes d.descendantPids ++ (itemsBytes fdBytes d.fds ++ (itemsBytes envBytes d.envs ++ (
    itemsBytes mmapBytes d.mmaps ++ (itemsBytes libBytes d.libs ++ (itemsBytes sockBytes d.sockets ++ (
    itemsBytes threadBytes d.threads ++ (itemsBytes pwNodeBytes d.pwNodes ++ (itemsBytes pwLinkBytes d.pwLinks ++ (
    itemsBytes pwPortBytes d.pwPorts ++ (itemsBytes mprisBytes d.mprisPlayers ++ (cgroupIfBytes d.cgroup ++ (
    textBytes d.rawStatus ++ (textBytes d.rawMaps ++ textBytes d.rawCgroup)))))))))))))))))))))

theorem put_descendants_puts {pids} : Puts (putDescendants pids) (itemsBytes pidBytes pids) :=
  emits_bind (ipc_put_u32_puts _) (emits_for_m put_int_puts pids)

variable {cgroup : Option Cgroup}

theorem put_cgroup_if_puts : Puts (putCgroupIf cgroup) (cgroupIfBytes cgroup) := by
  cases cgroup with
  | none => exact ipc_put_u32_puts 0
  | some v => exact emits_bind (ipc_put_u32_puts 1) (cgroup_coded.puts v)

theorem put_proc_data_puts (d : ProcData) : Puts (putProcData d) (procDataBytes d) := by
  iterate 2 apply emits_bind (put_int_puts _)
  iterate 4 apply emits_bind put_text_puts
  apply emits_bind ipc_put_f64_puts
  apply emits_bind put_long_puts
  apply emits_bind put_descendants_puts
  apply emits_bind (put_items_puts fd_coded.puts)
  apply emits_bind (put_items_puts env_coded.puts)
  apply emits_bind (put_items_puts mmap_coded.puts)
  apply emits_bind (put_items_puts lib_coded.puts)
  apply emits_bind (put_items_puts sock_coded.puts)
  apply emits_bind (put_items_puts thread_coded.puts)
  apply emits_bind (put_items_puts pw_node_coded.puts)
  apply emits_bind (put_items_puts pw_link_coded.puts)
  apply emits_bind (put_items_puts pw_port_coded.puts)
  apply emits_bind (put_items_puts mpris_coded.puts)
  apply emits_bind put_cgroup_if_puts
  iterate 2 apply emits_bind put_text_puts
  exact put_text_puts

def ProcData.decoded (d : ProcData) : ProcData :=
  { d with
    name := decodedText d.name, cmdline := decodedText d.cmdline, user := decodedText d.user, cwd := decodedText d.cwd
    envs := d.envs.map Env.decoded, mmaps := d.mmaps.map Mmap.decoded
    rawStatus := decodedText d.rawStatus, rawMaps := decodedText d.rawMaps, rawCgroup := decodedText d.rawCgroup }

def ProcData.arrays (d : ProcData) : List (Nat × Nat) :=
  [(d.descendantPids.length, 4), (d.fds.length, fdSize), (d.envs.length, envSize), (d.mmaps.length, mmapSize),
   (d.libs.length, libSize), (d.sockets.length, sockSize), (d.threads.length, threadSize),
   (d.pwNodes.length, pwNodeSize), (d.pwLinks.length, pwLinkSize), (d.pwPorts.length, pwPortSize),
   (d.mprisPlayers.length, mprisSize)]

structure Decodable (d : ProcData) : Prop where
  cpu : d.cpuPercent.isFinite = true
  threads : ∀ v ∈ d.threads, v.cpuPercent.isFinite = true
  players : ∀ v ∈ d.mprisPlayers, v.volume.isFinite = true ∧ v.rate.isFinite = true
  counts : ∀ array ∈ d.arrays, array.1 ≤ 65536
  memory : (d.arrays.map fun array => array.1 * array.2).sum ≤ ipcLimit

variable {grant : Nat → Bool} {known : Prop}

theorem get_cgroup_if_gets : Gets grant known getCgroupIf (cgroupIfBytes cgroup) True (· = cgroup) := by
  have sticky : ∀ flag : UInt32, Keeps Failed (do
      rejectIf (decide (flag > 1)) .EPROTO
      let failed ← hasError
      if flag == 0 || failed then pure none
      else
        let v ← getCgroup
        pure (some v) : Wire (Option Cgroup)) := by
    intro flag
    refine keeps_bind (@reject_if_gets grant known _ _).sticky fun _ state lost => ?_
    unfold Failed at lost
    simp only [hasError, ↓run_inspect_bind, lost, Bool.or_true, if_true, run_pure]
    exact lost
  cases cgroup with
  | none =>
    rw [cgroupIfBytes, ← List.append_nil (encode32 0)]
    refine parses_step (ipc_get_u32_gets 0) fun flag => ?_
    refine parses_of_known (sticky flag) fun read => ?_
    rw [read.2]
    exact parses_step ((reject_if_gets _ _).valid_iff fun _ => by decide) fun _ =>
      parses_inspect (fun _ => True) (fun _ _ _ _ => trivial) fun _ => parses_pure none fun _ => rfl
  | some v =>
    refine parses_step (ipc_get_u32_gets 1) fun flag => ?_
    refine parses_of_known (sticky flag) fun read => ?_
    rw [read.2, ← List.nil_append (cgroupBytes v)]
    refine parses_step ((reject_if_gets _ _).valid_iff fun _ => by decide) fun _ => ?_
    have present : Gets grant (known ∧ (1 : UInt32) = 1) getCgroup (cgroupBytes v) True (· = v) :=
      (cgroup_coded.gets grant v).under fun _ => trivial
    exact gets_unless_failed (parses_last (present.under And.left) fun _ _ same => by rw [same])

theorem get_proc_data_gets (d : ProcData) :
    Gets grant known getProcData (procDataBytes d) (Decodable d) (· = d.decoded) := by
  have parsed : Gets grant known getProcData (procDataBytes d) _ (· = d.decoded) :=
    parses_step (get_int_gets _) fun _ =>
    parses_step (get_int_gets _) fun _ =>
    parses_step get_text_gets fun _ =>
    parses_step get_text_gets fun _ =>
    parses_step get_text_gets fun _ =>
    parses_step get_text_gets fun _ =>
    parses_bind get_double_gets fun _ =>
    parses_step get_long_gets fun _ =>
    parses_bind (get_items_gets pid_coded 4 _ ipcLimit _ (by decide) (by decide) fun _ => rfl) fun _ =>
    parses_bind (get_next_items_gets fd_coded (by decide) (by decide)) fun _ =>
    parses_bind (get_next_items_gets env_coded (by decide) (by decide)) fun _ =>
    parses_bind (get_next_items_gets mmap_coded (by decide) (by decide)) fun _ =>
    parses_bind (get_next_items_gets lib_coded (by decide) (by decide)) fun _ =>
    parses_bind (get_next_items_gets sock_coded (by decide) (by decide)) fun _ =>
    parses_bind (get_next_items_gets thread_coded (by decide) (by decide)) fun _ =>
    parses_bind (get_next_items_gets pw_node_coded (by decide) (by decide)) fun _ =>
    parses_bind (get_next_items_gets pw_link_coded (by decide) (by decide)) fun _ =>
    parses_bind (get_next_items_gets pw_port_coded (by decide) (by decide)) fun _ =>
    parses_bind (get_next_items_gets mpris_coded (by decide) (by decide)) fun _ =>
    parses_step get_cgroup_if_gets fun _ =>
    parses_step get_text_gets fun _ =>
    parses_step get_text_gets fun _ =>
    parses_last get_text_gets fun read _ same => by
      simp only [read, same, ProcData.decoded, List.map_id]
  refine parsed.valid_iff fun _ => ?_
  constructor
  · rintro ⟨cpu, ⟨pids, _⟩, ⟨fds, _⟩, ⟨envs, _⟩, ⟨mmaps, _⟩, ⟨libs, _⟩, ⟨sockets, _⟩, ⟨threads, rates⟩, ⟨nodes, _⟩,
      ⟨links, _⟩, ⟨ports, _⟩, ⟨players, levels⟩, _⟩
    have fit : ArraysFit d.arrays ipcLimit :=
      ⟨pids, fds, envs, mmaps, libs, sockets, threads, nodes, links, ports, players, trivial⟩
    obtain ⟨counts, memory⟩ := (arrays_fit_iff _ _).mp fit
    exact ⟨cpu, rates, levels, counts, memory⟩
  · intro decodable
    obtain ⟨pids, fds, envs, mmaps, libs, sockets, threads, nodes, links, ports, players, _⟩ :=
      (arrays_fit_iff d.arrays ipcLimit).mpr ⟨decodable.counts, decodable.memory⟩
    exact ⟨decodable.cpu, ⟨pids, by simp⟩, ⟨fds, by simp⟩, ⟨envs, by simp⟩, ⟨mmaps, by simp⟩, ⟨libs, by simp⟩,
      ⟨sockets, by simp⟩, ⟨threads, decodable.threads⟩, ⟨nodes, by simp⟩, ⟨links, by simp⟩, ⟨ports, by simp⟩,
      ⟨players, decodable.players⟩, trivial⟩

end

def encodedInspect (d : ProcData) (heap : Heap) : Option IpcCode × WireState :=
  (queryInspectEncode (some d)).run (writerStart heap)

def decodedInspect (body : Bytes) (heap : Heap) : Option ProcData := (queryInspectDecode.run (readerStart body heap)).1

variable {d : ProcData} {heap : Heap}

theorem encoded_inspect_bytes (accepted : (encodedInspect d heap).1 = none) :
    (encodedInspect d heap).2.buf.data = procDataBytes d ∧ (procDataBytes d).length ≤ ipcLimit :=
  reported_bytes (put_proc_data_puts d) accepted

theorem query_inspect_decode_run (body : Bytes) (heap : Heap) : decodedInspect body heap = if heap.grant heap.asked then
    if ipcDone (getProcData.run (malloc.run (readerStart body heap)).2).2.buf then
    some (getProcData.run (malloc.run (readerStart body heap)).2).1 else none else none :=
  run_checked getProcData (readerStart body heap)

theorem decoded_inspect_sound {decoded} (fits : (procDataBytes d).length ≤ ipcLimit)
    (accepted : decodedInspect (procDataBytes d) heap = some decoded) : Decodable d ∧ decoded = d.decoded := by
  rw [query_inspect_decode_run] at accepted
  split at accepted
  · split at accepted
    · rename_i done
      cases accepted
      rcases (@get_proc_data_gets _ True d).sound trivial _ [] (reader_start_reading heap fits) with lost | ⟨holds, same, _⟩
      · unfold Failed at lost
        rw [done_healthy done] at lost
        cases lost
      · exact ⟨holds, same⟩
    · cases accepted
  · cases accepted

theorem decoded_inspect_complete (granted : ∀ index, heap.grant index) (fits : (procDataBytes d).length ≤ ipcLimit)
    (decodable : Decodable d) : decodedInspect (procDataBytes d) heap = some d.decoded := by
  obtain ⟨same, rest⟩ := (@get_proc_data_gets _ True d).complete trivial granted decodable _ []
    (reader_start_reading heap fits)
  have done := unread_done ⟨rest.clear, rest.bounded, rest.left, by rw [rest.heap]; exact granted⟩
  rw [query_inspect_decode_run, if_pos (granted _), if_pos done, same]

theorem inspect_reply_accepted_iff (d : ProcData) (sender receiver : Heap)
    (granted : ∀ index, receiver.grant index = true) (encoded : (encodedInspect d sender).1 = none) :
    (decodedInspect (encodedInspect d sender).2.buf.data receiver).isSome = true ↔ Decodable d := by
  obtain ⟨bytes, fits⟩ := encoded_inspect_bytes encoded
  rw [bytes]
  constructor
  · intro accepted
    obtain ⟨decoded, same⟩ := Option.isSome_iff_exists.mp accepted
    exact (decoded_inspect_sound fits same).1
  · intro decodable
    rw [decoded_inspect_complete granted fits decodable]
    rfl

def samplePlayer (volume : Float) : MprisPlayer where
  identity := ⟨[118, 108, 99], by decide, by decide⟩
  pid := 42
  volume := volume
  rate := Float.ofBits 0x3ff0000000000000
  positionUs := 5
  lengthUs := -1
  trackNumber := 1
  discNumber := 1
  canPlay := 1
  canPause := 1
  canControl := 1

def sampleBundle (volume : Float) : ProcData where
  pid := 42
  ppid := 1
  name := some ⟨[118, 108, 99], by decide⟩
  rssKb := 512
  fds := [{ fd := 1, path := ⟨[47], by decide, by decide⟩, desc := .empty 256, category := 0, netSortKey := 0,
            sourcePid := 42 }]
  mprisPlayers := [samplePlayer volume]

theorem sample_bundle_encoded : (encodedInspect (sampleBundle (Float.ofBits 0)) allGranted).1 = none := by
  decide +kernel

theorem inspect_reply_accepted_iff_playing :
    (decodedInspect (encodedInspect (sampleBundle (Float.ofBits 0)) allGranted).2.buf.data allGranted).isSome = true ↔
    Decodable (sampleBundle (Float.ofBits 0)) :=
  inspect_reply_accepted_iff _ allGranted allGranted (fun _ => rfl) sample_bundle_encoded

theorem nan_volume_refused : (encodedInspect (sampleBundle (Float.ofBits 0x7ff8000000000000)) allGranted).1 = none ∧
    decodedInspect (encodedInspect (sampleBundle (Float.ofBits 0x7ff8000000000000)) allGranted).2.buf.data
    allGranted = none :=
  ⟨by decide +kernel, Option.isNone_iff_eq_none.mp (by decide +kernel)⟩

theorem inspect_reply_faithful (d decoded : ProcData) (sender receiver : Heap)
    (encoded : (encodedInspect d sender).1 = none)
    (accepted : decodedInspect (encodedInspect d sender).2.buf.data receiver = some decoded) : decoded = d.decoded := by
  obtain ⟨bytes, fits⟩ := encoded_inspect_bytes encoded
  rw [bytes] at accepted
  exact (decoded_inspect_sound fits accepted).2

theorem inspect_reply_faithful_playing : ∃ decoded,
    decodedInspect (encodedInspect (sampleBundle (Float.ofBits 0)) allGranted).2.buf.data allGranted = some decoded ∧
    decoded = (sampleBundle (Float.ofBits 0)).decoded := by
  have accepted : (decodedInspect (encodedInspect (sampleBundle (Float.ofBits 0)) allGranted).2.buf.data
      allGranted).isSome = true := by decide +kernel
  obtain ⟨decoded, same⟩ := Option.isSome_iff_exists.mp accepted
  exact ⟨decoded, same, inspect_reply_faithful _ decoded allGranted allGranted sample_bundle_encoded same⟩

end Evemon.Inspect
