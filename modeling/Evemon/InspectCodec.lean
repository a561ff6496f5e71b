import Evemon.Inspect
import Evemon.WireParse

namespace Evemon.Inspect

open Ipc Prog BigEndian List BitVec Nat

section

variable {grant : Nat → Bool} {known : Prop}

def textBytes (s : Option CString) : Bytes := stringBytes ((s.map CString.bytes).getD [])

def decodedText : Option CString → Option CString
  | none => some CString.empty
  | some s => some s

theorem put_int_puts (value : Int32) : Puts (putInt value) (encode32 value.toUInt32) := ipc_put_u32_puts _

variable {value : Int64}

theorem put_long_puts : Puts (putLong value) (encode64 value.toUInt64) := ipc_put_u64_puts

theorem put_fixed_puts {capacity : Nat} {s : FixedStr capacity} : Puts (putFixed s) (stringBytes s.bytes) :=
  ipc_put_string_puts _

variable {s : Option CString}

theorem put_text_puts : Puts (putText s) (textBytes s) := ipc_put_string_puts _

theorem get_int_gets (value : Int32) : Gets grant known getInt (encode32 value.toUInt32) True (· = value) :=
  parses_last (ipc_get_u32_gets _) fun _ _ same => by rw [same]; rfl

theorem get_long_gets : Gets grant known getLong (encode64 value.toUInt64) True (· = value) :=
  parses_last (ipc_get_u64_gets _) fun _ _ same => by rw [same]; rfl

theorem get_double_gets {value : Float} :
    Gets grant known getDouble (encode64 value.toBits) (value.isFinite) (· = value) :=
  parses_last (ipc_get_f64_gets value) fun _ _ same => same

theorem get_text_gets : Gets grant known getText (textBytes s) True (· = decodedText s) := by
  have nulFree : 0 ∉ (s.map CString.bytes).getD [] := by
    cases s with
    | none => exact not_mem_nil
    | some s => exact s.nulFree
  refine parses_last (ipc_get_string_gets _ nulFree) fun _ _ same => ?_
  rw [same, Option.bind_some, toCString, dif_pos nulFree]
  cases s with
  | none => rfl
  | some s => rfl

end

def pidBytes (pid : Int32) : Bytes := encode32 pid.toUInt32

theorem pid_coded : Coded putInt getInt 4 pidBytes (fun _ => True) id where
  puts := put_int_puts
  gets _ value := get_int_gets value
  least value := by simp [pidBytes]

def fdBytes (v : Fd) : Bytes :=
  encode32 v.fd.toUInt32 ++ (stringBytes v.path.bytes ++ (stringBytes v.desc.bytes ++ (encode32 v.category.toUInt32 ++
    (encode64 v.netSortKey ++ encode32 v.sourcePid.toUInt32))))

theorem fd_coded : Coded putFd getFd 28 fdBytes (fun _ => True) id where
  puts v := by
    apply emits_bind (put_int_puts _)
    iterate 2 apply emits_bind put_fixed_puts
    apply emits_bind (put_int_puts _)
    exact emits_bind ipc_put_u64_puts (put_int_puts _)
  gets _ v := by
    refine parses_step (get_int_gets _) fun _ => ?_
    iterate 2 refine parses_step (ipc_get_fixed_gets _ (by decide)) fun _ => ?_
    refine parses_step (get_int_gets _) fun _ => ?_
    refine parses_step (ipc_get_u64_gets _) fun _ => ?_
    refine parses_last (get_int_gets _) fun read _ same => ?_
    simp only [read, same, id]
  least v := by
    simp [fdBytes]
    omega

def envBytes (v : Env) : Bytes := textBytes v.text ++ encode32 v.category.toUInt32

def Env.decoded (v : Env) : Env := { v with text := decodedText v.text }

theorem env_coded : Coded putEnv getEnv 8 envBytes (fun _ => True) Env.decoded where
  puts v := emits_bind put_text_puts (put_int_puts _)
  gets _ v := by
    refine parses_step get_text_gets fun _ => ?_
    refine parses_last (get_int_gets _) fun read _ same => ?_
    simp only [read, same, Env.decoded]
  least v := by
    simp [envBytes, textBytes]

def mmapBytes (v : Mmap) : Bytes :=
  textBytes v.text ++ (encode32 v.category.toUInt32 ++ encode64 v.sizeKb)

def Mmap.decoded (v : Mmap) : Mmap := { v with text := decodedText v.text }

theorem mmap_coded : Coded putMmap getMmap 16 mmapBytes (fun _ => True) Mmap.decoded where
  puts v := by
    apply emits_bind put_text_puts
    exact emits_bind (put_int_puts _) ipc_put_u64_puts
  gets _ v := by
    refine parses_step get_text_gets fun _ => ?_
    refine parses_step (get_int_gets _) fun _ => ?_
    refine parses_last (ipc_get_u64_gets _) fun read _ same => ?_
    simp only [read, same, Mmap.decoded]
  least v := by
    simp [mmapBytes, textBytes]

def libBytes (v : Lib) : Bytes :=
  stringBytes v.path.bytes ++ (stringBytes v.name.bytes ++ (stringBytes v.version.bytes ++ (
    stringBytes v.origin.bytes ++ (encode32 v.category.toUInt32 ++ encode64 v.sizeKb))))

theorem lib_coded : Coded putLib getLib 28 libBytes (fun _ => True) id where
  puts v := by
    iterate 4 apply emits_bind put_fixed_puts
    exact emits_bind (put_int_puts _) ipc_put_u64_puts
  gets _ v := by
    iterate 4 refine parses_step (ipc_get_fixed_gets _ (by decide)) fun _ => ?_
    refine parses_step (get_int_gets _) fun _ => ?_
    refine parses_last (ipc_get_u64_gets _) fun read _ same => ?_
    simp only [read, same, id]
  least v := by
    simp [libBytes]
    omega

def sockBytes (v : Sock) : Bytes :=
  stringBytes v.desc.bytes ++ (encode64 v.sendDelta ++ (encode64 v.recvDelta ++ (encode64 v.total ++
    encode32 v.sourcePid.toUInt32)))

theorem sock_coded : Coded putSock getSock 32 sockBytes (fun _ => True) id where
  puts v := by
    apply emits_bind put_fixed_puts
    iterate 2 apply emits_bind ipc_put_u64_puts
    exact emits_bind ipc_put_u64_puts (put_int_puts _)
  gets _ v := by
    refine parses_step (ipc_get_fixed_gets _ (by decide)) fun _ => ?_
    iterate 3 refine parses_step (ipc_get_u64_gets _) fun _ => ?_
    refine parses_last (get_int_gets _) fun read _ same => ?_
    simp only [read, same, id]
  least v := by
    simp [sockBytes]

theorem char_read_back (c : Int8) : c.toInt32.toUInt32.toUInt8.toInt8 = c := by
  apply Int8.toBitVec_inj.mp
  change BitVec.setWidth 8 (BitVec.signExtend 32 c.toBitVec) = c.toBitVec
  apply eq_of_getLsbD_eq
  intro i bound
  simp only [getLsbD_setWidth, getLsbD_signExtend]
  simp [bound]
  omega

def threadBytes (v : Thread) : Bytes :=
  encode32 v.tid.toUInt32 ++ (stringBytes v.name.bytes ++ (encode32 v.state.toInt32.toUInt32 ++ (
    encode32 v.priority.toUInt32 ++ (encode32 v.nice.toUInt32 ++ (encode32 v.processor.toUInt32 ++ (
    encode64 v.utime ++ (encode64 v.stime ++ (encode64 v.starttime ++ (encode64 v.cpuPercent.toBits ++ (
    encode64 v.voluntaryCtxtSwitches ++ encode64 v.nonvoluntaryCtxtSwitches))))))))))

theorem thread_coded : Coded putThread getThread 72 threadBytes (fun v => v.cpuPercent.isFinite) id where
  puts v := by
    apply emits_bind (put_int_puts _)
    apply emits_bind put_fixed_puts
    iterate 4 apply emits_bind (put_int_puts _)
    iterate 3 apply emits_bind ipc_put_u64_puts
    apply emits_bind ipc_put_f64_puts
    exact emits_bind ipc_put_u64_puts ipc_put_u64_puts
  gets _ v := by
    refine parses_step (get_int_gets _) fun _ => ?_
    refine parses_step (ipc_get_fixed_gets _ (by decide)) fun _ => ?_
    refine parses_step (ipc_get_u32_gets _) fun _ => ?_
    iterate 3 refine parses_step (get_int_gets _) fun _ => ?_
    iterate 3 refine parses_step (ipc_get_u64_gets _) fun _ => ?_
    refine parses_guard get_double_gets fun _ => ?_
    refine parses_step (ipc_get_u64_gets _) fun _ => ?_
    refine parses_last (ipc_get_u64_gets _) fun read _ same => ?_
    simp only [read, same, id, char_read_back]
  least v := by
    simp [threadBytes]
    omega

def pwNodeBytes (v : PwNode) : Bytes :=
  encode32 v.id ++ (encode32 v.clientId ++ (encode32 v.pid.toUInt32 ++ (stringBytes v.appName.bytes ++ (
    stringBytes v.nodeName.bytes ++ (stringBytes v.nodeDesc.bytes ++ (stringBytes v.mediaClass.bytes ++
    stringBytes v.mediaName.bytes))))))

theorem pw_node_coded : Coded putPwNode getPwNode 32 pwNodeBytes (fun _ => True) id where
  puts v := by
    iterate 2 apply emits_bind (ipc_put_u32_puts _)
    apply emits_bind (put_int_puts _)
    iterate 3 apply emits_bind put_fixed_puts
    exact emits_bind put_fixed_puts put_fixed_puts
  gets _ v := by
    iterate 2 refine parses_step (ipc_get_u32_gets _) fun _ => ?_
    refine parses_step (get_int_gets _) fun _ => ?_
    iterate 4 refine parses_step (ipc_get_fixed_gets _ (by decide)) fun _ => ?_
    refine parses_last (ipc_get_fixed_gets _ (by decide)) fun read _ same => ?_
    simp only [read, same, id]
  least v := by
    simp [pwNodeBytes]
    omega

def pwLinkBytes (v : PwLink) : Bytes :=
  encode32 v.outputNode ++ (encode32 v.outputPort ++ (encode32 v.inputNode ++ encode32 v.inputPort))

theorem pw_link_coded : Coded putPwLink getPwLink 16 pwLinkBytes (fun _ => True) id where
  puts v := by
    iterate 2 apply emits_bind (ipc_put_u32_puts _)
    exact emits_bind (ipc_put_u32_puts _) (ipc_put_u32_puts _)
  gets _ v := by
    iterate 3 refine parses_step (ipc_get_u32_gets _) fun _ => ?_
    refine parses_last (ipc_get_u32_gets _) fun read _ same => ?_
    simp only [read, same, id]
  least v := by
    simp [pwLinkBytes]

def pwPortBytes (v : PwPort) : Bytes :=
  encode32 v.id ++ (encode32 v.nodeId ++ (stringBytes v.portName.bytes ++ (stringBytes v.direction.bytes ++
    stringBytes v.formatDsp.bytes)))

theorem pw_port_coded : Coded putPwPort getPwPort 20 pwPortBytes (fun _ => True) id where
  puts v := by
    iterate 2 apply emits_bind (ipc_put_u32_puts _)
    apply emits_bind put_fixed_puts
    exact emits_bind put_fixed_puts put_fixed_puts
  gets _ v := by
    iterate 2 refine parses_step (ipc_get_u32_gets _) fun _ => ?_
    iterate 2 refine parses_step (ipc_get_fixed_gets _ (by decide)) fun _ => ?_
    refine parses_last (ipc_get_fixed_gets _ (by decide)) fun read _ same => ?_
    simp only [read, same, id]
  least v := by
    simp [pwPortBytes]
    omega

def mprisBytes (v : MprisPlayer) : Bytes :=
  stringBytes v.identity.bytes ++ (stringBytes v.desktopEntry.bytes ++ (encode32 v.pid.toUInt32 ++ (
    stringBytes v.busName.bytes ++ (stringBytes v.playbackStatus.bytes ++ (stringBytes v.loopStatus.bytes ++ (
    encode32 v.shuffle.toUInt32 ++ (encode64 v.volume.toBits ++ (encode64 v.rate.toBits ++ (
    encode64 v.positionUs.toUInt64 ++ (stringBytes v.trackTitle.bytes ++ (stringBytes v.trackArtist.bytes ++ (
    stringBytes v.trackAlbum.bytes ++ (stringBytes v.trackAlbumArtist.bytes ++ (stringBytes v.artUrl.bytes ++ (
    stringBytes v.trackId.bytes ++ (stringBytes v.genre.bytes ++ (encode64 v.lengthUs.toUInt64 ++ (
    encode32 v.trackNumber.toUInt32 ++ (encode32 v.discNumber.toUInt32 ++ (stringBytes v.contentType.bytes ++ (
    stringBytes v.url.bytes ++ (encode32 v.canPlay.toUInt32 ++ (encode32 v.canPause.toUInt32 ++ (
    encode32 v.canSeek.toUInt32 ++ (encode32 v.canGoNext.toUInt32 ++ (encode32 v.canGoPrevious.toUInt32 ++
    encode32 v.canControl.toUInt32))))))))))))))))))))))))))

theorem mpris_coded : Coded putMpris getMpris 128 mprisBytes (fun v => v.volume.isFinite ∧ v.rate.isFinite) id where
  puts v := by
    iterate 2 apply emits_bind put_fixed_puts
    apply emits_bind (put_int_puts _)
    iterate 3 apply emits_bind put_fixed_puts
    apply emits_bind (put_int_puts _)
    iterate 2 apply emits_bind ipc_put_f64_puts
    apply emits_bind put_long_puts
    iterate 7 apply emits_bind put_fixed_puts
    apply emits_bind put_long_puts
    iterate 2 apply emits_bind (put_int_puts _)
    iterate 2 apply emits_bind put_fixed_puts
    iterate 4 apply emits_bind (put_int_puts _)
    exact emits_bind (put_int_puts _) (put_int_puts _)
  gets _ v := by
    iterate 2 refine parses_step (ipc_get_fixed_gets _ (by decide)) fun _ => ?_
    refine parses_step (get_int_gets _) fun _ => ?_
    iterate 3 refine parses_step (ipc_get_fixed_gets _ (by decide)) fun _ => ?_
    refine parses_step (get_int_gets _) fun _ => ?_
    refine parses_bind get_double_gets fun _ => ?_
    refine parses_guard get_double_gets fun _ => ?_
    refine parses_step get_long_gets fun _ => ?_
    iterate 7 refine parses_step (ipc_get_fixed_gets _ (by decide)) fun _ => ?_
    refine parses_step get_long_gets fun _ => ?_
    iterate 2 refine parses_step (get_int_gets _) fun _ => ?_
    iterate 2 refine parses_step (ipc_get_fixed_gets _ (by decide)) fun _ => ?_
    iterate 5 refine parses_step (get_int_gets _) fun _ => ?_
    refine parses_last (get_int_gets _) fun read _ same => ?_
    simp only [read, same, id]
  least v := by
    simp [mprisBytes]
    omega

def cgroupBytes (v : Cgroup) : Bytes :=
  stringBytes v.path.bytes ++ (encode64 v.memCurrent.toUInt64 ++ (encode64 v.memMax.toUInt64 ++ (
    encode64 v.memHigh.toUInt64 ++ (encode64 v.swapMax.toUInt64 ++ (encode64 v.cpuQuota.toUInt64 ++ (
    encode64 v.cpuPeriod.toUInt64 ++ (encode64 v.pidsCurrent.toUInt64 ++ (encode64 v.pidsMax.toUInt64 ++
    stringBytes v.ioMax.bytes))))))))

theorem cgroup_coded : Coded putCgroup getCgroup 72 cgroupBytes (fun _ => True) id where
  puts v := by
    apply emits_bind put_fixed_puts
    iterate 7 apply emits_bind put_long_puts
    exact emits_bind put_long_puts put_fixed_puts
  gets _ v := by
    refine parses_step (ipc_get_fixed_gets _ (by decide)) fun _ => ?_
    iterate 8 refine parses_step get_long_gets fun _ => ?_
    refine parses_last (ipc_get_fixed_gets _ (by decide)) fun read _ same => ?_
    simp only [read, same, id]
  least v := by
    simp [cgroupBytes]
    omega

section

variable {α β : Type}

def itemsBytes (bytes : α → Bytes) (values : List α) : Bytes :=
  encode32 (UInt32.ofNat values.length) ++ values.flatMap bytes

variable {bytes : α → Bytes} {values : List α}

theorem put_items_puts {item : α → Wire Unit} (each : ∀ value, Puts (item value) (bytes value)) :
    Puts (putItems item values) (itemsBytes bytes values) :=
  emits_bind (ipc_put_u32_puts _) (put_until_error_puts each values)

structure ArrayFits (length size budget : Nat) : Prop where
  count : length ≤ 65536
  memory : length * size ≤ budget

theorem get_items_eq (size minimum : Nat) (item : Wire β) (budget : Nat) : getItems size minimum item budget = (do
    let n ← ipcGetU32
    let buf ← Prog.inspect WireState.buf
    if arrayRefused size minimum budget n buf then
      setError .EPROTO
      pure ([], budget)
    else
      let granted ← malloc
      if granted then
        let items ← getUntilError item n.toNat
        pure (items, budget - n.toNat * size)
      else
        setError .ENOMEM
        pure ([], budget)) := by
  apply eq_of_run
  intro state
  cases refused : arrayRefused size minimum budget (ipcGetU32.run state).1 (ipcGetU32.run state).2.buf with
  | true =>
    simp only [getItems, getArray, run_bind, run_inspect, refused, if_true]
    rfl
  | false =>
    cases granted : (malloc.run (ipcGetU32.run state).2).1 with
    | true => simp only [getItems, getArray, run_bind, run_inspect, refused, granted, Bool.false_eq_true, if_false,
        if_true, run_pure]
    | false =>
      simp only [getItems, getArray, run_bind, run_inspect, refused, granted, Bool.false_eq_true, if_false]
      rfl

variable {size budget : Nat}

theorem get_items_sticky {minimum : Nat} {item : Wire β} : Keeps Failed (getItems size minimum item budget) := by
  refine keeps_bind ?_ fun _ => keeps_bind (get_until_error_sticky _ _) fun _ => keeps_pure _
  intro state lost
  have read : Failed (ipcGetU32.run state).2 := (@read_u32_sticky state lost).1
  have refused : arrayRefused size minimum budget (ipcGetU32.run state).1 (ipcGetU32.run state).2.buf := by
    unfold Failed at read
    simp only [arrayRefused, read, Bool.true_or]
  simp only [getArray, run_bind, run_inspect, refused, if_true]
  rfl

variable {put : α → Wire Unit} {get : Wire β} {minimum : Nat} {valid : α → Prop} {result : α → β}

theorem get_items_gets {grant : Nat → Bool} {known : Prop} (coded : Coded put get minimum bytes valid result)
    (size budget expected : Nat) (values : List α) (some : 0 < minimum) (sized : 0 < size)
    (left : known → budget = expected) : Gets grant known (getItems size minimum get budget) (itemsBytes bytes values)
    (ArrayFits values.length size expected ∧ ∀ value ∈ values, valid value)
    (· = (values.map result, expected - values.length * size)) := by
  refine parses_of_known get_items_sticky fun reached => ?_
  refine gets_of_fits get_items_sticky fun fits => ?_
  rw [left reached]
  have least := @items_bytes_min _ bytes minimum coded.least values
  have few : values.length < 2 ^ 32 := by
    have each : values.length ≤ values.length * minimum := Nat.le_mul_of_pos_right _ some
    rw [itemsBytes, length_append, ipcLimit] at fits
    omega
  have number : (UInt32.ofNat values.length).toNat = values.length := UInt32.toNat_ofNat_of_lt' few
  rw [get_items_eq]
  refine parses_step (ipc_get_u32_gets _) fun n => ?_
  refine parses_inspect (fun buf => buf.error = none ∧ values.length ≤ sizeSub buf.data.length buf.pos / minimum)
    (fun _ state later available => ?_) fun buf => ?_
  · have unread := available.left_length
    refine ⟨available.clear, ?_⟩
    rw [unread, Nat.le_div_iff_mul_le some, length_append]
    omega
  by_cases refused : arrayRefused size minimum expected n buf
  · rw [if_pos refused]
    refine gets_refused (fun _ => rfl) fun read accepted => ?_
    have memory := (Nat.le_div_iff_mul_le sized).mpr accepted.1.memory
    have count := accepted.1.count
    have room := read.2.2
    simp only [arrayRefused, read.1.2, read.2.1, number] at refused
    simp at refused
    omega
  · rw [if_neg refused]
    refine gets_allocated ?_ fun _ => rfl
    refine parses_of_known (keeps_bind (get_until_error_sticky _ _) fun _ => keeps_pure _) fun read => ?_
    have length : n.toNat = values.length := by rw [read.1.2, number]
    have holds : ArrayFits values.length size expected := by
      simp only [arrayRefused, length] at refused
      simp at refused
      exact ⟨by omega, (Nat.le_div_iff_mul_le sized).mp (by omega)⟩
    rw [length]
    refine (parses_last (get_until_error_gets values fun value _ => coded.gets grant value)
      fun _ _ same => by rw [same]).valid_iff fun _ => ?_
    exact ⟨fun each => ⟨holds, each⟩, fun both => both.2⟩

theorem get_next_items_gets {γ : Type} {grant : Nat → Bool} {known : Prop} {before : List γ} {previous : List γ × Nat}
    (coded : Coded put get minimum bytes valid result) (some : 0 < minimum) (sized : 0 < size) :
    Gets grant (known ∧ previous = (before, budget)) (getItems size minimum get previous.2) (itemsBytes bytes values)
    (ArrayFits values.length size budget ∧ ∀ value ∈ values, valid value)
    (· = (values.map result, budget - values.length * size)) :=
  get_items_gets coded size previous.2 budget values some sized fun read => by rw [read.2]

def ArraysFit : List (Nat × Nat) → Nat → Prop
  | [], _ => True
  | array :: rest, budget => ArrayFits array.1 array.2 budget ∧ ArraysFit rest (budget - array.1 * array.2)

theorem arrays_fit_iff (arrays : List (Nat × Nat)) (budget : Nat) : ArraysFit arrays budget ↔
    (∀ array ∈ arrays, array.1 ≤ 65536) ∧ (arrays.map fun array => array.1 * array.2).sum ≤ budget := by
  induction arrays generalizing budget with
  | nil => simp [ArraysFit]
  | cons array rest ih =>
    rw [ArraysFit, ih, map_cons, sum_cons, forall_mem_cons]
    constructor
    · rintro ⟨⟨count, memory⟩, counts, total⟩
      exact ⟨⟨count, counts⟩, by omega⟩
    · rintro ⟨⟨count, counts⟩, total⟩
      exact ⟨⟨count, by omega⟩, counts, by omega⟩

end

end Evemon.Inspect
