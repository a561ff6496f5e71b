import Evemon.EventRing

-- The tracepoints of fdmon_ebpf_kern.c for write, pwrite64, sendto, writev and sendmsg, and
-- what handle_event publishes for the records they send. Reads of user memory succeed.
namespace Evemon.Capture

open Ipc List UInt32 UInt64

abbrev Buffer := { data : Bytes // data.length = fdWriteMax }

variable (buffer : Buffer)

theorem fill_length (bytes : Bytes) : (bytes.take fdWriteMax ++ buffer.val.drop bytes.length).length = fdWriteMax := by
  rw [length_append, length_take, length_drop, buffer.property]
  omega

def fill (buffer : Buffer) (bytes : Bytes) : Buffer :=
  ⟨bytes.take fdWriteMax ++ buffer.val.drop bytes.length, fill_length buffer bytes⟩

theorem fill_take {bytes : Bytes} {count : Nat} (within : count ≤ bytes.length) (fits : count ≤ fdWriteMax) :
    (fill buffer bytes).val.take count = bytes.take count := by
  change (bytes.take fdWriteMax ++ buffer.val.drop bytes.length).take count = bytes.take count
  rw [take_append_of_le_length (by rw [length_take]; omega), take_take, Nat.min_eq_left fits]

abbrev Memory := UInt64 → UInt8

def readUser (memory : Memory) (address : UInt64) (count : Nat) : Bytes :=
  (List.range count).map fun index => memory (address + UInt64.ofNat index)

theorem read_user_length (memory : Memory) (address : UInt64) (count : Nat) :
    (readUser memory address count).length = count := by
  simp [readUser]

theorem read_user_take {memory} {address} {count part : Nat} (within : part ≤ count) :
    (readUser memory address count).take part = readUser memory address part := by
  rw [readUser, readUser, ← map_take, take_range, Nat.min_eq_left within]

structure Iovec where
  base : UInt64
  len : UInt64

inductive WriteCall where
  | write (fd buf count : UInt64)
  | pwrite64 (fd buf count pos : UInt64)
  | sendto (fd buff len flags addr addrlen : UInt64)
  | writev (fd : UInt64) (iov : Option (List Iovec))
  | sendmsg (fd : UInt64) (iov : Option (List Iovec)) (flags : UInt64)

structure Probe where
  pid : UInt32
  tid : UInt32
  mask : Option UInt8
  scratch : Option Buffer

structure BpfEvent where
  pid : UInt32
  tid : UInt32
  fd : UInt32
  userPtr : UInt64
  userCount : UInt32
  len : UInt32
  data : Buffer

def selected (mask : Option UInt8) (fd : UInt32) : Bool :=
  match mask with
  | none => false
  | some mask =>
    if fd = 1 ∧ mask &&& 1 = 0 then false
    else if fd = 2 ∧ mask &&& 2 = 0 then false
    else decide (fd = 1) || decide (fd = 2)

def clip (len : UInt64) : UInt32 := if len > 4096 then 4096 else len.toUInt32

def traceBuffer (probe : Probe) (memory : Memory) (fd buf cnt : UInt64) : Option BpfEvent :=
  if selected probe.mask fd.toUInt32 = false ∨ cnt = 0 then none
  else
    probe.scratch.map fun scratch =>
      { pid := probe.pid, tid := probe.tid, fd := fd.toUInt32, userPtr := buf
        userCount := if cnt > 0xffffffff then 0xffffffff else cnt.toUInt32
        len := clip cnt
        data := fill scratch (readUser memory buf (clip cnt).toNat) }

def traceEnterWrite (probe : Probe) (memory : Memory) (fd buf count : UInt64) : Option BpfEvent :=
  traceBuffer probe memory fd buf count

def traceEnterPwrite64 (probe : Probe) (memory : Memory) (fd buf count _pos : UInt64) : Option BpfEvent :=
  traceBuffer probe memory fd buf count

def traceEnterSendto (probe : Probe) (memory : Memory) (fd buff len _flags _addr _addrlen : UInt64) : Option BpfEvent :=
  traceBuffer probe memory fd buff len

structure Gathered where
  userCount : UInt32
  destOff : UInt32
  data : Buffer

def gatherSegment (memory : Memory) (g : Gathered) (iov : Iovec) : Gathered :=
  if iov.base = 0 ∨ iov.len = 0 then g
  else if g.destOff = 0 then
    { userCount := g.userCount + iov.len.toUInt32
      destOff := clip iov.len
      data := fill g.data (readUser memory iov.base fdWriteMax) }
  else { g with userCount := g.userCount + iov.len.toUInt32 }

def iovMax : Nat := 16

def traceSegments (probe : Probe) (memory : Memory) (fd : UInt64) (iov : Option (List Iovec)) : Option BpfEvent :=
  let segments := iov.getD []
  if selected probe.mask fd.toUInt32 = false ∨ segments = [] then none
  else
    probe.scratch.bind fun scratch =>
      let g := (segments.take iovMax).foldl (gatherSegment memory) ⟨0, 0, scratch⟩
      if g.destOff = 0 then none
      else
        some { pid := probe.pid, tid := probe.tid, fd := fd.toUInt32, userPtr := 0
               userCount := g.userCount, len := g.destOff, data := g.data }

def traceEnterWritev (probe : Probe) (memory : Memory) (fd : UInt64) (iov : Option (List Iovec)) : Option BpfEvent :=
  traceSegments probe memory fd iov

def traceEnterSendmsg (probe : Probe) (memory : Memory) (fd : UInt64) (iov : Option (List Iovec)) (_flags : UInt64) :
    Option BpfEvent :=
  traceSegments probe memory fd iov

def traceEnter (probe : Probe) (memory : Memory) : WriteCall → Option BpfEvent
  | .write fd buf count => traceEnterWrite probe memory fd buf count
  | .pwrite64 fd buf count pos => traceEnterPwrite64 probe memory fd buf count pos
  | .sendto fd buff len flags addr addrlen => traceEnterSendto probe memory fd buff len flags addr addrlen
  | .writev fd iov => traceEnterWritev probe memory fd iov
  | .sendmsg fd iov flags => traceEnterSendmsg probe memory fd iov flags

def writeHdrSize : UInt32 := 44

def eventSize : UInt32 := 4144

def inlineLen (size : UInt32) (ev : BpfEvent) : Nat :=
  min (min ev.len.toNat fdWriteMax) (if size > writeHdrSize then size - writeHdrSize else 0).toNat

-- `stack` is what payload.data holds before, `remote` what process_vm_readv brings. The check for
-- the shorter header of the other events is implied.
def handleEvent (size : UInt32) (stack : Buffer) (remote : Bytes) (ev : BpfEvent) : Option WritePayload :=
  if size < writeHdrSize then none
  else if ev.len > 0 then
    let data := fill stack (ev.data.val.take (inlineLen size ev))
    some { pid := ev.tid.toInt32, tgid := ev.pid.toInt32, fd := ev.fd.toInt32
           len := UInt64.ofNat (inlineLen size ev)
           truncated := if ev.userCount > 0 ∧ inlineLen size ev < ev.userCount.toNat then 1 else 0
           data := data.val, full := data.property }
  else if ev.userPtr ≠ 0 ∧ ev.userCount > 0 then
    let read := remote.take (min ev.userCount.toNat fdWriteMax)
    let data := fill stack read
    some { pid := ev.tid.toInt32, tgid := ev.pid.toInt32, fd := ev.fd.toInt32
           len := UInt64.ofNat read.length
           truncated := if ev.userCount.toNat > read.length then 1 else 0
           data := data.val, full := data.property }
  else
    some { pid := ev.tid.toInt32, tgid := ev.pid.toInt32, fd := ev.fd.toInt32, len := 0, truncated := 0
           data := stack.val, full := stack.property }

def published (probe : Probe) (memory : Memory) (size : UInt32) (stack : Buffer) (remote : Bytes) (call : WriteCall) :
    Option WritePayload :=
  (traceEnter probe memory call).bind (handleEvent size stack remote)

def bytesOf (memory : Memory) (segments : List Iovec) : Bytes :=
  segments.flatMap fun iov => readUser memory iov.base iov.len.toNat

def total (segments : List Iovec) : Nat := (segments.map fun iov => iov.len.toNat).sum

def firstFilled (segments : List Iovec) : Option Iovec :=
  (segments.take iovMax).find? fun iov => decide (iov.len ≠ 0)

-- How many bytes of a vectored call are copied, and the sum of lengths sent with them.
def captured (segments : List Iovec) : Nat := ((firstFilled segments).map fun iov => min iov.len.toNat fdWriteMax).getD 0

def announced (segments : List Iovec) : UInt32 := ((segments.take iovMax).map fun iov => iov.len.toUInt32).sum

-- No address of a segment with bytes is NULL: it could not be read.
def Mapped (segments : List Iovec) : Prop := ∀ iov ∈ segments, iov.base = 0 → iov.len = 0

theorem clip_to_nat (len : UInt64) : (clip len).toNat = min len.toNat fdWriteMax := by
  have limit : (4096 : UInt64).toNat = fdWriteMax := by decide
  unfold clip
  split
  · rename_i long
    have above : fdWriteMax < len.toNat := by rw [← limit]; exact lt_iff_toNat_lt.mp long
    rw [Nat.min_eq_right (Nat.le_of_lt above)]
    rfl
  · rename_i short
    have below : len.toNat ≤ fdWriteMax := by
      rw [← limit]
      exact Nat.le_of_not_lt fun above => short (lt_iff_toNat_lt.mpr above)
    rw [Nat.min_eq_left below, toNat_toUInt32]
    exact Nat.mod_eq_of_lt (Nat.lt_of_le_of_lt below (by decide))

theorem bytes_of_length (memory : Memory) (segments : List Iovec) : (bytesOf memory segments).length = total segments := by
  simp [bytesOf, total, length_flatMap, read_user_length]

theorem sum_to_nat_le (lengths : List UInt64) :
    ((lengths.map UInt64.toUInt32).sum).toNat ≤ (lengths.map UInt64.toNat).sum := by
  induction lengths with
  | nil => exact Nat.le_refl 0
  | cons len rest ih =>
    rw [map_cons, map_cons, sum_cons, sum_cons, UInt32.toNat_add, UInt64.toNat_toUInt32]
    calc _ ≤ len.toNat % 2 ^ 32 + ((rest.map UInt64.toUInt32).sum).toNat := Nat.mod_le _ _
      _ ≤ _ := Nat.add_le_add (Nat.mod_le _ _) ih

theorem announced_le_total {segments} : (announced segments).toNat ≤ total segments := by
  have bound := sum_to_nat_le ((segments.take iovMax).map Iovec.len)
  rw [map_map, map_map] at bound
  refine Nat.le_trans bound (List.Sublist.sum_le_sum ?_ fun length _ => Nat.zero_le length)
  exact (take_sublist iovMax segments).map _

section

variable (memory : Memory)

variable {segments : List Iovec}

theorem gather_counts (mapped : Mapped segments) (g : Gathered) :
    (segments.foldl (gatherSegment memory) g).userCount =
    g.userCount + (segments.map fun iov => iov.len.toUInt32).sum := by
  induction segments generalizing g with
  | nil => simp
  | cons iov rest ih =>
    have one : (gatherSegment memory g iov).userCount = g.userCount + iov.len.toUInt32 := by
      unfold gatherSegment
      by_cases empty : iov.base = 0 ∨ iov.len = 0
      · have zero : iov.len = 0 := empty.elim (mapped iov mem_cons_self) id
        rw [if_pos empty, zero]
        exact (add_zero _).symm
      · rw [if_neg empty]
        split <;> rfl
    rw [foldl_cons, ih (fun other mem => mapped other (mem_cons_of_mem iov mem)), one, map_cons, sum_cons, add_assoc]

theorem gather_keeps {g : Gathered} (started : g.destOff ≠ 0) :
    (segments.foldl (gatherSegment memory) g).destOff = g.destOff ∧
    (segments.foldl (gatherSegment memory) g).data = g.data := by
  induction segments generalizing g with
  | nil => exact ⟨rfl, rfl⟩
  | cons iov rest ih =>
    have one : (gatherSegment memory g iov).destOff = g.destOff ∧ (gatherSegment memory g iov).data = g.data := by
      unfold gatherSegment
      rw [if_neg started]
      split <;> exact ⟨rfl, rfl⟩
    have later := ih (by rw [one.1]; exact started)
    exact ⟨later.1.trans one.1, later.2.trans one.2⟩

theorem gather_none (g : Gathered) (empty : (segments.find? fun iov => decide (iov.len ≠ 0)) = none) :
    segments.foldl (gatherSegment memory) g = g := by
  induction segments with
  | nil => rfl
  | cons iov rest ih =>
    have zeros := List.find?_eq_none.mp empty
    have zero : iov.len = 0 := by simpa using zeros iov mem_cons_self
    rw [foldl_cons, gatherSegment, if_pos (.inr zero)]
    exact ih (List.find?_eq_none.mpr fun other mem => zeros other (mem_cons_of_mem iov mem))

theorem gather_some (mapped : Mapped segments) (g : Gathered) (fresh : g.destOff = 0)
    {first} (found : (segments.find? fun iov => decide (iov.len ≠ 0)) = some first) :
    (segments.foldl (gatherSegment memory) g).destOff = clip first.len ∧
    (segments.foldl (gatherSegment memory) g).data = fill g.data (readUser memory first.base fdWriteMax) := by
  obtain ⟨filled, before, after, split, zeros⟩ := List.find?_eq_some_iff_append.mp found
  have nonzero : first.len ≠ 0 := of_decide_eq_true filled
  have present : first ∈ segments := by rw [split]; simp
  have skipped : before.foldl (gatherSegment memory) g = g :=
    gather_none memory g (List.find?_eq_none.mpr fun iov mem => by simpa using zeros iov mem)
  have copies : gatherSegment memory g first =
      ⟨g.userCount + first.len.toUInt32, clip first.len, fill g.data (readUser memory first.base fdWriteMax)⟩ := by
    unfold gatherSegment
    rw [if_neg (not_or.mpr ⟨fun null => nonzero (mapped first present null), nonzero⟩), if_pos fresh]
  have positive : clip first.len ≠ 0 := by
    intro none
    have size := clip_to_nat first.len
    have some : first.len.toNat ≠ 0 := fun zero => nonzero (UInt64.toNat_inj.mp zero)
    have limit : fdWriteMax = 4096 := rfl
    rw [none, UInt32.toNat_zero] at size
    omega
  rw [split, foldl_append, foldl_cons, skipped, copies]
  exact gather_keeps memory positive

end

section

def WriteCall.fd : WriteCall → UInt64
  | .write fd .. | .pwrite64 fd .. | .sendto fd .. | .writev fd _ | .sendmsg fd .. => fd

def WriteCall.segments : WriteCall → List Iovec
  | .write _ buf count | .pwrite64 _ buf count _ | .sendto _ buf count .. => [⟨buf, count⟩]
  | .writev _ iov | .sendmsg _ iov _ => iov.getD []

-- Nothing is captured, or everything is, or the sum that is sent along tells that it is not.
def WriteCall.Counted : WriteCall → Prop
  | .write .. | .pwrite64 .. | .sendto .. => True
  | .writev _ iov | .sendmsg _ iov _ =>
    captured (iov.getD []) = 0 ∨ total (iov.getD []) ≤ captured (iov.getD []) ∨
      captured (iov.getD []) < (announced (iov.getD [])).toNat

structure Monitored (probe : Probe) (call : WriteCall) : Prop where
  selected : selected probe.mask call.fd.toUInt32 = true
  scratch : probe.scratch.isSome = true

def content (payload : WritePayload) : Bytes := payload.data.take payload.len.toNat

structure Honest (payload : WritePayload) (bytes : Bytes) : Prop where
  complete : payload.truncated = 0 → content payload = bytes
  cut : payload.truncated = 1 → content payload <+: bytes ∧ content payload ≠ bytes

structure Captures (ev : BpfEvent) (bytes : Bytes) : Prop where
  some : 0 < ev.len.toNat
  fits : ev.len.toNat ≤ fdWriteMax
  within : ev.len.toNat ≤ bytes.length
  copied : ev.data.val.take ev.len.toNat = bytes.take ev.len.toNat
  counted : ev.userCount.toNat ≤ bytes.length

variable {probe : Probe} (memory : Memory) {size : UInt32} (segments : List Iovec) {ev : BpfEvent}

theorem inline_len_whole (whole : eventSize ≤ size) (fits : ev.len.toNat ≤ fdWriteMax) :
    inlineLen size ev = ev.len.toNat := by
  have large : eventSize.toNat ≤ size.toNat := UInt32.le_iff_toNat_le.mp whole
  have sizes : eventSize.toNat = fdWriteMax + 48 := rfl
  have header : writeHdrSize.toNat = 44 := rfl
  have above : size > writeHdrSize := UInt32.lt_iff_toNat_lt.mpr (by omega)
  have rest : (size - writeHdrSize).toNat = size.toNat - writeHdrSize.toNat :=
    UInt32.toNat_sub_of_le _ _ (UInt32.le_iff_toNat_le.mpr (by omega))
  rw [inlineLen, if_pos above, rest]
  omega

variable {bytes : Bytes}

theorem handle_payload (whole : eventSize ≤ size) (stack : Buffer) (remote : Bytes) (captures : Captures ev bytes) :
    ∃ payload, handleEvent size stack remote ev = some payload ∧ content payload = bytes.take ev.len.toNat ∧
    payload.truncated = if ev.len.toNat < ev.userCount.toNat then 1 else 0 := by
  have length := inline_len_whole whole captures.fits
  have long : ¬ size < writeHdrSize := by
    intro short
    have less := lt_iff_toNat_lt.mp short
    have large := le_iff_toNat_le.mp whole
    have sizes : eventSize.toNat = fdWriteMax + 48 := rfl
    have header : writeHdrSize.toNat = 44 := rfl
    omega
  have filled : ev.len > 0 := lt_iff_toNat_lt.mpr captures.some
  have sized : (UInt64.ofNat ev.len.toNat).toNat = ev.len.toNat :=
    toNat_ofNat_of_lt' (Nat.lt_of_le_of_lt captures.fits (by decide))
  rw [handleEvent, if_neg long, if_pos filled]
  refine ⟨_, rfl, ?_, ?_⟩
  · change (fill stack (ev.data.val.take (inlineLen size ev))).val.take (UInt64.ofNat (inlineLen size ev)).toNat = _
    have present : ev.len.toNat ≤ (ev.data.val.take ev.len.toNat).length := by
      rw [length_take, ev.data.property]
      exact Nat.le_min.mpr ⟨Nat.le_refl _, captures.fits⟩
    rw [length, sized, fill_take stack present captures.fits, take_take, Nat.min_self, captures.copied]
  · change (if ev.userCount > 0 ∧ inlineLen size ev < ev.userCount.toNat then (1 : Int32) else 0) = _
    rw [length]
    by_cases less : ev.len.toNat < ev.userCount.toNat
    · rw [if_pos less, if_pos ⟨lt_iff_toNat_lt.mpr (Nat.lt_of_le_of_lt (Nat.zero_le _) less), less⟩]
    · rw [if_neg less, if_neg fun both => less both.2]

variable {payload : WritePayload}

theorem honest_iff {len count : Nat} (shown : content payload = bytes.take len)
    (flag : payload.truncated = if len < count then 1 else 0) (counted : count ≤ bytes.length) :
    Honest payload bytes ↔ bytes.length ≤ len ∨ len < count := by
  have all : content payload = bytes ↔ bytes.length ≤ len := by
    rw [shown]
    exact take_eq_self_iff bytes
  by_cases less : len < count
  · rw [if_pos less] at flag
    refine ⟨fun _ => .inr less, fun _ => ⟨fun clear => ?_, fun _ => ⟨?_, fun same => ?_⟩⟩⟩
    · rw [flag] at clear
      cases clear
    · rw [shown]
      exact take_prefix _ _
    · have short := all.mp same
      omega
  · rw [if_neg less] at flag
    constructor
    · intro honest
      exact .inl (all.mp (honest.complete flag))
    · intro condition
      refine ⟨fun _ => all.mpr (condition.resolve_right less), fun cut => ?_⟩
      rw [flag] at cut
      cases cut

theorem handle_honest_iff (whole : eventSize ≤ size) (stack : Buffer) (remote : Bytes) (captures : Captures ev bytes) :
    (∀ payload, handleEvent size stack remote ev = some payload → Honest payload bytes) ↔
    bytes.length ≤ ev.len.toNat ∨ ev.len.toNat < ev.userCount.toNat := by
  obtain ⟨payload, handled, shown, flag⟩ := handle_payload whole stack remote captures
  rw [← honest_iff shown flag captures.counted, handled]
  exact ⟨fun honest => honest payload rfl, fun honest other same => Option.some.inj same ▸ honest⟩

variable {fd cnt : UInt64} {scratch : Buffer}

theorem trace_buffer_captures (buf : UInt64) (selected : selected probe.mask fd.toUInt32)
    (given : probe.scratch = some scratch) (some : cnt ≠ 0) :
    ∃ ev, traceBuffer probe memory fd buf cnt = Option.some ev ∧ Captures ev (readUser memory buf cnt.toNat) ∧
    (cnt.toNat ≤ ev.len.toNat ∨ ev.len.toNat < ev.userCount.toNat) := by
  have size := clip_to_nat cnt
  have limit : fdWriteMax = 4096 := rfl
  have filled : 0 < cnt.toNat := Nat.pos_of_ne_zero fun zero => some (UInt64.toNat_inj.mp zero)
  have count : (if cnt > 0xffffffff then 0xffffffff else cnt.toUInt32).toNat = min cnt.toNat 0xffffffff := by
    have top : (0xffffffff : UInt64).toNat = 0xffffffff := by decide
    split
    · rename_i large
      have above := UInt64.lt_iff_toNat_lt.mp large
      rw [top] at above
      rw [Nat.min_eq_right (Nat.le_of_lt above)]
      rfl
    · rename_i small
      have below : cnt.toNat ≤ 0xffffffff := by
        rw [← top]
        exact Nat.le_of_not_lt fun above => small (UInt64.lt_iff_toNat_lt.mpr above)
      rw [Nat.min_eq_left below, UInt64.toNat_toUInt32]
      exact Nat.mod_eq_of_lt (Nat.lt_of_le_of_lt below (by decide))
  have traced : ¬ (Capture.selected probe.mask fd.toUInt32 = false ∨ cnt = 0) := by
    rw [selected]
    exact not_or.mpr ⟨Bool.noConfusion, some⟩
  rw [traceBuffer, if_neg traced, given]
  refine ⟨_, rfl, ⟨?_, ?_, ?_, ?_, ?_⟩, ?_⟩
  · change 0 < (clip cnt).toNat
    omega
  · change (clip cnt).toNat ≤ fdWriteMax
    omega
  · change (clip cnt).toNat ≤ (readUser memory buf cnt.toNat).length
    rw [read_user_length]
    omega
  · change (fill scratch (readUser memory buf (clip cnt).toNat)).val.take (clip cnt).toNat = _
    rw [fill_take _ (by rw [read_user_length]) (by omega), read_user_take (Nat.le_refl _),
      read_user_take (show (clip cnt).toNat ≤ cnt.toNat by omega)]
  · change (if cnt > 0xffffffff then 0xffffffff else cnt.toUInt32).toNat ≤ _
    rw [count, read_user_length]
    exact Nat.min_le_left _ _
  · change cnt.toNat ≤ (clip cnt).toNat ∨ (clip cnt).toNat < (if cnt > 0xffffffff then 0xffffffff else cnt.toUInt32).toNat
    rw [count]
    omega

theorem bytes_of_first {first} (found : firstFilled segments = some first) :
    readUser memory first.base first.len.toNat <+: bytesOf memory segments := by
  obtain ⟨-, before, after, split, zeros⟩ := List.find?_eq_some_iff_append.mp found
  have nothing : bytesOf memory before = [] := by
    refine flatMap_eq_nil_iff.mpr fun iov mem => ?_
    have zero : iov.len = 0 := by simpa using zeros iov mem
    rw [zero]
    rfl
  have whole : bytesOf memory segments =
      readUser memory first.base first.len.toNat ++ (bytesOf memory after ++ bytesOf memory (segments.drop iovMax)) := by
    have parts : segments = before ++ first :: (after ++ segments.drop iovMax) := by
      rw [← cons_append, ← append_assoc, ← split, take_append_drop]
    have join : bytesOf memory (before ++ first :: (after ++ segments.drop iovMax)) =
        bytesOf memory before ++ (readUser memory first.base first.len.toNat ++
          (bytesOf memory after ++ bytesOf memory (segments.drop iovMax))) := by
      simp [bytesOf]
    calc bytesOf memory segments = _ := congrArg (bytesOf memory) parts
      _ = _ := by rw [join, nothing, nil_append]
  rw [whole]
  exact prefix_append _ _

theorem captured_zero_iff : captured segments = 0 ↔ firstFilled segments = none := by
  rw [captured]
  cases found : firstFilled segments with
  | none => exact ⟨fun _ => rfl, fun _ => rfl⟩
  | some first =>
    obtain ⟨filled, -⟩ := List.find?_eq_some_iff_append.mp found
    have nonzero : first.len ≠ 0 := of_decide_eq_true filled
    have length : first.len.toNat ≠ 0 := fun zero => nonzero (UInt64.toNat_inj.mp zero)
    have limit : fdWriteMax = 4096 := rfl
    refine ⟨fun zero => ?_, fun none => by cases none⟩
    have least : min first.len.toNat fdWriteMax = 0 := zero
    omega

theorem trace_segments_none (fd : UInt64) (iov : Option (List Iovec))
    (nothing : captured (iov.getD []) = 0) : traceSegments probe memory fd iov = none := by
  have empty : ((iov.getD []).take iovMax).find? (fun iov => decide (iov.len ≠ 0)) = none :=
    (captured_zero_iff _).mp nothing
  unfold traceSegments
  dsimp only
  split
  · rfl
  · cases probe.scratch with
    | none => rfl
    | some scratch =>
      rw [Option.bind_some, gather_none memory ⟨0, 0, scratch⟩ empty]
      rfl

theorem gather_captures (mapped : Mapped segments) {scratch : Buffer} (some : captured segments ≠ 0) (g : Gathered)
    (walked : (segments.take iovMax).foldl (gatherSegment memory) ⟨0, 0, scratch⟩ = g) :
    g.destOff.toNat = captured segments ∧ g.userCount = announced segments ∧ captured segments ≤ fdWriteMax ∧
    captured segments ≤ (bytesOf memory segments).length ∧
    g.data.val.take (captured segments) = (bytesOf memory segments).take (captured segments) := by
  obtain ⟨first, found⟩ := Option.ne_none_iff_exists'.mp fun none => some ((captured_zero_iff _).mpr none)
  have known : captured segments = min first.len.toNat fdWriteMax := by
    rw [captured, found]
    rfl
  have within : captured segments ≤ first.len.toNat := by
    rw [known]
    exact Nat.min_le_left _ _
  have limit : captured segments ≤ fdWriteMax := by
    rw [known]
    exact Nat.min_le_right _ _
  have taken : Mapped (segments.take iovMax) := fun other mem => mapped other (mem_of_mem_take mem)
  have gathered := gather_some memory taken ⟨0, 0, scratch⟩ rfl found
  have counts := gather_counts memory taken ⟨0, 0, scratch⟩
  rw [walked] at gathered counts
  obtain ⟨rest, whole⟩ := bytes_of_first memory segments found
  refine ⟨?_, ?_, limit, ?_, ?_⟩
  · rw [gathered.1, clip_to_nat, known]
  · rw [counts, zero_add, announced]
  · rw [← whole, length_append, read_user_length]
    exact Nat.le_add_right_of_le within
  · rw [gathered.2, fill_take _ (by rw [read_user_length]; exact limit) limit, read_user_take limit, ← whole,
      take_append_of_le_length (by rw [read_user_length]; exact within), read_user_take within]

variable {iov : Option (List Iovec)}

theorem trace_segments_captures (selected : selected probe.mask fd.toUInt32) (given : probe.scratch = some scratch)
    (mapped : Mapped (iov.getD [])) (some : captured (iov.getD []) ≠ 0) :
    ∃ ev, traceSegments probe memory fd iov = Option.some ev ∧ Captures ev (bytesOf memory (iov.getD [])) ∧
    ev.len.toNat = captured (iov.getD []) ∧ ev.userCount = announced (iov.getD []) := by
  have traced : ¬ (Capture.selected probe.mask fd.toUInt32 = false ∨ iov.getD [] = []) := by
    rw [selected]
    refine not_or.mpr ⟨Bool.noConfusion, fun empty => some ?_⟩
    rw [empty]
    rfl
  unfold traceSegments
  dsimp only
  rw [if_neg traced, given, Option.bind_some]
  generalize walked : ((iov.getD []).take iovMax).foldl (gatherSegment memory) ⟨0, 0, scratch⟩ = g
  obtain ⟨length, counts, limit, within, copied⟩ := gather_captures memory _ mapped some g walked
  have sent : g.destOff ≠ 0 := by
    intro zero
    rw [zero, UInt32.toNat_zero] at length
    exact some length.symm
  rw [if_neg sent]
  refine ⟨_, rfl, ⟨?_, ?_, ?_, ?_, ?_⟩, length, counts⟩
  · exact Nat.pos_of_ne_zero (length.symm ▸ some)
  · exact length.symm ▸ limit
  · exact length.symm ▸ within
  · exact length.symm ▸ copied
  · rw [bytes_of_length]
    exact counts.symm ▸ announced_le_total

variable {stack : Buffer} {remote : Bytes}

theorem buffer_published (whole : eventSize ≤ size) {buf} (selected : selected probe.mask fd.toUInt32)
    (given : probe.scratch.isSome)
    (sent : (traceBuffer probe memory fd buf cnt).bind (handleEvent size stack remote) = some payload) :
    Honest payload (bytesOf memory [⟨buf, cnt⟩]) := by
  have single : bytesOf memory [⟨buf, cnt⟩] = readUser memory buf cnt.toNat := by simp [bytesOf]
  obtain ⟨scratch, given⟩ := Option.isSome_iff_exists.mp given
  by_cases empty : cnt = 0
  · rw [traceBuffer, if_pos (.inr empty)] at sent
    cases sent
  · obtain ⟨ev, traced, captures, told⟩ := trace_buffer_captures memory buf selected given empty
    rw [traced, Option.bind_some] at sent
    rw [single]
    refine (handle_honest_iff whole stack remote captures).mpr ?_ payload sent
    rw [read_user_length]
    exact told

theorem segments_published_iff (whole : eventSize ≤ size) (selected : selected probe.mask fd.toUInt32)
    (given : probe.scratch.isSome) (mapped : Mapped (iov.getD [])) :
    (∀ payload, (traceSegments probe memory fd iov).bind (handleEvent size stack remote) = some payload →
    Honest payload (bytesOf memory (iov.getD []))) ↔
    captured (iov.getD []) = 0 ∨ total (iov.getD []) ≤ captured (iov.getD []) ∨
    captured (iov.getD []) < (announced (iov.getD [])).toNat := by
  obtain ⟨scratch, given⟩ := Option.isSome_iff_exists.mp given
  by_cases nothing : captured (iov.getD []) = 0
  · rw [trace_segments_none memory fd iov nothing]
    exact ⟨fun _ => .inl nothing, fun _ payload sent => by cases sent⟩
  · obtain ⟨ev, traced, captures, length, counts⟩ :=
      trace_segments_captures memory selected given mapped nothing
    rw [traced, Option.bind_some, handle_honest_iff whole stack remote captures, bytes_of_length, length, counts]
    exact ⟨.inr, fun condition => condition.resolve_left nothing⟩

theorem published_honest_iff (probe : Probe) (memory : Memory) (size : UInt32) (stack : Buffer) (remote : Bytes)
    (call : WriteCall) (monitored : Monitored probe call) (mapped : Mapped call.segments) (whole : eventSize ≤ size) :
    (∀ payload, published probe memory size stack remote call = some payload →
    Honest payload (bytesOf memory call.segments)) ↔ call.Counted := by
  cases call
  case write | pwrite64 | sendto =>
    exact ⟨fun _ => trivial, fun _ payload sent =>
      buffer_published memory whole monitored.selected monitored.scratch sent⟩
  case writev | sendmsg => exact segments_published_iff memory whole monitored.selected monitored.scratch mapped

def zeroed : Buffer := ⟨.replicate fdWriteMax 0, List.length_replicate⟩

def watchedTask : Probe := ⟨7, 7, some 3, some zeroed⟩

theorem published_honest_iff_two_segments : Monitored watchedTask (.writev 1 (some [⟨97, 2⟩, ⟨99, 1⟩])) ∧
    ∀ payload, published watchedTask UInt64.toUInt8 eventSize zeroed [] (.writev 1 (some [⟨97, 2⟩, ⟨99, 1⟩])) =
    some payload → Honest payload [97, 98, 99] := by
  have monitored : Monitored watchedTask (.writev 1 (some [⟨97, 2⟩, ⟨99, 1⟩])) := ⟨by decide, rfl⟩
  have mapped : Mapped (WriteCall.writev 1 (some [⟨97, 2⟩, ⟨99, 1⟩])).segments := by
    unfold Mapped
    decide
  refine ⟨monitored, (published_honest_iff watchedTask UInt64.toUInt8 eventSize zeroed [] _ monitored mapped
    (UInt32.le_refl _)).mpr (.inr (.inr ?_))⟩
  decide

def lateSegment : List Iovec := ⟨97, 1⟩ :: List.replicate 15 ⟨1, 0⟩ ++ [⟨98, 1⟩]

theorem late_segment_is_lost :
    (published watchedTask UInt64.toUInt8 eventSize zeroed [] (.writev 1 (some lateSegment))).map
    (fun payload => (payload.truncated, content payload)) = some (0, [97]) ∧
    bytesOf UInt64.toUInt8 lateSegment = [97, 98] := by
  decide +kernel

end

end Evemon.Capture
