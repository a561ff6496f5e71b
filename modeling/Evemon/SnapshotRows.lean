import Evemon.Snapshot
import Evemon.WireCodec

namespace Evemon

open List UInt32

open Ipc (Bytes)

structure Row where
  pid : Int32
  ppid : Int32
  memRssKb : UInt64
  cpuTicks : UInt64
  startTime : UInt64
  startTicks : UInt64
  evemonInstance : UInt64
  ioReadBytes : UInt64
  ioWriteBytes : UInt64
  netSendBytes : UInt64
  netRecvBytes : UInt64
  cpuPercent : Float32
  ioReadRate : Float32
  ioWriteRate : Float32
  ioHistoryCount : UInt8
  flags : UInt16
  ioHistory : List.Vector Float32 ioHistoryLen
  name : Bytes
  cmd : Bytes
  user : Bytes
  cwd : Bytes
  container : Bytes
  service : Bytes
  steam : Option SteamInfo

def ProcSnapshot.row (snap : ProcSnapshot) (p : ProcEntry) : Row :=
  { p with
    name := procStr snap.strtab p.name.off
    cmd := procStr snap.strtab p.cmd.off
    user := procStr snap.strtab p.user.off
    cwd := procStr snap.strtab p.cwd.off
    container := procStr snap.strtab p.container.off
    service := procStr snap.strtab p.service.off
    steam := snap.steam p }

def ProcSnapshot.rows (snap : ProcSnapshot) : List Row := snap.entries.map snap.row

def Terminated (tab : StrTab) : Prop := tab.buf.getLast? = some 0

def Extends (old new : StrTab) : Prop := ∃ tail, new.buf = old.buf ++ tail

structure Holds (tab : StrTab) (ref : StrRef) (s : Bytes) : Prop where
  inside : ref.off < tab.buf.length
  reads : procStr tab ref.off = s

theorem proc_str_nul_free (tab : StrTab) (off : Nat) : 0 ∉ procStr tab off := by
  unfold procStr
  split
  · exact not_mem_nil
  · intro mem
    have kept := all_eq_true.mp all_takeWhile _ mem
    simp at kept

theorem strtab_init_terminated (cap : Nat) : Terminated (strtabInit cap) := rfl

theorem extends_refl (tab : StrTab) : Extends tab tab := ⟨[], (append_nil _).symm⟩

theorem extends_trans {first second third} (head : Extends first second) (tail : Extends second third) :
    Extends first third := by
  obtain ⟨early, grown⟩ := head
  obtain ⟨late, further⟩ := tail
  exact ⟨early ++ late, by rw [further, grown, append_assoc]⟩

theorem take_while_append_stop (front tail : Bytes) (stop : 0 ∈ front) :
    (front ++ tail).takeWhile (· != 0) = front.takeWhile (· != 0) := by
  induction front with
  | nil => cases stop
  | cons byte front ih =>
    by_cases nul : byte = 0
    · simp [nul]
    · have later : 0 ∈ front := by
        rcases mem_cons.mp stop with same | later
        · exact absurd same.symm nul
        · exact later
      simp [nul, ih later]

variable {s : Bytes}

theorem holds_extends {old new} {ref} (terminated : Terminated old) (grown : Extends old new)
    (holds : Holds old ref s) : Holds new ref s := by
  obtain ⟨tail, longer⟩ := grown
  have inside := holds.inside
  refine ⟨by rw [longer, length_append]; omega, ?_⟩
  rw [← holds.reads]
  unfold procStr
  by_cases first : ref.off = 0
  · rw [if_pos first, if_pos first]
  · rw [if_neg first, if_neg first, longer, drop_append_of_le_length inside.le]
    apply take_while_append_stop
    have last : (old.buf.drop ref.off).getLast? = some 0 := by
      rw [List.getLast?_drop, if_neg (by omega)]
      exact terminated
    exact mem_of_getLast? last

theorem strtab_push_holds {tab} {s : Bytes} (len : UInt16) (terminated : Terminated tab) (nulFree : 0 ∉ s)
    (room : tab.buf.length + s.length + 1 ≤ uint32Max) :
    Terminated (strtabPush tab s true).1 ∧ Extends tab (strtabPush tab s true).1 ∧
    Holds (strtabPush tab s true).1 ⟨(strtabPush tab s true).2, len⟩ s ∧ ((strtabPush tab s true).2 = 0 → s.length = 0) ∧
    (strtabPush tab s true).1.buf.length ≤ tab.buf.length + s.length + 1 := by
  have nonempty : 0 < tab.buf.length := by
    rcases eq_nil_or_concat tab.buf with none | ⟨front, last, shape⟩
    · simp [Terminated, none] at terminated
    · rw [shape]
      simp
  by_cases empty : s = []
  · subst empty
    have kept : strtabPush tab [] true = (tab, 0) := by simp [strtabPush, strtabRejects]
    rw [kept]
    exact ⟨terminated, extends_refl tab, ⟨nonempty, rfl⟩, fun _ => rfl, by simp⟩
  · have accepted : strtabRejects tab s = false := by
      simp [strtabRejects, empty]
      omega
    have appended : (strtabPush tab s true).1.buf = tab.buf ++ s ++ [0] ∧ (strtabPush tab s true).2 = tab.buf.length := by
      unfold strtabPush
      rw [accepted]
      by_cases grows : strtabGrows tab s
      · simp [grows]
      · simp [grows]
    obtain ⟨buf, off⟩ := appended
    refine ⟨by simp [Terminated, buf], ⟨s ++ [0], by rw [buf, append_assoc]⟩, ⟨?_, ?_⟩, ?_, ?_⟩
    · rw [buf, off]
      simp
    · have keep : ∀ byte ∈ s, (byte != 0) := by
        intro byte mem
        simp only [bne_iff_ne]
        rintro rfl
        exact nulFree mem
      simp only [procStr, off]
      rw [if_neg (by omega), buf, append_assoc, drop_left, takeWhile_append_of_pos keep]
      simp
    · rw [off]
      omega
    · rw [buf]
      simp only [length_append, length_singleton]
      omega

def ProcEntry.refs (p : ProcEntry) : List StrRef := [p.name, p.cmd, p.user, p.cwd, p.container, p.service]

structure Sound (snap : ProcSnapshot) : Prop where
  terminated : Terminated snap.strtab
  strings : ∀ p ∈ snap.entries, ∀ ref ∈ p.refs, ref.off < snap.strtab.buf.length
  indexed : ∀ p ∈ snap.entries, p.extraIdx < snap.extras.length ∨ p.extraIdx = uint32Max
  few : snap.extras.length ≤ snap.entries.length

theorem empty_sound {tab} (terminated : Terminated tab) : Sound { strtab := tab } where
  terminated := terminated
  strings p mem := by cases mem
  indexed p mem := by cases mem
  few := le_rfl

theorem steam_extends {old new : ProcSnapshot} (p : ProcEntry) {more : List (Option SteamInfo)}
    (grown : new.extras = old.extras ++ more) (few : new.extras.length ≤ uint32Max)
    (indexed : p.extraIdx < old.extras.length ∨ p.extraIdx = uint32Max) : new.steam p = old.steam p := by
  unfold ProcSnapshot.steam
  rcases indexed with inside | none
  · rw [grown, List.getElem?_append_left inside]
  · have short : old.extras.length ≤ uint32Max := by
      rw [grown, length_append] at few
      omega
    rw [none, List.getElem?_eq_none few, List.getElem?_eq_none short]

theorem row_extends {old new : ProcSnapshot} {p : ProcEntry} {more : List (Option SteamInfo)} (sound : Sound old)
    (mem : p ∈ old.entries) (strings : Extends old.strtab new.strtab) (grown : new.extras = old.extras ++ more)
    (few : new.extras.length ≤ uint32Max) : new.row p = old.row p := by
  have same : ∀ ref ∈ p.refs, procStr new.strtab ref.off = procStr old.strtab ref.off := fun ref listed =>
    (holds_extends sound.terminated strings ⟨sound.strings p mem ref listed, rfl⟩).reads
  simp only [ProcEntry.refs, mem_cons, not_mem_nil, or_false, forall_eq_or_imp, forall_eq] at same
  obtain ⟨name, cmd, user, cwd, container, service⟩ := same
  simp only [ProcSnapshot.row, name, cmd, user, cwd, container, service, steam_extends p grown few (sound.indexed p mem)]

theorem rows_extends (old new : ProcSnapshot) (more : List (Option SteamInfo)) (added : List ProcEntry)
    (sound : Sound old) (entries : new.entries = old.entries ++ added) (strings : Extends old.strtab new.strtab)
    (grown : new.extras = old.extras ++ more) (few : new.extras.length ≤ uint32Max) :
    new.rows = old.rows ++ added.map new.row := by
  unfold ProcSnapshot.rows
  rw [entries, map_append]
  congr 1
  exact map_congr_left fun p mem => row_extends sound mem strings grown few

-- The doubling of strtab_push in the 32-bit arithmetic of the source; none while it has not ended.
def growCap (need : UInt32) : Nat → UInt32 → Option UInt32
  | 0, _ => none
  | fuel + 1, cap =>
    if cap < need then if cap > 4294967295 / 2 then some need else growCap need fuel (cap * 2) else some cap

def strtabRun (tab : StrTab) : List (Bytes × Bool) → StrTab × List Nat
  | [] => (tab, [])
  | (s, granted) :: later =>
    let rest := strtabRun (strtabPush tab s granted).1 later
    (rest.1, (strtabPush tab s granted).2 :: rest.2)

def Takes (tab : StrTab) (s : Bytes) (granted : Bool) : Prop :=
  s ≠ [] ∧ tab.buf.length + s.length + 1 ≤ uint32Max ∧ (tab.cap < tab.buf.length + s.length + 1 → granted)

theorem grow_cap_ends (need cap : UInt32) (fuel : Nat) (enough : 2 ^ 32 ≤ cap.toNat * 2 ^ fuel) :
    ∃ grown, growCap need fuel cap = some grown ∧ need ≤ grown ∧ grown.toNat = doubledCap need.toNat fuel cap.toNat := by
  induction fuel generalizing cap with
  | zero =>
    have below := cap.toNat_lt
    omega
  | succ fuel ih =>
    rw [growCap, doubledCap]
    by_cases small : cap < need
    · by_cases large : cap > 4294967295 / 2
      · have half : cap.toNat > uint32Max / 2 := UInt32.lt_iff_toNat_lt.mp large
        rw [if_pos small, if_pos large, if_pos (UInt32.lt_iff_toNat_lt.mp small), if_pos half]
        exact ⟨need, rfl, UInt32.le_refl need, rfl⟩
      · have half : ¬ cap.toNat > uint32Max / 2 := fun above => large (UInt32.lt_iff_toNat_lt.mpr above)
        have exact : (cap * 2).toNat = cap.toNat * 2 := by
          simp only [uint32Max] at half
          have product := UInt32.toNat_mul cap 2
          simp only [UInt32.reduceToNat] at product
          omega
        rw [if_pos small, if_neg large, if_pos (UInt32.lt_iff_toNat_lt.mp small), if_neg half, ← exact]
        apply ih
        rw [exact, Nat.mul_assoc, Nat.mul_comm 2, ← Nat.pow_succ]
        exact enough
    · rw [if_neg small, if_neg fun less => small (UInt32.lt_iff_toNat_lt.mpr less)]
      exact ⟨cap, rfl, UInt32.not_lt.mp small, rfl⟩

structure Sized (tab : StrTab) : Prop where
  terminated : Terminated tab
  sentinel : tab.buf[0]? = some 0
  inside : tab.buf.length ≤ tab.cap
  fits : tab.cap ≤ uint32Max

variable {tab : StrTab} {granted : Bool}

theorem strtab_push_refused (refused : ¬ Takes tab s granted) : strtabPush tab s granted = (tab, 0) := by
  unfold strtabPush
  by_cases rejects : strtabRejects tab s
  · rw [if_pos rejects]
  · have fits : s ≠ [] ∧ tab.buf.length + s.length + 1 ≤ uint32Max := by
      simp [strtabRejects] at rejects
      exact ⟨rejects.1.1, by omega⟩
    have full : tab.cap < tab.buf.length + s.length + 1 ∧ granted = false := by
      by_contra other
      exact refused ⟨fits.1, fits.2, fun grows => by simpa [grows] using other⟩
    rw [if_neg rejects, if_pos (by simp [strtabGrows, rejects, full.1]), full.2]
    rfl

theorem strtab_push_taken (takes : Takes tab s granted) : strtabPush tab s granted = strtabPush tab s true := by
  unfold strtabPush
  by_cases grows : strtabGrows tab s
  · have answer : granted := takes.2.2 (by simpa using (Bool.and_eq_true_iff.mp grows).2)
    rw [answer]
  · simp [grows]

theorem strtab_push_cap (sized : Sized tab) (takes : Takes tab s true) :
    (strtabPush tab s true).1.buf.length ≤ (strtabPush tab s true).1.cap ∧ (strtabPush tab s true).1.cap ≤ uint32Max := by
  have accepted : ¬ strtabRejects tab s := by
    have room := takes.2.1
    simp [strtabRejects, takes.1]
    omega
  unfold strtabPush
  rw [if_neg accepted]
  by_cases grows : tab.buf.length + s.length + 1 > tab.cap
  · rw [if_pos (by simp [strtabGrows, accepted, grows]), if_pos rfl]
    have room := takes.2.1
    have fits := sized.fits
    simp only [uint32Max] at room fits
    have need : (UInt32.ofNat (tab.buf.length + s.length + 1)).toNat = tab.buf.length + s.length + 1 :=
      toNat_ofNat_of_lt' (by simp only [UInt32.size]; omega)
    have start : (UInt32.ofNat (max tab.cap 1024)).toNat = max tab.cap 1024 :=
      toNat_ofNat_of_lt' (by simp only [UInt32.size]; omega)
    obtain ⟨grown, -, covers, same⟩ := grow_cap_ends (.ofNat (tab.buf.length + s.length + 1)) (.ofNat (max tab.cap 1024)) 32
      (by rw [start]; omega)
    rw [need, start] at same
    have least := le_iff_toNat_le.mp covers
    have most := grown.toNat_lt
    simp only [← same, length_append, length_singleton, uint32Max]
    omega
  · rw [if_neg (by simp [strtabGrows, accepted]; omega)]
    simp only [length_append, length_singleton]
    exact ⟨by omega, sized.fits⟩

theorem strtab_push_sized (granted : Bool) (sized : Sized tab) (nulFree : 0 ∉ s) :
    Sized (strtabPush tab s granted).1 ∧ Extends tab (strtabPush tab s granted).1 ∧
    (strtabPush tab s granted).2 < (strtabPush tab s granted).1.buf.length ∧
    procStr (strtabPush tab s granted).1 (strtabPush tab s granted).2 =
    if (strtabPush tab s granted).2 = 0 then [] else s := by
  have nonempty := (List.getElem?_eq_some_iff.mp sized.sentinel).1
  by_cases takes : Takes tab s granted
  · rw [strtab_push_taken takes]
    obtain ⟨terminated, grown, holds, empty, -⟩ := strtab_push_holds 0 sized.terminated nulFree takes.2.1
    have caps := strtab_push_cap sized ⟨takes.1, takes.2.1, fun _ => rfl⟩
    refine ⟨⟨terminated, ?_, caps.1, caps.2⟩, grown, holds.inside, ?_⟩
    · obtain ⟨tail, buf⟩ := grown
      rw [buf, getElem?_append_left nonempty, sized.sentinel]
    · rw [if_neg fun zero => takes.1 (length_eq_zero_iff.mp (empty zero))]
      exact holds.reads
  · rw [strtab_push_refused takes]
    exact ⟨sized, extends_refl tab, nonempty, rfl⟩

theorem strtab_run_reads {pushes : List (Bytes × Bool)} (sized : Sized tab) (nulFree : ∀ push ∈ pushes, 0 ∉ push.1) :
    Sized (strtabRun tab pushes).1 ∧ Extends tab (strtabRun tab pushes).1 ∧
    Forall₂ (fun push off => off < (strtabRun tab pushes).1.buf.length ∧
    procStr (strtabRun tab pushes).1 off = if off = 0 then [] else push.1) pushes (strtabRun tab pushes).2 := by
  induction pushes generalizing tab with
  | nil => exact ⟨sized, extends_refl tab, .nil⟩
  | cons push later ih =>
    obtain ⟨s, granted⟩ := push
    obtain ⟨clean, rest⟩ := forall_mem_cons.mp nulFree
    obtain ⟨kept, grown, inside, reads⟩ := strtab_push_sized granted sized clean
    obtain ⟨final, further, all⟩ := ih kept rest
    have held : Holds _ ⟨_, 0⟩ _ := ⟨inside, reads⟩
    have stays := holds_extends kept.terminated further held
    exact ⟨final, extends_trans grown further, .cons ⟨stays.inside, stays.reads⟩ all⟩

theorem string_table_sound (cap : UInt32) (pushes : List (Bytes × Bool)) (run : StrTab × List Nat)
    (ran : strtabRun (strtabInit cap.toNat) pushes = run) (nulFree : ∀ push ∈ pushes, 0 ∉ push.1) :
    Sized run.1 ∧
    Forall₂ (fun push off => off < run.1.buf.length ∧ procStr run.1 off = if off = 0 then [] else push.1) pushes run.2 ∧
    (∀ s granted, 0 ∉ s → Takes run.1 s granted → (strtabPush run.1 s granted).2 ≠ 0) ∧
    (∀ s granted, ¬ Takes run.1 s granted → strtabPush run.1 s granted = (run.1, 0)) ∧
    ∀ need start : UInt32, 1024 ≤ start → ∃ grown, growCap need 32 start = some grown ∧ need ≤ grown ∧
    grown.toNat = doubledCap need.toNat 32 start.toNat := by
  have begun : Sized (strtabInit cap.toNat) := by
    have below := cap.toNat_lt
    refine ⟨strtab_init_terminated _, rfl, ?_, ?_⟩
    · simp only [strtabInit, length_singleton]
      split <;> omega
    · simp only [strtabInit, uint32Max]
      split <;> omega
  obtain ⟨sized, -, reads⟩ := strtab_run_reads begun nulFree
  subst ran
  refine ⟨sized, reads, ?_, fun s granted => strtab_push_refused, ?_⟩
  · intro s granted clean takes zero
    rw [strtab_push_taken takes] at zero
    exact takes.1 (length_eq_zero_iff.mp ((strtab_push_holds 0 sized.terminated clean takes.2.1).2.2.2.1 zero))
  · intro need start least
    have large : 1024 ≤ start.toNat := UInt32.le_iff_toNat_le.mp least
    exact grow_cap_ends need start 32 (by omega)

theorem string_table_two : ∃ run, strtabRun (strtabInit 0) [([97], true), ([98, 99], false)] = run ∧ run.2 = [1, 3] ∧
    Sized run.1 :=
  ⟨_, rfl, by decide +kernel, (string_table_sound 0 [([97], true), ([98, 99], false)] _ rfl (by decide)).1⟩

end Evemon
