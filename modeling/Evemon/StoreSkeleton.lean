import Evemon.Lib.ProbeChain
import Evemon.StoreContents

-- Which records an update leaves and in which state, whatever became of their strings.
namespace Evemon.Store

open List Prog ProbeTable

open ProbeTable (fill)
open Prog (Keeps)

section

variable {pids : List Int32}

theorem index_pids_fill : indexPids pids = fill htHome pids.zipIdx := rfl

theorem index_pids_concat (pid : Int32) : indexPids (pids ++ [pid]) = htInsert (indexPids pids) pid pids.length := by
  simp [indexPids, zipIdx_append, foldl_append]

variable (pids) in
theorem mem_take_zip_idx (count : Nat) (pid : Int32) (idx : Nat) :
    (pid, idx) ∈ pids.zipIdx.take count ↔ idx < count ∧ pids[idx]? = some pid := by
  rw [mem_iff_getElem?]
  constructor
  · rintro ⟨place, present⟩
    rw [List.getElem?_take, List.getElem?_zipIdx] at present
    split at present
    · obtain ⟨other, held, same⟩ := Option.map_eq_some_iff.mp present
      simp only [Prod.mk.injEq, Nat.zero_add] at same
      obtain ⟨rfl, rfl⟩ := same
      exact ⟨by assumption, held⟩
    · cases present
  · rintro ⟨inside, present⟩
    exact ⟨idx, by simp [List.getElem?_zipIdx, inside, present]⟩

theorem keys_take_zip_idx (count : Nat) : (pids.zipIdx.take count).map Prod.fst = pids.take count := by
  rw [map_take, zipIdx_map_fst]

theorem ht_find_sound {pid} {idx} (found : htFind (indexPids pids) pid = some idx) :
    pids[idx]? = some pid := by
  have held := held_of_find htHome found
  rw [index_pids_fill, fill_held, mem_take_zip_idx] at held
  exact held.2

theorem ht_find_iff (distinct : (pids.take storeHtSize).Nodup) (pid : Int32) (idx : Nat) :
    htFind (indexPids pids) pid = some idx ↔ idx < storeHtSize ∧ pids[idx]? = some pid := by
  rw [htFind, index_pids_fill, find_fill htHome _ (by rwa [keys_take_zip_idx]), mem_take_zip_idx]

theorem ht_find_some_iff (distinct : (pids.take storeHtSize).Nodup) (pid : Int32) :
    (htFind (indexPids pids) pid).isSome ↔ pid ∈ pids.take storeHtSize := by
  rw [Option.isSome_iff_exists, mem_iff_getElem?]
  constructor
  · rintro ⟨idx, found⟩
    obtain ⟨inside, present⟩ := (ht_find_iff distinct pid idx).mp found
    exact ⟨idx, by rw [List.getElem?_take_of_lt inside, present]⟩
  · rintro ⟨idx, present⟩
    have inside : idx < storeHtSize := by
      by_contra outside
      rw [List.getElem?_take_eq_none (by omega)] at present
      cases present
    rw [List.getElem?_take_of_lt inside] at present
    exact ⟨idx, (ht_find_iff distinct pid idx).mpr ⟨inside, present⟩⟩

end

section

structure Framed (origin state : StoreState) : Prop where
  records : state.store.records = origin.store.records
  capacity : state.store.capacity = origin.store.capacity
  ht : state.store.ht = origin.store.ht
  snapHt : state.store.snapHt = origin.store.snapHt
  grant : state.heap.grant = origin.heap.grant

theorem framed_refl (state : StoreState) : Framed state state := ⟨rfl, rfl, rfl, rfl, rfl⟩

variable (origin : StoreState)

theorem alloc_framed : Keeps (Framed origin) alloc := fun _ framed =>
  ⟨framed.records, framed.capacity, framed.ht, framed.snapHt, framed.grant⟩

theorem note_refused_framed (lost : Bool) : Keeps (Framed origin) (noteRefused lost) := fun _ framed =>
  ⟨framed.records, framed.capacity, framed.ht, framed.snapHt, framed.grant⟩

theorem current_framed : Keeps (Framed origin) current := fun _ framed => framed

theorem push_string_framed {s} : Keeps (Framed origin) (pushString s) := by
  unfold pushString
  apply keeps_bind (current_framed origin)
  intro store
  apply keeps_bind (keeps_ite (alloc_framed origin) (keeps_pure true))
  intro granted
  apply keeps_bind
  · exact fun _ framed => ⟨framed.records, framed.capacity, framed.ht, framed.snapHt, framed.grant⟩
  · intro _
    apply keeps_bind (note_refused_framed origin _)
    exact fun _ => keeps_pure _

variable (src : ProcEntry)

theorem re_push_framed (tab : StrTab) : Keeps (Framed origin) (rePushEntryStrings src tab) := by
  unfold rePushEntryStrings
  iterate 6
    apply keeps_bind (push_string_framed origin)
    intro _
  apply keeps_bind (current_framed origin)
  exact fun _ => keeps_pure _

theorem grow_extras_framed : Keeps (Framed origin) growExtras := by
  unfold growExtras
  apply keeps_bind (current_framed origin)
  intro store
  refine keeps_ite ?_ (keeps_pure _)
  apply keeps_bind (alloc_framed origin)
  intro granted
  refine keeps_ite ?_ (keeps_pure _)
  exact fun _ framed => ⟨framed.records, framed.capacity, framed.ht, framed.snapHt, framed.grant⟩

theorem copy_steam_framed (info : SteamInfo) : Keeps (Framed origin) (copySteam info) := by
  unfold copySteam
  apply keeps_bind (grow_extras_framed origin)
  intro _
  apply keeps_bind (current_framed origin)
  intro store
  apply keeps_ite
  · apply keeps_bind (alloc_framed origin)
    intro granted
    refine keeps_ite ?_ (keeps_pure _)
    apply keeps_bind
    · exact fun _ framed => ⟨framed.records, framed.capacity, framed.ht, framed.snapHt, framed.grant⟩
    · exact fun _ => keeps_pure _
  · apply keeps_bind (note_refused_framed origin true)
    exact fun _ => keeps_pure _

theorem store_copy_framed (snap : ProcSnapshot) : Keeps (Framed origin) (storeCopyEntry src snap) := by
  unfold storeCopyEntry
  apply keeps_bind (re_push_framed origin src snap.strtab)
  intro entry
  cases snap.steam src with
  | none => exact keeps_pure _
  | some info =>
    apply keeps_bind (copy_steam_framed origin info)
    exact fun _ => keeps_pure _

theorem store_copy_plain (snap : ProcSnapshot) (state : StoreState) :
    plain ((storeCopyEntry src snap).run state).1 = plain src := by
  unfold storeCopyEntry
  rw [run_bind]
  cases snap.steam src <;> rfl

end

structure Mark where
  pid : Int32
  status : ProcStatus
  diedAtUs : Int

def ProcRecord.mark (rec : ProcRecord) : Mark := ⟨rec.pid, rec.status, rec.diedAtUs⟩

def ProcStore.marks (store : ProcStore) : List Mark := store.records.map ProcRecord.mark

def Mark.born (pid : Int32) : Mark := ⟨pid, .alive, 0⟩

def Mark.aged (present : Bool) (now : Int) (mark : Mark) : Mark :=
  match mark.status with
  | .killed => mark
  | .alive => if present then .born mark.pid else { mark with status := .dying, diedAtUs := now }
  | .dying =>
    if present then .born mark.pid
    else { mark with status := if now - mark.diedAtUs > storeKillDelayUs then .killed else .dying }

def snapPids (snap : ProcSnapshot) : List Int32 := snap.entries.map ProcEntry.pid

theorem pids_marks (store : ProcStore) : store.pids = store.marks.map Mark.pid := by
  simp [ProcStore.pids, ProcStore.marks, ProcRecord.mark, Function.comp_def]

theorem aged_pid (present : Bool) (now : Int) (mark : Mark) : (mark.aged present now).pid = mark.pid := by
  obtain ⟨pid, status, diedAt⟩ := mark
  cases status <;> cases present <;> rfl

def sourceOf (snap : ProcSnapshot) (pid : Int32) : Option ProcEntry :=
  (htFind (indexPids (snapPids snap)) pid).bind (snap.entries[·]?)

theorem source_of_some {snap} {pid} {src} (found : sourceOf snap pid = some src) :
    src ∈ snap.entries ∧ src.pid = pid := by
  obtain ⟨idx, hit, present⟩ := Option.bind_eq_some_iff.mp found
  have held := ht_find_sound hit
  rw [snapPids, List.getElem?_map, present] at held
  exact ⟨mem_of_getElem? present, Option.some.inj held⟩

theorem source_of_isSome (snap : ProcSnapshot) (pid : Int32) :
    (sourceOf snap pid).isSome = (htFind (indexPids (snapPids snap)) pid).isSome := by
  cases hit : htFind (indexPids (snapPids snap)) pid with
  | none => simp [sourceOf, hit]
  | some idx =>
    have held := ht_find_sound hit
    rw [snapPids, List.getElem?_map] at held
    obtain ⟨src, present, -⟩ := Option.map_eq_some_iff.mp held
    simp [sourceOf, hit, present]

theorem store_copy_pid (src : ProcEntry) (snap : ProcSnapshot) (state : StoreState) :
    ((storeCopyEntry src snap).run state).1.pid = src.pid := by
  have copied := congrArg ProcEntry.pid (store_copy_plain src snap state)
  exact copied

theorem age_record_mark (snap : ProcSnapshot) (oldStrtab : StrTab) (now : Int) (rec : ProcRecord) (state : StoreState) :
    ((ageRecord snap (indexPids (snapPids snap)) oldStrtab now rec).run state).1.mark =
    rec.mark.aged (sourceOf snap rec.pid).isSome now := by
  obtain ⟨entry, status, diedAt⟩ := rec
  unfold ageRecord
  by_cases killed : status = .killed
  · rw [if_pos killed]
    subst killed
    rfl
  · rw [if_neg killed]
    have looked : (htFind (indexPids (snapPids snap)) (ProcRecord.pid ⟨entry, status, diedAt⟩)).bind (snap.entries[·]?) =
        sourceOf snap entry.pid := rfl
    rw [looked]
    cases found : sourceOf snap entry.pid with
    | none =>
      rw [run_bind, run_pure]
      cases status with
      | killed => exact absurd rfl killed
      | alive | dying => simp [ProcRecord.mark, ProcRecord.pid, Mark.aged, agedRecord, found]; rfl
    | some src =>
      have pid : ((storeCopyEntry src snap).run state).1.pid = entry.pid :=
        (store_copy_pid src snap state).trans (source_of_some found).2
      rw [run_bind, run_pure]
      cases status with
      | killed => exact absurd rfl killed
      | alive | dying => simp [ProcRecord.mark, ProcRecord.pid, Mark.aged, Mark.born, found, pid]

section

variable (snap : ProcSnapshot)

theorem age_record_framed (origin : StoreState) (snapHt : Ht) (oldStrtab : StrTab) (now : Int) (rec : ProcRecord) :
    Keeps (Framed origin) (ageRecord snap snapHt oldStrtab now rec) := by
  unfold ageRecord
  refine keeps_ite (keeps_pure _) ?_
  cases (htFind snapHt rec.pid).bind (snap.entries[·]?) with
  | none =>
    apply keeps_bind (re_push_framed origin rec.entry oldStrtab)
    exact fun _ => keeps_pure _
  | some src =>
    apply keeps_bind (store_copy_framed origin src snap)
    exact fun _ => keeps_pure _

structure Indexed (state : StoreState) : Prop where
  ht : state.store.ht = some (indexPids state.store.pids)
  snapHt : state.store.snapHt.isSome = true
  granted : ∀ request, state.heap.grant request = true

theorem grow_records_run {state : StoreState} (granted : ∀ request, state.heap.grant request) :
    (growRecords.run state).1 ∧ (growRecords.run state).2.store.records = state.store.records ∧
    (growRecords.run state).2.store.ht = state.store.ht ∧ (growRecords.run state).2.store.snapHt = state.store.snapHt ∧
    (growRecords.run state).2.heap.grant = state.heap.grant := by
  by_cases full : state.store.records.length ≥ state.store.capacity
  · simp [growRecords, current, alloc, changeStore, full, granted]
  · simp [growRecords, current, full]

theorem append_entry_marks (src : ProcEntry) {state} (indexed : Indexed state) :
    Indexed ((appendEntry snap src).run state).2 ∧
    ((appendEntry snap src).run state).2.store.marks = state.store.marks ++ [.born src.pid] := by
  obtain ⟨room, records, ht, snapHt, grant⟩ := grow_records_run indexed.granted
  simp only [appendEntry, run_bind, room, if_true]
  generalize (growRecords.run state).2 = grown at records ht snapHt grant ⊢
  have framed := store_copy_framed grown src snap grown (framed_refl grown)
  have pid := store_copy_pid src snap grown
  generalize (storeCopyEntry src snap).run grown = copied at framed pid ⊢
  simp only [changeStore, run_modify]
  have held : copied.2.store.records = state.store.records := framed.records.trans records
  refine ⟨⟨?_, ?_, ?_⟩, ?_⟩
  · simp only [ProcStore.pids, map_append, map_cons, map_nil, ProcRecord.pid, pid]
    rw [index_pids_concat, framed.ht, ht, indexed.ht, held]
    simp [ProcStore.pids]
  · rw [framed.snapHt, snapHt]
    exact indexed.snapHt
  · rw [framed.grant, grant]
    exact indexed.granted
  · simp [ProcStore.marks, held, ProcRecord.mark, ProcRecord.pid, pid, Mark.born]

def fresh : List Int32 → List Int32 → List Int32
  | _, [] => []
  | held, pid :: rest =>
    if pid ∈ held.take storeHtSize then fresh held rest else pid :: fresh (held ++ [pid]) rest

theorem take_append_nodup {held : List Int32} {count} {pid : Int32} (distinct : (held.take count).Nodup)
    (absent : pid ∉ held.take count) : ((held ++ [pid]).take count).Nodup := by
  rw [take_append]
  cases count - held.length with
  | zero => simpa using distinct
  | succ more =>
    rw [take_succ_cons, take_nil]
    exact distinct.append (nodup_singleton pid) (disjoint_singleton.mpr absent)

theorem append_new_marks (entries : List ProcEntry) {state} (indexed : Indexed state)
    (distinct : (state.store.pids.take storeHtSize).Nodup) :
    Indexed ((appendNew snap entries).run state).2 ∧ ((appendNew snap entries).run state).2.store.marks =
    state.store.marks ++ (fresh state.store.pids (entries.map ProcEntry.pid)).map .born := by
  induction entries generalizing state with
  | nil => exact ⟨indexed, by simp [appendNew, fresh]⟩
  | cons src rest ih =>
    have turn : ((appendNew snap (src :: rest)).run state).2 =
        ((appendNew snap rest).run ((appendMissing snap src).run state).2).2 := by
      simp [appendNew, forM_cons]
    have found : (state.store.ht.bind fun ht => htFind ht src.pid).isSome ↔
        src.pid ∈ state.store.pids.take storeHtSize := by
      rw [indexed.ht, Option.bind_some, ht_find_some_iff distinct]
    rw [turn]
    by_cases present : src.pid ∈ state.store.pids.take storeHtSize
    · have skipped : ((appendMissing snap src).run state).2 = state := by
        simp [appendMissing, current, found.mpr present]
      rw [skipped, map_cons, fresh, if_pos present]
      exact ih indexed distinct
    · have appended : ((appendMissing snap src).run state).2 = ((appendEntry snap src).run state).2 := by
        simp [appendMissing, current, mt found.mp present]
      obtain ⟨kept, marks⟩ := append_entry_marks snap src indexed
      rw [← appended] at kept marks
      have pids : ((appendMissing snap src).run state).2.store.pids = state.store.pids ++ [src.pid] := by
        rw [pids_marks, marks, map_append, ← pids_marks]
        rfl
      obtain ⟨final, more⟩ := ih kept (by rw [pids]; exact take_append_nodup distinct present)
      refine ⟨final, ?_⟩
      rw [more, marks, pids, map_cons, fresh, if_neg present]
      simp

variable (state : StoreState)

theorem shrink_records_run : (shrinkRecords.run state).2.store.records = state.store.records ∧
    (shrinkRecords.run state).2.store.ht = state.store.ht ∧ (shrinkRecords.run state).2.store.snapHt = state.store.snapHt ∧
    (shrinkRecords.run state).2.store.strtab = state.store.strtab ∧
    (shrinkRecords.run state).2.store.extras = state.store.extras := by
  by_cases large : state.store.capacity > 256 ∧ state.store.records.length < state.store.capacity / 2
  · by_cases granted : state.heap.grant state.heap.asked
    · simp [shrinkRecords, current, alloc, changeStore, large, granted]
    · simp [shrinkRecords, current, alloc, large, granted]
  · simp [shrinkRecords, current, large]

theorem compact_run (ht : state.store.ht = some (indexPids state.store.pids)) :
    (compact.run state).2.store.records = state.store.records.filter (fun rec => decide (rec.status ≠ .killed)) ∧
    (compact.run state).2.store.ht = some (indexPids (compact.run state).2.store.pids) ∧
    (compact.run state).2.store.snapHt = state.store.snapHt ∧
    (compact.run state).2.store.strtab = state.store.strtab ∧
    (compact.run state).2.store.extras = state.store.extras := by
  unfold compact
  by_cases any : state.store.records.any (fun rec => decide (rec.status = .killed))
  · simp only [current, run_bind, run_inspect, any, if_true, changeStore, run_modify]
    obtain ⟨records, index, snapHt, strtab, extras⟩ := shrink_records_run { state with store := { state.store with
          records := state.store.records.filter fun rec => decide (rec.status ≠ .killed)
          ht := state.store.ht.map fun _ =>
            indexPids ((state.store.records.filter fun rec => decide (rec.status ≠ .killed)).map ProcRecord.pid) } }
    refine ⟨records, ?_, snapHt, strtab, extras⟩
    rw [index, ProcStore.pids, records, ht]
    rfl
  · simp only [current, run_bind, run_inspect, any, if_false, run_pure, Bool.false_eq_true]
    refine ⟨(filter_eq_self.mpr fun rec mem => ?_).symm, ht, trivial, trivial, trivial⟩
    simp only [any_eq_true, not_exists, not_and, decide_eq_true_eq] at any
    exact decide_eq_true (any rec mem)

end

end Evemon.Store
