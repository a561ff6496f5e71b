import Evemon.StoreSkeleton

namespace Evemon.Store

open List Prog

open Prog (Grows Keeps Stable)

section

variable (snap : ProcSnapshot) (now : Int)

def resetState (state : StoreState) : StoreState :=
  { state with
    store := { state.store with
      strtab := strtabReset state.store.strtab, extras := [], snapHt := some (indexPids (snapPids snap)) } }

def agedState (oldStrtab : StrTab) (records : List ProcRecord) (state : StoreState) : StoreState :=
  let aged := (records.mapM' (ageRecord snap (indexPids (snapPids snap)) oldStrtab now)).run (resetState snap state)
  { aged.2 with store := { aged.2.store with records := aged.1 } }

def SavedFrom (tab oldStrtab : StrTab) : Prop := oldStrtab.buf = tab.buf ∨ (tab.buf.length ≤ 1 ∧ oldStrtab.buf = [])

variable {state : StoreState}

theorem save_strtab_run (granted : ∀ request, state.heap.grant request) :
    ∃ oldStrtab saved, saveStrtab.run state = (some oldStrtab, saved) ∧ SavedFrom state.store.strtab oldStrtab ∧
    saved.store = state.store ∧ saved.heap.grant = state.heap.grant ∧ saved.refused = state.refused := by
  by_cases long : state.store.strtab.buf.length > 1
  · refine ⟨{ state.store.strtab with cap := state.store.strtab.buf.length },
      { state with heap := { state.heap with asked := state.heap.asked + 1 } }, ?_, .inl rfl, rfl, rfl, rfl⟩
    simp [saveStrtab, current, alloc, long, granted]
  · refine ⟨{}, state, ?_, .inr ⟨by omega, rfl⟩, rfl, rfl, rfl⟩
    simp [saveStrtab, current, long]

theorem update_run (indexed : Indexed state) :
    ∃ oldStrtab saved, SavedFrom state.store.strtab oldStrtab ∧ saved.store = state.store ∧
    saved.heap.grant = state.heap.grant ∧ saved.refused = state.refused ∧ ((procStoreUpdate snap now).run state).2 =
    (compact.run ((appendNew snap snap.entries).run (agedState snap now oldStrtab state.store.records saved)).2).2 := by
  obtain ⟨oldStrtab, saved, run, from_, store, grant, refused⟩ := save_strtab_run indexed.granted
  refine ⟨oldStrtab, saved, from_, store, grant, refused, ?_⟩
  have opened : ¬ (state.store.ht.isNone ∨ state.store.snapHt.isNone) := by
    have held := indexed.snapHt
    rw [indexed.ht]
    simp [Option.isNone_iff_eq_none, Option.isSome_iff_ne_none.mp held]
  unfold procStoreUpdate current
  rw [run_inspect_bind, if_neg opened, run_bind, run]
  rfl

end

section

variable (snap : ProcSnapshot) (now : Int)

def listed (pid : Int32) : Bool := (htFind (indexPids (snapPids snap)) pid).isSome

def agedMarks (marks : List Mark) : List Mark := marks.map fun mark => mark.aged (listed snap mark.pid) now

def updatedMarks (marks : List Mark) : List Mark :=
  (agedMarks snap now marks ++ (fresh (marks.map Mark.pid) (snapPids snap)).map Mark.born).filter
    fun mark : Mark => decide (mark.status ≠ .killed)

theorem aged_marks_pids (marks : List Mark) : (agedMarks snap now marks).map Mark.pid = marks.map Mark.pid := by
  simp [agedMarks, aged_pid, Function.comp_def]

theorem aged_state_marks (oldStrtab : StrTab) {state saved : StoreState} (indexed : Indexed state)
    (store : saved.store = state.store) (grant : saved.heap.grant = state.heap.grant) :
    Indexed (agedState snap now oldStrtab state.store.records saved) ∧
    (agedState snap now oldStrtab state.store.records saved).store.pids = state.store.pids ∧
    (agedState snap now oldStrtab state.store.records saved).store.marks = agedMarks snap now state.store.marks := by
  have framed := keeps_map_m (age_record_framed snap (resetState snap saved) (indexPids (snapPids snap)) oldStrtab now)
    state.store.records (resetState snap saved) (framed_refl _)
  have marks : (agedState snap now oldStrtab state.store.records saved).store.marks =
      agedMarks snap now state.store.marks := by
    have results := map_m_results (age_record_mark snap oldStrtab now) state.store.records (resetState snap saved)
    simp only [source_of_isSome] at results
    rw [agedMarks, ProcStore.marks, ProcStore.marks, map_map]
    exact results
  have pids : (agedState snap now oldStrtab state.store.records saved).store.pids = state.store.pids := by
    rw [pids_marks, marks, aged_marks_pids, ← pids_marks]
  refine ⟨⟨?_, ?_, fun request => ?_⟩, pids, marks⟩
  · have opened : saved.store.ht = state.store.ht := by rw [store]
    rw [pids, ← indexed.ht]
    exact framed.ht.trans opened
  · exact (congrArg Option.isSome framed.snapHt).trans rfl
  · have same : (agedState snap now oldStrtab state.store.records saved).heap.grant = saved.heap.grant := framed.grant
    rw [same, grant]
    exact indexed.granted request

theorem filter_marks (records : List ProcRecord) :
    (records.filter fun rec => decide (rec.status ≠ .killed)).map ProcRecord.mark =
    (records.map ProcRecord.mark).filter fun mark => decide (mark.status ≠ .killed) := by
  rw [filter_map]
  rfl

theorem update_marks (state : StoreState) (indexed : Indexed state)
    (distinct : (state.store.pids.take storeHtSize).Nodup) : ((procStoreUpdate snap now).run state).2.store.ht =
    some (indexPids ((procStoreUpdate snap now).run state).2.store.pids) ∧
    ((procStoreUpdate snap now).run state).2.store.snapHt.isSome ∧
    ((procStoreUpdate snap now).run state).2.store.marks = updatedMarks snap now state.store.marks := by
  obtain ⟨oldStrtab, saved, -, store, grant, -, run⟩ := update_run snap now indexed
  obtain ⟨aged, pids, marks⟩ := aged_state_marks snap now oldStrtab indexed store grant
  obtain ⟨appended, grown⟩ := append_new_marks snap snap.entries aged (by rwa [pids])
  obtain ⟨records, ht, snapHt, -, -⟩ := compact_run _ appended.ht
  rw [run]
  refine ⟨ht, snapHt ▸ appended.snapHt, ?_⟩
  rw [ProcStore.marks, records, filter_marks, ← ProcStore.marks, grown, marks, pids, updatedMarks, ← pids_marks]
  rfl

end

section

variable (snap : ProcSnapshot) (now : Int)

def Kept (oldStrtab : StrTab) (rec after : ProcRecord) (store : ProcStore) : Prop :=
  match sourceOf snap rec.pid with
  | some src => Copied src snap after.entry store
  | none => Carries after.entry rec.entry (texts oldStrtab rec.entry) store

def Refreshed (oldStrtab : StrTab) (rec after : ProcRecord) (store : ProcStore) : Prop :=
  after.mark = rec.mark.aged (listed snap rec.pid) now ∧
    (rec.status ≠ .killed → Kept snap oldStrtab rec after store)

variable (oldStrtab : StrTab) (rec : ProcRecord) (records : List ProcRecord) (after : ProcRecord)

theorem kept_stable : Stable Later fun state => Kept snap oldStrtab rec after state.store := by
  intro state grown later kept
  unfold Kept at kept ⊢
  cases found : sourceOf snap rec.pid with
  | none =>
    rw [found] at kept
    exact carries_stable _ _ state grown later kept
  | some src =>
    rw [found] at kept
    exact copied_stable _ _ _ state grown later kept

theorem refreshed_stable :
    Stable Later fun state => Refreshed snap now oldStrtab rec after state.store := fun state grown later refreshed =>
  ⟨refreshed.1, fun alive => kept_stable snap oldStrtab rec after state grown later (refreshed.2 alive)⟩

theorem aged_record_entry (entry : ProcEntry) : (agedRecord now rec entry).entry = entry := by
  cases status : rec.status <;> simp [agedRecord, status]

theorem age_record_kept : Grows Refused Ready Later (ageRecord snap (indexPids (snapPids snap)) oldStrtab now rec)
    fun after state => rec.status ≠ .killed → Kept snap oldStrtab rec after state.store := by
  unfold ageRecord
  by_cases killed : rec.status = .killed
  · rw [if_pos killed]
    exact grows_pure later_growth rec fun _ _ alive => absurd killed alive
  · rw [if_neg killed]
    change Grows _ _ _ (match sourceOf snap rec.pid with | some src => _ | none => _) _
    unfold Kept
    cases sourceOf snap rec.pid with
    | none =>
      apply grows_bind later_growth (fun entry => carries_stable entry _) (re_push_grows rec.entry oldStrtab)
      intro entry
      apply grows_pure later_growth
      intro state _ carries _
      rw [aged_record_entry]
      exact ⟨carries.plain, carries.strings⟩
    | some src =>
      apply grows_bind later_growth (fun entry => copied_stable src snap entry) (store_copy_grows src snap)
      intro entry
      exact grows_pure later_growth _ fun _ _ copied _ => copied

theorem age_record_grows : Grows Refused Ready Later (ageRecord snap (indexPids (snapPids snap)) oldStrtab now rec)
    fun after state => Refreshed snap now oldStrtab rec after state.store := by
  refine grows_result (fun after : ProcRecord => after.mark = rec.mark.aged (listed snap rec.pid) now) ?_
    (age_record_kept snap now oldStrtab rec)
  intro state
  rw [age_record_mark, source_of_isSome]
  rfl

def Furnished (oldStrtab : StrTab) (records : List ProcRecord) (after : ProcRecord) (store : ProcStore) : Prop :=
  (∃ rec ∈ records, Refreshed snap now oldStrtab rec after store) ∨
    ∃ src ∈ snap.entries, after.mark = .born src.pid ∧ Copied src snap after.entry store

theorem furnished_stable : Stable Later fun state => Furnished snap now oldStrtab records after state.store := by
  intro state grown later furnished
  rcases furnished with ⟨rec, mem, refreshed⟩ | ⟨src, mem, born, copied⟩
  · exact .inl ⟨rec, mem, refreshed_stable snap now oldStrtab rec after state grown later refreshed⟩
  · exact .inr ⟨src, mem, born, copied_stable src snap after.entry state grown later copied⟩

theorem grow_records_tables (state : StoreState) : SameTables state (growRecords.run state).2 := by
  by_cases full : state.store.records.length ≥ state.store.capacity
  · by_cases granted : state.heap.grant state.heap.asked
    · constructor <;> simp [growRecords, current, alloc, changeStore, full, granted]
    · constructor <;> simp [growRecords, current, alloc, full, granted]
  · constructor <;> simp [growRecords, current, full]

theorem ready_of_same {state after} (same : SameTables state after) (ready : Ready state) : Later state after :=
  ⟨ready, ⟨same.strtab ▸ ready.terminated, same.extras ▸ ready.few⟩, same.strtab ▸ extends_refl _,
    same.extras ▸ prefix_refl _⟩

def Supplied (oldStrtab : StrTab) (records : List ProcRecord) (state : StoreState) : Prop :=
  Refused state ∨ (Ready state ∧ ∀ after ∈ state.store.records, Furnished snap now oldStrtab records after state.store)

theorem supplied_later {state after}
    (sticky : Refused state → Refused after) (later : Ready state → ¬ Refused after → Later state after)
    (same : after.store.records = state.store.records) (supplied : Supplied snap now oldStrtab records state) :
    Supplied snap now oldStrtab records after := by
  rcases supplied with lost | ⟨ready, furnished⟩
  · exact .inl (sticky lost)
  · by_cases lost : Refused after
    · exact .inl lost
    · have grown := later ready lost
      refine .inr ⟨grown.ready, fun rec mem => ?_⟩
      exact furnished_stable snap now oldStrtab records rec state after grown (furnished rec (same ▸ mem))

theorem append_entry_supplied {src : ProcEntry}
    (listed : src ∈ snap.entries) : Keeps (Supplied snap now oldStrtab records) (appendEntry snap src) := by
  unfold appendEntry
  apply keeps_bind
  · intro state supplied
    have same := grow_records_tables state
    exact supplied_later snap now oldStrtab records same.kept (fun ready _ => ready_of_same same ready)
      same.records supplied
  · intro room
    refine keeps_ite ?_ (keeps_pure _)
    intro state supplied
    have grows := store_copy_grows src snap
    have framed := store_copy_framed state src snap state (framed_refl state)
    have copied := supplied_later snap now oldStrtab records (grows.sticky state)
      (fun ready sound => (grows.grows state ready sound).1) framed.records supplied
    rw [run_bind]
    rcases copied with lost | ⟨ready, furnished⟩
    · exact .inl lost
    · by_cases lost : Refused ((storeCopyEntry src snap).run state).2
      · exact .inl lost
      · have begun : Ready state := by
          rcases supplied with gone | ⟨begun, -⟩
          · exact absurd (grows.sticky state gone) lost
          · exact begun
        have entry := (grows.grows state begun lost).2
        -- The record is added to the list; both tables stay as the copy has left them.
        have still (records : List ProcRecord) (ht : Option Ht) : Later ((storeCopyEntry src snap).run state).2
              { ((storeCopyEntry src snap).run state).2 with
                store := { ((storeCopyEntry src snap).run state).2.store with records, ht } } :=
          ⟨ready, ⟨ready.terminated, ready.few⟩, extends_refl _, prefix_refl _⟩
        refine .inr ⟨⟨ready.terminated, ready.few⟩, fun rec mem => ?_⟩
        rcases mem_append.mp mem with old | _ | ⟨_, ⟨⟩⟩
        · exact furnished_stable snap now oldStrtab records rec _ _ (still _ _) (furnished rec old)
        · refine .inr ⟨src, listed, ?_, copied_stable src snap _ _ _ (still _ _) entry⟩
          simp only [ProcRecord.mark, ProcRecord.pid, store_copy_pid, Mark.born]

theorem append_new_supplied : Keeps (Supplied snap now oldStrtab records) (appendNew snap snap.entries) := by
  apply keeps_for_m_mem
  intro src listed
  unfold appendMissing current
  intro state supplied
  rw [run_inspect_bind]
  exact keeps_ite (keeps_pure _) (append_entry_supplied snap now oldStrtab records listed) state supplied

theorem aged_state_supplied (saved : StoreState)
    (ready : Ready saved) : Supplied snap now oldStrtab records (agedState snap now oldStrtab records saved) := by
  have grows := grows_map_m later_growth (refreshed_stable snap now oldStrtab) records
    fun rec _ => age_record_grows snap now oldStrtab rec
  have reset : Ready (resetState snap saved) := by
    have nonempty : saved.store.strtab.buf ≠ [] := by
      intro empty
      have terminated := ready.terminated
      rw [Terminated, empty] at terminated
      cases terminated
    refine ⟨?_, Nat.zero_le _⟩
    simp only [resetState, strtabReset, if_neg nonempty]
    rfl
  by_cases lost : Refused (agedState snap now oldStrtab records saved)
  · exact .inl lost
  · obtain ⟨later, aged⟩ := grows.grows (resetState snap saved) reset lost
    refine .inr ⟨⟨later.ready.terminated, later.ready.few⟩, fun after mem => .inl ?_⟩
    obtain ⟨rec, held, refreshed⟩ := aged after mem
    have still : Later _ (agedState snap now oldStrtab records saved) :=
      ⟨later.ready, ⟨later.ready.terminated, later.ready.few⟩, extends_refl _, prefix_refl _⟩
    exact ⟨rec, held, refreshed_stable snap now oldStrtab rec after _ _ still refreshed⟩

theorem alloc_sticky : Keeps Refused alloc := fun state lost => by
  simp only [Refused] at lost
  simp [Refused, alloc, lost]

theorem compact_sticky : Keeps Refused compact := by
  unfold compact current
  intro state
  rw [run_inspect_bind]
  refine keeps_ite ?_ (keeps_pure _) state
  refine keeps_bind (fun _ lost => lost) fun _ => ?_
  unfold shrinkRecords current
  intro state
  rw [run_inspect_bind]
  refine keeps_ite (keeps_bind alloc_sticky fun granted => ?_) (keeps_pure _) state
  exact keeps_ite (fun _ lost => lost) (keeps_pure _)

theorem update_contents (state : StoreState) (indexed : Indexed state) (ready : Ready state)
    (distinct : (state.store.pids.take storeHtSize).Nodup)
    (sound : ((procStoreUpdate snap now).run state).2.refused = false) :
    Ready ((procStoreUpdate snap now).run state).2 ∧ ∃ oldStrtab, SavedFrom state.store.strtab oldStrtab ∧
    ∀ after ∈ ((procStoreUpdate snap now).run state).2.store.records, after.status ≠ .killed ∧
    Furnished snap now oldStrtab state.store.records after ((procStoreUpdate snap now).run state).2.store := by
  obtain ⟨oldStrtab, saved, copied, store, grant, -, run⟩ := update_run snap now indexed
  obtain ⟨aged, pids, -⟩ := aged_state_marks snap now oldStrtab indexed store grant
  obtain ⟨appended, -⟩ := append_new_marks snap snap.entries aged (by rwa [pids])
  obtain ⟨records, -, -, strtab, extras⟩ := compact_run _ appended.ht
  have supplied := append_new_supplied snap now oldStrtab state.store.records _
    (aged_state_supplied snap now oldStrtab state.store.records saved ⟨store ▸ ready.terminated, store ▸ ready.few⟩)
  rw [run] at sound ⊢
  generalize ((appendNew snap snap.entries).run _).2 = grown at *
  rcases supplied with lost | ⟨prepared, furnished⟩
  · have gone := compact_sticky _ lost
    rw [Refused, sound] at gone
    cases gone
  · have still : Later grown (compact.run grown).2 :=
      ⟨prepared, ⟨strtab ▸ prepared.terminated, extras ▸ prepared.few⟩, strtab ▸ extends_refl _, extras ▸ prefix_refl _⟩
    refine ⟨still.ready, oldStrtab, copied, fun after mem => ?_⟩
    rw [records, mem_filter, decide_eq_true_eq] at mem
    exact ⟨mem.2, furnished_stable snap now oldStrtab _ after _ _ still (furnished after mem.1)⟩

end

end Evemon.Store
