import Evemon.TreeUpdate

-- Under which row a new row is put.
namespace Evemon.ProcTree

open AncestorStack (Ordered Shallow order)
open Store List Forest Option

section

def UnderParent (first : Nat) (rows : Forest Row) : Prop :=
  ∀ row ∈ rows.flat, first ≤ row.node → row.cells.ppid ≠ row.pid → ∀ parent ∈ rows.flat, parent.pid = row.cells.ppid →
    ∃ ancestors, (parent :: ancestors, row) ∈ rows.paths []

structure Lookup (batch : Batch) (placing : Placing) (tree : Tree) (barred : ProcEntry → Prop) : Prop where
  found : ∀ placed idx e node, placing.parent placed idx e = some node →
    (∃ row ∈ tree.rows.flat, row.node = node ∧ row.pid = e.ppid) ∨
      ∃ entry ∈ placed, entry.2 = node ∧ batch.pidAt entry.1 = some e.ppid
  missed : ∀ placed idx e, (∀ entry ∈ placed, (batch.key entry.1).isSome = true) → batch.key idx = some e.pid →
    e.ppid ≠ e.pid → (placing.parent placed idx e = none ↔
      barred e ∨ (e.ppid ∉ tree.rows.flat.map Row.pid ∧ e.ppid ∉ batch.donePids placed))

variable {store : ProcStore} (batch : Batch) {placing : Placing} (tree : Tree) (barred : ProcEntry → Prop)
  (inserting : Inserting store batch placing tree) (clean : Clean tree) (lookup : Lookup batch placing tree barred)

-- Entry by entry: if the parent has a row in the end, it had one when the entry was placed.
def Timely (placed : List (Nat × Nat)) : Prop :=
  ∀ before idx node after e, placed = before ++ (idx, node) :: after → batch.entries[idx]? = some e → e.ppid ≠ e.pid →
    (e.ppid ∈ tree.rows.flat.map Row.pid ∨ e.ppid ∈ batch.keys) →
      ¬ barred e ∧ (e.ppid ∈ tree.rows.flat.map Row.pid ∨ e.ppid ∈ batch.donePids before)

include inserting clean lookup

omit lookup in
theorem placed_row (node : Nat) (pid : Int32) (there : (∃ row ∈ tree.rows.flat, row.node = node ∧ row.pid = pid) ∨
    ∃ entry ∈ (insertAll batch placing tree).placed, entry.2 = node ∧ batch.pidAt entry.1 = some pid) :
    ∃ row ∈ (insertAll batch placing tree).tree.rows.flat, row.node = node ∧ row.pid = pid := by
  have rows := insert_all_rows inserting clean
  obtain ⟨row, mem, same⟩ | ⟨entry, mem, rfl, keyed⟩ := there
  · exact ⟨row, rows.mem_iff.mpr (mem_append_left _ mem), same⟩
  · obtain ⟨e, found, rfl⟩ := map_eq_some_iff.mp keyed
    refine ⟨placing.row e entry.2, ?_, inserting.places.node e entry.2, by rw [Row.pid, inserting.cells]; rfl⟩
    apply rows.mem_iff.mpr
    apply mem_append_right
    exact mem_filterMap.mpr ⟨entry, mem, by rw [found]; rfl⟩

theorem under_parent_timely (under : UnderParent tree.next (insertAll batch placing tree).tree.rows) :
    Timely batch tree barred (insertAll batch placing tree).placed := by
  have grown := insert_all_grown batch placing tree inserting.places inserting.indexed clean.sound
  have after := insert_all_clean inserting clean
  intro before idx node rest e shape entry different present
  have mem : (idx, node) ∈ (insertAll batch placing tree).placed := by
    rw [shape]
    exact mem_append_right _ mem_cons_self
  obtain ⟨pid, keyed⟩ := isSome_iff_exists.mp (grown.keyed (idx, node) mem)
  obtain ⟨_, other, found, rfl⟩ := key_entry keyed
  rw [entry] at found
  cases found
  have front : ∀ entry ∈ before, (batch.key entry.1).isSome := fun entry listed =>
    grown.keyed entry (by rw [shape]; exact mem_append_left _ listed)
  by_contra late
  have barredOrLate : barred e ∨ (e.ppid ∉ tree.rows.flat.map Row.pid ∧ e.ppid ∉ batch.donePids before) := by
    by_cases bar : barred e
    · exact .inl bar
    · refine .inr ⟨fun old => late ⟨bar, .inl old⟩, fun done => late ⟨bar, .inr done⟩⟩
  have root := (lookup.missed before idx e front keyed different).mpr barredOrLate
  have hangs := grown.hangs before idx node rest e shape entry
  rw [root] at hangs
  have cells := inserting.cells e node
  have parentPid : e.ppid ∈ (insertAll batch placing tree).tree.rows.flat.map Row.pid := by
    rw [(insert_all_pids inserting clean).mem_iff, mem_append, done_keys inserting]
    exact present
  obtain ⟨parent, listed, same⟩ := mem_map.mp parentPid
  have here := flat_of_path _ _ _ _ hangs
  obtain ⟨ancestors, path⟩ := under (placing.row e node) here
    (by rw [inserting.places.node]; exact grown.later (idx, node) mem)
    (by rw [Row.pid, cells]; exact different) parent listed (by rw [cells]; exact same)
  have distinct : (insertAll batch placing tree).tree.rows.flat.Nodup := List.Nodup.of_map _ after.once
  cases path_unique _ distinct [] _ _ hangs path

theorem timely_under_parent (timely : Timely batch tree barred (insertAll batch placing tree).placed) :
    UnderParent tree.next (insertAll batch placing tree).tree.rows := by
  have grown := insert_all_grown batch placing tree inserting.places inserting.indexed clean.sound
  have after := insert_all_clean inserting clean
  intro row mem new different parent listed same
  obtain old | made := mem_append.mp (grown.rows.mem_iff.mp mem)
  · exact absurd (clean.sound.below row old) (Nat.not_lt.mpr new)
  obtain ⟨⟨idx, node⟩, placed, chosen⟩ := mem_filterMap.mp made
  obtain ⟨e, entry, rfl⟩ := map_eq_some_iff.mp chosen
  have cells := inserting.cells e node
  rw [Row.pid, cells] at different
  rw [cells] at same
  obtain ⟨before, rest, shape⟩ := append_of_mem placed
  have present : e.ppid ∈ tree.rows.flat.map Row.pid ∨ e.ppid ∈ batch.keys := by
    have pids := mem_map_of_mem (f := Row.pid) listed
    rw [(insert_all_pids inserting clean).mem_iff, mem_append, done_keys inserting, same] at pids
    exact pids
  have front : ∀ entry ∈ before, (batch.key entry.1).isSome := fun entry held =>
    grown.keyed entry (by rw [shape]; exact mem_append_left _ held)
  obtain ⟨pid, keyed⟩ := isSome_iff_exists.mp (grown.keyed (idx, node) placed)
  obtain ⟨_, other, found, rfl⟩ := key_entry keyed
  rw [entry] at found
  cases found
  obtain ⟨unbarred, early⟩ := timely before idx node rest e shape entry different present
  have hangs := grown.hangs before idx node rest e shape entry
  cases above : placing.parent before idx e with
  | none =>
    obtain bar | ⟨notOld, notDone⟩ := (lookup.missed before idx e front keyed different).mp above
    · exact absurd bar unbarred
    · exact (early.elim notOld notDone).elim
  | some up =>
    rw [above] at hangs
    obtain ⟨held, ancestors, heldNode, path⟩ := hangs
    have heldListed : held ∈ (insertAll batch placing tree).tree.rows.flat :=
      (ancestors_flat _ _ _ _ path held mem_cons_self).resolve_left not_mem_nil
    have meant : ∃ row ∈ (insertAll batch placing tree).tree.rows.flat, row.node = up ∧ row.pid = e.ppid := by
      apply placed_row batch tree inserting clean
      cases lookup.found before idx e up above with
      | inl standing => exact .inl standing
      | inr new =>
        obtain ⟨entry, early, there⟩ := new
        exact .inr ⟨entry, by rw [shape]; exact mem_append_left _ early, there⟩
    obtain ⟨row, rowListed, rowNode, rowPid⟩ := meant
    have heldRow : held = row :=
      inj_on_of_nodup_map grown.sound.distinct heldListed rowListed (heldNode.trans rowNode.symm)
    have heldPid : held.pid = e.ppid := by rw [heldRow, rowPid]
    have equal : held = parent := inj_on_of_nodup_map after.once heldListed listed (heldPid.trans same.symm)
    rw [equal] at path
    exact ⟨ancestors, path⟩

def Unbarred : Prop :=
  ∀ idx e, batch.entries[idx]? = some e → batch.key idx = some e.pid → e.ppid ≠ e.pid →
    (e.ppid ∈ tree.rows.flat.map Row.pid ∨ e.ppid ∈ batch.keys) → ¬ barred e

omit inserting clean lookup in
theorem done_pids_split {before after : List (Nat × Nat)} (idx node : Nat) {pid}
    (keyed : batch.key idx = some pid) :
    batch.donePids (before ++ (idx, node) :: after) = batch.donePids before ++ pid :: batch.donePids after := by
  simp [Batch.donePids, keyed]

omit clean lookup in
theorem timely_ordered (timely : Timely batch tree barred (insertAll batch placing tree).placed) :
    Ordered batch.up (batch.donePids (insertAll batch placing tree).placed) := by
  intro before pid after shape up above
  obtain ⟨front, back, split, frontDone, backDone⟩ := filterMap_eq_append_iff.mp shape
  obtain ⟨skipped, ⟨idx, node⟩, rest, backSplit, none, keyed, _⟩ := filterMap_eq_cons_iff.mp backDone
  obtain ⟨_, e, entry, rfl⟩ := key_entry keyed
  rw [up_of_entry inserting.indexed keyed entry] at above
  split at above
  · rename_i both
    cases above
    obtain ⟨pidx, found⟩ := isSome_iff_exists.mp both.2
    have known : e.ppid ∈ batch.keys :=
      (mem_keys batch _).mpr ⟨pidx, (key_of_find inserting.indexed _ pidx).mp found⟩
    have whole : (insertAll batch placing tree).placed = (front ++ skipped) ++ (idx, node) :: rest := by
      rw [split, backSplit, append_assoc]
    obtain ⟨_, old | done⟩ := timely _ idx node rest e whole entry both.1 (.inr known)
    · exact absurd old (inserting.fresh e.ppid known)
    · rw [Batch.donePids, filterMap_append, filterMap_eq_nil_iff.mpr none, append_nil] at done
      rw [← frontDone]
      exact done
  · cases above

omit clean lookup in
theorem ordered_timely (grown : Grown batch placing tree (insertAll batch placing tree))
    (unbarred : Unbarred batch tree barred) (ordered : Ordered batch.up (batch.donePids (insertAll batch placing tree).placed)) :
    Timely batch tree barred (insertAll batch placing tree).placed := by
  intro before idx node after e shape entry different present
  have placed : (idx, node) ∈ (insertAll batch placing tree).placed := by
    rw [shape]
    exact mem_append_right _ mem_cons_self
  obtain ⟨pid, keyed⟩ := isSome_iff_exists.mp (grown.keyed (idx, node) placed)
  obtain ⟨_, other, found, rfl⟩ := key_entry keyed
  rw [entry] at found
  cases found
  refine ⟨unbarred idx e entry keyed different present, present.imp id fun known => ?_⟩
  obtain ⟨pidx, parentKey⟩ := (mem_keys batch _).mp known
  have parentFound := (key_of_find inserting.indexed e.ppid pidx).mpr parentKey
  apply ordered (batch.donePids before) e.pid (batch.donePids after)
  · rw [shape]
    exact done_pids_split batch idx node keyed
  · rw [up_of_entry inserting.indexed keyed entry, parentFound, if_pos ⟨different, rfl⟩]

theorem under_parent_iff : UnderParent tree.next (insertAll batch placing tree).tree.rows ↔
    Unbarred batch tree barred ∧ Shallow batch.up stackSize batch.keys := by
  have grown := insert_all_grown batch placing tree inserting.places inserting.indexed clean.sound
  rw [← @AncestorStack.ordered_iff _ _ batch.up stackSize (Nat.succ_pos _), ← insert_all_done batch placing inserting.indexed tree]
  constructor
  · intro under
    have timely := @under_parent_timely store batch placing tree barred inserting clean lookup under
    refine ⟨fun idx e entry keyed different present => ?_,
      @timely_ordered store batch placing tree barred inserting timely⟩
    have done := (@done_keys store batch placing tree inserting e.pid).mpr ((mem_keys batch _).mpr ⟨idx, keyed⟩)
    obtain ⟨⟨other, node⟩, mem, otherKeyed⟩ := mem_filterMap.mp done
    have same := @key_injective batch inserting.indexed other idx e.pid otherKeyed keyed
    obtain ⟨before, rest, shape⟩ := append_of_mem mem
    exact (timely before other node rest e shape (by rw [same]; exact entry) different present).1
  · intro ⟨unbarred, ordered⟩
    apply @timely_under_parent store batch placing tree barred inserting clean lookup
    exact @ordered_timely store batch placing tree barred inserting grown unbarred ordered

end

section

def parentIn (entries : List ProcEntry) (pid : Int32) : Option Int32 :=
  (entries.find? fun e => e.pid = pid).bind fun e =>
    if e.ppid ≠ pid ∧ e.ppid ∈ entries.map ProcEntry.pid then some e.ppid else none

-- Who has a 64th ancestor on the list is not the first on the list to have it as an ancestor.
def StackSuffices (entries : List ProcEntry) : Prop :=
  Shallow (parentIn entries) stackSize (entries.map ProcEntry.pid)

theorem up_parent_in {batch : Batch} (indexed : batch.Indexed) {entries : List ProcEntry}
    (keys : batch.keys = entries.map ProcEntry.pid) (distinct : (entries.map ProcEntry.pid).Nodup)
    (listed : ∀ idx e, batch.entries[idx]? = some e → batch.key idx = some e.pid → e ∈ entries) :
    batch.up = parentIn entries := by
  funext pid
  have known (other : Int32) : (htFind batch.ht other).isSome ↔ other ∈ entries.map ProcEntry.pid := by
    rw [← keys, mem_keys, isSome_iff_exists]
    exact exists_congr fun idx => key_of_find indexed other idx
  rw [Batch.up, parentIn]
  cases found : htFind batch.ht pid with
  | none =>
    have missing : entries.find? (fun e => e.pid = pid) = none := by
      rw [List.find?_eq_none]
      intro e mem same
      have present := (known pid).mpr (mem_map.mpr ⟨e, mem, of_decide_eq_true same⟩)
      rw [found] at present
      cases present
    rw [missing]
    rfl
  | some idx =>
    have keyed := (key_of_find indexed pid idx).mp found
    obtain ⟨_, e, entry, rfl⟩ := key_entry keyed
    have mem := listed idx e entry keyed
    have search : entries.find? (fun other => other.pid = e.pid) = some e := by
      have hits : (entries.find? fun other => other.pid = e.pid).isSome :=
        List.find?_isSome.mpr ⟨e, mem, decide_eq_true rfl⟩
      obtain ⟨other, hit⟩ := isSome_iff_exists.mp hits
      have same : other.pid = e.pid := by simpa using List.find?_some hit
      rw [inj_on_of_nodup_map distinct (mem_of_find?_eq_some hit) mem same] at hit
      exact hit
    rw [search, bind_some, bind_some, entry, bind_some]
    simp only [known]

variable (store : ProcStore) (around : Surroundings) (firstUpdate : Bool) (tree : Tree)

def standing (store : ProcStore) (rows : Forest Row) : List Int32 :=
  (rows.prune fun row => if live store row.pid then some row.pid else none).flat

def newcomers (store : ProcStore) (rows : Forest Row) : List ProcEntry :=
  (store.records.filter fun rec => decide (rec.status = .alive) && decide (rec.pid ∉ standing store rows)).map ProcRecord.entry

def present (store : ProcStore) : List ProcEntry :=
  (store.records.filter fun rec => decide (rec.status ≠ .killed)).map ProcRecord.entry

variable (sound : StoreSound store) (clean : Clean tree)

include sound

theorem updated_standing : (tree.updated store around).rows.flat.map Row.pid = standing store tree.rows := by
  change ((tree.rows.prune (updateOrRemove store around)).flat.map Row.pid) = _
  rw [flat_prune_map, standing]
  congr 2
  funext row
  rw [← update_or_remove_isSome store around row]
  cases kept : updateOrRemove store around row with
  | none => rfl
  | some after => simp [(update_or_remove_kept store around sound kept).pid]

include clean

theorem fresh_newcomers : freshOf store around tree = newcomers store tree.rows := by
  have once := (updated_clean store around sound clean).once
  have small := updated_small store around sound clean
  rw [freshOf, freshEntries, newcomers, existing_pids]
  congr 1
  apply filter_congr
  intro rec _
  have missing := index_misses once small rec.pid
  rw [updated_standing store around tree sound] at missing
  rw [updated_standing store around tree sound]
  congr 1
  exact Bool.eq_iff_iff.mpr (missing.trans decide_eq_true_iff.symm)

omit sound clean in
theorem update_lookup : Lookup (updateBatch (freshOf store around tree))
    (updatePlacing store around firstUpdate (existingIters store around tree) (freshOf store around tree))
    (tree.updated store around) (fun e => e.ppid ≤ 0) := by
  constructor
  · intro placed idx e node found
    change findParentIter _ _ _ = some node at found
    unfold findParentIter at found
    split at found
    · cases found
    · obtain ⟨entry, search, rfl⟩ := map_eq_some_iff.mp found
      have same : entry.1 = e.ppid := by simpa using List.find?_some search
      obtain old | new := mem_append.mp (mem_of_find?_eq_some search)
      · obtain ⟨row, mem, rfl⟩ := mem_map.mp old
        exact .inl ⟨row, mem, rfl, same⟩
      · obtain ⟨place, mem, made⟩ := mem_filterMap.mp new
        obtain ⟨other, held, rfl⟩ := map_eq_some_iff.mp made
        refine .inr ⟨place, mem, rfl, ?_⟩
        rw [Batch.pidAt, updateBatch, held, map_some]
        exact congrArg some same
  · intro placed idx e _ _ different
    have absent : iterMapFind (iterMap (existingIters store around tree) (freshOf store around tree) placed) e.ppid = none ↔
        e.ppid ∉ (tree.updated store around).rows.flat.map Row.pid ∧
          e.ppid ∉ (updateBatch (freshOf store around tree)).donePids placed := by
      have pids : (iterMap (existingIters store around tree) (freshOf store around tree) placed).map Prod.fst =
          (tree.updated store around).rows.flat.map Row.pid ++ (updateBatch (freshOf store around tree)).donePids placed := by
        rw [iterMap, map_append, existing_pids, map_filterMap]
        congr 1
        apply filterMap_congr
        intro entry _
        rw [Option.map_map]
        rfl
      rw [iterMapFind, map_eq_none_iff, List.find?_eq_none, ← not_or, ← mem_append, ← pids, List.mem_map]
      constructor
      · intro none some
        obtain ⟨entry, mem, same⟩ := some
        exact none entry mem (decide_eq_true same)
      · intro none entry mem same
        exact none ⟨entry, mem, of_decide_eq_true same⟩
    change findParentIter _ _ _ = none ↔ _
    unfold findParentIter
    by_cases low : e.ppid ≤ 0
    · simp [low]
    · simp only [low, different, or_self_iff, if_false, false_or]
      exact absent

omit clean in
theorem populate_lookup (empty : tree.rows = .nil) :
    Lookup (populateBatch store) (populatePlacing store around) tree (fun _ => False) := by
  have indexed := populate_indexed store sound
  constructor
  · intro placed idx e node found
    simp only [populatePlacing] at found
    split at found
    · cases found
    · rename_i pidx parent
      split at found
      · obtain ⟨entry, search, rfl⟩ := map_eq_some_iff.mp found
        have same : entry.1 = pidx := by simpa using List.find?_some search
        refine .inr ⟨entry, mem_of_find?_eq_some search, rfl, ?_⟩
        rw [same]
        exact ((indexed e.ppid pidx).mp parent).1
      · cases found
  · intro placed idx e known keyed different
    rw [empty, false_or]
    simp only [flat_nil, map_nil, not_mem_nil, not_false_eq_true, true_and, populatePlacing]
    cases parent : htFind (liveIndex store.records) e.ppid with
    | none =>
      simp only [true_iff]
      intro done
      obtain ⟨entry, _, other⟩ := mem_filterMap.mp done
      have hit := (key_of_find indexed e.ppid entry.1).mpr other
      change htFind (liveIndex store.records) e.ppid = _ at hit
      rw [parent] at hit
      cases hit
    | some pidx =>
      have parentKey := (key_of_find indexed e.ppid pidx).mp parent
      have other : pidx ≠ idx := by
        intro same
        rw [same, keyed] at parentKey
        exact different (Option.some.inj parentKey).symm
      simp only [ne_eq, other, not_false_eq_true, if_true, map_eq_none_iff, List.find?_eq_none,
        decide_eq_true_eq, Batch.donePids, mem_filterMap, not_exists, not_and]
      constructor
      · intro none entry mem same
        exact none entry mem (key_injective indexed same parentKey)
      · intro none entry mem same
        exact none entry mem (by rw [same]; exact parentKey)

end

section

variable (store : ProcStore) (around : Surroundings) (firstUpdate : Bool) (tree : Tree)

-- The parents that find_parent_iter does not look for have no row.
def ParentsPositive (store : ProcStore) (rows : Forest Row) : Prop :=
  ∀ e ∈ newcomers store rows, e.ppid ≠ e.pid →
    (e.ppid ∈ standing store rows ∨ e.ppid ∈ (newcomers store rows).map ProcEntry.pid) → 0 < e.ppid

theorem update_under_parent (sound : StoreSound store) (clean : Clean tree) :
    UnderParent tree.next (updateStore store around firstUpdate tree).rows ↔
    ParentsPositive store tree.rows ∧ StackSuffices (newcomers store tree.rows) := by
  have fresh := fresh_newcomers store around tree sound clean
  have sub := fresh_pids_sublist store around tree
  have placed := under_parent_iff _ _ _ (update_inserting store around firstUpdate tree sound clean)
    (@updated_clean store around sound tree clean) (update_lookup store around firstUpdate tree)
  have parents := @up_parent_in (updateBatch (freshOf store around tree)) (update_indexed store around tree sound)
    (freshOf store around tree) (update_keys _) (sound.distinct.sublist sub) (fun _ _ entry _ => mem_of_getElem? entry)
  apply placed.trans
  rw [update_keys, parents, fresh]
  apply and_congr_left'
  constructor
  · intro unbarred e mem different there
    obtain ⟨idx, entry⟩ := mem_iff_getElem?.mp mem
    have keyed : (updateBatch (newcomers store tree.rows)).key idx = some e.pid := by
      simp [Batch.key, Batch.pidAt, updateBatch, entry]
    have high := unbarred idx e entry keyed different
    rw [updated_standing store around tree sound, update_keys] at high
    exact Int32.not_le.mp (high there)
  · intro positive idx e entry keyed different there
    rw [updated_standing store around tree sound, update_keys] at there
    exact Int32.not_le.mpr (positive e (mem_of_getElem? entry) different there)

theorem populate_under_parent (sound : StoreSound store) (empty : tree.rows = .nil) :
    UnderParent tree.next (populateStoreInitial store around tree).rows ↔ StackSuffices (present store) := by
  have keys : (populateBatch store).keys = (present store).map ProcEntry.pid := by
    rw [populate_keys, present, List.map_map]
    rfl
  have distinct : ((present store).map ProcEntry.pid).Nodup := by
    rw [← keys, populate_keys]
    exact sound.distinct.sublist (filter_sublist.map _)
  have placed := under_parent_iff _ tree _ (populate_inserting store around sound empty)
    (empty_clean tree empty) (populate_lookup store around tree sound empty)
  have parents := up_parent_in (populate_indexed store sound) keys distinct (fun idx e entry keyed => by
      obtain ⟨rec, found, status, _⟩ := (populate_key store idx e.pid).mp keyed
      change (store.records.map ProcRecord.entry)[idx]? = some e at entry
      rw [List.getElem?_map, found, map_some] at entry
      cases entry
      exact mem_map.mpr ⟨rec, mem_filter.mpr ⟨mem_of_getElem? found, decide_eq_true status⟩, rfl⟩)
  rw [keys, parents] at placed
  exact placed.trans (and_iff_right fun _ _ _ _ _ _ => not_false)

theorem inserted_under_parent (sound : StoreSound store) (clean : Clean tree) :
    (UnderParent tree.next (updateStore store around firstUpdate tree).rows ↔
      ParentsPositive store tree.rows ∧ StackSuffices (newcomers store tree.rows)) ∧
    (UnderParent tree.next (populateStoreInitial store around { tree with rows := .nil }).rows ↔
      StackSuffices (present store)) :=
  ⟨update_under_parent store around firstUpdate tree sound clean,
    populate_under_parent store around { tree with rows := .nil } sound rfl⟩

def storeOf (families : List (Int32 × Int32)) : ProcStore where
  records := families.map fun family => ⟨{ namedRow family.1 with ppid := family.2 }, .alive, 0⟩
  ht := some (indexPids (families.map Prod.fst))
  snapHt := none
  strtab := {}

theorem inserted_under_parent_pair : (UnderParent 0 (updateStore (storeOf [(9, 7), (7, 1)]) {} false {}).rows ↔
    ParentsPositive (storeOf [(9, 7), (7, 1)]) .nil ∧ StackSuffices (newcomers (storeOf [(9, 7), (7, 1)]) .nil)) ∧
    (UnderParent 0 (populateStoreInitial (storeOf [(9, 7), (7, 1)]) {} {}).rows ↔
    StackSuffices (present (storeOf [(9, 7), (7, 1)]))) :=
  inserted_under_parent (storeOf [(9, 7), (7, 1)]) {} false {} ⟨rfl, by decide, by decide⟩ (empty_clean _ rfl)

def chain : List (Int32 × Int32) := (List.range 65).map fun idx => (Int32.ofNat (idx + 1), Int32.ofNat (idx + 2))

theorem long_chain_split :
    let paths := (populateStoreInitial (storeOf chain) {} {}).rows.paths []
    (64, 65) ∈ chain ∧ (∃ path ∈ paths, path.1 = [] ∧ path.2.pid = 64) ∧ ∃ path ∈ paths, path.2.pid = 65 := by
  decide +kernel

end

end Evemon.ProcTree
