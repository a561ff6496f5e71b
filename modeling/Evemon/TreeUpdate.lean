import Evemon.StoreLifecycle
import Evemon.TreeInsert

-- What update_store and populate_store_initial make of a tree.
namespace Evemon.ProcTree

open AncestorStack (order)
open Store List AncestorStack

section

structure StoreSound (store : ProcStore) : Prop where
  ht : store.ht = some (indexPids store.pids)
  distinct : store.pids.Nodup
  small : store.pids.length ≤ storeHtSize

theorem follows_sound {history} {store} (follows : Follows history store) : StoreSound store :=
  ⟨follows.ht, follows.distinct, follows.small⟩

variable {pids : List Int32}

theorem index_finds (distinct : pids.Nodup) (small : pids.length ≤ storeHtSize) (pid : Int32) (idx : Nat) :
    htFind (indexPids pids) pid = some idx ↔ pids[idx]? = some pid := by
  rw [ht_find_iff (distinct.sublist (take_sublist _ _))]
  constructor
  · exact And.right
  · intro found
    exact ⟨Nat.lt_of_lt_of_le (List.getElem?_eq_some_iff.mp found).1 small, found⟩

theorem index_misses (distinct : pids.Nodup) (small : pids.length ≤ storeHtSize) (pid : Int32) :
    (htFind (indexPids pids) pid).isNone ↔ pid ∉ pids := by
  rw [← Option.not_isSome, Bool.not_eq_true', ← Bool.not_eq_true, not_iff_not,
    ht_find_some_iff (distinct.sublist (take_sublist _ _)), take_of_length_le small]

variable {store : ProcStore} (sound : StoreSound store)

include sound

theorem record_of_iff (pid : Int32) (rec : ProcRecord) :
    recordOf store pid = some rec ↔ rec ∈ store.records ∧ rec.pid = pid := by
  rw [recordOf, sound.ht, Option.bind_some, Option.bind_eq_some_iff]
  constructor
  · intro read
    obtain ⟨idx, found, held⟩ := read
    rw [index_finds sound.distinct sound.small, ProcStore.pids, List.getElem?_map, held] at found
    exact ⟨mem_of_getElem? held, Option.some.inj found⟩
  · intro recorded
    obtain ⟨mem, same⟩ := recorded
    obtain ⟨idx, held⟩ := mem_iff_getElem?.mp mem
    refine ⟨idx, ?_, held⟩
    rw [index_finds sound.distinct sound.small, ProcStore.pids, List.getElem?_map, held, Option.map_some, same]

end

section

structure RowKept (store : ProcStore) (row after : Row) : Prop where
  node : after.node = row.node
  pid : after.pid = row.pid
  born : after.born = row.born
  unpinned : after.pinnedRoot = ptreeUnpinned
  record : ∃ rec ∈ store.records, rec.pid = row.pid ∧ rec.status ≠ .killed ∧ after.cells = cellsOf store rec.entry

def live (store : ProcStore) (pid : Int32) : Bool := (recordOf store pid).any fun rec => decide (rec.status ≠ .killed)

variable (store : ProcStore) (around : Surroundings)

theorem update_or_remove_isSome (row : Row) : (updateOrRemove store around row).isSome = live store row.pid := by
  unfold updateOrRemove live
  cases recordOf store row.pid with
  | none => rfl
  | some rec => cases status : rec.status <;> simp [status]

theorem update_or_remove_kept (sound : StoreSound store) {row after}
    (kept : updateOrRemove store around row = some after) : RowKept store row after := by
  unfold updateOrRemove at kept
  cases found : recordOf store row.pid with
  | none =>
    rw [found] at kept
    cases kept
  | some rec =>
    obtain ⟨mem, same⟩ := (record_of_iff sound row.pid rec).mp found
    rw [found] at kept
    cases status : rec.status with
    | killed =>
      simp only [status] at kept
      cases kept
    | dying | alive =>
      simp only [status] at kept
      cases kept
      exact ⟨rfl, same, rfl, rfl, rec, mem, same, by simp [status], rfl⟩

theorem kept_rows (sound : StoreSound store) (rows : Forest Row) :
    ∃ kept : List Row, kept.Sublist rows.flat ∧ List.Forall₂ (RowKept store) kept (updateOrRemoveRows store around rows).flat := by
  obtain ⟨kept, sub, same⟩ := Forest.flat_prune (updateOrRemove store around) rows
  refine ⟨kept, sub, ?_⟩
  unfold updateOrRemoveRows
  generalize (rows.prune (updateOrRemove store around)).flat = left at same
  clear sub
  induction kept generalizing left with
  | nil => cases left with
    | nil => exact .nil
    | cons _ _ => cases same
  | cons row rest ih =>
    cases left with
    | nil => cases same
    | cons after more =>
      rw [map_cons, map_cons, List.cons.injEq] at same
      exact .cons (update_or_remove_kept store around sound same.1.symm) (ih more same.2)

structure Clean (tree : Tree) : Prop where
  sound : tree.Sound
  once : (tree.rows.flat.map Row.pid).Nodup
  unpinned : ∀ row ∈ tree.rows.flat, row.pinnedRoot = ptreeUnpinned

def Tree.updated (tree : Tree) (store : ProcStore) (around : Surroundings) : Tree :=
  { tree with rows := updateOrRemoveRows store around tree.rows }

variable {α β : Type} {relates : α → β → Prop} {left : List α} {right : List β}

theorem forall₂_map {γ : Type} {first : α → γ} {second : β → γ}
    (agree : ∀ left right, relates left right → second right = first left) (related : List.Forall₂ relates left right) :
    right.map second = left.map first := by
  have equal : List.Forall₂ (· = ·) (right.map second) (left.map first) := by
    rw [forall₂_map_left_iff, forall₂_map_right_iff]
    exact related.flip.imp fun _ _ held => agree _ _ held
  rwa [forall₂_eq_eq_eq] at equal

theorem forall₂_right (related : List.Forall₂ relates left right) :
    ∀ value ∈ right, ∃ source ∈ left, relates source value := by
  induction related with
  | nil => exact forall_mem_nil _
  | cons head _ ih =>
    intro value mem
    obtain rfl | later := mem_cons.mp mem
    · exact ⟨_, mem_cons_self, head⟩
    · obtain ⟨source, listed, held⟩ := ih value later
      exact ⟨source, mem_cons_of_mem _ listed, held⟩

theorem updated_clean (sound : StoreSound store) {tree} (clean : Clean tree) :
    Clean (tree.updated store around) := by
  obtain ⟨kept, sub, related⟩ := kept_rows store around sound tree.rows
  have back := forall₂_right related
  constructor
  · constructor
    · change ((updateOrRemoveRows store around tree.rows).flat.map Row.node).Nodup
      rw [forall₂_map (fun _ _ held => held.node) related]
      exact clean.sound.distinct.sublist (sub.map _)
    · intro row mem
      obtain ⟨source, listed, held⟩ := back row mem
      rw [held.node]
      exact clean.sound.below source (sub.subset listed)
  · change ((updateOrRemoveRows store around tree.rows).flat.map Row.pid).Nodup
    rw [forall₂_map (fun _ _ held => held.pid) related]
    exact clean.once.sublist (sub.map _)
  · intro row mem
    obtain ⟨_, _, held⟩ := back row mem
    exact held.unpinned

theorem updated_record (sound : StoreSound store) {tree : Tree} {row : Row}
    (mem : row ∈ (tree.updated store around).rows.flat) :
    ∃ rec ∈ store.records, rec.pid = row.pid ∧ rec.status ≠ .killed ∧ row.cells = cellsOf store rec.entry := by
  obtain ⟨kept, _, related⟩ := kept_rows store around sound tree.rows
  obtain ⟨source, _, held⟩ := forall₂_right related row mem
  rw [held.pid]
  exact held.record

theorem updated_small (sound : StoreSound store) {tree} (clean : Clean tree) :
    ((tree.updated store around).rows.flat.map Row.pid).length ≤ storeHtSize := by
  have once := (updated_clean store around sound clean).once
  apply (List.Nodup.subperm once _).length_le.trans sound.small
  intro pid mem
  obtain ⟨row, listed, rfl⟩ := mem_map.mp mem
  obtain ⟨rec, held, same, _⟩ := updated_record store around sound listed
  rw [← same]
  exact mem_map_of_mem held

end

section

structure Inserting (store : ProcStore) (batch : Batch) (placing : Placing) (tree : Tree) : Prop where
  indexed : batch.Indexed
  places : placing.Sound tree
  cells : ∀ e node, (placing.row e node).cells = cellsOf store e
  unpinned : ∀ e node, (placing.row e node).pinnedRoot = ptreeUnpinned
  fresh : ∀ pid ∈ batch.keys, pid ∉ tree.rows.flat.map Row.pid

variable {store : ProcStore} {batch : Batch} {placing : Placing} {tree : Tree}
  (inserting : Inserting store batch placing tree)

include inserting

theorem new_rows_pids {placed : List (Nat × Nat)} (keyed : ∀ entry ∈ placed, (batch.key entry.1).isSome) :
    (newRows batch placing placed).map Row.pid = batch.donePids placed := by
  rw [newRows, map_filterMap, Batch.donePids]
  apply filterMap_congr
  intro entry mem
  obtain ⟨pid, key⟩ := Option.isSome_iff_exists.mp (keyed entry mem)
  obtain ⟨_, e, found, rfl⟩ := key_entry key
  rw [key, found, Option.map_some, Option.map_some, Row.pid, inserting.cells]
  rfl

theorem done_keys (pid : Int32) : pid ∈ batch.donePids (insertAll batch placing tree).placed ↔ pid ∈ batch.keys := by
  rw [insert_all_done batch placing inserting.indexed]
  constructor
  · intro mem
    obtain ⟨first, listed, steps, reached⟩ := order_covered _ _ _ pid mem
    exact ancestor_known batch inserting.indexed first listed reached
  · exact mem_order batch.up stackSize batch.keys (Nat.succ_pos _) pid

variable (clean : Clean tree)

include clean

theorem insert_all_rows : (insertAll batch placing tree).tree.rows.flat.Perm
    (tree.rows.flat ++ newRows batch placing (insertAll batch placing tree).placed) :=
  (insert_all_grown batch placing tree inserting.places inserting.indexed clean.sound).rows

theorem insert_all_pids : ((insertAll batch placing tree).tree.rows.flat.map Row.pid).Perm
    (tree.rows.flat.map Row.pid ++ batch.donePids (insertAll batch placing tree).placed) := by
  have grown := insert_all_grown batch placing tree inserting.places inserting.indexed clean.sound
  have rows := grown.rows.map Row.pid
  rwa [map_append, new_rows_pids inserting grown.keyed] at rows

theorem insert_all_clean : Clean (insertAll batch placing tree).tree := by
  have grown := insert_all_grown batch placing tree inserting.places inserting.indexed clean.sound
  constructor
  · exact grown.sound
  · rw [(insert_all_pids inserting clean).nodup_iff]
    apply clean.once.append
    · rw [insert_all_done batch placing inserting.indexed]
      exact order_nodup _ _ _
    · intro pid old new
      exact inserting.fresh pid ((done_keys inserting pid).mp new) old
  · intro row mem
    obtain old | new := mem_append.mp (grown.rows.mem_iff.mp mem)
    · exact clean.unpinned row old
    · obtain ⟨entry, _, made⟩ := mem_filterMap.mp new
      obtain ⟨e, _, rfl⟩ := Option.map_eq_some_iff.mp made
      exact inserting.unpinned e entry.2

theorem insert_all_entry {idx} {e : ProcEntry} (keyed : batch.key idx = some e.pid)
    (found : batch.entries[idx]? = some e) :
    ∃ row ∈ (insertAll batch placing tree).tree.rows.flat, row.pid = e.pid ∧ row.cells = cellsOf store e := by
  have listed : e.pid ∈ batch.donePids (insertAll batch placing tree).placed :=
    (done_keys inserting e.pid).mpr ((mem_keys batch e.pid).mpr ⟨idx, keyed⟩)
  obtain ⟨entry, mem, key⟩ := mem_filterMap.mp listed
  have same := key_injective inserting.indexed key keyed
  have cells := inserting.cells e entry.2
  refine ⟨placing.row e entry.2, ?_, by rw [Row.pid, cells]; rfl, cells⟩
  apply (insert_all_rows inserting clean).mem_iff.mpr
  apply mem_append_right
  exact mem_filterMap.mpr ⟨entry, mem, by rw [same, found]; rfl⟩

variable (store) (batch) (placing) (tree)

theorem insert_all_origin {row : Row} (mem : row ∈ (insertAll batch placing tree).tree.rows.flat) :
    row ∈ tree.rows.flat ∨ ∃ e ∈ batch.entries, row.cells = cellsOf store e := by
  obtain old | new := mem_append.mp ((insert_all_rows inserting clean).mem_iff.mp mem)
  · exact .inl old
  · obtain ⟨entry, _, made⟩ := mem_filterMap.mp new
    obtain ⟨e, found, rfl⟩ := Option.map_eq_some_iff.mp made
    exact .inr ⟨e, mem_of_getElem? found, inserting.cells e entry.2⟩

end

section

variable (store : ProcStore) (around : Surroundings) (firstUpdate : Bool) (tree : Tree)

def existingIters : IterMap := collectIters (tree.updated store around).rows

def freshOf : List ProcEntry := freshEntries store (existingIters store around tree)

theorem existing_pids : (existingIters store around tree).map Prod.fst =
    (tree.updated store around).rows.flat.map Row.pid := by
  rw [existingIters, collectIters, map_map]
  rfl

theorem filter_map_range {α β : Type} (choose : α → Option β) (list : List α) :
    (List.range list.length).filterMap (fun idx => (list[idx]?).bind choose) = list.filterMap choose := by
  induction list using List.reverseRecOn with
  | nil => rfl
  | append_singleton front last ih =>
    have inside : (List.range front.length).filterMap (fun idx => ((front ++ [last])[idx]?).bind choose) =
        (List.range front.length).filterMap fun idx => (front[idx]?).bind choose := by
      apply filterMap_congr
      intro idx mem
      rw [List.getElem?_append_left (mem_range.mp mem)]
    rw [length_append, length_singleton, range_succ, filterMap_append, filterMap_append, inside, ih]
    simp [filterMap_cons]

theorem update_keys (fresh : List ProcEntry) : (updateBatch fresh).keys = fresh.map ProcEntry.pid := by
  rw [← filterMap_eq_map, ← filter_map_range]
  apply filterMap_congr
  intro idx _
  cases found : fresh[idx]? <;> simp [Batch.key, Batch.pidAt, updateBatch, found]

theorem mem_fresh (e : ProcEntry) (sound : StoreSound store) (clean : Clean tree) : e ∈ freshOf store around tree ↔
    ∃ rec ∈ store.records, rec.status = .alive ∧ rec.entry = e ∧
    e.pid ∉ (tree.updated store around).rows.flat.map Row.pid := by
  have once := (updated_clean store around sound clean).once
  have small := updated_small store around sound clean
  rw [freshOf, freshEntries, mem_map]
  simp only [mem_filter, Bool.and_eq_true, decide_eq_true_eq, existing_pids]
  constructor
  · intro ⟨rec, ⟨mem, alive, missing⟩, same⟩
    rw [index_misses once small] at missing
    exact ⟨rec, mem, alive, same, same ▸ missing⟩
  · intro ⟨rec, mem, alive, same, missing⟩
    refine ⟨rec, ⟨mem, alive, ?_⟩, same⟩
    rw [index_misses once small, ProcRecord.pid, same]
    exact missing

theorem fresh_pids_sublist : ((freshOf store around tree).map ProcEntry.pid).Sublist store.pids := by
  rw [freshOf, freshEntries, map_map]
  exact filter_sublist.map _

variable (sound : StoreSound store) (clean : Clean tree)

include sound

theorem update_indexed : (updateBatch (freshOf store around tree)).Indexed := by
  have sub := fresh_pids_sublist store around tree
  intro pid idx
  rw [updateBatch, index_finds (sound.distinct.sublist sub) (sub.length_le.trans sound.small), List.getElem?_map]
  exact (and_iff_left rfl).symm

omit sound in
theorem update_placing_sound : (updatePlacing store around firstUpdate (existingIters store around tree)
    (freshOf store around tree)).Sound (tree.updated store around) where
  node _ _ := rfl
  parent placed idx e node found := by
    change findParentIter _ _ _ = some node at found
    unfold findParentIter at found
    split at found
    · cases found
    · obtain ⟨entry, search, rfl⟩ := Option.map_eq_some_iff.mp found
      obtain old | new := mem_append.mp (mem_of_find?_eq_some search)
      · obtain ⟨row, mem, rfl⟩ := mem_map.mp old
        exact .inl ⟨row, mem, rfl⟩
      · obtain ⟨place, mem, made⟩ := mem_filterMap.mp new
        obtain ⟨_, _, rfl⟩ := Option.map_eq_some_iff.mp made
        exact .inr (mem_map_of_mem mem)

include clean

theorem update_inserting : Inserting store (updateBatch (freshOf store around tree))
    (updatePlacing store around firstUpdate (existingIters store around tree) (freshOf store around tree))
    (tree.updated store around) where
  indexed := update_indexed store around tree sound
  places := update_placing_sound store around firstUpdate tree
  cells _ _ := rfl
  unpinned _ _ := rfl
  fresh pid mem := by
    rw [update_keys] at mem
    obtain ⟨e, listed, rfl⟩ := mem_map.mp mem
    obtain ⟨_, _, _, _, missing⟩ := (mem_fresh store around tree e sound clean).mp listed
    exact missing

structure TreeShows (store : ProcStore) (rows : Forest Row) : Prop where
  alive : ∀ rec ∈ store.records, rec.status = .alive → ∃ row ∈ rows.flat, row.pid = rec.pid ∧ row.cells = cellsOf store rec.entry
  once : (rows.flat.map Row.pid).Nodup
  known : ∀ row ∈ rows.flat, row.pid ∈ store.pids

theorem update_store_clean : Clean (updateStore store around firstUpdate tree) :=
  insert_all_clean (update_inserting store around firstUpdate tree sound clean)
    (updated_clean store around sound clean)

theorem updated_stays (row : Row) (mem : row ∈ (tree.updated store around).rows.flat) :
    row ∈ (updateStore store around firstUpdate tree).rows.flat := by
  have rows := insert_all_rows (update_inserting store around firstUpdate tree sound clean)
    (updated_clean store around sound clean)
  exact rows.mem_iff.mpr (mem_append_left _ mem)

theorem update_store_data (row : Row) (mem : row ∈ (updateStore store around firstUpdate tree).rows.flat) :
    ∃ rec ∈ store.records, rec.pid = row.pid ∧ row.cells = cellsOf store rec.entry := by
  have inserting := update_inserting store around firstUpdate tree sound clean
  obtain old | ⟨e, listed, cells⟩ := insert_all_origin store _ _ _ inserting (updated_clean store around sound clean) mem
  · obtain ⟨rec, held, same, _, cells⟩ := updated_record store around sound old
    exact ⟨rec, held, same, cells⟩
  · obtain ⟨rec, held, _, rfl, _⟩ := (mem_fresh store around tree e sound clean).mp listed
    exact ⟨rec, held, by rw [Row.pid, cells]; rfl, cells⟩

theorem update_store_shows : TreeShows store (updateStore store around firstUpdate tree).rows := by
  have inserting := update_inserting store around firstUpdate tree sound clean
  have kept := updated_clean store around sound clean
  constructor
  · intro rec mem alive
    by_cases old : rec.pid ∈ (tree.updated store around).rows.flat.map Row.pid
    · obtain ⟨row, listed, same⟩ := mem_map.mp old
      obtain ⟨other, held, equal, _, cells⟩ := updated_record store around sound listed
      have unique : other = rec := inj_on_of_nodup_map sound.distinct held mem (equal.trans same)
      rw [unique] at cells
      exact ⟨row, updated_stays store around firstUpdate tree sound clean row listed, same, cells⟩
    · have fresh : rec.entry ∈ freshOf store around tree :=
        (mem_fresh store around tree rec.entry sound clean).mpr ⟨rec, mem, alive, rfl, old⟩
      obtain ⟨idx, found⟩ := mem_iff_getElem?.mp fresh
      have keyed : (updateBatch (freshOf store around tree)).key idx = some rec.entry.pid := by
        simp [Batch.key, Batch.pidAt, updateBatch, found]
      exact insert_all_entry inserting kept keyed found
  · exact (update_store_clean store around firstUpdate tree sound clean).once
  · intro row mem
    obtain ⟨rec, held, same, _⟩ := update_store_data store around firstUpdate tree sound clean row mem
    rw [← same]
    exact mem_map_of_mem held

end

section

theorem empty_clean (tree : Tree) (empty : tree.rows = .nil) : Clean tree := by
  constructor
  · constructor
    · rw [empty]
      exact nodup_nil
    · rw [empty]
      exact forall_mem_nil _
  · rw [empty]
    exact nodup_nil
  · rw [empty]
    exact forall_mem_nil _

variable (store : ProcStore) (around : Surroundings)

def liveEntries (records : List ProcRecord) : List (Int32 × Nat) :=
  (records.zipIdx.filter fun entry => decide (entry.1.status ≠ .killed)).map fun entry => (entry.1.pid, entry.2)

variable (records : List ProcRecord)

theorem live_index_fill : liveIndex records = ProbeTable.fill htHome (liveEntries records) := by
  rw [liveIndex, liveEntries, ProbeTable.fill, foldl_map]
  rfl

theorem mem_live_entries (pid : Int32) (idx : Nat) :
    (pid, idx) ∈ liveEntries records ↔ ∃ rec, records[idx]? = some rec ∧ rec.status ≠ .killed ∧ rec.pid = pid := by
  simp only [liveEntries, mem_map, mem_filter, decide_eq_true_eq, Prod.exists, mem_zipIdx_iff_getElem?, Prod.mk.injEq]
  constructor
  · intro ⟨rec, place, ⟨found, status⟩, same, equal⟩
    exact ⟨rec, equal ▸ found, status, same⟩
  · intro ⟨rec, found, status, same⟩
    exact ⟨rec, idx, ⟨found, status⟩, same, rfl⟩

theorem live_entries_sublist : ((liveEntries records).map Prod.fst).Sublist (records.map ProcRecord.pid) := by
  have sub : ((records.zipIdx.filter fun entry => decide (entry.1.status ≠ .killed)).map Prod.fst).Sublist records := by
    have whole := (filter_sublist (p := fun entry : ProcRecord × Nat => decide (entry.1.status ≠ .killed))
      (l := records.zipIdx)).map Prod.fst
    rwa [zipIdx_map_fst] at whole
  have pids := sub.map ProcRecord.pid
  rw [map_map] at pids
  rwa [liveEntries, map_map]

theorem populate_key (idx : Nat) (pid : Int32) : (populateBatch store).key idx = some pid ↔
    ∃ rec, store.records[idx]? = some rec ∧ rec.status ≠ .killed ∧ rec.pid = pid := by
  unfold Batch.key Batch.pidAt populateBatch
  rw [List.getElem?_map]
  cases found : store.records[idx]? with
  | none => simp
  | some rec =>
    by_cases killed : rec.status = .killed
    · simp [found, killed]
    · simp [found, killed, ProcRecord.pid]

theorem populate_keys : (populateBatch store).keys =
    (store.records.filter fun rec => decide (rec.status ≠ .killed)).map ProcRecord.pid := by
  rw [← filterMap_eq_map, filterMap_filter, ← filter_map_range]
  unfold Batch.keys
  rw [show (populateBatch store).entries.length = store.records.length from length_map _]
  apply filterMap_congr
  intro idx _
  apply Option.ext
  intro pid
  rw [populate_key]
  cases found : store.records[idx]? with
  | none => simp
  | some rec =>
    by_cases killed : rec.status = .killed <;> simp [killed]

variable (sound : StoreSound store)

include sound

theorem populate_indexed : (populateBatch store).Indexed := by
  have sub := live_entries_sublist store.records
  have small : (liveEntries store.records).length ≤ storeHtSize := by
    rw [← length_map Prod.fst]
    exact sub.length_le.trans sound.small
  have whole : (liveEntries store.records).take storeHtSize = liveEntries store.records := take_of_length_le small
  intro pid idx
  have key : (populateBatch store).pidAt idx = some pid ∧ (populateBatch store).skipped idx = false ↔
      (populateBatch store).key idx = some pid := by
    unfold Batch.key
    cases (populateBatch store).skipped idx <;> simp
  rw [key, populate_key, ← mem_live_entries]
  change htFind (liveIndex store.records) pid = some idx ↔ _
  rw [htFind, live_index_fill, ProbeTable.find_fill htHome _ (by rw [whole]; exact sound.distinct.sublist sub), whole]

theorem populate_inserting {tree : Tree} (empty : tree.rows = .nil) :
    Inserting store (populateBatch store) (populatePlacing store around) tree where
  indexed := populate_indexed store sound
  places :=
    { node := fun _ _ => rfl
      parent := fun placed idx e node found => by
        simp only [populatePlacing] at found
        split at found
        · cases found
        · split at found
          · obtain ⟨entry, search, rfl⟩ := Option.map_eq_some_iff.mp found
            exact .inr (mem_map_of_mem (mem_of_find?_eq_some search))
          · cases found }
  cells _ _ := rfl
  unpinned _ _ := rfl
  fresh pid _ := by
    rw [empty]
    exact not_mem_nil

theorem populate_clean {tree : Tree} (empty : tree.rows = .nil) : Clean (populateStoreInitial store around tree) :=
  insert_all_clean (populate_inserting store around sound empty) (empty_clean tree empty)

theorem populate_data (tree : Tree) (empty : tree.rows = .nil) (row : Row)
    (mem : row ∈ (populateStoreInitial store around tree).rows.flat) :
    ∃ rec ∈ store.records, rec.pid = row.pid ∧ row.cells = cellsOf store rec.entry := by
  obtain old | ⟨e, listed, cells⟩ := insert_all_origin store _ _ tree (populate_inserting store around sound empty)
    (empty_clean tree empty) mem
  · rw [empty] at old
    cases old
  · obtain ⟨rec, held, rfl⟩ := mem_map.mp listed
    exact ⟨rec, held, by rw [Row.pid, cells]; rfl, cells⟩

theorem populate_alive (tree : Tree) (empty : tree.rows = .nil) (rec : ProcRecord) (mem : rec ∈ store.records)
    (alive : rec.status = .alive) : ∃ row ∈ (populateStoreInitial store around tree).rows.flat, row.pid = rec.pid := by
  obtain ⟨idx, found⟩ := mem_iff_getElem?.mp mem
  have keyed : (populateBatch store).key idx = some rec.entry.pid :=
    (populate_key store idx rec.pid).mpr ⟨rec, found, by simp [alive], rfl⟩
  have entry : (populateBatch store).entries[idx]? = some rec.entry := by
    change (store.records.map ProcRecord.entry)[idx]? = some rec.entry
    rw [List.getElem?_map, found, Option.map_some]
  obtain ⟨row, listed, same, _⟩ := insert_all_entry (populate_inserting store around sound empty)
    (empty_clean tree empty) keyed entry
  exact ⟨row, listed, same⟩

end

end Evemon.ProcTree
