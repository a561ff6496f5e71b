import Evemon.Lib.Reconcile
import Evemon.QtWrites
import Evemon.RemoteMirror

-- When the table of the client holds what the write monitors ask for.
namespace Evemon.Qt

open Controls RemoteFdmon List Reconcile SwapTable Runs

theorem watches_keys (table : WatchTable) : table.watches.map watchKey = table.entries.keys := by
  rw [WatchTable.watches, map_map]
  exact map_congr_left table.keyed

theorem store_accepts (w : Watch) (table : WatchTable)
    (room : watchKey w ∈ table.entries.keys ∨ table.entries.entries.length < watchesMax) :
    ∃ stored, table.store w = some stored := by
  obtain ⟨inner, done⟩ := store_succeeds (watchKey w) w table.entries room
  unfold WatchTable.store
  split
  · rename_i refused
    rw [done] at refused
    cases refused
  · exact ⟨_, rfl⟩

theorem store_rejects {w} {table : WatchTable} (absent : watchKey w ∉ table.entries.keys)
    (full : watchesMax ≤ table.entries.entries.length) : table.store w = none := by
  have refused := store_refuses (watchKey w) w table.entries absent full
  unfold WatchTable.store
  split
  · rfl
  · rename_i inner done
    rw [refused] at done
    cases done

theorem fdmon_add_perm (r : Remote) {items} (w : Watch) (perm : r.table.watches.Perm items) :
    (fdmonAdd r w).table.watches.Perm (Reconcile.add watchKey watchesMax items w) := by
  have keys : (items.map watchKey).Perm r.table.entries.keys := watches_keys r.table ▸ (perm.map watchKey).symm
  have distinct : (items.map watchKey).Nodup := keys.nodup_iff.mpr r.table.entries.distinct
  have length : r.table.entries.entries.length = items.length := by
    rw [← perm.length_eq, WatchTable.watches, length_map]
  unfold fdmonAdd queryFdmonControl
  rw [if_neg (by simp), if_neg (by simp)]
  by_cases accepted : watchKey w ∈ items.map watchKey ∨ items.length < watchesMax
  · obtain ⟨stored, done⟩ := store_accepts w r.table (by rwa [length, ← keys.mem_iff])
    rw [done]
    have storedDistinct : (stored.watches.map watchKey).Nodup := watches_keys stored ▸ stored.entries.distinct
    refine (perm_ext_iff_of_nodup storedDistinct.of_map
      (add_distinct watchKey watchesMax w distinct).of_map).mpr fun found => ?_
    rw [mem_store w done, mem_add_iff watchKey watchesMax w accepted, perm.mem_iff]
  · obtain ⟨absent, full⟩ := not_or.mp accepted
    rw [store_rejects (by rwa [← keys.mem_iff]) (by rw [length]; exact Nat.le_of_not_lt full), Reconcile.add,
      if_neg absent, if_neg full]
    exact perm

theorem fdmon_remove_perm (r : Remote) {items} (w : Watch) (perm : r.table.watches.Perm items) :
    (fdmonRemove r w).table.watches.Perm (Reconcile.drop watchKey items (watchKey w)) := by
  have keys : (items.map watchKey).Perm r.table.entries.keys := watches_keys r.table ▸ (perm.map watchKey).symm
  have distinct : items.Nodup := (keys.nodup_iff.mpr r.table.entries.distinct).of_map
  unfold fdmonRemove queryFdmonControl
  rw [if_neg (by simp), if_pos rfl]
  cases search : r.table.entries.find (watchKey w) with
  | none =>
    have absent : watchKey w ∉ items.map watchKey := by
      rw [keys.mem_iff]
      exact (find_eq_none _ _).mp search
    have all : items.filter (fun item => watchKey item ≠ watchKey w) = items :=
      filter_eq_self.mpr fun item mem => decide_eq_true fun same => absent (same ▸ mem_map_of_mem mem)
    rw [Reconcile.drop, all]
    exact perm
  | some old =>
    have removedDistinct : ((r.table.remove (watchKey w)).watches.map watchKey).Nodup :=
      watches_keys (r.table.remove (watchKey w)) ▸ (r.table.remove (watchKey w)).entries.distinct
    refine (perm_ext_iff_of_nodup removedDistinct.of_map (distinct.filter _)).mpr fun found => ?_
    rw [mem_remove, mem_filter, decide_eq_true_eq, perm.mem_iff]

variable {items : List Watch} (watches : List Watch)

theorem fdmon_adds_perm {r : Remote} (perm : r.table.watches.Perm items) :
    (watches.foldl fdmonAdd r).table.watches.Perm (watches.foldl (Reconcile.add watchKey watchesMax) items) := by
  induction watches generalizing r items with
  | nil => exact perm
  | cons w rest ih => exact ih (fdmon_add_perm r w perm)

theorem fdmon_removes_perm (r : Remote) (items : List Watch) (perm : r.table.watches.Perm items) :
    (watches.foldl fdmonRemove r).table.watches.Perm ((watches.map watchKey).foldl (Reconcile.drop watchKey) items) := by
  induction watches generalizing r items with
  | nil => exact perm
  | cons w rest ih => exact ih _ _ (fdmon_remove_perm r w perm)

section

def fdWatches (map : QMap UInt32) : List Watch :=
  map.entries.flatMap fun entry => (([1, 2] : List UInt32).filter (hasFd entry.2)).map (fdWatch entry.1)

def parentWatches (map : QMap UInt32) : List Watch := map.entries.map fun entry => parentWatch entry.1 entry.2

def registrations (asked : Requests) : List Watch := fdWatches asked.requested ++ parentWatches asked.parents

theorem qmap_keys_distinct {ν : Type} (map : QMap ν) : (map.entries.map Prod.fst).Nodup :=
  map.sorted.imp fun {_ _} less => fun same => Int32.lt_irrefl (same ▸ less)

theorem qmap_find {ν : Type} (map : QMap ν) (key : Int32) (value : ν) :
    map.find key = some value ↔ (key, value) ∈ map.entries := by
  have distinct := qmap_keys_distinct map
  unfold QMap.find
  rw [Option.map_eq_some_iff]
  constructor
  · rintro ⟨entry, found, rfl⟩
    have same : entry.1 = key := by simpa using List.find?_some found
    exact same ▸ mem_of_find?_eq_some found
  · intro mem
    cases found : map.entries.find? fun entry => decide (entry.1 = key) with
    | none =>
      have other := List.find?_eq_none.mp found _ mem
      simp at other
    | some entry =>
      have same : entry.1 = key := by simpa using List.find?_some found
      have equal := inj_on_of_nodup_map distinct (mem_of_find?_eq_some found) mem same
      exact ⟨entry, rfl, congrArg Prod.snd equal⟩

variable (map : QMap UInt32)

theorem qmap_mask (key : Int32) {value : UInt32} (nonzero : value ≠ 0) :
    map.mask key = value ↔ (key, value) ∈ map.entries := by
  rw [← qmap_find, QMap.mask]
  cases map.find key with
  | none => simp [Ne.symm nonzero]
  | some found => simp

theorem pid_word_inj (a b : Int32) (same : a.toUInt32 = b.toUInt32) : a = b := congrArg Int32.ofUInt32 same

theorem fd_watch_inj {a b} {fd other} (same : fdWatch a fd = fdWatch b other) : a = b ∧ fd = other := by
  injection same with _ pid value
  exact ⟨pid_word_inj a b pid, value⟩

theorem mem_fd_watches (pid : Int32) (fd : UInt32) :
    fdWatch pid fd ∈ fdWatches map ↔ fd ∈ ([1, 2] : List UInt32) ∧ hasFd (map.mask pid) fd := by
  unfold fdWatches
  rw [mem_flatMap]
  constructor
  · rintro ⟨entry, listed, inner⟩
    obtain ⟨other, kept, same⟩ := mem_map.mp inner
    obtain ⟨rfl, rfl⟩ := fd_watch_inj same
    obtain ⟨standard, bit⟩ := mem_filter.mp kept
    have found := (qmap_find map entry.1 entry.2).mpr listed
    exact ⟨standard, by rw [QMap.mask, found]; exact bit⟩
  · rintro ⟨standard, bit⟩
    cases found : map.find pid with
    | none =>
      rw [QMap.mask, found] at bit
      simp [hasFd] at bit
    | some mask =>
      rw [QMap.mask, found] at bit
      exact ⟨(pid, mask), (qmap_find map pid mask).mp found, mem_map_of_mem (mem_filter.mpr ⟨standard, bit⟩)⟩

theorem fd_changes_filter (of against : QMap UInt32) : fdChanges of against =
    (fdWatches of).filter (· ∉ fdWatches against) := by
  unfold fdChanges fdWatches
  rw [filter_flatMap]
  refine flatMap_congr fun entry _ => ?_
  rw [filter_map, filter_filter]
  refine congrArg (List.map (fdWatch entry.1)) (filter_congr fun fd standard => ?_)
  have absent : (fdWatch entry.1 fd ∉ fdWatches against) ↔ hasFd (against.mask entry.1) fd = false := by
    rw [mem_fd_watches, not_and, Bool.not_eq_true]
    exact ⟨fun hidden => hidden standard, fun bit _ => bit⟩
  rw [Bool.and_comm]
  refine congrArg (· && hasFd entry.2 fd) ?_
  rw [Function.comp_apply, Bool.eq_iff_iff, Bool.not_eq_true', ← absent, decide_eq_true_eq]
  rfl

theorem mem_parent_watches (pid : Int32) (mask : UInt32) :
    parentWatch pid mask ∈ parentWatches map ↔ (pid, mask) ∈ map.entries := by
  unfold parentWatches
  rw [mem_map]
  constructor
  · rintro ⟨entry, listed, same⟩
    injection same with _ word value
    rw [← pid_word_inj _ _ word, ← value]
    exact listed
  · exact fun listed => ⟨(pid, mask), listed, rfl⟩

def Nonzero (map : QMap UInt32) : Prop := ∀ entry ∈ map.entries, entry.2 ≠ 0

theorem parent_changes_filter {of} {against} (nonzero : Nonzero of) :
    (parentChanges of against).map (fun entry => parentWatch entry.1 entry.2) =
    (parentWatches of).filter (· ∉ parentWatches against) := by
  unfold parentChanges
  conv => rhs; unfold parentWatches
  rw [filter_map]
  refine congrArg (List.map _) (filter_congr fun entry listed => ?_)
  rw [Function.comp_apply]
  refine decide_eq_decide.mpr (not_congr ?_)
  exact (qmap_mask against entry.1 (nonzero entry listed)).trans (mem_parent_watches against entry.1 entry.2).symm

theorem fd_watches_kind {w : Watch} (listed : w ∈ fdWatches map) : ∃ pid fd, w = fdWatch pid fd := by
  obtain ⟨entry, _, inner⟩ := mem_flatMap.mp listed
  obtain ⟨fd, _, same⟩ := mem_map.mp inner
  exact ⟨entry.1, fd, same.symm⟩

theorem fd_watches_keys : ((fdWatches map).map watchKey).Nodup := by
  have distinct : (fdWatches map).Nodup := by
    refine nodup_flatMap.mpr ⟨fun entry _ => ?_, ?_⟩
    · refine List.Nodup.map (fun fd other same => (fd_watch_inj same).2) (List.Nodup.filter _ ?_)
      decide
    · refine (pairwise_map.mp (qmap_keys_distinct map)).imp fun {first second} different w one two => ?_
      obtain ⟨fd, _, here⟩ := mem_map.mp one
      obtain ⟨other, _, there⟩ := mem_map.mp two
      exact different (fd_watch_inj (here.trans there.symm)).1
  refine distinct.map_on fun w listed other later same => ?_
  obtain ⟨pid, fd, rfl⟩ := fd_watches_kind map listed
  obtain ⟨pid', fd', rfl⟩ := fd_watches_kind map later
  simp only [watchKey, fdWatch, if_true, Prod.mk.injEq, true_and] at same
  rw [pid_word_inj pid pid' same.1, same.2]

theorem parent_watches_keys : ((parentWatches map).map watchKey).Nodup := by
  have keyed : (parentWatches map).map watchKey = (map.entries.map Prod.fst).map fun pid => (2, pid.toUInt32, 0) := by
    rw [parentWatches, map_map, map_map]
    rfl
  rw [keyed]
  refine (qmap_keys_distinct map).map fun one two same => pid_word_inj one two ?_
  exact congrArg (fun key : Key => key.2.1) same

theorem registration_keys (fds parents : QMap UInt32) : ((fdWatches fds ++ parentWatches parents).map watchKey).Nodup := by
  rw [map_append]
  refine (fd_watches_keys fds).append (parent_watches_keys parents) fun key one two => ?_
  obtain ⟨w, listed, rfl⟩ := mem_map.mp one
  obtain ⟨other, later, same⟩ := mem_map.mp two
  obtain ⟨pid, fd, rfl⟩ := fd_watches_kind fds listed
  obtain ⟨entry, _, rfl⟩ := mem_map.mp later
  have kinds : (2 : UInt32) = 1 := congrArg Prod.fst same
  exact absurd kinds (by decide)

end

def Exact (w : MainWindow) : Prop := ∀ watch, watch ∈ w.remote.table.watches ↔ watch ∈ registrations w.believed

theorem exact_perm (w : MainWindow) (exact : Exact w) : w.remote.table.watches.Perm (registrations w.believed) := by
  have distinct : (w.remote.table.watches.map watchKey).Nodup := watches_keys w.remote.table ▸ w.remote.table.entries.distinct
  exact (perm_ext_iff_of_nodup distinct.of_map (registration_keys _ _).of_map).mpr exact

theorem reconcile_table_perm (old new : Requests) (r : Remote) (perm : r.table.watches.Perm items)
    (oldNonzero : Nonzero old.parents) (newNonzero : Nonzero new.parents) : (reconcileTable old new r).table.watches.Perm
    (Reconcile.replace watchKey watchesMax
    (Reconcile.replace watchKey watchesMax items (parentWatches old.parents) (parentWatches new.parents))
    (fdWatches old.requested) (fdWatches new.requested)) := by
  have unwatch : (parentChanges old.parents new.parents).map (fun entry => watchKey (parentWatch entry.1 0)) =
      ((parentWatches old.parents).filter (· ∉ parentWatches new.parents)).map watchKey := by
    rw [← parent_changes_filter oldNonzero, map_map]
    rfl
  have watch : (parentChanges new.parents old.parents).map (fun entry => parentWatch entry.1 entry.2) =
      (parentWatches new.parents).filter (· ∉ parentWatches old.parents) :=
    parent_changes_filter newNonzero
  have first := fdmon_removes_perm ((parentChanges old.parents new.parents).map fun entry => parentWatch entry.1 0) r items perm
  rw [map_map, show watchKey ∘ (fun entry : Int32 × UInt32 => parentWatch entry.1 0) =
    fun entry => watchKey (parentWatch entry.1 0) from rfl, unwatch, foldl_map] at first
  have second := fdmon_adds_perm ((parentChanges new.parents old.parents).map fun entry => parentWatch entry.1 entry.2) first
  rw [foldl_map] at second
  conv at second => rhs; rw [watch]
  have third := fdmon_removes_perm (fdChanges old.requested new.requested) _ _ second
  have fourth := fdmon_adds_perm (fdChanges new.requested old.requested) third
  conv at fourth => rhs; rw [fd_changes_filter, fd_changes_filter]
  exact fourth

theorem or_mask_nonzero {map} {pid} {mask : UInt32} (nonzero : Nonzero map) (some : mask ≠ 0) :
    Nonzero (map.orMask pid mask) := by
  have wider (old : UInt32) : old ||| mask ≠ 0 := fun zero => some (UInt32.or_eq_zero_iff.mp zero).2
  have kept (entries : List (Int32 × UInt32)) (before : ∀ entry ∈ entries, entry.2 ≠ 0) :
      ∀ entry ∈ writeEntry pid (fun old => old.getD 0 ||| mask) entries, entry.2 ≠ 0 := by
    induction entries with
    | nil =>
      intro entry listed
      rw [mem_singleton.mp listed]
      exact wider _
    | cons first rest ih =>
      have later : ∀ entry ∈ rest, entry.2 ≠ 0 := fun entry listed => before entry (mem_cons_of_mem first listed)
      unfold writeEntry
      split
      · intro entry listed
        rcases mem_cons.mp listed with rfl | old
        · exact wider _
        · exact before entry old
      · split
        · intro entry listed
          rcases mem_cons.mp listed with rfl | old
          · exact wider _
          · exact later entry old
        · intro entry listed
          rcases mem_cons.mp listed with rfl | old
          · exact before _ mem_cons_self
          · exact ih later entry old
  exact kept map.entries nonzero

theorem requests_nonzero (w : MainWindow) : Nonzero w.requests.parents := by
  have kept (inspectors : List Inspector) (asked : Requests) (nonzero : Nonzero asked.parents) :
      Nonzero (inspectors.foldl w.request asked).parents := by
    induction inspectors generalizing asked with
    | nil => exact nonzero
    | cons writer rest ih =>
      refine ih _ ?_
      unfold MainWindow.request
      split
      · exact nonzero
      · rename_i active
        dsimp only
        split
        · exact or_mask_nonzero nonzero fun zero => active (.inr (.inr (.inr zero)))
        · exact nonzero
  exact kept w.inspectors {} fun entry listed => absurd listed not_mem_nil

-- The parents are registered while the old descriptors are still in the table.
def Room (w : MainWindow) : Prop :=
  (fdWatches w.writeFds).length + (parentWatches w.requests.parents).length ≤ watchesMax

theorem sync_lacks_parent (w : MainWindow) (exact : Exact w) (nonzero : Nonzero w.writeParents) (tight : ¬ Room w) :
    ∃ watch ∈ parentWatches w.requests.parents, watch ∉ (w.syncWrites true).remote.table.watches := by
  have start := exact_perm w exact
  have table := reconcile_table_perm w.believed w.requests w.remote start nonzero (requests_nonzero w)
  have bounded : (registrations w.believed).length ≤ watchesMax := by
    rw [← start.length_eq, WatchTable.watches, length_map]
    exact w.remote.table.entries.bounded
  obtain ⟨watch, asked, missing⟩ := replace_lacks watchKey watchesMax _ _ _ _ (List.Perm.refl _)
    (registration_keys w.writeFds w.writeParents) (registration_keys w.writeFds w.requests.parents) bounded
    (Nat.lt_of_not_le tight)
  refine ⟨watch, asked, fun present => ?_⟩
  rcases mem_replace watchKey watchesMax _ _ _ watch (table.mem_iff.mp present) with early | late
  · exact missing early
  · have apart := (registration_keys w.requests.requested w.requests.parents).of_map
    exact (nodup_append.mp apart).2.2 watch late watch asked rfl

theorem sync_exact_iff (w : MainWindow) (exact : Exact w) (nonzero : Nonzero w.writeParents)
    (fits : (registrations w.requests).length ≤ watchesMax) : Exact (w.syncWrites true) ↔ Room w := by
  constructor
  · intro after
    by_contra tight
    obtain ⟨watch, asked, missing⟩ := sync_lacks_parent w exact nonzero tight
    exact missing ((after watch).mpr (mem_append_right _ asked))
  · intro room watch
    have table := reconcile_table_perm w.believed w.requests w.remote (exact_perm w exact) nonzero (requests_nonzero w)
    have swapped (fds : QMap UInt32) : ((parentWatches w.requests.parents ++ fdWatches fds).map watchKey).Nodup :=
      ((perm_append_comm.map watchKey).nodup_iff).mp (registration_keys fds w.requests.parents)
    have first := replace_fits watchKey watchesMax _ _ _ _ (List.Perm.refl _)
      (registration_keys w.writeFds w.writeParents) (registration_keys w.writeFds w.requests.parents) room
    have enough : (parentWatches w.requests.parents).length + (fdWatches w.requests.requested).length ≤ watchesMax := by
      rw [registrations, length_append] at fits
      omega
    have second := replace_fits watchKey watchesMax _ _ _ _ (first.trans perm_append_comm) (swapped _) (swapped _) enough
    exact (table.trans (second.trans perm_append_comm)).mem_iff

variable {w : MainWindow}

theorem sync_again (same : w.requests = w.believed) (nonzero : Nonzero w.writeParents) :
    (w.syncWrites true).remote = w.remote := by
  have noFds : fdChanges w.writeFds w.writeFds = [] := by
    rw [fd_changes_filter]
    exact filter_eq_nil_iff.mpr fun watch listed absent => of_decide_eq_true absent listed
  have noParents : parentChanges w.writeParents w.writeParents = [] := by
    refine filter_eq_nil_iff.mpr fun entry listed changed => of_decide_eq_true changed ?_
    exact (qmap_mask w.writeParents entry.1 (nonzero entry listed)).mpr listed
  change reconcileTable w.believed w.requests w.remote = w.remote
  rw [same]
  unfold reconcileTable MainWindow.believed
  dsimp only
  rw [noParents, noFds]
  rfl

inductive WindowAction where
  | inspect (inspectors : List Inspector)
  | enable (on : Bool)
  | refresh (model : Model)
  | exec (pid ppid : Int32)
  | sync (ebpf : Bool)

def windowStep (w : MainWindow) : WindowAction → MainWindow
  | .inspect inspectors => { w with inspectors }
  | .enable on => { w with writesEnabled := on }
  | .refresh model => { w with model }
  | .exec pid ppid => w.childExec pid ppid
  | .sync ebpf => w.syncWrites ebpf

def Roomy (w : MainWindow) : WindowAction → Prop
  | .sync ebpf => ebpf = true → (registrations w.requests).length ≤ watchesMax ∧ Room w
  | .exec pid ppid => (w.childExec pid ppid).writeFds = w.writeFds
  | _ => True

def WindowStarts (w : MainWindow) : Prop := ∃ inspectors writesEnabled model, w = { inspectors, writesEnabled, model }

theorem child_exec_exact {pid ppid} (inv : Exact w ∧ Nonzero w.writeParents)
    (same : (w.childExec pid ppid).writeFds = w.writeFds) :
    Exact (w.childExec pid ppid) ∧ Nonzero (w.childExec pid ppid).writeParents := by
  have remote : (w.childExec pid ppid).remote = w.remote := by
    unfold MainWindow.childExec
    split <;> rfl
  have parents : (w.childExec pid ppid).writeParents = w.writeParents := by
    unfold MainWindow.childExec
    split <;> rfl
  unfold Exact MainWindow.believed
  rw [remote, same, parents]
  exact inv

theorem window_exact (reached : Reachable WindowStarts Roomy windowStep w) : Exact w ∧ Nonzero w.writeParents := by
  refine invariant (fun w => Exact w ∧ Nonzero w.writeParents) (fun w starts => ?_) (fun w action inv roomy => ?_) w reached
  · obtain ⟨inspectors, writesEnabled, model, rfl⟩ := starts
    exact ⟨fun watch => by simp [registrations, MainWindow.believed, fdWatches, parentWatches, QMap.empty, WatchTable.empty,
      WatchTable.watches, SwapTable.empty], fun entry listed => absurd listed not_mem_nil⟩
  · cases action with
    | inspect inspectors | enable on | refresh model => exact inv
    | exec pid ppid => exact child_exec_exact inv roomy
    | sync ebpf =>
      cases ebpf with
      | false => exact inv
      | true =>
        obtain ⟨fits, room⟩ := roomy rfl
        exact ⟨(sync_exact_iff w inv.1 inv.2 fits).mpr room, requests_nonzero w⟩

theorem sync_converges_iff (w : MainWindow) (reached : Reachable WindowStarts Roomy windowStep w) :
    Exact w ∧ ((registrations w.requests).length ≤ watchesMax → (Exact (w.syncWrites true) ↔ Room w)) := by
  obtain ⟨exact, nonzero⟩ := window_exact reached
  exact ⟨exact, sync_exact_iff w exact nonzero⟩

def windowAfter (actions : List WindowAction) : MainWindow := actions.foldl windowStep {}

def monitor (pid : Int32) (mask : UInt32) (descendants : Bool) : Inspector := ⟨.writes, true, true, pid, mask, descendants⟩

theorem sync_converges_iff_group : Exact (windowAfter [.inspect [monitor 200 3 true], .sync true]) ∧
    Exact ((windowAfter [.inspect [monitor 200 3 true], .sync true]).syncWrites true) := by
  have fresh : Reachable WindowStarts Roomy windowStep (windowAfter []) := .start _ ⟨[], true, {}, rfl⟩
  have one := Reachable.step (windowAfter []) (WindowAction.inspect [monitor 200 3 true]) fresh trivial
  have small : (registrations (windowAfter [.inspect [monitor 200 3 true]]).requests).length ≤ watchesMax ∧
      Room (windowAfter [.inspect [monitor 200 3 true]]) := by
    unfold Room
    decide +kernel
  have two := Reachable.step (windowAfter [.inspect [monitor 200 3 true]]) (WindowAction.sync true) one fun _ => small
  have converges := sync_converges_iff _ two
  have again : (registrations (windowAfter [.inspect [monitor 200 3 true], .sync true]).requests).length ≤ watchesMax ∧
      Room (windowAfter [.inspect [monitor 200 3 true], .sync true]) := by
    unfold Room
    decide +kernel
  exact ⟨converges.1, (converges.2 again.1).mpr again.2⟩

def crowd : List Inspector := (List.range 64).map fun n => monitor (Int32.ofNat (n + 1)) 3 false

def crowded : MainWindow := windowAfter [.inspect crowd, .sync true, .inspect [monitor 200 1 true]]

theorem crowded_reachable : Reachable WindowStarts Roomy windowStep crowded := by
  have fresh : Reachable WindowStarts Roomy windowStep (windowAfter []) := .start _ ⟨[], true, {}, rfl⟩
  have one := Reachable.step (windowAfter []) (WindowAction.inspect crowd) fresh trivial
  have full : (registrations (windowAfter [.inspect crowd]).requests).length ≤ watchesMax ∧
      Room (windowAfter [.inspect crowd]) := by
    unfold Room
    decide +kernel
  have two := Reachable.step (windowAfter [.inspect crowd]) (WindowAction.sync true) one fun _ => full
  exact Reachable.step _ (WindowAction.inspect [monitor 200 1 true]) two trivial

theorem parent_is_not_registered : Reachable WindowStarts Roomy windowStep crowded ∧
    registrations crowded.requests = [fdWatch 200 1, parentWatch 200 1] ∧
    parentWatch 200 1 ∉ (crowded.syncWrites true).remote.table.watches ∧
    parentWatch 200 1 ∉ ((crowded.syncWrites true).syncWrites true).remote.table.watches := by
  have inv := window_exact crowded_reachable
  have tight : ¬ Room crowded := by
    unfold Room
    decide +kernel
  have single : parentWatches crowded.requests.parents = [parentWatch 200 1] := by decide +kernel
  obtain ⟨watch, asked, missing⟩ := sync_lacks_parent crowded inv.1 inv.2 tight
  rw [single, mem_singleton] at asked
  subst asked
  refine ⟨crowded_reachable, by decide +kernel, missing, ?_⟩
  rw [sync_again rfl (requests_nonzero crowded)]
  exact missing

end Evemon.Qt
