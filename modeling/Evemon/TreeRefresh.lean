import Evemon.TreeUpdate

-- The refresh: snapshots reach the store, and at each tick the tree follows the store.
namespace Evemon.ProcTree

open Ipc (Heap)
open Store List Runs

-- What group totals, icon lookups and GPU snapshots write into a row between two refreshes.
structure Looks where
  groupRss : Int32
  groupCpu : Int32
  icon : Option Nat
  gpu : GpuCells

def Row.look (row : Row) (looks : Looks) : Row :=
  { row with groupRss := looks.groupRss, groupCpu := looks.groupCpu, icon := looks.icon, gpu := looks.gpu }

-- Ghost: `shown` is the birth stamp of a process at the last refresh that found it ALIVE, until one
-- finds its record gone; `synced`: nothing reached the store since the last refresh.
structure Screen where
  history : List Update := []
  store : ProcStore
  tree : Tree := {}
  initialRefresh : Bool := true
  firstUpdate : Bool := true
  shown : Int32 → Option Int := fun _ => none
  synced : Bool := false

def Tree.unpin (tree : Tree) : Tree := { tree with rows := removePinnedRows tree.rows }

def bornOf (rows : Forest Row) (pid : Int32) : Option Int := (rows.flat.find? fun row => row.pid = pid).map Row.born

def stamps (store : ProcStore) (rows : Forest Row) (shown : Int32 → Option Int) (pid : Int32) : Option Int :=
  match recordOf store pid with
  | none => none
  | some rec => if rec.status = .alive then bornOf rows pid else shown pid

def Screen.refreshed (screen : Screen) (tree : Tree) : Screen :=
  { screen with tree, shown := stamps screen.store tree.rows screen.shown, synced := true }

def Screen.refresh (screen : Screen) (around : Surroundings) : Screen :=
  if screen.initialRefresh then
    { screen.refreshed (populateStoreInitial screen.store around screen.tree) with initialRefresh := false }
  else
    { screen.refreshed (updateStore screen.store around screen.firstUpdate screen.tree.unpin) with firstUpdate := false }

inductive ScreenAction where
  | snapshot (update : Update) (heap : Heap)
  | refresh (around : Surroundings)
  | pin (pinnedPids : List Int32)
  | decorate (looks : Row → Looks)

def Screen.step (screen : Screen) : ScreenAction → Screen
  | .snapshot update heap =>
    let after := storeStep (screen.history, screen.store) (update, heap)
    { screen with history := after.1, store := after.2, synced := false }
  | .refresh around => screen.refresh around
  | .pin pinnedPids => { screen with tree := rebuildPinnedRows pinnedPids screen.tree }
  | .decorate looks => { screen with tree := { screen.tree with rows := screen.tree.rows.map fun row => row.look (looks row) } }

def Started (screen : Screen) : Prop := screen = { store := procStoreInit true true true }

-- Snapshots as the store's lifecycle takes them. No process that is pinned has the PID -1.
def Permitted (screen : Screen) : ScreenAction → Prop
  | .snapshot update heap => Allowed (screen.history, screen.store) (update, heap)
  | .pin pinnedPids => ptreeUnpinned ∉ pinnedPids
  | _ => True

theorem unpin_clean {tree} (clean : Clean tree) : tree.unpin = tree := by
  have kept : removePinnedRows tree.rows = tree.rows := by
    apply Forest.drop_roots_none
    intro row mem
    simp [clean.unpinned row mem]
  rw [Tree.unpin, kept]

variable {rows : Forest Row}

theorem clean_later {next later : Nat} (clean : Clean { rows, next }) (grows : next ≤ later) :
    Clean { rows, next := later } :=
  ⟨⟨clean.sound.distinct, fun row mem => Nat.lt_of_lt_of_le (clean.sound.below row mem) grows⟩, clean.once, clean.unpinned⟩

theorem pin_row_unpin (tree : Tree) (pid : Int32) (proper : pid ≠ ptreeUnpinned) :
    removePinnedRows (pinRow tree pid).rows = removePinnedRows tree.rows ∧ tree.next ≤ (pinRow tree pid).next := by
  unfold pinRow
  split
  · exact ⟨rfl, Nat.le_refl _⟩
  · rename_i row children _
    split
    · exact ⟨rfl, Nat.le_refl _⟩
    · refine ⟨?_, Forest.relabel_next _ _ _⟩
      have gone : removePinnedRows (copySubtreePinned pid row children tree.next).1 = .nil := by
        unfold removePinnedRows copySubtreePinned Forest.relabel Forest.dropRoots
        simp [proper, Forest.relabel, Forest.dropRoots]
      rw [removePinnedRows, Forest.drop_roots_concat]
      change (removePinnedRows tree.rows).concat (removePinnedRows (copySubtreePinned pid row children tree.next).1) = _
      rw [gone, Forest.concat_nil]

variable {pinnedPids : List Int32}

theorem rebuild_unpin (proper : ptreeUnpinned ∉ pinnedPids) (tree : Tree) :
    removePinnedRows (rebuildPinnedRows pinnedPids tree).rows = removePinnedRows tree.rows ∧
    tree.next ≤ (rebuildPinnedRows pinnedPids tree).next := by
  unfold rebuildPinnedRows
  have start : removePinnedRows (removePinnedRows tree.rows) = removePinnedRows tree.rows := Forest.drop_roots_idem _ _
  refine List.foldlRecOn (motive := fun (state : Tree) => removePinnedRows state.rows = removePinnedRows tree.rows ∧
    tree.next ≤ state.next) _ _ ⟨start, Nat.le_refl _⟩ ?_
  intro state held pid mem
  have one := pin_row_unpin state pid fun same => proper (same ▸ mem)
  exact ⟨one.1.trans held.1, held.2.trans one.2⟩

theorem rebuild_empty {tree : Tree} (empty : tree.rows = .nil) : (rebuildPinnedRows pinnedPids tree).rows = .nil := by
  unfold rebuildPinnedRows
  refine List.foldlRecOn (motive := fun (state : Tree) => state.rows = .nil) _ _ (by rw [empty]; rfl) ?_
  intro state held pid _
  rw [pinRow, findIterByPid, held]
  exact held

section

variable (looks : Row → Looks) (tree : Tree)

def Tree.look (tree : Tree) (looks : Row → Looks) : Tree := { tree with rows := tree.rows.map fun row => row.look (looks row) }

theorem look_unpin : (tree.look looks).unpin = tree.unpin.look looks := by
  have same := Forest.drop_roots_map (fun row : Row => decide (row.pinnedRoot ≠ ptreeUnpinned))
    (fun row => row.look (looks row)) (fun _ => rfl) tree.rows
  unfold Tree.unpin Tree.look removePinnedRows
  rw [same]

theorem look_rows : (tree.look looks).rows.flat = tree.rows.flat.map fun row => row.look (looks row) :=
    Forest.flat_map _ _

theorem look_clean (clean : Clean tree) : Clean (tree.look looks) := by
  constructor
  · constructor
    · rw [look_rows, map_map]
      exact clean.sound.distinct
    · rw [look_rows, forall_mem_map]
      exact clean.sound.below
  · rw [look_rows, map_map]
    exact clean.once
  · rw [look_rows, forall_mem_map]
    exact clean.unpinned

end

structure Settled (screen : Screen) : Prop where
  follows : Follows screen.history screen.store
  clean : Clean screen.tree.unpin
  unfilled : screen.initialRefresh = true → screen.tree.rows = .nil

theorem started_settled (screen : Screen) (started : Started screen) : Settled screen := by
  rw [started]
  constructor
  · exact reached_follows (.start _ rfl)
  · exact empty_clean _ rfl
  · exact fun _ => rfl

theorem settled_step (screen : Screen) (action : ScreenAction) (settled : Settled screen)
    (permitted : Permitted screen action) : Settled (screen.step action) := by
  have sound := follows_sound settled.follows
  cases action with
  | snapshot update heap =>
    exact ⟨step_follows settled.follows permitted, settled.clean, settled.unfilled⟩
  | refresh around =>
    change Settled (screen.refresh around)
    unfold Screen.refresh
    split
    · rename_i initial
      have clean := populate_clean screen.store around sound (settled.unfilled initial)
      refine ⟨settled.follows, ?_, fun later => (nomatch later)⟩
      change Clean (populateStoreInitial screen.store around screen.tree).unpin
      rw [unpin_clean clean]
      exact clean
    · rename_i later
      have clean := update_store_clean screen.store around screen.firstUpdate screen.tree.unpin sound settled.clean
      refine ⟨settled.follows, ?_, fun initial => absurd initial later⟩
      change Clean (updateStore screen.store around screen.firstUpdate screen.tree.unpin).unpin
      rw [unpin_clean clean]
      exact clean
  | pin pinnedPids =>
    obtain ⟨rows, next⟩ := rebuild_unpin permitted screen.tree
    refine ⟨settled.follows, ?_, fun initial => ?_⟩
    · change Clean { rows := removePinnedRows (rebuildPinnedRows pinnedPids screen.tree).rows, next := _ }
      rw [rows]
      exact clean_later settled.clean next
    · exact rebuild_empty (settled.unfilled initial)
  | decorate looks =>
    refine ⟨settled.follows, ?_, fun initial => ?_⟩
    · change Clean (screen.tree.look looks).unpin
      rw [look_unpin]
      exact look_clean looks _ settled.clean
    · change (screen.tree.look looks).rows = .nil
      rw [Tree.look, settled.unfilled initial]
      rfl

section

def dying (store : ProcStore) (pid : Int32) : Bool := (recordOf store pid).any fun rec => decide (rec.status = .dying)

def Sheltered (screen : Screen) : Prop :=
  ∀ path ∈ screen.tree.unpin.rows.paths [], dying screen.store path.2.pid = true →
    ∀ above ∈ path.1, live screen.store above.pid = true

instance (screen : Screen) : Decidable (Sheltered screen) :=
  inferInstanceAs (Decidable (∀ path ∈ screen.tree.unpin.rows.paths [], dying screen.store path.2.pid = true →
    ∀ above ∈ path.1, live screen.store above.pid = true))

def PermittedSheltered (screen : Screen) (action : ScreenAction) : Prop :=
  Permitted screen action ∧ ∀ around, action = .refresh around → Sheltered screen

-- `rows`: who was shown ALIVE keeps a row with its birth stamp. `data`: after a refresh the rows
-- carry their records. `alive`: who is ALIVE at a refresh is shown.
structure Visible (screen : Screen) : Prop where
  rows : ∀ pid born, screen.shown pid = some born →
    ∃ row ∈ screen.tree.unpin.rows.flat, row.pid = pid ∧ row.born = born
  data : screen.synced = true → ∀ row ∈ screen.tree.unpin.rows.flat, ∀ rec ∈ screen.store.records,
    rec.pid = row.pid → row.cells = cellsOf screen.store rec.entry
  alive : screen.synced = true → ∀ rec ∈ screen.store.records, rec.status = .alive → (screen.shown rec.pid).isSome = true

structure Watched (screen : Screen) : Prop where
  settled : Settled screen
  unseen : screen.initialRefresh = true → ∀ pid, screen.shown pid = none
  visible : Visible screen

variable (screen : Screen)

theorem started_watched (started : Started screen) : Watched screen := by
  have settled := started_settled screen started
  rw [started] at settled ⊢
  exact ⟨settled, fun _ _ => rfl, fun _ _ held => (nomatch held), fun held => (nomatch held), fun held => (nomatch held)⟩

theorem born_of_some {pid} {born} (found : bornOf rows pid = some born) :
    ∃ row ∈ rows.flat, row.pid = pid ∧ row.born = born := by
  obtain ⟨row, search, rfl⟩ := Option.map_eq_some_iff.mp found
  exact ⟨row, mem_of_find?_eq_some search, by simpa using List.find?_some search, rfl⟩

theorem born_of_present {pid : Int32} (present : ∃ row ∈ rows.flat, row.pid = pid) : (bornOf rows pid).isSome := by
  obtain ⟨row, mem, same⟩ := present
  rw [bornOf, Option.isSome_map, List.find?_isSome]
  exact ⟨row, mem, decide_eq_true same⟩

theorem refreshed_visible {tree} (sound : StoreSound screen.store) (clean : Clean tree)
    (data : ∀ row ∈ tree.rows.flat, ∃ rec ∈ screen.store.records, rec.pid = row.pid ∧
    row.cells = cellsOf screen.store rec.entry)
    (alive : ∀ rec ∈ screen.store.records, rec.status = .alive → ∃ row ∈ tree.rows.flat, row.pid = rec.pid)
    (dying : ∀ rec ∈ screen.store.records, rec.status ≠ .alive → ∀ born, screen.shown rec.pid = some born →
    ∃ row ∈ tree.rows.flat, row.pid = rec.pid ∧ row.born = born) : Visible (screen.refreshed tree) := by
  have same : tree.unpin = tree := unpin_clean clean
  constructor
  · intro pid born held
    change ∃ row ∈ tree.unpin.rows.flat, row.pid = pid ∧ row.born = born
    rw [same]
    change stamps screen.store tree.rows screen.shown pid = some born at held
    unfold stamps at held
    cases found : recordOf screen.store pid with
    | none =>
      rw [found] at held
      cases held
    | some rec =>
      obtain ⟨mem, rfl⟩ := (record_of_iff sound pid rec).mp found
      rw [found] at held
      simp only at held
      split at held
      · exact born_of_some held
      · rename_i status
        exact dying rec mem status born held
  · intro _ row mem rec held equal
    change row ∈ tree.unpin.rows.flat at mem
    rw [same] at mem
    obtain ⟨other, listed, owner, cells⟩ := data row mem
    have unique : other = rec := inj_on_of_nodup_map sound.distinct listed held (owner.trans equal.symm)
    rw [unique] at cells
    exact cells
  · intro _ rec mem status
    change (stamps screen.store tree.rows screen.shown rec.pid).isSome
    have found := (record_of_iff sound rec.pid rec).mpr ⟨mem, rfl⟩
    rw [stamps, found]
    simp only [status, if_true]
    exact born_of_present (alive rec mem status)

theorem sheltered_stays {around} (settled : Settled screen) (sheltered : Sheltered screen)
    {rec : ProcRecord} (mem : rec ∈ screen.store.records) (status : rec.status ≠ .alive) {row : Row}
    (listed : row ∈ screen.tree.unpin.rows.flat) (same : row.pid = rec.pid) :
    ∃ after ∈ (updateStore screen.store around screen.firstUpdate screen.tree.unpin).rows.flat,
    after.pid = rec.pid ∧ after.born = row.born := by
  have sound := follows_sound settled.follows
  obtain ⟨life, _, shows⟩ := settled.follows.shown rec mem
  have unkilled := shows_status shows
  have found := (record_of_iff sound row.pid rec).mpr ⟨mem, same.symm⟩
  have expires : dying screen.store row.pid := by
    rw [dying, found]
    cases state : rec.status with
    | alive => exact absurd state status
    | dying => simp [state]
    | killed => exact absurd state unkilled
  have stays : live screen.store row.pid := by
    rw [live, found]
    simpa using unkilled
  obtain ⟨after, kept⟩ := Option.isSome_iff_exists.mp ((update_or_remove_isSome screen.store around row).trans stays)
  have held := update_or_remove_kept screen.store around sound kept
  obtain ⟨ancestors, path⟩ := Forest.path_of_flat screen.tree.unpin.rows [] row listed
  refine ⟨after, ?_, held.pid.trans same, held.born⟩
  apply updated_stays screen.store around screen.firstUpdate screen.tree.unpin sound settled.clean
  apply (Forest.mem_flat_prune (updateOrRemove screen.store around) screen.tree.unpin.rows [] after).mpr
  refine ⟨ancestors, row, ?_, kept, fun above higher => ?_⟩
  · rwa [append_nil]
  · rw [update_or_remove_isSome]
    exact sheltered (ancestors, row) path expires above higher

theorem refresh_visible (around : Surroundings) (watched : Watched screen) (sheltered : Sheltered screen) :
    Visible (screen.refresh around) := by
  have settled := watched.settled
  have sound := follows_sound settled.follows
  unfold Screen.refresh
  split
  · rename_i initial
    have empty := settled.unfilled initial
    have visible := refreshed_visible screen sound (populate_clean screen.store around sound empty)
      (populate_data screen.store around sound screen.tree empty)
      (populate_alive screen.store around sound screen.tree empty)
      (fun rec _ _ born held => by
        rw [watched.unseen initial] at held
        cases held)
    exact ⟨visible.rows, visible.data, visible.alive⟩
  · have shows := update_store_shows screen.store around screen.firstUpdate screen.tree.unpin sound settled.clean
    have visible := refreshed_visible screen sound
      (update_store_clean screen.store around screen.firstUpdate screen.tree.unpin sound settled.clean)
      (update_store_data screen.store around screen.firstUpdate screen.tree.unpin sound settled.clean)
      (fun rec mem status => by
        obtain ⟨row, listed, same, _⟩ := shows.alive rec mem status
        exact ⟨row, listed, same⟩)
      (fun rec mem status born held => by
        obtain ⟨row, listed, same, stamp⟩ := watched.visible.rows rec.pid born held
        rw [← stamp]
        exact sheltered_stays screen settled sheltered mem status listed same)
    exact ⟨visible.rows, visible.data, visible.alive⟩

theorem watched_step (action : ScreenAction) (watched : Watched screen)
    (permitted : PermittedSheltered screen action) : Watched (screen.step action) := by
  have settled := settled_step screen action watched.settled permitted.1
  have visible := watched.visible
  cases action with
  | snapshot update heap =>
    exact ⟨settled, watched.unseen, visible.rows, fun held => (nomatch held), fun held => (nomatch held)⟩
  | refresh around =>
    refine ⟨settled, ?_, refresh_visible screen around watched (permitted.2 around rfl)⟩
    change (screen.refresh around).initialRefresh → _
    unfold Screen.refresh
    split
    · exact fun later => (nomatch later)
    · rename_i later
      exact fun initial => absurd initial later
  | pin pinnedPids =>
    have rows := (rebuild_unpin permitted.1 screen.tree).1
    refine ⟨settled, watched.unseen, ?_, ?_, visible.alive⟩
    · change ∀ pid born, _ → ∃ row ∈ (removePinnedRows (rebuildPinnedRows pinnedPids screen.tree).rows).flat, _
      rw [rows]
      exact visible.rows
    · change _ → ∀ row ∈ (removePinnedRows (rebuildPinnedRows pinnedPids screen.tree).rows).flat, _
      rw [rows]
      exact visible.data
  | decorate looks =>
    have rows : (screen.tree.look looks).unpin.rows.flat =
        screen.tree.unpin.rows.flat.map fun row => row.look (looks row) := by rw [look_unpin, look_rows]
    refine ⟨settled, watched.unseen, ?_, ?_, visible.alive⟩
    · intro pid born held
      obtain ⟨row, listed, same, stamp⟩ := visible.rows pid born held
      refine ⟨row.look (looks row), ?_, same, stamp⟩
      change _ ∈ (screen.tree.look looks).unpin.rows.flat
      rw [rows]
      exact mem_map_of_mem listed
    · intro synced row mem
      change row ∈ (screen.tree.look looks).unpin.rows.flat at mem
      rw [rows] at mem
      obtain ⟨source, listed, rfl⟩ := mem_map.mp mem
      exact visible.data synced source listed

end

section

open Ipc (allGranted)

def tick : Option Update → ScreenAction
  | some update => .snapshot update allGranted
  | none => .refresh {}

def mayTick (screen : Screen) : Option Update → Bool
  | some update =>
    decide (update.pids.Nodup ∧ (screen.store.pids ++ update.pids).toFinset.card ≤ storeHtSize ∧
      (∀ earlier ∈ screen.history, earlier.now ≤ update.now) ∧
      ((procStoreUpdate update.snap update.now).run { store := screen.store, heap := allGranted }).2.refused = false)
  | none => decide (Sheltered screen)

def ticking (ticks : List (Option Update)) : Screen :=
  ticks.foldl (fun screen action => screen.step (tick action)) { store := procStoreInit true true true }

theorem may_tick (screen : Screen) (action : Option Update) (may : mayTick screen action) :
    PermittedSheltered screen (tick action) := by
  cases action with
  | none => exact ⟨trivial, fun _ _ => of_decide_eq_true may⟩
  | some update =>
    obtain ⟨distinct, few, ordered, fits⟩ := of_decide_eq_true may
    exact ⟨⟨distinct, few, ordered, fun _ => rfl, fits⟩, fun _ same => (nomatch same)⟩

theorem ticking_reached (ticks : List (Option Update))
    (passed : follows mayTick (fun screen action => screen.step (tick action)) ticks
      { store := procStoreInit true true true }) :
    Reachable Started PermittedSheltered Screen.step (ticking ticks) := by
  have all : Reachable Started (fun screen action => PermittedSheltered screen (tick action))
      (fun screen action => screen.step (tick action)) (ticking ticks) :=
    reachable_follows mayTick may_tick ticks _ (.start _ rfl) passed
  apply invariant (Reachable Started PermittedSheltered Screen.step) _ _ (ticking ticks) all
  · exact fun screen started => .start screen started
  · exact fun screen action earlier permitted => .step screen (tick action) earlier permitted

end

def rowUnder (family : Int32 × Int32) : ProcEntry := { namedRow family.1 with ppid := family.2 }

def families (list : List (Int32 × Int32)) (now : Int) : Option Update :=
  some ⟨{ entries := list.map rowUnder, strtab := ⟨[0, 97, 0], 3⟩ }, now⟩

theorem tree_shows_store (screen : Screen) (reached : Reachable Started Permitted Screen.step screen)
    (around : Surroundings) :
    TreeShows screen.store (updateStore screen.store around screen.firstUpdate screen.tree.unpin).rows := by
  have settled := invariant Settled started_settled settled_step screen reached
  exact update_store_shows screen.store around screen.firstUpdate screen.tree.unpin (follows_sound settled.follows)
    settled.clean

def tangled : List (Option Update) :=
  [families [(7, 9), (9, 7), (5, 5)] 0, none, families [(3, 4), (9, 7), (5, 5), (4, 5)] 5]

theorem tree_shows_store_tangled : TreeShows (ticking tangled).store
    (updateStore (ticking tangled).store {} (ticking tangled).firstUpdate (ticking tangled).tree.unpin).rows := by
  have reached := ticking_reached tangled (by decide +kernel)
  exact tree_shows_store _ (weaken (fun _ _ permitted => permitted.1) reached) {}

theorem dying_stays_visible (screen : Screen) (reached : Reachable Started PermittedSheltered Screen.step screen) :
    Visible screen :=
  (invariant Watched started_watched watched_step screen reached).visible

def staggered : List (Option Update) :=
  [families [(7, 1), (9, 7)] 0, none, families [(9, 7)] 5, none, families [] 1500000, none]

theorem dying_stays_visible_staggered : Visible (ticking staggered) :=
  dying_stays_visible _ (ticking_reached staggered (by decide +kernel))

theorem dying_row_removed :
    let screen := ticking (staggered ++ [families [] 2000006, none])
    screen.store.records.map (fun rec => (rec.pid, rec.status)) = [(9, .dying)] ∧ screen.shown 9 = some 0 ∧
      screen.tree.rows.flat.map Row.pid = [] := by decide +kernel

end Evemon.ProcTree
