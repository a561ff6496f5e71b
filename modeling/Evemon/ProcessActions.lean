import Evemon.TreeGroupRss

-- The signals of the process menu: whom "end process tree" is sent to.
namespace Evemon.ProcTree

open List Forest

def collectTreeDescendants : Forest Row → List Int32
  | .nil => []
  | .cons row children next => row.pid :: (collectTreeDescendants children ++ collectTreeDescendants next)

structure Target where
  pid : Int32
  startTicks : UInt64
  evemonInstance : UInt64

def Row.target (row : Row) : Target := ⟨row.pid, row.cells.startTicks, row.cells.evemonInstance⟩

-- Each PID is searched for again, from the last one collected to the PID itself.
def signalData (rows : Forest Row) (pid : Int32) (group : Bool) : List Target :=
  match findIterByPid rows pid with
  | none => []
  | some found =>
    let pids := if group then collectTreeDescendants found.2 else []
    (pid :: pids).reverse.filterMap fun target =>
      match findIterByPid rows target with
      | none => none
      | some (row, _) => if target > 1 then some { row.target with pid := target } else none

theorem collect_tree_descendants_flat (rows : Forest Row) : collectTreeDescendants rows = rows.flat.map Row.pid := by
  induction rows with
  | nil => rfl
  | cons row children next inner later => simp [collectTreeDescendants, inner, later]

theorem select_targets {rows} {selected : List Row}
    (found : ∀ row ∈ selected, ∃ below, findIterByPid rows row.pid = some (row, below)) :
    ((selected.map Row.pid).filterMap fun target =>
      match findIterByPid rows target with
      | none => none
      | some (row, _) => if target > 1 then some { row.target with pid := target } else none) =
      (selected.filter fun row => decide (row.pid > 1)).map Row.target := by
  induction selected with
  | nil => rfl
  | cons row rest ih =>
    obtain ⟨atRow, atRest⟩ := forall_mem_cons.mp found
    obtain ⟨below, search⟩ := atRow
    rw [map_cons, filterMap_cons, ih atRest, search, filter_cons]
    by_cases large : row.pid > 1
    · simp only [large, decide_true, if_true, map_cons]
      rfl
    · simp only [large, decide_false, Bool.false_eq_true, if_false]

section

variable {unpinned : Forest Row} (pinned : Forest Row)

theorem find_unpinned (distinct : (unpinned.flat.map Row.pid).Nodup) {branch : Row × Forest Row}
    (mem : branch ∈ unpinned.branches) : findIterByPid (unpinned.concat pinned) branch.1.pid = some branch := by
  have listed : branch.1 ∈ unpinned.flat := by
    rw [← branches_flat]
    exact mem_map_of_mem mem
  have some : ((unpinned.find? fun row => row.pid = branch.1.pid).map Prod.fst).isSome := by
    rw [find_flat, List.find?_isSome]
    exact ⟨branch.1, listed, decide_eq_true rfl⟩
  rw [Option.isSome_map, Option.isSome_iff_exists] at some
  obtain ⟨found, search⟩ := some
  obtain ⟨meant, kept⟩ := find_branch _ unpinned search
  have same := branch_unique distinct kept mem (of_decide_eq_true meant)
  rw [findIterByPid, find_concat, search, same]
  rfl

theorem signal_data_group (distinct : (unpinned.flat.map Row.pid).Nodup) {row : Row} {children : Forest Row}
    (mem : (row, children) ∈ unpinned.branches) :
    signalData (unpinned.concat pinned) row.pid true =
    ((row :: children.flat).reverse.filter fun row => decide (row.pid > 1)).map Row.target := by
  have inside := (branch_flat unpinned (row, children) mem).subset
  have found : ∀ below ∈ (row :: children.flat).reverse,
      ∃ lower, findIterByPid (unpinned.concat pinned) below.pid = some (below, lower) := by
    intro below listed
    obtain ⟨lower, branch⟩ := branch_of_flat unpinned below (inside (mem_reverse.mp listed))
    exact ⟨lower, find_unpinned pinned distinct branch⟩
  unfold signalData
  rw [find_unpinned pinned distinct mem]
  simp only [if_true, collect_tree_descendants_flat]
  rw [← map_cons, ← map_reverse]
  exact select_targets found

end

structure SubtreeTargets (row : Row) (children : Forest Row) (targets : List Target) : Prop where
  exact : ∀ target, target ∈ targets ↔ ∃ below ∈ row :: children.flat, 1 < below.pid ∧ target = below.target
  once : (targets.map Target.pid).Nodup
  ordered : ∀ branch ∈ (Forest.cons row children .nil).branches, ∀ below ∈ branch.2.flat,
    1 < branch.1.pid → 1 < below.pid → [below.target, branch.1.target].Sublist targets

theorem group_targets_exact (unpinned pinned : Forest Row) (distinct : (unpinned.flat.map Row.pid).Nodup)
    (copies : ∀ row ∈ pinned.flat, row.pid ∈ unpinned.flat.map Row.pid) (pid : Int32)
    (present : pid ∈ (unpinned.concat pinned).flat.map Row.pid) :
    ∃ row children, (row, children) ∈ unpinned.branches ∧ row.pid = pid ∧
    SubtreeTargets row children (signalData (unpinned.concat pinned) pid true) := by
  have own : pid ∈ unpinned.flat.map Row.pid := by
    rw [Forest.flat_concat, map_append, mem_append] at present
    obtain here | there := present
    · exact here
    · obtain ⟨row, mem, rfl⟩ := mem_map.mp there
      exact copies row mem
  obtain ⟨row, listed, rfl⟩ := mem_map.mp own
  obtain ⟨children, mem⟩ := Forest.branch_of_flat unpinned row listed
  refine ⟨row, children, mem, rfl, ?_⟩
  rw [signal_data_group pinned distinct mem]
  have pids : ((row :: children.flat).map Row.pid).Nodup :=
    distinct.sublist ((Forest.branch_flat unpinned (row, children) mem).map Row.pid)
  refine ⟨fun target => ?_, ?_, fun branch inside below lower large small => ?_⟩
  · simp only [mem_map, mem_filter, mem_reverse, decide_eq_true_eq]
    constructor
    · rintro ⟨below, ⟨found, large⟩, rfl⟩
      exact ⟨below, found, large, rfl⟩
    · rintro ⟨below, found, large, rfl⟩
      exact ⟨below, ⟨found, large⟩, rfl⟩
  · rw [map_map]
    refine (nodup_reverse.mpr pids).sublist ?_
    rw [← map_reverse]
    exact filter_sublist.map _
  · have nested : [branch.1, below].Sublist (row :: children.flat) := by
      have whole := Forest.branch_flat _ branch inside
      rw [Forest.flat_cons, Forest.flat_nil, append_nil] at whole
      exact ((singleton_sublist.mpr lower).cons_cons _).trans whole
    have kept := (nested.reverse.filter fun row => decide (row.pid > 1)).map Row.target
    simpa [large, small] using kept

def menuRow (node : Nat) (pid ppid : Int32) (pinnedRoot : Int32) : Row :=
  ⟨node, plainCells pid ppid 0, 0, 0, 0, 0, pinnedRoot, none, {}⟩

def menuRows : Forest Row :=
  .cons (menuRow 0 1 0 ptreeUnpinned) (.cons (menuRow 1 2 1 ptreeUnpinned) (.cons (menuRow 2 3 2 ptreeUnpinned) .nil .nil)
    .nil) .nil

def menuPinned : Forest Row := .cons (menuRow 3 2 1 2) (.cons (menuRow 4 3 2 2) .nil .nil) .nil

theorem group_targets_exact_pinned : ∃ row children, (row, children) ∈ menuRows.branches ∧ row.pid = 1 ∧
    SubtreeTargets row children (signalData (menuRows.concat menuPinned) 1 true) :=
  group_targets_exact menuRows menuPinned (by decide +kernel) (by decide +kernel) 1 (by decide +kernel)

end Evemon.ProcTree
