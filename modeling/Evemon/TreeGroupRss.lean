import Evemon.TreeStore

-- The group memory column: own memory and that of all below, through 32-bit columns.
namespace Evemon.ProcTree

open List

-- COL_RSS is a gint.
def Row.rss (row : Row) : Int32 := Int32.ofInt row.cells.memRssKb.toNat

structure GroupRow where
  row : Row
  total : Int

def computeGroupRss : Forest Row → Forest GroupRow × Int
  | .nil => (.nil, 0)
  | .cons row children next =>
    let below := computeGroupRss children
    let after := computeGroupRss next
    let total := row.rss.toInt + below.2
    let groupRss := Int32.ofInt total
    (.cons ⟨{ row with groupRss }, total⟩ below.1 after.1, groupRss.toInt + after.2)

def memorySum (rows : Forest Cells) : Nat := (rows.flat.map fun cells => cells.memRssKb.toNat).sum

def subtreeMemory (branch : Cells × Forest Cells) : Nat := branch.1.memRssKb.toNat + memorySum branch.2

def GroupRow.cells (group : GroupRow) : Cells := group.row.cells

structure GroupExact (group : GroupRow) (below : Forest GroupRow) : Prop where
  total : group.total = subtreeMemory (group.cells, below.map GroupRow.cells)
  stored : group.row.groupRss.toInt = subtreeMemory (group.cells, below.map GroupRow.cells)
  own : (group.cells.memRssKb.toNat : Int) ≤ group.row.groupRss.toInt
  children : ∀ child ∈ below.flat, child.row.groupRss ≤ group.row.groupRss

def Small (rows : Forest Cells) : Prop := ∀ branch ∈ rows.branches, subtreeMemory branch < 2 ^ 31

variable (cells : Cells)

theorem memory_sum_cons (children next : Forest Cells) :
    memorySum (.cons cells children next) = subtreeMemory (cells, children) + memorySum next := by
  simp [memorySum, subtreeMemory, Nat.add_assoc]

theorem small_cons (children next : Forest Cells) :
    Small (.cons cells children next) ↔ subtreeMemory (cells, children) < 2 ^ 31 ∧ Small children ∧ Small next := by
  simp only [Small, Forest.branches, forall_mem_cons, forall_mem_append]

theorem compute_group_rss_cells (rows : Forest Row) :
    (computeGroupRss rows).1.map GroupRow.cells = rows.map Row.cells := by
  induction rows with
  | nil => rfl
  | cons row children next inner later =>
    rw [computeGroupRss, Forest.map, Forest.map, inner, later]
    rfl

theorem total_exact {cells : Cells} {children : Forest Cells} (fits : subtreeMemory (cells, children) < 2 ^ 31) :
    (Int32.ofInt cells.memRssKb.toNat).toInt + (memorySum children : Int) = subtreeMemory (cells, children) ∧
    (Int32.ofInt (subtreeMemory (cells, children))).toInt = subtreeMemory (cells, children) := by
  simp only [subtreeMemory] at fits ⊢
  constructor
  · rw [Int32.toInt_ofInt_of_le (by omega) (by omega)]
    omega
  · exact Int32.toInt_ofInt_of_le (by omega) (by omega)

theorem compute_group_rss_exact {rows : Forest Row} (small : Small (rows.map Row.cells)) :
    (computeGroupRss rows).2 = memorySum (rows.map Row.cells) ∧
    (∀ branch ∈ (computeGroupRss rows).1.branches, GroupExact branch.1 branch.2) ∧
    ∀ group ∈ (computeGroupRss rows).1.flat, group.row.groupRss.toInt ≤ memorySum (rows.map Row.cells) := by
  induction rows with
  | nil => exact ⟨rfl, forall_mem_nil _, forall_mem_nil _⟩
  | cons row children next inner later =>
    rw [Forest.map, small_cons] at small
    obtain ⟨belowSum, belowExact, belowBound⟩ := inner small.2.1
    obtain ⟨afterSum, afterExact, afterBound⟩ := later small.2.2
    obtain ⟨total, stored⟩ := total_exact small.1
    have same : row.rss.toInt + (computeGroupRss children).2 = subtreeMemory (row.cells, children.map Row.cells) := by
      rw [belowSum]
      exact total
    have least : row.cells.memRssKb.toNat ≤ subtreeMemory (row.cells, children.map Row.cells) := Nat.le_add_right _ _
    have inside : memorySum (children.map Row.cells) ≤ subtreeMemory (row.cells, children.map Row.cells) :=
      Nat.le_add_left _ _
    rw [computeGroupRss, Forest.map, memory_sum_cons]
    simp only [same, stored, afterSum]
    refine ⟨by omega, ?_, ?_⟩
    · rw [Forest.branches, forall_mem_cons, forall_mem_append]
      refine ⟨⟨?_, ?_, ?_, fun child mem => ?_⟩, belowExact, afterExact⟩
      · rw [compute_group_rss_cells]
        rfl
      · rw [compute_group_rss_cells]
        exact stored
      · rw [stored]
        exact_mod_cast least
      · have bound := belowBound child mem
        rw [Int32.le_iff_toInt_le, stored]
        omega
    · rw [Forest.flat_cons, forall_mem_cons, forall_mem_append]
      refine ⟨?_, fun group mem => ?_, fun group mem => ?_⟩
      · rw [stored]
        omega
      · have bound := belowBound group mem
        omega
      · have bound := afterBound group mem
        omega

theorem small_of_exact {groups : Forest GroupRow} (exact : ∀ branch ∈ groups.branches, GroupExact branch.1 branch.2) :
    Small (groups.map GroupRow.cells) := by
  induction groups with
  | nil => exact forall_mem_nil _
  | cons group children next inner later =>
    rw [Forest.branches, forall_mem_cons, forall_mem_append] at exact
    rw [Forest.map, small_cons]
    refine ⟨?_, inner exact.2.1, later exact.2.2⟩
    have stored := exact.1.stored
    dsimp only at stored
    have bound := Int32.toInt_lt group.row.groupRss
    omega

theorem group_rss_exact_iff (rows : Forest Row) : (computeGroupRss rows).1.map GroupRow.cells = rows.map Row.cells ∧
    ((∀ branch ∈ (computeGroupRss rows).1.branches, GroupExact branch.1 branch.2) ↔
    ∀ branch ∈ (rows.map Row.cells).branches, subtreeMemory branch < 2 ^ 31) := by
  have cells := compute_group_rss_cells rows
  refine ⟨cells, fun exact => ?_, fun small => (compute_group_rss_exact small).2.1⟩
  rw [← cells]
  exact small_of_exact exact

def plainCells (pid ppid : Int32) (memRssKb : UInt64) : Cells := { pid, ppid, memRssKb }

theorem group_rss_wraps : ∃ branch ∈ (computeGroupRss (.cons ⟨0, plainCells 1 0 0, 0, 0, 0, 0, ptreeUnpinned, none, {}⟩
    (.cons ⟨1, plainCells 2 1 (2 ^ 31), 0, 0, 0, 0, ptreeUnpinned, none, {}⟩ .nil
    (.cons ⟨2, plainCells 3 1 (2 ^ 31), 0, 0, 0, 0, ptreeUnpinned, none, {}⟩ .nil .nil)) .nil)).1.branches,
    branch.1.total = -2 ^ 32 ∧ subtreeMemory (branch.1.cells, branch.2.map GroupRow.cells) = 2 ^ 32 ∧
    ¬ GroupExact branch.1 branch.2 := by
  refine ⟨_, mem_cons_self, by decide +kernel, by decide +kernel, fun exact => ?_⟩
  have total := exact.total
  revert total
  decide +kernel

end Evemon.ProcTree
