import Evemon.Lib.Runs
import Evemon.QtForest

namespace Evemon.Qt

open List

open AncestorStack (ancestor)

def Model.Built (m : Model) : Prop := Placed m m.nodes m.links

def Model.Spawned (m : Model) (upper lower : Int32) : Prop :=
  ∃ node ∈ m.nodes, node.row.died = 0 ∧ node.ppid = upper ∧ node.pid = lower

structure Consistent (m : Model) : Prop where
  ids : (m.nodes.map Node.id).Nodup
  pids : (m.nodes.map Node.pid).Nodup
  found : ∀ pid id, m.byPid pid = some id ↔ ∃ node ∈ m.nodes, node.pid = pid ∧ node.id = id
  acyclic : ∀ node ∈ m.nodes,
    ¬ Relation.TransGen (fun lower upper => m.links.parent lower = some upper) node.id node.id
  parents : ∀ node ∈ m.nodes, ∀ p, m.links.parent node.id = some p → p ∈ m.nodes.map Node.id
  placed : ∀ node ∈ m.nodes,
    (m.links.siblings (m.links.parent node.id))[m.links.position node.id]? = some node.id
  once : (m.links.roots ++ (m.nodes.map Node.id).flatMap m.links.children).Perm (m.nodes.map Node.id)
  memory : ∀ node ∈ m.nodes, ∃ heirs : List Node, heirs.Nodup ∧
    (∀ other, other ∈ heirs ↔
      other ∈ m.nodes ∧ other.row.died = 0 ∧ node ≠ other ∧ Relation.TransGen m.Above other node) ∧
    m.links.groupMemory node.id = node.rss + (heirs.map Node.rss).sum
  descendants : ∀ pid, (m.descendants pid).Nodup ∧
    ∀ found, found ∈ m.descendants pid ↔ found = pid ∨ Relation.TransGen m.Spawned pid found

structure Steady (before after : Model) : Prop where
  ids : after.nodes.map Node.id = before.nodes.map Node.id
  parent : ∀ node ∈ before.nodes, after.links.parent node.id = before.links.parent node.id
  position : ∀ node ∈ before.nodes, after.links.position node.id = before.links.position node.id

theorem filter_at {α : Type} {keep : α → Bool} {list : List α} {index : Nat} {item}
    (there : list[index]? = some item) (kept : keep item) :
    (list.filter keep)[(list.take index).countP keep]? = some item := by
  obtain ⟨bound, same⟩ := List.getElem?_eq_some_iff.mp there
  have split : list = list.take index ++ item :: list.drop (index + 1) := by
    rw [← same, getElem_cons_drop, take_append_drop]
  rw [countP_eq_length_filter]
  conv_lhs => rw [split, take_left' (length_take_of_le (Nat.le_of_lt bound)), filter_append]
  rw [List.getElem?_append_right (Nat.le_refl _), Nat.sub_self, filter_cons_of_pos kept]
  rfl

section

variable {m : Model} (indexed : Indexed m) (built : m.Built) (node : Node)

include indexed in
theorem parent_of_listed (p : Nat) (parent : m.parentOf node = some p) : p ∈ m.nodes.map Node.id := by
  obtain ⟨upper, listed, _, same⟩ := (indexed.found node.ppid p).mp (parent_of_cases parent).1
  exact mem_map.mpr ⟨upper, listed, same⟩

variable (slot : Option Nat)

include built in
theorem mem_siblings (id : Nat) :
    id ∈ m.links.siblings slot ↔ ∃ node ∈ m.nodes, node.id = id ∧ m.parentOf node = slot := by
  rw [built.siblings slot, mem_map]
  constructor
  · rintro ⟨node, listed, same⟩
    obtain ⟨among, there⟩ := mem_filter.mp listed
    exact ⟨node, among, same, of_decide_eq_true there⟩
  · rintro ⟨node, among, same, there⟩
    exact ⟨node, mem_filter.mpr ⟨among, decide_eq_true there⟩, same⟩

include indexed built

theorem siblings_nodup : (m.links.siblings slot).Nodup := by
  rw [built.siblings slot]
  exact indexed.ids.sublist (filter_sublist.map Node.id)

theorem siblings_apart {first second} {id : Nat} (here : id ∈ m.links.siblings first)
    (there : id ∈ m.links.siblings second) : first = second := by
  obtain ⟨node, listed, same, parent⟩ := (mem_siblings built first id).mp here
  obtain ⟨other, among, equal, above⟩ := (mem_siblings built second id).mp there
  rw [← parent, ← above, same_id indexed listed among (same.trans equal.symm)]

theorem parents_end {node : Node} (listed : node ∈ m.nodes) : ∃ steps, ancestor m.links.parent steps node.id = none := by
  cases parent : m.parentOf node with
  | none => exact ⟨1, by rw [ancestor, built.parent node listed, parent]; rfl⟩
  | some p =>
    obtain ⟨steps, ended⟩ := (ancestry_ends indexed listed).mp (parent_of_cases parent).2
    -- pinned nodes and nodes on a circle have no parent, so the chain may end earlier
    have shorter (steps : Nat) (lower : Node) (here : lower ∈ m.nodes)
        (ended : ancestor m.above steps lower.id = none) : ancestor m.links.parent steps lower.id = none := by
      induction steps generalizing lower with
      | zero => cases ended
      | succ steps ih =>
        rw [ancestor, built.parent lower here]
        cases up : m.parentOf lower with
        | none => rfl
        | some q =>
          have found := (parent_of_cases up).1
          obtain ⟨upper, there, rfl⟩ := mem_map.mp (parent_of_listed indexed lower q up)
          rw [ancestor, above_at indexed here, found] at ended
          exact ih upper there ended
    exact ⟨steps, shorter steps node listed ended⟩

omit indexed in
theorem node_placed (listed : node ∈ m.nodes) :
    (m.links.siblings (m.links.parent node.id))[m.links.position node.id]? = some node.id := by
  obtain ⟨index, there⟩ := mem_iff_getElem?.mp listed
  have counted : ((m.nodes.take index).map m.parentOf).count (m.parentOf node) =
      (m.nodes.take index).countP fun other => decide (m.parentOf other = m.parentOf node) := by
    rw [← siblings_length, length_map, countP_eq_length_filter]
  rw [built.parent node listed, built.siblings, built.position index node there, counted, List.getElem?_map,
    filter_at there (decide_eq_true rfl)]
  rfl

theorem each_once : (m.links.roots ++ (m.nodes.map Node.id).flatMap m.links.children).Perm (m.nodes.map Node.id) := by
  have nodup : (m.links.roots ++ (m.nodes.map Node.id).flatMap m.links.children).Nodup := by
    apply nodup_append.mpr
    refine ⟨siblings_nodup indexed built none, ?_, ?_⟩
    · apply nodup_flatMap.mpr
      refine ⟨fun p _ => siblings_nodup indexed built (some p), indexed.ids.imp ?_⟩
      intro p q different id here there
      exact different (Option.some.inj (siblings_apart indexed built here there))
    · intro id root other child same
      obtain ⟨p, _, below⟩ := mem_flatMap.mp child
      exact (nomatch @siblings_apart _ indexed built none (some p) id root (same ▸ below))
  apply (perm_ext_iff_of_nodup nodup indexed.ids).mpr
  intro id
  rw [mem_append, mem_flatMap, mem_map]
  constructor
  · rintro (root | ⟨p, _, child⟩)
    · obtain ⟨node, listed, same, _⟩ := (mem_siblings built none id).mp root
      exact ⟨node, listed, same⟩
    · obtain ⟨node, listed, same, _⟩ := (mem_siblings built (some p) id).mp child
      exact ⟨node, listed, same⟩
  · rintro ⟨node, listed, same⟩
    cases parent : m.parentOf node with
    | none => exact .inl ((mem_siblings built none id).mpr ⟨node, listed, same, parent⟩)
    | some p =>
      exact .inr ⟨p, parent_of_listed indexed node p parent,
        (mem_siblings built (some p) id).mpr ⟨node, listed, same, parent⟩⟩

theorem memory_summed (listed : node ∈ m.nodes) : ∃ heirs : List Node, heirs.Nodup ∧ (∀ other, other ∈ heirs ↔
    other ∈ m.nodes ∧ other.row.died = 0 ∧ node ≠ other ∧ Relation.TransGen m.Above other node) ∧
    m.links.groupMemory node.id = node.rss + (heirs.map Node.rss).sum := by
  refine ⟨m.nodes.filter fun other => other.alive && decide (node.id ∈ (m.ancestry other).1), ?_, ?_,
    (built.memory node.id).trans ?_⟩
  · exact (List.Nodup.of_map Node.id indexed.ids).filter _
  · intro other
    rw [mem_filter, Bool.and_eq_true, decide_eq_true_iff, Node.alive, decide_eq_true_iff]
    constructor
    · rintro ⟨among, alive, passed⟩
      exact ⟨among, alive, (ancestry_iff indexed among listed).mp passed⟩
    · rintro ⟨among, alive, above⟩
      exact ⟨among, alive, (ancestry_iff indexed among listed).mpr above⟩
  · congr 1
    change ((m.node node.id).map Node.rss).getD 0 = node.rss
    rw [(node_eq_some indexed node.id node).mpr ⟨listed, rfl⟩]
    rfl

end

theorem mem_offspring (m : Model) (upper lower : Int32) : lower ∈ m.offspring upper ↔ m.Spawned upper lower := by
  simp only [Model.offspring, mem_map, mem_filter, Bool.and_eq_true, decide_eq_true_eq, Node.alive,
    Model.Spawned, and_assoc]

theorem descendants_spec (m : Model) (pid : Int32) : (m.descendants pid).Nodup ∧
    ∀ found, found ∈ m.descendants pid ↔ found = pid ∨ Relation.TransGen m.Spawned pid found := by
  have bounded (upper : Int32) : ∀ lower ∈ m.offspring upper, lower ∈ m.nodes.map Node.pid := by
    intro lower below
    obtain ⟨node, listed, _, _, same⟩ := (mem_offspring m upper lower).mp below
    exact mem_map.mpr ⟨node, listed, same⟩
  obtain ⟨nodup, spec⟩ := Worklist.search_spec m.offspring bounded (m.nodes.length + 1) pid (by rw [length_map])
  refine ⟨nodup, fun found => (spec found).trans ?_⟩
  simp only [mem_offspring]
  exact Relation.reflTransGen_iff_eq_or_transGen

theorem consistent_of_built {m} (indexed : Indexed m) (built : m.Built) : Consistent m where
  ids := indexed.ids
  pids := indexed.pids
  found := indexed.found
  parents := fun node listed p parent => parent_of_listed indexed node p ((built.parent node listed).symm.trans parent)
  acyclic := by
    intro node listed
    obtain ⟨steps, ended⟩ := parents_end indexed built listed
    exact ParentWalk.acyclic_of_end steps ended
  placed := node_placed built
  once := each_once indexed built
  memory := memory_summed indexed built
  descendants := descendants_spec m

section

theorem indexed_map {m} (indexed : Indexed m) (change : Node → Node)
    (kept : ∀ node ∈ m.nodes, (change node).id = node.id ∧ (change node).pid = node.pid) :
    Indexed { m with nodes := m.nodes.map change } := by
  have sameIds : (m.nodes.map change).map Node.id = m.nodes.map Node.id := by
    rw [map_map]
    exact map_congr_left fun node listed => (kept node listed).1
  have samePids : (m.nodes.map change).map Node.pid = m.nodes.map Node.pid := by
    rw [map_map]
    exact map_congr_left fun node listed => (kept node listed).2
  constructor
  · exact sameIds ▸ indexed.ids
  · exact samePids ▸ indexed.pids
  · intro pid id
    rw [indexed.found pid id]
    constructor
    · rintro ⟨node, listed, samePid, sameId⟩
      exact ⟨change node, mem_map_of_mem listed, (kept node listed).2.trans samePid, (kept node listed).1.trans sameId⟩
    · rintro ⟨changed, listed, samePid, sameId⟩
      obtain ⟨node, among, rfl⟩ := mem_map.mp listed
      exact ⟨node, among, (kept node among).2.symm.trans samePid, (kept node among).1.symm.trans sameId⟩
  · intro changed listed
    obtain ⟨node, among, rfl⟩ := mem_map.mp listed
    exact (kept node among).1 ▸ indexed.fresh node among

variable (m : Model) (now : Int)

theorem accept_indexed (m : Model) (row : ProcessRow) (indexed : Indexed m) : Indexed (m.accept now row) := by
  cases found : m.byPid row.entry.pid with
  | some id =>
    rw [Model.accept, found]
    apply indexed_map indexed
    intro node listed
    split
    · rename_i same
      obtain ⟨other, among, pid, equal⟩ := (indexed.found row.entry.pid id).mp found
      rw [same_id indexed listed among (same.trans equal.symm)]
      exact ⟨rfl, pid.symm⟩
    · exact ⟨rfl, rfl⟩
  | none =>
    have absent (node : Node) (listed : node ∈ m.nodes) : node.pid ≠ row.entry.pid := by
      intro same
      have known := (indexed.found row.entry.pid node.id).mpr ⟨node, listed, same, rfl⟩
      rw [found] at known
      cases known
    rw [Model.accept, found]
    constructor
    · rw [map_append]
      refine indexed.ids.append (nodup_singleton _) (disjoint_singleton.mpr fun listed => ?_)
      obtain ⟨node, among, same⟩ := mem_map.mp listed
      exact Nat.ne_of_lt (indexed.fresh node among) same
    · rw [map_append]
      refine indexed.pids.append (nodup_singleton _) (disjoint_singleton.mpr fun listed => ?_)
      obtain ⟨node, among, same⟩ := mem_map.mp listed
      exact absent node among same
    · intro pid id
      simp only [mem_append, mem_singleton]
      by_cases same : pid = row.entry.pid
      · rw [same, Function.update_self]
        constructor
        · intro new
          exact ⟨_, .inr rfl, rfl, Option.some.inj new⟩
        · rintro ⟨node, old | rfl, samePid, sameId⟩
          · exact absurd samePid (absent node old)
          · exact congrArg some sameId
      · rw [Function.update_of_ne same, indexed.found pid id]
        constructor
        · rintro ⟨node, old, rest⟩
          exact ⟨node, .inl old, rest⟩
        · rintro ⟨node, old | rfl, samePid, sameId⟩
          · exact ⟨node, old, samePid, sameId⟩
          · exact absurd samePid.symm same
    · intro node listed
      rcases mem_append.mp listed with old | _ | ⟨_, ⟨⟩⟩
      · exact Nat.lt_succ_of_lt (indexed.fresh node old)
      · exact Nat.lt_succ_self _

variable (rows : List ProcessRow)

theorem accept_all_indexed (m : Model) (indexed : Indexed m) : Indexed (rows.foldl (Model.accept now) m) := by
  induction rows generalizing m with
  | nil => exact indexed
  | cons row rows ih => exact ih _ (accept_indexed now m row indexed)

theorem bury_indexed (seen : List Int32) (now : Int) (indexed : Indexed m) : Indexed (m.bury seen now) := by
  apply indexed_map indexed
  intro node _
  split
  · exact ⟨rfl, rfl⟩
  · exact ⟨rfl, rfl⟩

theorem erase_indexed (indexed : Indexed m) : Indexed (m.erase now) where
  ids := indexed.ids.sublist (filter_sublist.map Node.id)
  pids := indexed.pids.sublist (filter_sublist.map Node.pid)
  found := by
    intro pid id
    have gone_iff : pid ∈ (m.nodes.filter (Model.expired now)).map Node.pid ↔
        ∃ node ∈ m.nodes, Model.expired now node ∧ node.pid = pid := by
      simp only [mem_map, mem_filter, and_assoc]
    have byPid : (m.erase now).byPid pid =
        if pid ∈ (m.nodes.filter (Model.expired now)).map Node.pid then none else m.byPid pid := rfl
    rw [byPid]
    constructor
    · intro kept
      by_cases gone : pid ∈ (m.nodes.filter (Model.expired now)).map Node.pid
      · rw [if_pos gone] at kept
        cases kept
      · rw [if_neg gone] at kept
        obtain ⟨node, listed, samePid, sameId⟩ := (indexed.found pid id).mp kept
        have living : ¬ Model.expired now node := fun ended => gone (gone_iff.mpr ⟨node, listed, ended, samePid⟩)
        exact ⟨node, mem_filter.mpr ⟨listed, by simp [living]⟩, samePid, sameId⟩
    · rintro ⟨node, stays, samePid, sameId⟩
      obtain ⟨listed, living⟩ := mem_filter.mp stays
      have kept : pid ∉ (m.nodes.filter (Model.expired now)).map Node.pid := by
        intro gone
        obtain ⟨other, among, ended, equal⟩ := gone_iff.mp gone
        rw [same_pid indexed among listed (equal.trans samePid.symm)] at ended
        rw [ended] at living
        cases living
      rw [if_neg kept]
      exact (indexed.found pid id).mpr ⟨node, listed, samePid, sameId⟩
  fresh := fun node listed => indexed.fresh node (mem_of_mem_filter listed)

theorem rebuild_built (indexed : Indexed m) : m.rebuild.Built :=
  have placed := rebuild_placed indexed
  ⟨placed.parent, placed.siblings, placed.position, placed.memory⟩

def Model.received (m : Model) (rows : List ProcessRow) (now : Int) : Model :=
  let kept := (rows.foldl (Model.accept now) m).bury (rows.map fun row => row.entry.pid) now
  if m.topology rows now then kept.erase now else kept

theorem received_indexed (now : Int) (indexed : Indexed m) : Indexed (m.received rows now) := by
  have kept := bury_indexed _ (rows.map fun row => row.entry.pid) now (accept_all_indexed now rows m indexed)
  unfold Model.received
  split
  · exact erase_indexed _ now kept
  · exact kept

theorem refresh_cases (s : ProcSnapshot) (now : Int) : m.refresh s now = (m, false) ∨
    m.refresh s now = ({ (m.received (s.entries.map (processRow s)) now).rebuild with firstSnapshot := false },
      m.topology (s.entries.map (processRow s)) now) := by
  by_cases empty : (s.entries.map (processRow s)).isEmpty
  · exact .inl (if_pos empty)
  · exact .inr (if_neg empty)

end

section

structure SameFrame (before after : Model) : Prop where
  nodes : (after.nodes.map fun node => (node.id, node.pid, node.ppid)) =
    before.nodes.map fun node => (node.id, node.pid, node.ppid)
  byPid : after.byPid = before.byPid
  pins : after.pins = before.pins

theorem frame_map {before current} (same : SameFrame before current) (change : Node → Node)
    (kept : ∀ node ∈ current.nodes,
      ((change node).id, (change node).pid, (change node).ppid) = (node.id, node.pid, node.ppid)) :
    SameFrame before { current with nodes := current.nodes.map change } where
  nodes := by
    rw [← same.nodes, map_map]
    exact map_congr_left kept
  byPid := same.byPid
  pins := same.pins

theorem frame_accept (now : Int) {before current} {row} (indexed : Indexed before)
    (same : SameFrame before current) (still : before.moved row = false) : SameFrame before (current.accept now row) := by
  unfold Model.moved at still
  split at still
  · cases still
  · rename_i node found
    obtain ⟨id, known, read⟩ := Option.bind_eq_some_iff.mp found
    obtain ⟨listed, sameId⟩ := (node_eq_some indexed id node).mp read
    obtain ⟨other, among, samePid, equal⟩ := (indexed.found row.entry.pid id).mp known
    rw [same_id indexed among listed (equal.trans sameId.symm)] at samePid
    rw [Bool.or_eq_false_iff, decide_eq_false_iff_not, not_not] at still
    have present : current.byPid row.entry.pid = some id := (congrFun same.byPid _).trans known
    rw [Model.accept, present]
    apply frame_map same
    intro shown here
    split
    · rename_i meant
      have core : (shown.id, shown.pid, shown.ppid) ∈ before.nodes.map fun node => (node.id, node.pid, node.ppid) :=
        same.nodes ▸ mem_map_of_mem here
      obtain ⟨old, there, equal⟩ := mem_map.mp core
      simp only [Prod.mk.injEq] at equal
      rw [same_id indexed there listed (equal.1.trans (meant.trans sameId.symm))] at equal
      rw [← equal.2.1, ← equal.2.2, samePid, still.1]
      rfl
    · rfl

theorem frame_accept_all (now : Int) {before} {rows : List ProcessRow} (current : Model)
    (indexed : Indexed before) (same : SameFrame before current) (still : ∀ row ∈ rows, before.moved row = false) :
    SameFrame before (rows.foldl (Model.accept now) current) := by
  induction rows generalizing current with
  | nil => exact same
  | cons row rows ih =>
    obtain ⟨first, rest⟩ := forall_mem_cons.mp still
    exact ih _ (frame_accept now indexed same first) rest

theorem frame_received {m} {rows} {now} (indexed : Indexed m)
    (still : m.topology rows now = false) : SameFrame m (m.received rows now) := by
  have unmoved : ∀ row ∈ rows, m.moved row = false := by
    intro row listed
    rw [Model.topology, Bool.or_eq_false_iff, any_eq_false] at still
    exact Bool.eq_false_iff.mpr (still.1 row listed)
  have accepted := frame_accept_all now m indexed ⟨rfl, rfl, rfl⟩ unmoved
  rw [Model.received, still]
  apply frame_map accepted
  intro node _
  split
  · rfl
  · rfl

variable {before after : Model} (same : SameFrame before after)

include same

theorem frame_node {id} : ((after.node id).map fun node => (node.id, node.pid, node.ppid)) =
    (before.node id).map fun node => (node.id, node.pid, node.ppid) := by
  have read (m : Model) : ((m.node id).map fun node => (node.id, node.pid, node.ppid)) =
      (m.nodes.map fun node => (node.id, node.pid, node.ppid)).find? fun core => core.1 == id := by
    rw [List.find?_map]
    rfl
  rw [read after, read before, same.nodes]

theorem frame_pid_at : after.pidAt = before.pidAt := by
  funext id
  have read (m : Model) : m.pidAt id =
      (((m.node id).map fun node => (node.id, node.pid, node.ppid)).map fun core => core.2.1).getD 0 := by
    rw [Option.map_map]
    rfl
  rw [read after, read before, frame_node same]

theorem frame_above : after.above = before.above := by
  funext id
  have read (m : Model) : m.above id =
      ((m.node id).map fun node => (node.id, node.pid, node.ppid)).bind fun core => m.byPid core.2.2 := by
    rw [Option.bind_map]
    rfl
  rw [read after, read before, frame_node same, same.byPid]

theorem frame_parent_of {node other : Node} (equal : (other.id, other.pid, other.ppid) = (node.id, node.pid, node.ppid)) :
    after.parentOf other = before.parentOf node := by
  simp only [Prod.mk.injEq] at equal
  have length : after.nodes.length = before.nodes.length := by
    have lengths := congrArg List.length same.nodes
    rwa [length_map, length_map] at lengths
  have ancestry : after.ancestry other = before.ancestry node := by
    rw [Model.ancestry, Model.ancestry, frame_above same, frame_pid_at same, same.byPid, length, equal.2.1, equal.2.2]
  rw [Model.parentOf, Model.parentOf, ancestry, same.byPid, same.pins, equal.1, equal.2.1, equal.2.2]

theorem frame_at {index : Nat} {node} (there : before.nodes[index]? = some node) :
    ∃ other, after.nodes[index]? = some other ∧ other.id = node.id ∧ after.parentOf other = before.parentOf node := by
  have cores := congrArg (fun list => list[index]?) same.nodes
  simp only [List.getElem?_map, there, Option.map_some, Option.map_eq_some_iff] at cores
  obtain ⟨other, here, equal⟩ := cores
  exact ⟨other, here, congrArg (·.1) equal, frame_parent_of same equal⟩

theorem frame_parents : after.nodes.map after.parentOf = before.nodes.map before.parentOf := by
  apply ext_getElem?
  intro index
  rw [List.getElem?_map, List.getElem?_map]
  cases there : before.nodes[index]? with
  | some node =>
    obtain ⟨other, here, _, parent⟩ := frame_at same there
    rw [here, Option.map_some, Option.map_some, parent]
  | none =>
    have cores := congrArg (fun list => list[index]?) same.nodes
    simp only [List.getElem?_map, there, Option.map_none, Option.map_eq_none_iff] at cores
    rw [cores]
    rfl

theorem frame_steady (first : before.Built) (second : after.Built) : Steady before after := by
  have kept (node : Node) (listed : node ∈ before.nodes) : after.links.parent node.id = before.links.parent node.id ∧
      after.links.position node.id = before.links.position node.id := by
    obtain ⟨index, there⟩ := mem_iff_getElem?.mp listed
    obtain ⟨other, here, id, parent⟩ := frame_at same there
    rw [first.parent node listed, first.position index node there, ← id,
      second.parent other (mem_of_getElem? here), second.position index other here, parent, map_take,
      map_take, frame_parents same]
    exact ⟨rfl, rfl⟩
  constructor
  · have ids := congrArg (List.map fun core : Nat × Int32 × Int32 => core.1) same.nodes
    rwa [map_map, map_map] at ids
  · exact fun node listed => (kept node listed).1
  · exact fun node listed => (kept node listed).2

end

inductive Call where
  | refresh (s : ProcSnapshot) (now : Int)
  | pin (pid : Int32)

def Model.call (m : Model) : Call → Model
  | .refresh s now => (m.refresh s now).1
  | .pin pid => m.pin pid

def Model.Opened (m : Model) : Prop := ∃ pins first, m = { pins := pins, firstSnapshot := first }

theorem opened_sound (m : Model) (opened : m.Opened) : Indexed m ∧ m.Built := by
  obtain ⟨pins, first, rfl⟩ := opened
  constructor
  · constructor
    · exact .nil
    · exact .nil
    · intro pid id
      constructor
      · exact fun absent => (nomatch absent)
      · exact fun ⟨_, listed, _⟩ => (nomatch listed)
    · exact fun _ listed => (nomatch listed)
  · constructor
    · exact fun _ listed => (nomatch listed)
    · intro slot
      cases slot <;> rfl
    · exact fun _ _ absent => (nomatch absent)
    · intro id
      rfl

theorem call_sound {m} (call : Call) (sound : Indexed m ∧ m.Built) :
    Indexed (m.call call) ∧ (m.call call).Built := by
  cases call with
  | refresh s now =>
    rw [Model.call]
    cases refresh_cases m s now with
    | inl unchanged =>
      rw [unchanged]
      exact sound
    | inr rebuilt =>
      rw [rebuilt]
      have indexed := received_indexed m (s.entries.map (processRow s)) now sound.1
      have built := rebuild_built _ indexed
      exact ⟨⟨indexed.ids, indexed.pids, indexed.found, indexed.fresh⟩,
        ⟨built.parent, built.siblings, built.position, built.memory⟩⟩
  | pin pid =>
    have indexed : Indexed { m with pins := if pid ∈ m.pins then m.pins.filter (· ≠ pid) else pid :: m.pins } :=
      ⟨sound.1.ids, sound.1.pids, sound.1.found, sound.1.fresh⟩
    exact ⟨⟨indexed.ids, indexed.pids, indexed.found, indexed.fresh⟩, rebuild_built _ indexed⟩

theorem refresh_steady {m} (s : ProcSnapshot) (now : Int) (indexed : Indexed m) (built : m.Built)
    (still : (m.refresh s now).2 = false) : Steady m (m.refresh s now).1 := by
  cases refresh_cases m s now with
  | inl unchanged =>
    rw [unchanged]
    exact ⟨rfl, fun _ _ => rfl, fun _ _ => rfl⟩
  | inr rebuilt =>
    rw [rebuilt] at still ⊢
    have same := frame_received indexed still
    have after := rebuild_built _ (received_indexed m (s.entries.map (processRow s)) now indexed)
    exact frame_steady ⟨same.nodes, same.byPid, same.pins⟩ built
      ⟨after.parent, after.siblings, after.position, after.memory⟩

-- After any calls the nodes are a forest with the totals of their ancestry; a refresh that does not
-- reset the model leaves every node where it is.
theorem model_stays_forest (m : Model) (reached : Runs.Reachable Model.Opened (fun _ _ => True) Model.call m) :
    Consistent m ∧ ∀ s now, (m.refresh s now).2 = false → Steady m (m.refresh s now).1 := by
  have sound : Indexed m ∧ m.Built :=
    Runs.invariant (fun m => Indexed m ∧ m.Built) opened_sound (fun m call sound _ => call_sound call sound) m reached
  exact ⟨consistent_of_built sound.1 sound.2, fun s now => refresh_steady s now sound.1 sound.2⟩

def processUnder (family : Int32 × Int32) : ProcEntry where
  pid := family.1
  ppid := family.2
  memRssKb := 10
  startTime := 7

def listing (families : List (Int32 × Int32)) : ProcSnapshot := { entries := families.map processUnder }

def tangled : Model :=
  [Call.refresh (listing [(1, 0), (2, 1), (3, 2), (5, 6), (6, 5), (7, 6), (8, 8), (9, 4)]) 1000, .pin 3,
    .refresh (listing [(1, 0), (3, 2), (5, 6), (6, 5), (7, 6), (8, 8), (9, 4)]) 1500].foldl Model.call {}

theorem model_stays_forest_tangled : tangled.links.roots = [0, 2, 3, 4, 5, 6, 7] ∧ tangled.links.children 0 = [1] ∧
    tangled.links.groupMemory 0 = 20 ∧ tangled.links.groupMemory 3 = 30 ∧ tangled.descendants 6 = [6, 5, 7] ∧
    Consistent tangled ∧ ∀ s now, (tangled.refresh s now).2 = false → Steady tangled (tangled.refresh s now).1 := by
  have reached : Runs.Reachable Model.Opened (fun _ _ => True) Model.call tangled := by
    have opened : Model.Opened {} := ⟨[], true, rfl⟩
    rw [tangled]
    exact Runs.reachable_follows (fun _ _ => true) (fun _ _ _ => trivial) _ _ (.start _ opened) rfl
  exact ⟨by decide +kernel, by decide +kernel, by decide +kernel, by decide +kernel, by decide +kernel,
    model_stays_forest tangled reached⟩

end Evemon.Qt
