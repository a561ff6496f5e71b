import Evemon.QtModel

namespace Evemon.Qt

open List Function ParentWalk

open AncestorStack (ancestor)

structure Indexed (m : Model) : Prop where
  ids : (m.nodes.map Node.id).Nodup
  pids : (m.nodes.map Node.pid).Nodup
  found : ∀ pid id, m.byPid pid = some id ↔ ∃ node ∈ m.nodes, node.pid = pid ∧ node.id = id
  fresh : ∀ node ∈ m.nodes, node.id < m.nextId

def Model.Above (m : Model) (lower upper : Node) : Prop :=
  lower ∈ m.nodes ∧ upper ∈ m.nodes ∧ upper.pid = lower.ppid

section

variable {m : Model} (indexed : Indexed m)

include indexed

theorem same_id {first second : Node} (here : first ∈ m.nodes) (there : second ∈ m.nodes)
    (same : first.id = second.id) : first = second := inj_on_of_nodup_map indexed.ids here there same

theorem same_pid {first second : Node} (here : first ∈ m.nodes) (there : second ∈ m.nodes)
    (same : first.pid = second.pid) : first = second := inj_on_of_nodup_map indexed.pids here there same

theorem node_eq_some (id : Nat) (node : Node) : m.node id = some node ↔ node ∈ m.nodes ∧ node.id = id := by
  constructor
  · intro found
    exact ⟨mem_of_find?_eq_some found, by simpa using List.find?_some found⟩
  · rintro ⟨listed, rfl⟩
    cases found : m.node node.id with
    | none =>
      have missing := List.find?_eq_none.mp found node listed
      simp at missing
    | some other =>
      have same : other.id = node.id := by simpa using List.find?_some found
      rw [same_id indexed (mem_of_find?_eq_some found) listed same]

variable {node lower upper : Node}

theorem pid_at (listed : node ∈ m.nodes) : m.pidAt node.id = node.pid := by
  rw [Model.pidAt, (node_eq_some indexed node.id node).mpr ⟨listed, rfl⟩]
  rfl

theorem above_at (listed : node ∈ m.nodes) : m.above node.id = m.byPid node.ppid := by
  rw [Model.above, (node_eq_some indexed node.id node).mpr ⟨listed, rfl⟩]
  rfl

theorem above_listed (lower upper : Nat) (up : m.above lower = some upper) : upper ∈ m.nodes.map Node.id := by
  rw [Model.above, Option.bind_eq_some_iff] at up
  obtain ⟨node, _, found⟩ := up
  obtain ⟨parent, listed, _, same⟩ := (indexed.found node.ppid upper).mp found
  exact mem_map.mpr ⟨parent, listed, same⟩

theorem above_iff (here : lower ∈ m.nodes) (there : upper ∈ m.nodes) :
    m.above lower.id = some upper.id ↔ m.Above lower upper := by
  rw [above_at indexed here, indexed.found]
  constructor
  · rintro ⟨other, listed, pid, id⟩
    exact ⟨here, there, same_id indexed listed there id ▸ pid⟩
  · exact fun up => ⟨upper, there, up.2.2, rfl⟩

theorem pids_distinct (first : Nat) (here : first ∈ m.nodes.map Node.id) (second : Nat)
    (there : second ∈ m.nodes.map Node.id) (same : m.pidAt first = m.pidAt second) : first = second := by
  obtain ⟨left, leftListed, rfl⟩ := mem_map.mp here
  obtain ⟨right, rightListed, rfl⟩ := mem_map.mp there
  rw [pid_at indexed leftListed, pid_at indexed rightListed] at same
  rw [same_pid indexed leftListed rightListed same]

theorem ancestry_walk (listed : node ∈ m.nodes) : m.ancestry node =
    ParentWalk.walk m.above m.pidAt (m.nodes.length + 1) [m.pidAt node.id] (m.above node.id) := by
  rw [Model.ancestry, pid_at indexed listed, above_at indexed listed]

theorem mem_ancestry (listed : node ∈ m.nodes) (id : Nat) :
    id ∈ (m.ancestry node).1 ↔ id ≠ node.id ∧ ∃ steps, ancestor m.above steps node.id = some id := by
  rw [ancestry_walk indexed listed]
  apply mem_walk m.above m.pidAt (above_listed indexed) (pids_distinct indexed)
  · exact mem_map_of_mem listed
  · rw [length_map]
    exact Nat.lt_succ_self _

theorem ancestry_nodup (listed : node ∈ m.nodes) : (m.ancestry node).1.Nodup := by
  rw [ancestry_walk indexed listed]
  apply (walk_from m.above m.pidAt (above_listed indexed) (pids_distinct indexed) _ node.id _ _).nodup
  · exact mem_map_of_mem listed
  · rw [length_map]
    exact Nat.lt_succ_self _

theorem ancestry_ends (listed : node ∈ m.nodes) :
    (m.ancestry node).2 = none ↔ ∃ steps, ancestor m.above steps node.id = none := by
  rw [ancestry_walk indexed listed]
  apply walk_ends m.above m.pidAt (above_listed indexed) (pids_distinct indexed)
  · exact mem_map_of_mem listed
  · rw [length_map]
    exact Nat.lt_succ_self _

theorem reach_listed {lower upper}
    (up : Relation.TransGen (fun first second => m.above first = some second) lower upper)
    {node : Node} (listed : node ∈ m.nodes) (same : node.id = lower) :
    ∃ top ∈ m.nodes, top.id = upper ∧ Relation.TransGen m.Above node top := by
  induction up with
  | single step =>
    obtain ⟨top, there, rfl⟩ := mem_map.mp (above_listed indexed _ _ step)
    exact ⟨top, there, rfl, .single ((above_iff indexed listed there).mp (same ▸ step))⟩
  | tail _ step ih =>
    obtain ⟨middle, between, rfl, reached⟩ := ih
    obtain ⟨top, there, rfl⟩ := mem_map.mp (above_listed indexed _ _ step)
    exact ⟨top, there, rfl, reached.tail ((above_iff indexed between there).mp step)⟩

theorem above_steps (up : Relation.TransGen m.Above lower upper) :
    Relation.TransGen (fun first second => m.above first = some second) lower.id upper.id :=
  up.lift Node.id fun _ _ step => (above_iff indexed step.1 step.2.1).mpr step

theorem ancestry_iff (here : lower ∈ m.nodes) (there : upper ∈ m.nodes) :
    upper.id ∈ (m.ancestry lower).1 ↔ upper ≠ lower ∧ Relation.TransGen m.Above lower upper := by
  rw [mem_ancestry indexed here]
  constructor
  · rintro ⟨other, steps, reached⟩
    refine ⟨fun same => other (congrArg Node.id same), ?_⟩
    cases steps with
    | zero => exact absurd (Option.some.inj reached).symm other
    | succ steps =>
      obtain ⟨top, listed, same, up⟩ :=
        reach_listed indexed (steps_reach steps _ _ reached) here rfl
      rwa [same_id indexed listed there same] at up
  · rintro ⟨other, up⟩
    obtain ⟨steps, _, reached⟩ := reach_steps _ _ (above_steps indexed up)
    exact ⟨fun same => other (same_id indexed there here same), steps, reached⟩

end

theorem parent_of_cases {m : Model} {node} {p} (parent : m.parentOf node = some p) :
    m.byPid node.ppid = some p ∧ (m.ancestry node).2 = none := by
  unfold Model.parentOf at parent
  split at parent
  · cases parent
  · rename_i found
    split at parent
    · cases stopped : (m.ancestry node).2 with
      | none =>
        rw [stopped] at parent
        exact ⟨found.trans parent, rfl⟩
      | some met =>
        rw [stopped] at parent
        cases parent
    · cases parent

section

variable {m : Model} {passed : List Nat}

theorem totals_links (node : Node) (links : Links) : (passed.foldl (Links.addTotals node) links).parent = links.parent ∧
    (passed.foldl (Links.addTotals node) links).position = links.position ∧
    (passed.foldl (Links.addTotals node) links).siblings = links.siblings := by
  induction passed generalizing links with
  | nil => exact ⟨rfl, rfl, rfl⟩
  | cons id passed ih =>
    obtain ⟨parent, position, siblings⟩ := ih (links.addTotals node id)
    exact ⟨parent, position, siblings.trans (funext fun slot => by cases slot <;> rfl)⟩

theorem totals_memory (node : Node) (links : Links) (nodup : passed.Nodup) (id : Nat) :
    (passed.foldl (Links.addTotals node) links).groupMemory id =
    if id ∈ passed then links.groupMemory id + node.rss else links.groupMemory id := by
  induction passed generalizing links with
  | nil => rfl
  | cons first passed ih =>
    obtain ⟨once, later⟩ := nodup_cons.mp nodup
    rw [foldl_cons, ih _ later]
    by_cases same : id = first
    · rw [same, if_neg once, if_pos mem_cons_self]
      exact update_self ..
    · have other : (links.addTotals node first).groupMemory id = links.groupMemory id := update_of_ne same ..
      simp only [mem_cons, same, false_or, other]

theorem append_links (links : Links) (id : Nat) (slot : Option Nat) :
    (links.append id slot).parent = links.parent ∧ (links.append id slot).position = links.position ∧
    (links.append id slot).groupMemory = links.groupMemory := by
  cases slot with
  | none | some p => exact ⟨rfl, rfl, rfl⟩

theorem append_siblings (links : Links) (id : Nat) (slot other : Option Nat) : (links.append id slot).siblings other =
    if slot = other then links.siblings other ++ [id] else links.siblings other := by
  cases slot with
  | none => cases other <;> rfl
  | some p =>
    cases other with
    | none => rfl
    | some q =>
      by_cases same : p = q
      · rw [if_pos (congrArg some same), same]
        exact update_self ..
      · rw [if_neg fun equal => same (Option.some.inj equal)]
        exact update_of_ne (Ne.symm same) ..

structure Placed (m : Model) (done : List Node) (links : Links) : Prop where
  parent : ∀ node ∈ done, links.parent node.id = m.parentOf node
  siblings : ∀ slot, links.siblings slot = (done.filter fun node => decide (m.parentOf node = slot)).map Node.id
  position : ∀ index node, done[index]? = some node →
    links.position node.id = ((done.take index).map m.parentOf).count (m.parentOf node)
  memory : ∀ id, links.groupMemory id = m.cleared.groupMemory id +
    ((done.filter fun node => node.alive && decide (id ∈ (m.ancestry node).1)).map Node.rss).sum

theorem placed_start (m : Model) : Placed m [] m.cleared where
  parent := fun _ listed => (nomatch listed)
  siblings := fun slot => by cases slot <;> rfl
  position := fun _ _ absent => (nomatch absent)
  memory := fun id => by simp

theorem siblings_length (done : List Node) (slot : Option Nat) :
    ((done.filter fun node => decide (m.parentOf node = slot)).map Node.id).length =
    (done.map m.parentOf).count slot := by
  rw [length_map, ← countP_eq_length_filter, count_eq_countP, countP_map]
  exact countP_congr fun node _ => by simp

theorem place_links (links : Links) (node : Node) :
    (m.place links node).parent = update links.parent node.id (m.parentOf node) ∧
    (m.place links node).position = update links.position node.id (links.siblings (m.parentOf node)).length ∧
    ∀ slot, (m.place links node).siblings slot =
    if m.parentOf node = slot then links.siblings slot ++ [node.id] else links.siblings slot := by
  unfold Model.place
  obtain ⟨counted, countedIs⟩ : ∃ counted, counted =
      if node.alive then (m.ancestry node).1.foldl (Links.addTotals node) links else links := ⟨_, rfl⟩
  have kept : counted.parent = links.parent ∧ counted.position = links.position ∧ counted.siblings = links.siblings := by
    rw [countedIs]
    split
    · exact totals_links node links
    · exact ⟨rfl, rfl, rfl⟩
  rw [← countedIs, ← kept.1, ← kept.2.1, ← kept.2.2]
  obtain ⟨parent, position, -⟩ := append_links { counted with
    parent := update counted.parent node.id (m.parentOf node)
    position := update counted.position node.id (counted.siblings (m.parentOf node)).length } node.id (m.parentOf node)
  refine ⟨parent, position, fun slot => (append_siblings ..).trans ?_⟩
  cases slot <;> rfl

theorem place_memory (links : Links) (node : Node) (nodup : (m.ancestry node).1.Nodup) (id : Nat) :
    (m.place links node).groupMemory id =
    links.groupMemory id + if node.alive && decide (id ∈ (m.ancestry node).1) then node.rss else 0 := by
  refine (congrFun (append_links _ node.id (m.parentOf node)).2.2 id).trans ?_
  dsimp only
  by_cases alive : node.alive
  · rw [if_pos alive, totals_memory node links nodup id]
    by_cases passed : id ∈ (m.ancestry node).1
    · simp [passed, alive]
    · simp [passed]
  · rw [if_neg alive]
    simp [alive]

section

variable {done : List Node} {links : Links} {node : Node} (placed : Placed m done links)
  (fresh : ∀ old ∈ done, old.id ≠ node.id)

include placed

theorem placed_siblings (slot : Option Nat) : (m.place links node).siblings slot =
    ((done ++ [node]).filter fun node => decide (m.parentOf node = slot)).map Node.id := by
  rw [(place_links links node).2.2, filter_append, map_append, ← placed.siblings slot]
  by_cases here : m.parentOf node = slot
  · rw [if_pos here, filter_cons_of_pos (by simpa using here)]
    rfl
  · rw [if_neg here, filter_cons_of_neg (by simpa using here)]
    exact (append_nil _).symm

include fresh

theorem placed_position (index : Nat) (other : Node) (there : (done ++ [node])[index]? = some other) :
    (m.place links node).position other.id = (((done ++ [node]).take index).map m.parentOf).count (m.parentOf other) := by
  rw [(place_links links node).2.1]
  by_cases early : index < done.length
  · rw [List.getElem?_append_left early] at there
    rw [take_append_of_le_length (Nat.le_of_lt early), ← placed.position index other there]
    exact update_of_ne (fresh other (mem_of_getElem? there)) ..
  · rw [List.getElem?_append_right (Nat.le_of_not_lt early)] at there
    have last : index - done.length = 0 := by
      have bound := (List.getElem?_eq_some_iff.mp there).1
      simpa using bound
    rw [last] at there
    have same : other = node := (Option.some.inj there).symm
    have length : index = done.length := by omega
    rw [same, length, take_left, ← siblings_length, ← placed.siblings]
    exact update_self ..

theorem placed_step (nodup : (m.ancestry node).1.Nodup) : Placed m (done ++ [node]) (m.place links node) where
  parent other listed := by
    rw [(place_links links node).1]
    rcases mem_append.mp listed with old | _ | ⟨_, ⟨⟩⟩
    · exact (update_of_ne (fresh other old) ..).trans (placed.parent other old)
    · exact update_self ..
  siblings := placed_siblings placed
  position := placed_position placed fresh
  memory id := by
    rw [place_memory links node nodup, placed.memory id, filter_append, map_append, sum_append, add_assoc]
    congr 1
    by_cases counts : (node.alive && decide (id ∈ (m.ancestry node).1)) = true
    · simp [counts]
    · simp [counts]

end

theorem placed_run (done rest : List Node) (links : Links) (placed : Placed m done links)
    (fresh : ((done ++ rest).map Node.id).Nodup) (nodup : ∀ node ∈ rest, (m.ancestry node).1.Nodup) :
    Placed m (done ++ rest) (rest.foldl m.place links) := by
  induction rest generalizing done links with
  | nil =>
    rw [append_nil]
    exact placed
  | cons node rest ih =>
    have apart : ∀ old ∈ done, old.id ≠ node.id := by
      intro old listed
      rw [map_append, nodup_append] at fresh
      exact fresh.2.2 old.id (mem_map_of_mem listed) node.id (mem_map_of_mem mem_cons_self)
    have onward := ih (done ++ [node]) (m.place links node) (placed_step placed apart (nodup node mem_cons_self))
    rw [append_assoc, singleton_append] at onward
    exact onward fresh fun other listed => nodup other (mem_cons_of_mem _ listed)

theorem rebuild_placed (indexed : Indexed m) : Placed m m.nodes m.rebuild.links :=
  placed_run [] m.nodes m.cleared (placed_start m) indexed.ids fun _ listed => ancestry_nodup indexed listed

end

end Evemon.Qt
