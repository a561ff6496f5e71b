import Evemon.PipeWire
import Evemon.Lib.Runs

-- The bound nodes point to their own nodes, whatever is announced and removed in which order.
namespace Evemon.PipeWire

open SwapRemove List

abbrev relocated (index last : Nat) : Bound → Bound :=
  relocate Bound.nodeIndex (fun wb index => { wb with nodeIndex := index }) index last

theorem relocated_self (index last : Nat) (wb : Bound) (still : index = last ∨ wb.nodeIndex ≠ last) :
    relocated index last wb = wb := by
  by_cases there : wb.nodeIndex = last
  · rcases still with same | elsewhere
    · rw [relocated, relocate, if_pos there, same, ← there]
    · exact absurd there elsewhere
  · exact if_neg there

-- The slots before `b` are done. An entry occurs once, so after its flag is set there is no other
-- among the slots from `b` on.
theorem fix_bound_perm (id : UInt32) (index last fuel : Nat) (front rest : List Bound) (removed moved : Bool)
    (enough : rest.length ≤ fuel) (ids : (rest.map Bound.pwId).Nodup) (indices : (rest.map Bound.nodeIndex).Nodup)
    (gone : removed → ∀ wb ∈ rest, wb.pwId ≠ id) (settled : moved → ∀ wb ∈ rest, wb.nodeIndex ≠ last) :
    (fixBound id index last fuel front.length removed moved (front ++ rest)).Perm
    (front ++ (rest.filter fun wb => wb.pwId ≠ id).map (relocated index last)) := by
  induction fuel generalizing front rest removed moved with
  | zero =>
    rw [length_eq_zero_iff.mp (Nat.le_zero.mp enough)]
    exact .refl _
  | succ fuel ih =>
    unfold fixBound
    by_cases both : removed ∧ moved
    · have all : rest.filter (fun wb => wb.pwId ≠ id) = rest :=
        filter_eq_self.mpr fun wb mem => decide_eq_true (gone both.1 wb mem)
      have still : rest.map (relocated index last) = rest :=
        (map_congr_left fun wb mem => relocated_self index last wb (.inr (settled both.2 wb mem))).trans
          (map_id rest)
      rw [if_pos both, all, still]
    · rw [if_neg both]
      cases rest with
      | nil => simp
      | cons wb tail =>
        obtain ⟨otherIds, ids⟩ := nodup_cons.mp ids
        obtain ⟨otherIndices, indices⟩ := nodup_cons.mp indices
        have shorter : tail.length ≤ fuel := Nat.le_of_succ_le_succ enough
        have goneTail : removed → ∀ other ∈ tail, other.pwId ≠ id :=
          fun set other mem => gone set other (mem_cons_of_mem wb mem)
        have settledTail : moved → ∀ other ∈ tail, other.nodeIndex ≠ last :=
          fun set other mem => settled set other (mem_cons_of_mem wb mem)
        rw [List.getElem?_append_right (Nat.le_refl _), Nat.sub_self]
        dsimp only [List.getElem?_cons_zero]
        by_cases remove : removed = false ∧ wb.pwId = id
        · -- The last entry is in this slot now, so the same slot comes next.
          obtain ⟨swapped, split, perm⟩ := swap_remove_split front wb tail
          have absent (other : Bound) (mem : other ∈ swapped) : other.pwId ≠ id := fun same =>
            otherIds (mem_map.mpr ⟨other, perm.mem_iff.mp mem, same.trans remove.2.symm⟩)
          have next := ih front swapped true moved (perm.length_eq.trans_le shorter)
            ((perm.map Bound.pwId).nodup_iff.mpr ids) ((perm.map Bound.nodeIndex).nodup_iff.mpr indices)
            (fun _ => absent) (fun set other mem => settledTail set other (perm.mem_iff.mp mem))
          rw [if_pos remove, split, filter_cons_of_neg (by simpa using remove.2)]
          exact next.trans (((perm.filter _).map _).append_left front)
        · have kept : wb.pwId ≠ id := by
            cases flag : removed with
            | true => exact gone flag wb mem_cons_self
            | false => exact fun same => remove ⟨flag, same⟩
          rw [if_neg remove, filter_cons_of_pos (by simpa using kept), map_cons]
          by_cases move : moved = false ∧ index ≠ last ∧ wb.nodeIndex = last
          · have replaced : relocated index last wb = { wb with nodeIndex := index } := if_pos move.2.2
            have next := ih (front ++ [{ wb with nodeIndex := index }]) tail removed true shorter ids indices goneTail
              (fun _ other mem same => otherIndices (mem_map.mpr ⟨other, mem, same.trans move.2.2.symm⟩))
            rw [if_pos move, set_append_right _ _ (Nat.le_refl _), Nat.sub_self, set_cons_zero, replaced]
            simpa using next
          · have still : relocated index last wb = wb := by
              refine relocated_self index last wb ?_
              by_cases same : index = last
              · exact .inl same
              · refine .inr fun there => ?_
                cases flag : moved with
                | true => exact settled flag wb mem_cons_self there
                | false => exact move ⟨flag, same, there⟩
            have next := ih (front ++ [wb]) tail removed moved shorter ids indices goneTail settledTail
            rw [if_neg move, still]
            simpa using next

section

abbrev ids (s : State) : List UInt32 := s.graph.nodes.items.map Node.id

abbrev BoundTracks (s : State) : Prop :=
  Tracks Node.id s.graph.nodes.items Bound.pwId Bound.nodeIndex s.bound

structure Kept (s after : State) : Prop where
  ids : ids after = ids s
  bound : after.bound = s.bound

theorem kept_refl (s : State) : Kept s s := ⟨rfl, rfl⟩

variable (id : UInt32) {copied : Bool} {s before : State}

theorem publish_kept (kept : Kept s before) : Kept s (watcherPublish copied before) := by
  have same : (before.graph.nodes.items.map (resolvePid before.graph.clients.items)).map Node.id = ids before := by
    rw [map_map]
    refine map_congr_left fun node _ => ?_
    unfold Function.comp resolvePid
    split
    · rfl
    · split <;> rfl
  unfold watcherPublish
  dsimp only
  split
  · exact ⟨same.trans kept.ids, kept.bound⟩
  · exact ⟨same.trans kept.ids, kept.bound⟩

theorem publish_if_done_kept (kept : Kept s before) : Kept s (publishIfDone copied before) := by
  unfold publishIfDone
  split
  · exact publish_kept kept
  · exact kept

theorem node_info_kept (index : Nat) (props : Option Dict) (s : State) : Kept s (watcherOnNodeInfo index props s) := by
  unfold watcherOnNodeInfo
  split
  · exact kept_refl s
  · split
    · exact kept_refl s
    · rename_i n found
      exact ⟨map_set_same Node.id n _ found rfl, rfl⟩

theorem core_done_kept (seq : Int32) (out : Outcome) (s : State) : Kept s (watcherOnCoreDone id seq out s) := by
  unfold watcherOnCoreDone
  split
  · exact kept_refl s
  · split
    · exact publish_kept ⟨rfl, rfl⟩
    · split
      · exact kept_refl s
      · split
        · exact ⟨rfl, rfl⟩
        · exact publish_kept ⟨rfl, rfl⟩

variable (copied)

theorem global_kept {type : ObjectType} {props} {out : Outcome}
    (stored : type = .node → pwGraphPushNode out.grown s.graph (newNode id props) = none) :
    Kept s (watcherOnGlobal id type props out s) := by
  cases type with
  | node =>
    dsimp only [watcherOnGlobal]
    rw [stored rfl]
    exact kept_refl s
  | client =>
    dsimp only [watcherOnGlobal, pwGraphPushClient]
    cases s.graph.clients.push 64 8 out.grown (newClient id props) with
    | none => split <;> exact kept_refl s
    | some clients =>
      split
      · exact kept_refl s
      · exact publish_if_done_kept ⟨rfl, rfl⟩
  | port =>
    dsimp only [watcherOnGlobal, pwGraphPushPort]
    cases s.graph.ports.push 256 464 out.grown (newPort id props) with
    | none => split <;> exact kept_refl s
    | some ports =>
      split
      · exact kept_refl s
      · exact ⟨rfl, rfl⟩
  | link =>
    dsimp only [watcherOnGlobal, pwGraphPushLink]
    cases s.graph.links.push 128 20 out.grown (newLink id props) with
    | none => split <;> exact kept_refl s
    | some links =>
      split
      · exact kept_refl s
      · exact publish_if_done_kept ⟨rfl, rfl⟩
  | other => exact kept_refl s

theorem remove_other_kept (absent : id ∉ ids s) : Kept s (watcherOnGlobalRemove id copied s) := by
  unfold watcherOnGlobalRemove
  rw [(search_none Node.id id).mpr absent]
  dsimp only
  split
  · exact publish_kept ⟨rfl, rfl⟩
  · split
    · exact ⟨rfl, rfl⟩
    · split
      · exact ⟨rfl, rfl⟩
      · exact kept_refl s

theorem push_items {α : Type} {first size} {granted} {objects after : Objects α} {item}
    (stored : objects.push first size granted item = some after) :
    objects.items.length < snapshotObjectLimit ∧ after.items = objects.items ++ [item] := by
  unfold Objects.push at stored
  split at stored
  · cases stored
  · rename_i room
    refine ⟨Nat.lt_of_not_le room, ?_⟩
    split at stored
    · dsimp only at stored
      generalize (if objects.cap = 0 then first else objects.cap * 2) = wider at stored
      split at stored
      · cases stored
      · split at stored
        · cases stored
          rfl
        · cases stored
    · cases stored
      rfl

theorem bind_node_entry (out : Outcome) (s : State) : (bindNode id out s).graph = s.graph ∧
    ((bindNode id out s).bound = s.bound ∨
    ∃ proxy, (bindNode id out s).bound = s.bound ++ [⟨s.graph.nodes.items.length - 1, id, proxy⟩]) := by
  unfold bindNode
  split
  · exact ⟨rfl, .inl rfl⟩
  · dsimp only
    split
    · exact ⟨rfl, .inl rfl⟩
    · split
      · exact ⟨rfl, .inr ⟨_, rfl⟩⟩
      · exact ⟨rfl, .inr ⟨_, rfl⟩⟩

end

-- Ghost: the ids of the objects that are announced and not removed, and of the nodes among them that
-- were stored.
structure Watched where
  state : State
  announced : Finset UInt32 := ∅
  added : Finset UInt32 := ∅

def addedAfter (s : State) (added : Finset UInt32) : Callback → Finset UInt32
  | .global id .node props out =>
    if (pwGraphPushNode out.grown s.graph (newNode id props)).isSome then insert id added else added
  | .globalRemove id _ => added.erase id
  | _ => added

def announcedAfter (announced : Finset UInt32) : Callback → Finset UInt32
  | .global id _ _ _ => insert id announced
  | .globalRemove id _ => announced.erase id
  | _ => announced

def watchedStep (w : Watched) (callback : Callback) : Watched :=
  ⟨run callback w.state, announcedAfter w.announced callback, addedAfter w.state w.added callback⟩

def Distinct (w : Watched) : Callback → Prop
  | .global id _ _ _ => id ∉ w.announced
  | _ => True

def WatchedStarts (w : Watched) : Prop := ∃ seq, w = { state := started seq }

structure Bookkeeping (w : Watched) : Prop where
  distinct : (ids w.state).Nodup
  limit : w.state.graph.nodes.items.length ≤ snapshotObjectLimit
  exact : ∀ id, id ∈ ids w.state ↔ id ∈ w.added
  live : w.added ⊆ w.announced
  tracks : BoundTracks w.state

variable {w : Watched}

theorem kept_bookkeeping {after : Watched} (inv : Bookkeeping w) (kept : Kept w.state after.state)
    (added : after.added = w.added) (announced : after.added ⊆ after.announced) : Bookkeeping after := by
  have length : after.state.graph.nodes.items.length = w.state.graph.nodes.items.length := by
    simpa using congrArg List.length kept.ids
  refine ⟨kept.ids ▸ inv.distinct, length ▸ inv.limit, fun id => ?_, announced, ?_⟩
  · rw [kept.ids, added, inv.exact]
  · unfold BoundTracks
    rw [kept.bound]
    exact tracks_congr _ _ _ kept.ids inv.tracks

theorem store_bookkeeping (inv : Bookkeeping w) {id : UInt32} {props} {out : Outcome}
    (fresh : id ∉ w.announced) {graph}
    (stored : pwGraphPushNode out.grown w.state.graph (newNode id props) = some graph) :
    Bookkeeping (watchedStep w (.global id .node props out)) := by
  obtain ⟨nodes, pushed, rfl⟩ := Option.map_eq_some_iff.mp stored
  obtain ⟨room, items⟩ := push_items pushed
  have unknown : id ∉ ids w.state := fun mem => fresh (inv.live ((inv.exact id).mp mem))
  have unbound : id ∉ w.state.bound.map Bound.pwId := by
    intro mem
    obtain ⟨wb, old, same⟩ := mem_map.mp mem
    obtain ⟨node, found, equal⟩ := inv.tracks.found wb old
    exact unknown (mem_map.mpr ⟨node, mem_of_getElem? found, equal.trans same⟩)
  obtain ⟨sameGraph, entry⟩ := bind_node_entry id out { w.state with graph := { w.state.graph with nodes } }
  have after : run (.global id .node props out) w.state = bindNode id out { w.state with graph := { w.state.graph with nodes } } := by
    dsimp only [run, watcherOnGlobal]
    rw [stored]
  have nodesAfter : (run (.global id .node props out) w.state).graph.nodes.items =
      w.state.graph.nodes.items ++ [newNode id props] := by
    rw [after, sameGraph]
    exact items
  have added : addedAfter w.state w.added (.global id .node props out) = insert id w.added := by
    dsimp only [addedAfter]
    rw [stored]
    rfl
  have idsAfter : ids (run (.global id .node props out) w.state) = ids w.state ++ [id] := by
    unfold ids
    rw [nodesAfter, map_append]
    rfl
  refine ⟨?_, ?_, fun other => ?_, ?_, ?_⟩
  · change (ids (run (.global id .node props out) w.state)).Nodup
    rw [idsAfter]
    exact (perm_append_singleton id _).nodup_iff.mpr (nodup_cons.mpr ⟨unknown, inv.distinct⟩)
  · change (run (.global id .node props out) w.state).graph.nodes.items.length ≤ snapshotObjectLimit
    rw [nodesAfter, length_append]
    exact room
  · change other ∈ ids (run (.global id .node props out) w.state) ↔ other ∈ addedAfter w.state w.added (.global id .node props out)
    rw [idsAfter, added, mem_append, mem_singleton, inv.exact, Finset.mem_insert, or_comm]
  · change addedAfter w.state w.added (.global id .node props out) ⊆ insert id w.announced
    rw [added]
    exact Finset.insert_subset_insert id inv.live
  · have grown := tracks_append _ _ _ (newNode id props) inv.tracks
    change Tracks Node.id (run (.global id .node props out) w.state).graph.nodes.items Bound.pwId Bound.nodeIndex
      (run (.global id .node props out) w.state).bound
    rw [nodesAfter, after]
    rcases entry with none | ⟨proxy, one⟩
    · rw [none]
      exact grown
    · rw [one]
      refine tracks_append_slot _ _ _ (newNode id props) ?_ rfl unbound grown
      dsimp only
      rw [items, length_append, length_singleton, Nat.add_sub_cancel, List.getElem?_concat_length]

theorem remove_node_bookkeeping (inv : Bookkeeping w) {index : Nat} {node}
    (found : w.state.graph.nodes.items[index]? = some node) :
    Bookkeeping ⟨removeNode node.id index w.state, w.announced.erase node.id, w.added.erase node.id⟩ := by
  have perm := swap_remove_perm node found
  have idsPerm := perm.map Node.id
  obtain ⟨gone, distinct⟩ := nodup_cons.mp (idsPerm.nodup_iff.mpr inv.distinct)
  have pass := fix_bound_perm node.id index (w.state.graph.nodes.items.length - 1) w.state.bound.length [] w.state.bound false
    false (Nat.le_refl _) inv.tracks.distinct (tracks_indices _ _ _ inv.tracks) (fun set => Bool.noConfusion set)
    (fun set => Bool.noConfusion set)
  refine ⟨distinct, ?_, fun other => ?_, Finset.erase_subset_erase node.id inv.live, ?_⟩
  · have length := perm.length_eq
    rw [length_cons] at length
    exact Nat.le_of_succ_le (length.trans_le inv.limit)
  · change other ∈ (swapRemove w.state.graph.nodes.items index).map Node.id ↔ other ∈ w.added.erase node.id
    rw [Finset.mem_erase, ← inv.exact, ← idsPerm.mem_iff, map_cons, mem_cons]
    constructor
    · intro mem
      exact ⟨fun same => gone (same ▸ mem), .inr mem⟩
    · intro mem
      exact mem.2.resolve_left mem.1
  · exact tracks_swap_remove _ Bound.nodeIndex _ (fun wb index => { wb with nodeIndex := index })
      (fun _ _ => rfl) (fun _ _ => rfl) index node found pass inv.tracks

theorem remove_bookkeeping (inv : Bookkeeping w) {id} {copied} :
    Bookkeeping (watchedStep w (.globalRemove id copied)) := by
  have live : w.added.erase id ⊆ w.announced.erase id := Finset.erase_subset_erase id inv.live
  cases search : w.state.graph.nodes.items.findIdx? (fun node => decide (node.id = id)) with
  | none =>
    have absent : id ∉ ids w.state := (search_none Node.id id).mp search
    have untracked : w.added.erase id = w.added := Finset.erase_eq_of_notMem fun mem => absent ((inv.exact id).mpr mem)
    exact kept_bookkeeping inv (remove_other_kept id copied absent) untracked live
  | some index =>
    obtain ⟨inside, same, -⟩ := List.findIdx?_eq_some_iff_getElem.mp search
    have found := List.getElem?_eq_getElem inside
    have removed := remove_node_bookkeeping inv found
    rw [of_decide_eq_true same] at removed
    have after : run (.globalRemove id copied) w.state = watcherPublish copied (removeNode id index w.state) := by
      dsimp only [run, watcherOnGlobalRemove]
      rw [search]
    refine kept_bookkeeping removed ?_ rfl live
    change Kept _ (run (.globalRemove id copied) w.state)
    rw [after]
    exact publish_kept (kept_refl _)

theorem watched_step_bookkeeping (callback : Callback) (inv : Bookkeeping w) (distinct : Distinct w callback) :
    Bookkeeping (watchedStep w callback) := by
  cases callback with
  | global id type props out =>
    by_cases refused : type = .node → pwGraphPushNode out.grown w.state.graph (newNode id props) = none
    · have same : addedAfter w.state w.added (.global id type props out) = w.added := by
        cases type with
        | node =>
          dsimp only [addedAfter]
          rw [refused rfl]
          rfl
        | _ => rfl
      refine kept_bookkeeping inv (global_kept id refused) same ?_
      change addedAfter w.state w.added (.global id type props out) ⊆ insert id w.announced
      rw [same]
      exact inv.live.trans (Finset.subset_insert id _)
    · obtain ⟨node, stored⟩ := Classical.not_imp.mp refused
      subst node
      obtain ⟨graph, pushed⟩ := Option.ne_none_iff_exists'.mp stored
      exact store_bookkeeping inv distinct pushed
  | globalRemove id copied => exact remove_bookkeeping inv
  | nodeInfo index props => exact kept_bookkeeping inv (node_info_kept index props w.state) rfl inv.live
  | coreDone id seq out => exact kept_bookkeeping inv (core_done_kept id seq out w.state) rfl inv.live

theorem node_info_own (inv : Bookkeeping w) {index : Nat} {wb} (entry : w.state.bound[index]? = some wb)
    (props : Option Dict) :
    (watcherOnNodeInfo index props w.state).graph.nodes.items =
    w.state.graph.nodes.items.map fun node => if node.id = wb.pwId then applyInfo props node else node := by
  obtain ⟨node, found, equal⟩ := inv.tracks.found wb (mem_of_getElem? entry)
  unfold watcherOnNodeInfo
  rw [entry]
  dsimp only
  rw [found]
  dsimp only
  obtain ⟨inside, here⟩ := List.getElem?_eq_some_iff.mp found
  refine ext_getElem? fun slot => ?_
  rw [List.getElem?_set, List.getElem?_map]
  by_cases same : wb.nodeIndex = slot
  · subst same
    rw [if_pos rfl, if_pos inside, found, Option.map_some, if_pos equal]
  · rw [if_neg same]
    cases other : w.state.graph.nodes.items[slot]? with
    | none => rfl
    | some stranger =>
      have apart : stranger.id ≠ wb.pwId := by
        intro equals
        have sameId : (ids w.state)[wb.nodeIndex]? = (ids w.state)[slot]? := by
          rw [List.getElem?_map, List.getElem?_map, found, other, Option.map_some, Option.map_some, equal, equals]
        exact same ((List.getElem?_inj (by simpa using inside) inv.distinct).mp sameId)
      rw [Option.map_some, if_neg apart]

theorem bound_nodes_own (w : Watched) (reached : Runs.Reachable WatchedStarts Distinct watchedStep w) :
    (∀ wb ∈ w.state.bound, ∃ node, w.state.graph.nodes.items[wb.nodeIndex]? = some node ∧ node.id = wb.pwId) ∧
    (w.state.bound.map Bound.pwId).Nodup ∧
    ((ids w.state).Nodup ∧ (∀ id, id ∈ ids w.state ↔ id ∈ w.added) ∧
    w.state.graph.nodes.items.length ≤ snapshotObjectLimit) ∧
    ∀ index wb props, w.state.bound[index]? = some wb →
    (watcherOnNodeInfo index props w.state).graph.nodes.items =
    w.state.graph.nodes.items.map fun node => if node.id = wb.pwId then applyInfo props node else node := by
  have inv : Bookkeeping w := by
    refine Runs.invariant Bookkeeping (fun w starts => ?_) (fun w callback inv => watched_step_bookkeeping callback inv) w reached
    obtain ⟨seq, rfl⟩ := starts
    exact ⟨nodup_nil, Nat.zero_le _, by simp [ids, started], Finset.Subset.refl _, tracks_nil _ _⟩
  exact ⟨inv.tracks.found, inv.tracks.distinct, ⟨inv.distinct, inv.exact, inv.limit⟩,
    fun index wb props entry => node_info_own inv entry props⟩

def watchedAfter (callbacks : List Callback) : Watched := callbacks.foldl watchedStep { state := started 1 }

theorem bound_nodes_own_moved :
    (watchedAfter [.global 10 .node none {}, .global 11 .node none {}, .globalRemove 10 true]).state.bound =
    [⟨0, 11, some 1⟩] ∧ ∃ node, (watchedAfter [.global 10 .node none {}, .global 11 .node none {},
    .globalRemove 10 true]).state.graph.nodes.items[0]? = some node ∧ node.id = 11 := by
  have fresh : Runs.Reachable WatchedStarts Distinct watchedStep (watchedAfter []) := .start _ ⟨1, rfl⟩
  have one := Runs.Reachable.step (watchedAfter []) (Callback.global 10 .node none {}) fresh (Finset.notMem_empty 10)
  have other : (11 : UInt32) ∉ (watchedAfter [.global 10 .node none {}]).announced := by decide +kernel
  have two := Runs.Reachable.step (watchedAfter [.global 10 .node none {}]) (Callback.global 11 .node none {}) one other
  have three := Runs.Reachable.step (watchedAfter [.global 10 .node none {}, .global 11 .node none {}])
    (Callback.globalRemove 10 true) two trivial
  have entries : (watchedAfter [.global 10 .node none {}, .global 11 .node none {}, .globalRemove 10 true]).state.bound =
      [⟨0, 11, some 1⟩] := by
    decide +kernel
  exact ⟨entries, (bound_nodes_own _ three).1 ⟨0, 11, some 1⟩ (entries ▸ mem_singleton_self _)⟩

end Evemon.PipeWire
