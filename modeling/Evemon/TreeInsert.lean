import Evemon.Lib.AncestorStack
import Evemon.TreeStore

-- What the ancestor stack inserts, in which order, and where.
namespace Evemon.ProcTree

open AncestorStack (climb put visit order)
open Store List AncestorStack Forest Option

section

def Batch.pidAt (batch : Batch) (idx : Nat) : Option Int32 := (batch.entries[idx]?).map ProcEntry.pid

def Batch.Indexed (batch : Batch) : Prop :=
  ∀ p idx, htFind batch.ht p = some idx ↔ batch.pidAt idx = some p ∧ batch.skipped idx = false

def Batch.up (batch : Batch) (pid : Int32) : Option Int32 :=
  (htFind batch.ht pid).bind fun idx => (batch.entries[idx]?).bind fun e =>
    if e.ppid ≠ pid ∧ (htFind batch.ht e.ppid).isSome = true then some e.ppid else none

def Batch.key (batch : Batch) (idx : Nat) : Option Int32 := if batch.skipped idx then none else batch.pidAt idx

def Batch.keys (batch : Batch) : List Int32 := (List.range batch.entries.length).filterMap batch.key

variable {batch : Batch}

theorem key_of_find (indexed : batch.Indexed) (pid : Int32) (idx : Nat) : htFind batch.ht pid = some idx ↔
    batch.key idx = some pid := by
  rw [indexed pid idx, Batch.key]
  cases batch.skipped idx with
  | false => simp
  | true => simp

theorem key_entry {idx} {pid} (keyed : batch.key idx = some pid) :
    batch.skipped idx = false ∧ ∃ e, batch.entries[idx]? = some e ∧ e.pid = pid := by
  unfold Batch.key at keyed
  split at keyed
  · cases keyed
  · rename_i kept
    exact ⟨Bool.eq_false_iff.mpr kept, map_eq_some_iff.mp keyed⟩

theorem key_below {idx} {pid} (keyed : batch.key idx = some pid) : idx < batch.entries.length := by
  obtain ⟨_, e, found, _⟩ := key_entry keyed
  exact (List.getElem?_eq_some_iff.mp found).1

variable (batch) in
theorem mem_keys (pid : Int32) : pid ∈ batch.keys ↔ ∃ idx, batch.key idx = some pid := by
  simp only [Batch.keys, mem_filterMap, mem_range]
  exact ⟨fun ⟨idx, _, keyed⟩ => ⟨idx, keyed⟩, fun ⟨idx, keyed⟩ => ⟨idx, key_below keyed, keyed⟩⟩

theorem key_injective (indexed : batch.Indexed) {first second} {pid} (here : batch.key first = some pid)
    (there : batch.key second = some pid) : first = second := by
  have found := (key_of_find indexed pid first).mpr here
  rw [(key_of_find indexed pid second).mpr there] at found
  exact (Option.some.inj found).symm

theorem up_of_entry (indexed : batch.Indexed) {idx} {e : ProcEntry} (keyed : batch.key idx = some e.pid)
    (entry : batch.entries[idx]? = some e) :
    batch.up e.pid = if e.ppid ≠ e.pid ∧ (htFind batch.ht e.ppid).isSome then some e.ppid else none := by
  rw [Batch.up, (key_of_find indexed e.pid idx).mpr keyed, bind_some, entry, bind_some]

variable (batch)

def Batch.donePids (batch : Batch) (placed : List (Nat × Nat)) : List Int32 := placed.filterMap fun entry => batch.key entry.1

theorem inserted_iff (indexed : batch.Indexed) (state : Insertion) {idx} {pid}
    (keyed : batch.key idx = some pid) : state.inserted idx ↔ pid ∈ batch.donePids state.placed := by
  simp only [Insertion.inserted, List.any_eq_true, decide_eq_true_eq, Batch.donePids, mem_filterMap]
  constructor
  · intro ⟨entry, mem, same⟩
    exact ⟨entry, mem, by rw [same]; exact keyed⟩
  · intro ⟨entry, mem, other⟩
    exact ⟨entry, mem, key_injective indexed other keyed⟩

theorem ancestor_stack_climb (indexed : batch.Indexed) {state : Insertion} {room} (idx : Nat) (pid : Int32)
    (keyed : batch.key idx = some pid) :
    ancestorStack batch state.inserted room idx = climb batch.up (batch.donePids state.placed) room pid := by
  induction room generalizing idx pid with
  | zero => rfl
  | succ room ih =>
    obtain ⟨kept, e, entry, rfl⟩ := key_entry keyed
    have done := inserted_iff batch indexed state keyed
    rw [ancestorStack, kept, Bool.or_false]
    by_cases here : e.pid ∈ batch.donePids state.placed
    · rw [if_pos (done.mpr here), climb_done _ here]
    rw [if_neg (fun inserted => here (done.mp inserted)), climb_succ _ here, entry]
    simp only
    rw [up_of_entry indexed keyed entry]
    congr 1
    cases found : htFind batch.ht e.ppid with
    | none => simp
    | some pidx =>
      have parent := (key_of_find indexed e.ppid pidx).mp found
      by_cases same : e.ppid = e.pid
      · rw [same] at parent
        have self := key_injective indexed parent keyed
        simp [self, same]
      · have other : pidx ≠ idx := by
          intro equal
          rw [equal, keyed] at parent
          exact same (Option.some.inj parent).symm
        have above := inserted_iff batch indexed state parent
        simp only [other, decide_false, Bool.false_or, same, ne_eq, not_false_eq_true, isSome_some, and_self,
          if_true, map_some, getD_some]
        by_cases there : e.ppid ∈ batch.donePids state.placed
        · rw [if_pos (above.mpr there), climb_done _ there]
        · rw [if_neg (fun inserted => there (above.mp inserted))]
          exact ih pidx e.ppid parent

end

section

variable (batch : Batch) (placing : Placing) {idx : Nat}

theorem pop_one_cases (indexed : batch.Indexed) (state : Insertion) {e : ProcEntry} (keyed : batch.key idx = some e.pid)
    (entry : batch.entries[idx]? = some e) :
    (e.pid ∈ batch.donePids state.placed ∧ popOne batch placing state e.pid = state) ∨
      (e.pid ∉ batch.donePids state.placed ∧ popOne batch placing state e.pid =
        { tree := state.tree.append (placing.parent state.placed idx e) (placing.row e)
          placed := state.placed ++ [(idx, state.tree.next)] }) := by
  have done := inserted_iff batch indexed state keyed
  unfold popOne
  rw [(key_of_find indexed e.pid idx).mpr keyed]
  simp only
  by_cases here : e.pid ∈ batch.donePids state.placed
  · rw [if_pos (done.mpr here)]
    exact .inl ⟨here, rfl⟩
  · rw [if_neg (fun inserted => here (done.mp inserted)), entry]
    exact .inr ⟨here, rfl⟩

theorem pop_one_done (indexed : batch.Indexed) {state} {pid} (keyed : batch.key idx = some pid) :
    batch.donePids (popOne batch placing state pid).placed = put (batch.donePids state.placed) pid := by
  obtain ⟨_, e, entry, rfl⟩ := key_entry keyed
  obtain ⟨here, same⟩ | ⟨missing, same⟩ := pop_one_cases batch placing indexed state keyed entry
  · rw [same, put, if_pos here]
  · rw [same, put, if_neg missing, Batch.donePids, filterMap_append]
    simp [Batch.donePids, keyed]

theorem pop_all_done (indexed : batch.Indexed) (pids : List Int32) (known : ∀ pid ∈ pids, pid ∈ batch.keys)
    (state : Insertion) :
    batch.donePids (pids.foldl (popOne batch placing) state).placed = pids.foldl put (batch.donePids state.placed) := by
  induction pids generalizing state with
  | nil => rfl
  | cons pid rest ih =>
    rw [forall_mem_cons] at known
    obtain ⟨idx, keyed⟩ := (mem_keys batch pid).mp known.1
    rw [foldl_cons, foldl_cons, ih known.2, pop_one_done batch placing indexed keyed]

theorem up_known (indexed : batch.Indexed) {pid above} (parent : batch.up pid = some above) :
    above ∈ batch.keys := by
  obtain ⟨idx, _, rest⟩ := bind_eq_some_iff.mp parent
  obtain ⟨e, _, chosen⟩ := bind_eq_some_iff.mp rest
  split at chosen
  · rename_i both
    cases chosen
    obtain ⟨pidx, found⟩ := isSome_iff_exists.mp both.2
    exact (mem_keys batch _).mpr ⟨pidx, (key_of_find indexed _ pidx).mp found⟩
  · cases chosen

theorem ancestor_known (indexed : batch.Indexed) {steps} (pid : Int32) {above} (known : pid ∈ batch.keys)
    (reached : AncestorStack.ancestor batch.up steps pid = some above) : above ∈ batch.keys := by
  induction steps generalizing pid with
  | zero =>
    cases reached
    exact known
  | succ steps ih =>
    obtain ⟨next, parent, rest⟩ := bind_eq_some_iff.mp reached
    exact ih next (up_known batch indexed parent) rest

theorem insert_from_unkeyed {state} (unkeyed : batch.key idx = none) : insertFrom batch placing state idx = state := by
  unfold insertFrom
  split
  · rfl
  · rename_i neither
    rw [Bool.or_eq_true, not_or, Bool.not_eq_true, Bool.not_eq_true] at neither
    rw [Batch.key, neither.2, if_neg Bool.false_ne_true, Batch.pidAt, map_eq_none_iff] at unkeyed
    have empty : ancestorStack batch state.inserted stackSize idx = [] := by
      rw [stackSize, ancestorStack, neither.1, neither.2, unkeyed]
      rfl
    rw [empty]
    rfl

theorem insert_from_done (indexed : batch.Indexed) (state : Insertion) (idx : Nat) :
    batch.donePids (insertFrom batch placing state idx).placed =
    (batch.key idx).elim (batch.donePids state.placed) (visit batch.up stackSize (batch.donePids state.placed)) := by
  cases keyed : batch.key idx with
  | none => rw [insert_from_unkeyed batch placing keyed, elim_none]
  | some pid =>
    unfold insertFrom
    obtain ⟨kept, e, entry, rfl⟩ := key_entry keyed
    have done := inserted_iff batch indexed state keyed
    rw [kept, Bool.or_false, ancestor_stack_climb batch indexed idx e.pid keyed]
    split
    · rename_i inserted
      rw [elim_some, visit, climb_done _ (done.mp inserted)]
      rfl
    · rw [elim_some, visit]
      apply pop_all_done batch placing indexed
      intro pid mem
      obtain ⟨-, steps, reached⟩ := climb_mem batch.up _ stackSize e.pid pid (mem_reverse.mp mem)
      exact ancestor_known batch indexed e.pid ((mem_keys batch _).mpr ⟨idx, keyed⟩) reached

theorem insert_each_done (indexed : batch.Indexed) {indices : List Nat} {state} :
    batch.donePids (indices.foldl (insertFrom batch placing) state).placed =
    (indices.filterMap batch.key).foldl (visit batch.up stackSize) (batch.donePids state.placed) := by
  induction indices generalizing state with
  | nil => rfl
  | cons idx rest ih =>
    rw [foldl_cons, ih, insert_from_done batch placing indexed]
    cases keyed : batch.key idx with
    | none => rw [filterMap_cons_none keyed, elim_none]
    | some pid => rw [filterMap_cons_some keyed, elim_some, foldl_cons]

theorem insert_all_done (indexed : batch.Indexed) (tree : Tree) :
    batch.donePids (insertAll batch placing tree).placed = order batch.up stackSize batch.keys :=
  insert_each_done batch placing indexed

end

section

def Hangs (rows : Forest Row) (row : Row) : Option Nat → Prop
  | none => ([], row) ∈ rows.paths []
  | some node => ∃ above ancestors, above.node = node ∧ (above :: ancestors, row) ∈ rows.paths []

structure Tree.Sound (tree : Tree) : Prop where
  distinct : (tree.rows.flat.map Row.node).Nodup
  below : ∀ row ∈ tree.rows.flat, row.node < tree.next

structure Placing.Sound (placing : Placing) (tree : Tree) : Prop where
  node : ∀ e node, (placing.row e node).node = node
  parent : ∀ placed idx e node, placing.parent placed idx e = some node →
    (∃ row ∈ tree.rows.flat, row.node = node) ∨ node ∈ placed.map Prod.snd

def newRows (batch : Batch) (placing : Placing) (placed : List (Nat × Nat)) : List Row :=
  placed.filterMap fun entry => (batch.entries[entry.1]?).map fun e => placing.row e entry.2

variable (batch : Batch) (placing : Placing) (tree : Tree)

structure Grown (state : Insertion) : Prop where
  rows : state.tree.rows.flat.Perm (tree.rows.flat ++ newRows batch placing state.placed)
  sound : state.tree.Sound
  next : tree.next ≤ state.tree.next
  keyed : ∀ entry ∈ state.placed, (batch.key entry.1).isSome = true
  later : ∀ entry ∈ state.placed, tree.next ≤ entry.2
  hangs : ∀ before idx node after e, state.placed = before ++ (idx, node) :: after → batch.entries[idx]? = some e →
    Hangs state.tree.rows (placing.row e node) (placing.parent before idx e)

theorem hangs_kept {rows others : Forest Row} (kept : ∀ path ∈ rows.paths [], path ∈ others.paths []) (row : Row)
    (parent : Option Nat) (hangs : Hangs rows row parent) : Hangs others row parent := by
  cases parent with
  | none => exact kept _ hangs
  | some node =>
    obtain ⟨above, ancestors, same, path⟩ := hangs
    exact ⟨above, ancestors, same, kept _ path⟩

variable (parent : Option Nat) (row : Nat → Row)

theorem append_flat (present : ∀ node, parent = some node → ∃ held ∈ tree.rows.flat, held.node = node) :
    (tree.append parent row).rows.flat.Perm (tree.rows.flat ++ [row tree.next]) := by
  cases parent with
  | none => exact List.Perm.of_eq (flat_append_root _ _)
  | some node =>
    apply flat_append_under
    obtain ⟨held, mem, same⟩ := present node rfl
    exact ⟨held, mem, decide_eq_true same⟩

theorem append_paths (path : List Row × Row) (held : path ∈ tree.rows.paths []) :
    path ∈ (tree.append parent row).rows.paths [] := by
  cases parent with
  | none =>
    rw [Tree.append, paths_append_root]
    exact mem_append_left _ held
  | some node => exact paths_append_under held

theorem append_hangs (present : ∀ node, parent = some node → ∃ held ∈ tree.rows.flat, held.node = node) :
    Hangs (tree.append parent row).rows (row tree.next) parent := by
  cases parent with
  | none =>
    rw [Hangs, Tree.append, paths_append_root]
    exact mem_append_right _ (mem_singleton.mpr rfl)
  | some node =>
    obtain ⟨held, mem, same⟩ := present node rfl
    obtain ⟨above, ancestors, meant, _, path⟩ := append_under_path (fun held : Row => held.node = node)
      (row tree.next) tree.rows [] ⟨held, mem, decide_eq_true same⟩
    exact ⟨above, ancestors, of_decide_eq_true meant, path⟩

theorem append_sound (sound : tree.Sound) (own : (row tree.next).node = tree.next)
    (present : ∀ node, parent = some node → ∃ held ∈ tree.rows.flat, held.node = node) :
    (tree.append parent row).Sound := by
  have rows := append_flat tree parent row present
  constructor
  · rw [(rows.map Row.node).nodup_iff, map_append]
    refine sound.distinct.append (nodup_singleton _) (disjoint_singleton.mpr fun old => ?_)
    obtain ⟨held, mem, same⟩ := mem_map.mp old
    exact Nat.ne_of_lt (sound.below held mem) (same.trans own)
  · intro held mem
    change held.node < tree.next + 1
    obtain old | new := mem_append.mp (rows.mem_iff.mp mem)
    · exact Nat.lt_succ_of_lt (sound.below held old)
    · rw [mem_singleton.mp new, own]
      exact Nat.lt_succ_self _

variable (placingSound : placing.Sound tree) (indexed : batch.Indexed)

include placingSound

variable {state : Insertion}

theorem placed_present (grown : Grown batch placing tree state) (idx : Nat) (e : ProcEntry) (node : Nat)
    (parent : placing.parent state.placed idx e = some node) : ∃ held ∈ state.tree.rows.flat, held.node = node := by
  obtain ⟨row, mem, same⟩ | listed := placingSound.parent state.placed idx e node parent
  · exact ⟨row, grown.rows.mem_iff.mpr (mem_append_left _ mem), same⟩
  · obtain ⟨entry, mem, rfl⟩ := mem_map.mp listed
    obtain ⟨pid, keyed⟩ := isSome_iff_exists.mp (grown.keyed entry mem)
    obtain ⟨_, other, found, _⟩ := key_entry keyed
    refine ⟨placing.row other entry.2, ?_, placingSound.node other entry.2⟩
    apply grown.rows.mem_iff.mpr
    apply mem_append_right
    exact mem_filterMap.mpr ⟨entry, mem, by rw [found]; rfl⟩

include indexed

theorem pop_one_grown (grown : Grown batch placing tree state) (pid : Int32) :
    Grown batch placing tree (popOne batch placing state pid) := by
  cases found : htFind batch.ht pid with
  | none =>
    rw [popOne, found]
    exact grown
  | some idx =>
    have keyed := (key_of_find indexed pid idx).mp found
    obtain ⟨_, e, entry, rfl⟩ := key_entry keyed
    obtain ⟨_, same⟩ | ⟨_, same⟩ := pop_one_cases batch placing indexed state keyed entry
    · rw [same]
      exact grown
    have present := placed_present batch placing tree placingSound grown idx e
    rw [same]
    constructor
    · apply (append_flat state.tree _ _ present).trans
      rw [newRows, filterMap_append, ← append_assoc]
      have last : [(idx, state.tree.next)].filterMap
          (fun entry => (batch.entries[entry.1]?).map fun e => placing.row e entry.2) =
            [placing.row e state.tree.next] := by simp [entry]
      rw [last]
      exact grown.rows.append_right _
    · exact append_sound state.tree _ _ grown.sound (placingSound.node e _) present
    · exact Nat.le_succ_of_le grown.next
    · intro other mem
      rcases mem_append.mp mem with old | _ | ⟨_, ⟨⟩⟩
      · exact grown.keyed other old
      · rw [keyed]
        rfl
    · intro other mem
      rcases mem_append.mp mem with old | _ | ⟨_, ⟨⟩⟩
      · exact grown.later other old
      · exact grown.next
    · intro before other node after otherEntry shape otherFound
      cases after using List.reverseRecOn with
      | nil =>
        obtain ⟨front, last⟩ := append_inj' shape rfl
        cases last
        rw [entry] at otherFound
        cases otherFound
        rw [← front]
        exact append_hangs state.tree _ _ present
      | append_singleton after last =>
        rw [← cons_append, ← append_assoc] at shape
        apply hangs_kept (append_paths state.tree _ _)
        exact grown.hangs before other node after otherEntry (append_inj' shape rfl).1 otherFound

theorem insert_from_grown (grown : Grown batch placing tree state) (idx : Nat) :
    Grown batch placing tree (insertFrom batch placing state idx) := by
  unfold insertFrom
  split
  · exact grown
  · exact List.foldlRecOn _ _ grown fun state held pid _ => pop_one_grown batch placing tree placingSound indexed held pid

theorem insert_all_grown (sound : tree.Sound) : Grown batch placing tree (insertAll batch placing tree) := by
  refine List.foldlRecOn _ _ ?_ fun state held idx _ => insert_from_grown batch placing tree placingSound indexed held idx
  constructor
  · exact List.Perm.of_eq (append_nil _).symm
  · exact sound
  · exact Nat.le_refl _
  · exact forall_mem_nil _
  · exact forall_mem_nil _
  · intro before idx node after e shape
    cases before <;> cases shape

end

end Evemon.ProcTree
