import Mathlib.Data.List.Nodup
import Mathlib.Data.List.Perm.Basic

-- Ordered forests: the first tree is a value with its children, the others come next.
inductive Forest (α : Type) where
  | nil
  | cons (value : α) (children next : Forest α)
deriving DecidableEq

namespace Forest

open List

variable {α β : Type}

def paths (above : List α) : Forest α → List (List α × α)
  | nil => []
  | cons value children next => (above, value) :: (children.paths (value :: above) ++ next.paths above)

def flat : Forest α → List α
  | nil => []
  | cons value children next => value :: (children.flat ++ next.flat)

def map (change : α → β) : Forest α → Forest β
  | nil => nil
  | cons value children next => cons (change value) (children.map change) (next.map change)

def concat : Forest α → Forest α → Forest α
  | nil, others => others
  | cons value children next, others => cons value children (next.concat others)

def appendRoot (value : α) : Forest α → Forest α
  | nil => cons value nil nil
  | cons first children next => cons first children (next.appendRoot value)

def appendUnder (meant : α → Bool) (value : α) : Forest α → Forest α
  | nil => nil
  | cons first children next =>
    if meant first then cons first (children.appendRoot value) next
    else if children.flat.any meant then cons first (children.appendUnder meant value) next
    else cons first children (next.appendUnder meant value)

def prune (change : α → Option β) : Forest α → Forest β
  | nil => nil
  | cons value children next =>
    match change value with
    | none => next.prune change
    | some changed => cons changed (children.prune change) (next.prune change)

def dropRoots (drop : α → Bool) : Forest α → Forest α
  | nil => nil
  | cons value children next => if drop value then next.dropRoots drop else cons value children (next.dropRoots drop)

def count : Forest α → Nat
  | nil => 0
  | cons _ children next => 1 + children.count + next.count

def branches : Forest α → List (α × Forest α)
  | nil => []
  | cons value children next => (value, children) :: (children.branches ++ next.branches)

def find? (meant : α → Bool) : Forest α → Option (α × Forest α)
  | nil => none
  | cons value children next =>
    if meant value then some (value, children)
    else (children.find? meant).or (next.find? meant)

def relabel (change : Nat → α → β) : Nat → Forest α → Forest β × Nat
  | number, nil => (nil, number)
  | number, cons value children next =>
    let below := children.relabel change (number + 1)
    let after := next.relabel change below.2
    (cons (change number value) below.1 after.1, after.2)

section

@[simp] theorem flat_nil : (nil : Forest α).flat = [] := rfl

@[simp] theorem flat_cons (value : α) (children next : Forest α) :
    (cons value children next).flat = value :: (children.flat ++ next.flat) := rfl

variable (meant drop : α → Bool) (forest others : Forest α)

theorem paths_flat (above : List α) : (forest.paths above).map Prod.snd = forest.flat := by
  induction forest generalizing above with
  | nil => rfl
  | cons value children next inner later => simp [paths, inner, later]

theorem count_flat : forest.count = forest.flat.length := by
  induction forest with
  | nil => rfl
  | cons value children next inner later => simp [count, inner, later]; omega

theorem branches_flat : forest.branches.map Prod.fst = forest.flat := by
  induction forest with
  | nil => rfl
  | cons value children next inner later => simp [branches, inner, later]

theorem flat_map (change : α → β) (forest : Forest α) : (forest.map change).flat = forest.flat.map change := by
  induction forest with
  | nil => rfl
  | cons value children next inner later => simp [map, inner, later]

theorem flat_append_root (value : α) (forest : Forest α) : (forest.appendRoot value).flat = forest.flat ++ [value] := by
  induction forest with
  | nil => rfl
  | cons first children next _ later => simp [appendRoot, later]

theorem present_next {first} {children next} (present : ∃ held ∈ (cons first children next).flat, meant held)
    (other : ¬meant first) (outside : ¬children.flat.any meant) : ∃ held ∈ next.flat, meant held := by
  obtain ⟨held, mem, here⟩ := present
  rw [flat_cons, mem_cons, mem_append] at mem
  obtain rfl | inside | after := mem
  · exact absurd here other
  · exact absurd (any_eq_true.mpr ⟨held, inside, here⟩) outside
  · exact ⟨held, after, here⟩

theorem flat_append_under (value : α) (forest : Forest α) (present : ∃ held ∈ forest.flat, meant held) :
    (forest.appendUnder meant value).flat.Perm (forest.flat ++ [value]) := by
  induction forest with
  | nil =>
    obtain ⟨held, mem, _⟩ := present
    cases mem
  | cons first children next inner later =>
    rw [appendUnder]
    split
    · rw [flat_cons, flat_cons, flat_append_root, cons_append, append_assoc, append_assoc]
      exact (List.Perm.append_left _ perm_append_comm).cons _
    · rename_i other
      split
      · rename_i within
        have moved := inner (any_eq_true.mp within)
        simp only [flat_cons, cons_append]
        apply List.Perm.cons
        calc (children.appendUnder meant value).flat ++ next.flat
            _ |>.Perm (children.flat ++ [value] ++ next.flat) := moved.append_right _
            _ |>.Perm (children.flat ++ next.flat ++ [value]) := by
              rw [append_assoc, append_assoc]
              exact List.Perm.append_left _ perm_append_comm
      · rename_i outside
        have there := present_next meant present other outside
        simp only [flat_cons, cons_append, append_assoc]
        exact ((later there).append_left _).cons _

variable (change : α → Option β)

theorem flat_prune (forest : Forest α) :
    ∃ kept : List α, kept.Sublist forest.flat ∧ (forest.prune change).flat.map some = kept.map change := by
  induction forest with
  | nil => exact ⟨[], List.Sublist.refl _, rfl⟩
  | cons value children next inner later =>
    obtain ⟨below, belowSub, belowSame⟩ := inner
    obtain ⟨after, afterSub, afterSame⟩ := later
    rw [prune]
    cases changed : change value with
    | none => exact ⟨after, (afterSub.trans (sublist_append_right _ _)).cons _, afterSame⟩
    | some result =>
      refine ⟨value :: (below ++ after), (belowSub.append afterSub).cons_cons _, ?_⟩
      simp [belowSame, afterSame, changed]

theorem flat_prune_map {γ : Type} (view : β → γ) (forest : Forest α) :
    (forest.prune change).flat.map view = (forest.prune fun value => (change value).map view).flat := by
  induction forest with
  | nil => rfl
  | cons value children next inner later =>
    rw [prune, prune]
    cases change value with
    | none => exact later
    | some changed => simp [inner, later]

theorem find_flat : (forest.find? meant).map Prod.fst = forest.flat.find? meant := by
  induction forest with
  | nil => rfl
  | cons value children next inner later =>
    rw [find?, flat_cons, List.find?_cons]
    cases meant value with
    | true => rfl
    | false => rw [if_neg Bool.false_ne_true, List.find?_append, ← inner, ← later, Option.map_or]

theorem drop_roots_concat :
    (forest.concat others).dropRoots drop = (forest.dropRoots drop).concat (others.dropRoots drop) := by
  induction forest with
  | nil => rfl
  | cons value children next _ later =>
    rw [concat, dropRoots, dropRoots, later]
    split <;> rfl

theorem drop_roots_idem : (forest.dropRoots drop).dropRoots drop = forest.dropRoots drop := by
  induction forest with
  | nil => rfl
  | cons value children next _ later =>
    rw [dropRoots]
    split
    · exact later
    · rename_i kept
      rw [dropRoots, if_neg kept, later]

theorem drop_roots_none (none : ∀ value ∈ forest.flat, drop value = false) : forest.dropRoots drop = forest := by
  induction forest with
  | nil => rfl
  | cons value children next _ later =>
    rw [flat_cons, forall_mem_cons, forall_mem_append] at none
    rw [dropRoots, none.1, if_neg Bool.false_ne_true, later none.2.2]

theorem drop_roots_map (change : α → α) (same : ∀ value, drop (change value) = drop value)
    (forest : Forest α) : (forest.map change).dropRoots drop = (forest.dropRoots drop).map change := by
  induction forest with
  | nil => rfl
  | cons value children next _ later =>
    rw [map, dropRoots, dropRoots, same, later]
    split <;> rfl

theorem flat_concat : (forest.concat others).flat = forest.flat ++ others.flat := by
  induction forest with
  | nil => rfl
  | cons value children next _ later => simp [concat, later]

theorem find_concat : (forest.concat others).find? meant = (forest.find? meant).or (others.find? meant) := by
  induction forest with
  | nil => rfl
  | cons value children next _ later =>
    rw [concat, find?, find?, later]
    split
    · rfl
    · rw [Option.or_assoc]

theorem find_branch {found}
    (search : forest.find? meant = some found) : meant found.1 ∧ found ∈ forest.branches := by
  induction forest with
  | nil => cases search
  | cons value children next inner later =>
    rw [find?] at search
    rw [branches, mem_cons, mem_append]
    split at search
    · rename_i here
      cases search
      exact ⟨here, .inl rfl⟩
    · obtain below | ⟨_, after⟩ := Option.or_eq_some_iff.mp search
      · exact (inner below).imp id fun mem => .inr (.inl mem)
      · exact (later after).imp id fun mem => .inr (.inr mem)

theorem branch_unique {κ : Type} {key : α → κ} {forest : Forest α} (distinct : (forest.flat.map key).Nodup)
    {first second : α × Forest α} (atFirst : first ∈ forest.branches) (atSecond : second ∈ forest.branches)
    (same : key first.1 = key second.1) : first = second := by
  have keys : (forest.branches.map fun branch => key branch.1).Nodup := by
    rw [← branches_flat, map_map] at distinct
    exact distinct
  exact inj_on_of_nodup_map keys atFirst atSecond same

theorem branch_flat (branch : α × Forest α) (mem : branch ∈ forest.branches) :
    (branch.1 :: branch.2.flat).Sublist forest.flat := by
  induction forest with
  | nil => cases mem
  | cons first children next inner later =>
    rw [branches, mem_cons, mem_append] at mem
    rw [flat_cons]
    obtain rfl | below | after := mem
    · exact (sublist_append_left _ _).cons_cons _
    · exact ((inner below).trans (sublist_append_left _ _)).cons _
    · exact ((later after).trans (sublist_append_right _ _)).cons _

theorem branch_of_flat (value : α) (mem : value ∈ forest.flat) : ∃ below, (value, below) ∈ forest.branches := by
  rw [← branches_flat] at mem
  obtain ⟨⟨_, below⟩, found, rfl⟩ := mem_map.mp mem
  exact ⟨below, found⟩

theorem concat_nil : forest.concat nil = forest := by
  induction forest with
  | nil => rfl
  | cons value children next _ later => rw [concat, later]

theorem relabel_next (change : Nat → α → β) (forest : Forest α) (number : Nat) :
    number ≤ (forest.relabel change number).2 := by
  induction forest generalizing number with
  | nil => exact Nat.le_refl _
  | cons value children next inner later => exact Nat.le_trans (Nat.le_succ _) (Nat.le_trans (inner _) (later _))

end

section

variable (forest : Forest α) (above ancestors : List α) (value : α)

theorem flat_of_path (path : (ancestors, value) ∈ forest.paths above) : value ∈ forest.flat := by
  rw [← paths_flat forest above]
  exact mem_map_of_mem path

theorem path_of_flat (mem : value ∈ forest.flat) : ∃ ancestors, (ancestors, value) ∈ forest.paths above := by
  rw [← paths_flat forest above] at mem
  obtain ⟨⟨ancestors, held⟩, path, rfl⟩ := mem_map.mp mem
  exact ⟨ancestors, path⟩

theorem mem_paths_cons (first : α) (children next : Forest α) (above : List α) (path : List α × α) :
    path ∈ (cons first children next).paths above ↔
    path = (above, first) ∨ path ∈ children.paths (first :: above) ∨ path ∈ next.paths above := by
  rw [paths, mem_cons, mem_append]

theorem path_above (path : (ancestors, value) ∈ forest.paths above) : ∃ own, ancestors = own ++ above := by
  induction forest generalizing above with
  | nil => cases path
  | cons first children next inner later =>
    obtain here | below | after := (mem_paths_cons ..).mp path
    · exact ⟨[], (Prod.mk.inj here).1⟩
    · obtain ⟨own, shape⟩ := inner (first :: above) below
      exact ⟨own ++ [first], by rw [shape, append_assoc, singleton_append]⟩
    · exact later above after

theorem ancestors_flat (path : (ancestors, value) ∈ forest.paths above) : ∀ ancestor ∈ ancestors, ancestor ∈ above ∨
    ancestor ∈ forest.flat := by
  induction forest generalizing above with
  | nil => cases path
  | cons first children next inner later =>
    intro ancestor mem
    rw [flat_cons, mem_cons, mem_append]
    obtain here | below | after := (mem_paths_cons ..).mp path
    · rw [(Prod.mk.inj here).1] at mem
      exact .inl mem
    · obtain old | new := inner (first :: above) below ancestor mem
      · obtain same | higher := mem_cons.mp old
        · exact .inr (.inl same)
        · exact .inl higher
      · exact .inr (.inr (.inl new))
    · exact (later above after ancestor mem).imp id fun new => .inr (.inr new)

theorem paths_append_root (forest : Forest α) (above : List α) :
    (forest.appendRoot value).paths above = forest.paths above ++ [(above, value)] := by
  induction forest with
  | nil => rfl
  | cons first children next _ later => simp [appendRoot, paths, later]

theorem paths_append_under {meant : α → Bool} {value} {forest : Forest α} {above} {path : List α × α}
    (held : path ∈ forest.paths above) : path ∈ (forest.appendUnder meant value).paths above := by
  induction forest generalizing above with
  | nil => cases held
  | cons first children next inner later =>
    rw [appendUnder]
    rw [mem_paths_cons] at held
    split
    · rw [mem_paths_cons, paths_append_root, mem_append]
      obtain here | below | after := held
      · exact .inl here
      · exact .inr (.inl (.inl below))
      · exact .inr (.inr after)
    · split
      · rw [mem_paths_cons]
        exact held.imp id (Or.imp inner id)
      · rw [mem_paths_cons]
        exact held.imp id (Or.imp id later)

theorem append_under_path (meant : α → Bool) (value : α) (forest : Forest α) (above : List α)
    (present : ∃ held ∈ forest.flat, meant held) :
    ∃ parent ancestors, meant parent ∧ (ancestors, parent) ∈ forest.paths above ∧
    (parent :: ancestors, value) ∈ (forest.appendUnder meant value).paths above := by
  induction forest generalizing above with
  | nil =>
    obtain ⟨held, mem, _⟩ := present
    cases mem
  | cons first children next inner later =>
    rw [appendUnder]
    simp only [mem_paths_cons]
    split
    · rename_i here
      refine ⟨first, above, here, .inl rfl, ?_⟩
      rw [mem_paths_cons, paths_append_root]
      exact .inr (.inl (mem_append_right _ (mem_singleton.mpr rfl)))
    · rename_i other
      split
      · rename_i within
        obtain ⟨parent, ancestors, here, there, path⟩ := inner (first :: above) (any_eq_true.mp within)
        exact ⟨parent, ancestors, here, .inr (.inl there), (mem_paths_cons ..).mpr (.inr (.inl path))⟩
      · rename_i outside
        obtain ⟨parent, ancestors, here, there, path⟩ := later above (present_next meant present other outside)
        exact ⟨parent, ancestors, here, .inr (.inr there), (mem_paths_cons ..).mpr (.inr (.inr path))⟩

theorem path_unique (distinct : forest.flat.Nodup) (above first second : List α) {value : α}
    (here : (first, value) ∈ forest.paths above) (there : (second, value) ∈ forest.paths above) : first = second := by
  rw [← paths_flat forest above] at distinct
  exact congrArg Prod.fst (inj_on_of_nodup_map distinct here there rfl)

theorem mem_flat_prune (change : α → Option β) (forest : Forest α) (above : List α) (left : β) :
    left ∈ (forest.prune change).flat ↔
    ∃ ancestors value, (ancestors ++ above, value) ∈ forest.paths above ∧ change value = some left ∧
    ∀ ancestor ∈ ancestors, (change ancestor).isSome := by
  induction forest generalizing above with
  | nil => simp [prune, paths]
  | cons first children next inner later =>
    rw [prune]
    constructor
    · intro mem
      cases changed : change first with
      | none =>
        rw [changed] at mem
        obtain ⟨ancestors, value, path, kept, all⟩ := (later above).mp mem
        exact ⟨ancestors, value, (mem_paths_cons ..).mpr (.inr (.inr path)), kept, all⟩
      | some result =>
        rw [changed, flat_cons, mem_cons, mem_append] at mem
        obtain same | below | after := mem
        · refine ⟨[], first, (mem_paths_cons ..).mpr (.inl rfl), ?_, forall_mem_nil _⟩
          rw [changed, same]
        · obtain ⟨ancestors, value, path, kept, all⟩ := (inner (first :: above)).mp below
          refine ⟨ancestors ++ [first], value, (mem_paths_cons ..).mpr (.inr (.inl ?_)), kept, ?_⟩
          · rwa [append_assoc]
          · intro ancestor listed
            rcases mem_append.mp listed with own | _ | ⟨_, ⟨⟩⟩
            · exact all ancestor own
            · rw [changed]
              rfl
        · obtain ⟨ancestors, value, path, kept, all⟩ := (later above).mp after
          exact ⟨ancestors, value, (mem_paths_cons ..).mpr (.inr (.inr path)), kept, all⟩
    · intro ⟨ancestors, value, path, kept, all⟩
      obtain here | below | after := (mem_paths_cons ..).mp path
      · obtain ⟨_, rfl⟩ := Prod.mk.inj here
        rw [kept]
        exact mem_cons_self
      · obtain ⟨own, shape⟩ := path_above children (first :: above) _ value below
        have split : ancestors = own ++ [first] := by
          rw [← append_left_inj above, shape, append_assoc, singleton_append]
        rw [shape] at below
        rw [split] at all
        have held := all first (mem_append_right _ (mem_singleton.mpr rfl))
        obtain ⟨result, changed⟩ := Option.isSome_iff_exists.mp held
        rw [changed, flat_cons, mem_cons, mem_append]
        refine .inr (.inl ((inner (first :: above)).mpr ⟨own, value, below, kept, ?_⟩))
        exact fun ancestor listed => all ancestor (mem_append_left _ listed)
      · have mem := (later above).mpr ⟨ancestors, value, after, kept, all⟩
        cases changed : change first with
        | none => exact mem
        | some result => exact mem_cons_of_mem _ (mem_append_right _ mem)

end

end Forest
