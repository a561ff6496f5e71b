import Mathlib.Data.List.Induction
import Mathlib.Data.List.Nodup

-- Keys in an order with parents before children: each is visited by climbing to its missing
-- ancestors while the stack has room, and taking the stack down.
namespace AncestorStack

open List

variable {κ : Type} [DecidableEq κ] (parent : κ → Option κ)

def climb (done : List κ) : Nat → κ → List κ
  | 0, _ => []
  | room + 1, key => if key ∈ done then [] else key :: ((parent key).map (climb done room)).getD []

def put (done : List κ) (key : κ) : List κ := if key ∈ done then done else done ++ [key]

def visit (room : Nat) (done : List κ) (key : κ) : List κ := (climb parent done room key).reverse.foldl put done

def order (room : Nat) (keys : List κ) : List κ := keys.foldl (visit parent room) []

def ancestor : Nat → κ → Option κ
  | 0, key => some key
  | steps + 1, key => (parent key).bind (ancestor steps)

def Covered (keys : List κ) (key : κ) : Prop := ∃ first ∈ keys, ∃ steps, ancestor parent steps first = some key

def Ordered (list : List κ) : Prop :=
  ∀ before key after, list = before ++ key :: after → ∀ up, parent key = some up → up ∈ before

section

variable {done : List κ}

variable {room : Nat} {key : κ}

theorem climb_succ (missing : key ∉ done) :
    climb parent done (room + 1) key = key :: ((parent key).map (climb parent done room)).getD [] := if_neg missing

theorem climb_done (here : key ∈ done) : climb parent done room key = [] := by
  cases room with
  | zero => rfl
  | succ room => exact if_pos here

variable (done) (room) (key)

theorem climb_mem : ∀ found ∈ climb parent done room key, found ∉ done ∧
    ∃ steps, ancestor parent steps key = some found := by
  induction room generalizing key with
  | zero => exact forall_mem_nil _
  | succ room ih =>
    intro found mem
    by_cases here : key ∈ done
    · rw [climb_done parent here] at mem
      cases mem
    · rw [climb_succ parent here, mem_cons] at mem
      obtain rfl | above := mem
      · exact ⟨here, 0, rfl⟩
      · cases up : parent key with
        | none =>
          rw [up] at above
          cases above
        | some next =>
          rw [up] at above
          obtain ⟨fresh, steps, reached⟩ := ih next found above
          exact ⟨fresh, steps + 1, by rw [ancestor, up]; exact reached⟩

theorem climb_ends (before : List κ) {after : List κ} {found : κ} (up : κ)
    (shape : climb parent done room key = before ++ found :: after) (above : parent found = some up) :
    (∃ rest, after = up :: rest) ∨ up ∈ done ∨ ancestor parent room key = some up := by
  induction room generalizing key before with
  | zero =>
    rw [climb] at shape
    cases before <;> cases shape
  | succ room ih =>
    by_cases here : key ∈ done
    · rw [climb_done parent here] at shape
      cases before <;> cases shape
    rw [climb_succ parent here] at shape
    cases before with
    | nil =>
      rw [nil_append, List.cons.injEq] at shape
      obtain ⟨rfl, rest⟩ := shape
      rw [above, Option.map_some, Option.getD_some] at rest
      cases room with
      | zero => exact .inr (.inr (by rw [ancestor, above]; rfl))
      | succ room =>
        by_cases next : up ∈ done
        · exact .inr (.inl next)
        · rw [climb_succ parent next] at rest
          exact .inl ⟨_, rest.symm⟩
    | cons first before =>
      rw [cons_append, List.cons.injEq] at shape
      obtain ⟨rfl, rest⟩ := shape
      cases next : parent key with
      | none =>
        rw [next] at rest
        cases before <;> cases rest
      | some higher =>
        rw [next, Option.map_some, Option.getD_some] at rest
        refine (ih higher before rest).imp id (Or.imp id fun top => ?_)
        rw [ancestor, next]
        exact top

theorem climb_full (key top : κ) (far : ancestor parent room key = some top)
    (missing : ∀ steps met, steps ≤ room → ancestor parent steps key = some met → met ∉ done) (some : 0 < room) :
    ∃ before found, climb parent done room key = before ++ [found] ∧ parent found = Option.some top := by
  induction room generalizing key with
  | zero => cases some
  | succ room ih =>
    have here : key ∉ done := missing 0 key (Nat.zero_le _) rfl
    rw [climb_succ parent here]
    cases next : parent key with
    | none =>
      rw [ancestor, next] at far
      cases far
    | some higher =>
      rw [ancestor, next, Option.bind_some] at far
      cases room with
      | zero =>
        cases far
        exact ⟨[], key, rfl, next⟩
      | succ room =>
        have above (steps : Nat) (met : κ) (within : steps ≤ room + 1)
            (reached : ancestor parent steps higher = Option.some met) : met ∉ done := by
          apply missing (steps + 1) met (Nat.succ_le_succ within)
          rw [ancestor, next]
          exact reached
        obtain ⟨before, found, shape, last⟩ := ih higher far above (Nat.succ_pos _)
        exact ⟨key :: before, found, by rw [Option.map_some, Option.getD_some, shape]; rfl, last⟩

end

section

variable (done : List κ)

theorem mem_put (key other : κ) : other ∈ put done key ↔ other ∈ done ∨ other = key := by
  unfold put
  split
  · rename_i here
    exact ⟨.inl, fun either => either.elim id fun same => same ▸ here⟩
  · rw [mem_append, mem_singleton]

theorem mem_foldl_put (keys : List κ) (other : κ) : other ∈ keys.foldl put done ↔ other ∈ done ∨ other ∈ keys := by
  induction keys generalizing done with
  | nil => simp
  | cons key rest ih => rw [foldl_cons, ih, mem_put, mem_cons, or_assoc]

theorem put_nodup (key : κ) (distinct : done.Nodup) : (put done key).Nodup := by
  unfold put
  split
  · exact distinct
  · rename_i missing
    exact distinct.append (nodup_singleton key) (disjoint_singleton.mpr missing)

theorem foldl_put_nodup {keys : List κ} (distinct : done.Nodup) : (keys.foldl put done).Nodup := by
  induction keys generalizing done with
  | nil => exact distinct
  | cons key rest ih => exact ih _ (put_nodup done key distinct)

theorem foldl_put_grows (keys : List κ) : ∃ more, keys.foldl put done = done ++ more := by
  induction keys generalizing done with
  | nil => exact ⟨[], (append_nil _).symm⟩
  | cons key rest ih =>
    obtain ⟨more, shape⟩ := ih (put done key)
    rw [foldl_cons, shape]
    unfold put
    split
    · exact ⟨more, rfl⟩
    · exact ⟨key :: more, by rw [append_assoc, singleton_append]⟩

end

section

variable (room : Nat)

theorem mem_visit (done : List κ) (key other : κ) :
    other ∈ visit parent room done key ↔ other ∈ done ∨ other ∈ climb parent done room key := by
  rw [visit, mem_foldl_put, mem_reverse]

theorem visit_self {done} {key : κ} (some : 0 < room) : key ∈ visit parent room done key := by
  rw [mem_visit]
  by_cases here : key ∈ done
  · exact .inl here
  · obtain ⟨less, rfl⟩ := Nat.exists_eq_succ_of_ne_zero (Nat.pos_iff_ne_zero.mp some)
    rw [climb_succ parent here]
    exact .inr mem_cons_self

variable (keys : List κ)

theorem order_concat (key : κ) : order parent room (keys ++ [key]) = visit parent room (order parent room keys) key := by
  rw [order, foldl_append]
  rfl

theorem order_nodup : (order parent room keys).Nodup := by
  induction keys using List.reverseRecOn with
  | nil => exact nodup_nil
  | append_singleton keys key ih =>
    rw [order_concat]
    exact foldl_put_nodup _ ih

theorem mem_order (some : 0 < room) (key : κ) (mem : key ∈ keys) : key ∈ order parent room keys := by
  induction keys using List.reverseRecOn with
  | nil => cases mem
  | append_singleton keys last ih =>
    rw [order_concat]
    rcases mem_append.mp mem with old | _ | ⟨_, ⟨⟩⟩
    · exact (mem_visit ..).mpr (.inl (ih old))
    · exact visit_self parent room some

theorem order_covered : ∀ key ∈ order parent room keys, Covered parent keys key := by
  induction keys using List.reverseRecOn with
  | nil => exact forall_mem_nil _
  | append_singleton keys last ih =>
    intro key mem
    rw [order_concat, mem_visit] at mem
    obtain old | new := mem
    · obtain ⟨first, listed, steps, reached⟩ := ih key old
      exact ⟨first, mem_append_left _ listed, steps, reached⟩
    · obtain ⟨-, steps, reached⟩ := climb_mem parent _ room last key new
      exact ⟨last, mem_append_right _ (mem_singleton.mpr rfl), steps, reached⟩

theorem order_grows (more : List κ) : ∃ rest, order parent room (keys ++ more) = order parent room keys ++ rest := by
  induction more using List.reverseRecOn with
  | nil => exact ⟨[], by rw [append_nil, append_nil]⟩
  | append_singleton more last ih =>
    obtain ⟨rest, shape⟩ := ih
    obtain ⟨added, grown⟩ := foldl_put_grows (order parent room (keys ++ more))
      (climb parent (order parent room (keys ++ more)) room last).reverse
    rw [← append_assoc, order_concat, visit, grown, shape]
    exact ⟨rest ++ added, append_assoc ..⟩

end

section

omit [DecidableEq κ] in
theorem ancestor_add (first second : Nat) (key met : κ) (reached : ancestor parent first key = some met) :
    ancestor parent (first + second) key = ancestor parent second met := by
  induction first generalizing key with
  | zero =>
    cases reached
    rw [Nat.zero_add]
  | succ first ih =>
    cases next : parent key with
    | none =>
      rw [ancestor, next] at reached
      cases reached
    | some higher =>
      rw [ancestor, next, Option.bind_some] at reached
      rw [Nat.succ_add, ancestor, next]
      exact ih higher reached

omit [DecidableEq κ] in
theorem ordered_closed {list} (ordered : Ordered parent list) (steps : Nat) (key top : κ) (mem : key ∈ list)
    (reached : ancestor parent steps key = some top) : top ∈ list := by
  induction steps generalizing key with
  | zero =>
    cases reached
    exact mem
  | succ steps ih =>
    obtain ⟨before, after, shape⟩ := append_of_mem mem
    cases next : parent key with
    | none =>
      rw [ancestor, next] at reached
      cases reached
    | some higher =>
      rw [ancestor, next, Option.bind_some] at reached
      apply ih higher _ reached
      rw [shape]
      exact mem_append_left _ (ordered before key after shape higher next)

theorem put_ordered (done : List κ) (key : κ) (ordered : Ordered parent done)
    (ready : ∀ up, parent key = some up → up ∈ done) : Ordered parent (put done key) := by
  unfold put
  split
  · exact ordered
  · intro before other after shape
    cases after using List.reverseRecOn with
    | nil =>
      obtain ⟨same, last⟩ := append_inj' shape rfl
      cases last
      rw [← same]
      exact ready
    | append_singleton after last =>
      rw [← cons_append, ← append_assoc] at shape
      exact ordered before other after (append_inj' shape rfl).1

-- Taking down a stack on which each key is followed by its parent, unless that is done.
theorem stack_ordered {done stack : List κ} (ordered : Ordered parent done)
    (linked : ∀ before found after up, stack = before ++ found :: after → parent found = some up →
    (∃ rest, after = up :: rest) ∨ up ∈ done) : Ordered parent (stack.reverse.foldl put done) := by
  induction stack with
  | nil => exact ordered
  | cons key rest ih =>
    rw [reverse_cons, foldl_append]
    apply put_ordered
    · apply ih
      intro before found after up shape
      exact linked (key :: before) found after up (congrArg (key :: ·) shape)
    · intro up above
      rw [mem_foldl_put, mem_reverse]
      obtain ⟨others, shape⟩ | here := linked [] key rest up rfl above
      · rw [shape]
        exact .inr mem_cons_self
      · exact .inl here

def Shallow (room : Nat) (keys : List κ) : Prop :=
  ∀ before key after, keys = before ++ key :: after → ∀ top, ancestor parent room key = some top →
    Covered parent before top

variable {room : Nat} (some : 0 < room)

include some

theorem shallow_ordered {keys} (shallow : Shallow parent room keys) :
    Ordered parent (order parent room keys) ∧ ∀ key, Covered parent keys key → key ∈ order parent room keys := by
  induction keys using List.reverseRecOn with
  | nil =>
    constructor
    · intro before key after shape
      cases before <;> cases shape
    · intro key ⟨first, mem, _⟩
      cases mem
  | append_singleton keys last ih =>
    have front : Shallow parent room keys := fun before key after shape =>
      shallow before key (after ++ [last]) (by rw [shape, append_assoc, cons_append])
    obtain ⟨ordered, complete⟩ := ih front
    have grown : Ordered parent (order parent room (keys ++ [last])) := by
      rw [order_concat]
      apply stack_ordered _ ordered
      intro before found after up shape above
      obtain next | here | far := climb_ends parent _ room last before up shape above
      · exact .inl next
      · exact .inr here
      · exact .inr (complete up (shallow keys last [] rfl up far))
    refine ⟨grown, fun key covered => ?_⟩
    obtain ⟨first, mem, steps, reached⟩ := covered
    exact ordered_closed parent grown steps first key (mem_order parent room _ some first mem) reached

theorem ordered_shallow (keys : List κ) (ordered : Ordered parent (order parent room keys)) :
    Shallow parent room keys := by
  intro before key after shape top far
  by_contra uncovered
  have missing (steps : Nat) (met : κ) (within : steps ≤ room) (reached : ancestor parent steps key = Option.some met) :
      met ∉ order parent room before := by
    intro done
    obtain ⟨first, mem, more, climbed⟩ := order_covered parent room before met done
    apply uncovered
    refine ⟨first, mem, more + (room - steps), ?_⟩
    rw [ancestor_add parent more _ first met climbed, ← ancestor_add parent steps _ key met reached,
      Nat.add_sub_cancel' within, far]
  obtain ⟨below, found, stack, above⟩ := climb_full parent _ room key top far missing some
  have fresh : found ∉ order parent room before := (climb_mem parent _ room key found
    (by rw [stack]; exact mem_append_right _ (mem_singleton.mpr rfl))).1
  obtain ⟨rest, whole⟩ := order_grows parent room (before ++ [key]) after
  rw [append_assoc, singleton_append, ← shape, order_concat, visit, stack, reverse_append,
    reverse_singleton, singleton_append, foldl_cons, put, if_neg fresh] at whole
  obtain ⟨more, grown⟩ := foldl_put_grows (order parent room before ++ [found]) below.reverse
  rw [grown, append_assoc, append_assoc, singleton_append] at whole
  have early := ordered _ found _ whole top above
  exact uncovered (order_covered parent room before top early)

theorem ordered_iff (keys : List κ) : Ordered parent (order parent room keys) ↔ Shallow parent room keys :=
  ⟨ordered_shallow parent some keys, fun shallow => (shallow_ordered parent some shallow).1⟩

end

end AncestorStack
