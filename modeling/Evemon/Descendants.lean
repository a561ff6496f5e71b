import Evemon.Lib.Worklist

-- The descendants of a process, from the PIDs with their parents that a scan of /proc reads one
-- after another.
namespace Evemon.Descendants

open List Worklist

def scanned (pid : Int) (listing : List (Int × Int)) : List (Int × Int) :=
  listing.filter fun entry => decide (0 < entry.1 ∧ entry.1 ≠ pid ∧ 0 < entry.2)

-- A pair is marked as consumed by setting its PID to 0.
def pass (pid : Int) : List (Int × Int) → List Int → List (Int × Int) × List Int × Bool
  | [], pids => ([], pids, false)
  | pair :: rest, pids =>
    if pair.1 ≠ 0 ∧ (pair.2 = pid ∨ pair.2 ∈ pids) then
      let later := pass pid rest (pids ++ [pair.1])
      ((0, pair.2) :: later.1, later.2.1, true)
    else
      let later := pass pid rest pids
      (pair :: later.1, later.2)

def passes (pid : Int) : Nat → List (Int × Int) → List Int → Option (List Int)
  | 0, _, _ => none
  | fuel + 1, pairs, pids =>
    let after := pass pid pairs pids
    if after.2.2 then passes pid fuel after.1 after.2.1 else some after.2.1

def gatherDescendants (pid : Int) (listing : List (Int × Int)) : Option (List Int) :=
  passes pid ((scanned pid listing).length + 1) (scanned pid listing) []

def Child (pairs : List (Int × Int)) (parent child : Int) : Prop := (child, parent) ∈ pairs

def mark (pids : List Int) (pair : Int × Int) : Int × Int := if pair.1 ∈ pids then (0, pair.2) else pair

variable {pid : Int} {pairs : List (Int × Int)}

structure Swept (pid : Int) (pairs rest : List (Int × Int)) (pids : List Int)
    (after : List (Int × Int) × List Int × Bool) : Prop where
  grown : Grown (Child pairs) pid after.2.1
  marked : after.1 = rest.map (mark after.2.1)
  extended : pids <+: after.2.1
  within : ∀ key ∈ after.2.1, key ∈ pids ∨ key ∈ rest.map Prod.fst
  more : after.2.2 → pids.length < after.2.1.length
  done : after.2.2 = false → after.2.1 = pids ∧ ∀ pair ∈ rest, pair.2 = pid ∨ pair.2 ∈ pids → pair.1 ∈ pids

theorem mark_parent (pids : List Int) (pair : Int × Int) : (mark pids pair).2 = pair.2 := by
  unfold mark
  split <;> rfl

variable {pids : List Int} {rest : List (Int × Int)}

theorem mark_other {key : Int} (other : key ∉ rest.map Prod.fst) :
    rest.map (mark (pids ++ [key])) = rest.map (mark pids) := by
  refine map_congr_left fun pair mem => ?_
  have different : pair.1 ≠ key := fun same => other (same ▸ mem_map_of_mem mem)
  simp [mark, different]

theorem pass_swept (inside : rest ⊆ pairs) (distinct : (rest.map Prod.fst).Nodup) (positive : ∀ pair ∈ rest, 0 < pair.1)
    (grown : Grown (Child pairs) pid pids) : Swept pid pairs rest pids (pass pid (rest.map (mark pids)) pids) := by
  induction rest generalizing pids with
  | nil =>
    exact ⟨grown, rfl, prefix_rfl, fun _ => .inl, fun found => (nomatch found), fun _ => ⟨rfl, fun _ mem => (nomatch mem)⟩⟩
  | cons pair rest ih =>
    obtain ⟨here, tail⟩ := cons_subset.mp inside
    obtain ⟨fresh, apart⟩ := nodup_cons.mp distinct
    obtain ⟨above, others⟩ := forall_mem_cons.mp positive
    rw [map_cons, pass, mark_parent]
    by_cases taken : pair.1 ∉ pids ∧ (pair.2 = pid ∨ pair.2 ∈ pids)
    · obtain ⟨new, known⟩ := taken
      have swept := ih tail apart others (.add grown new here known)
      have longer := swept.extended.length_le
      rw [length_append, length_singleton] at longer
      rw [mark, if_neg new, if_pos ⟨Int.ne_of_gt above, known⟩, ← mark_other fresh]
      refine ⟨swept.grown, ?_, (prefix_append _ _).trans swept.extended, fun key mem => ?_, fun _ => longer,
        fun quiet => (nomatch quiet)⟩
      · rw [map_cons, mark, if_pos (swept.extended.subset (by simp)), ← swept.marked]
      · rcases swept.within key mem with early | late
        · rcases mem_append.mp early with old | same
          · exact .inl old
          · exact .inr (mem_singleton.mp same ▸ mem_cons_self)
        · exact .inr (mem_cons_of_mem _ late)
    · -- The pair has been consumed before, or its parent is not known yet.
      have swept := ih tail apart others grown
      have skipped : ¬ ((mark pids pair).1 ≠ 0 ∧ (pair.2 = pid ∨ pair.2 ∈ pids)) := by
        intro both
        by_cases listed : pair.1 ∈ pids
        · exact both.1 (by rw [mark, if_pos listed])
        · exact taken ⟨listed, both.2⟩
      have still : pair.1 ∈ (pass pid (rest.map (mark pids)) pids).2.1 ↔ pair.1 ∈ pids :=
        ⟨fun mem => (swept.within pair.1 mem).resolve_right fresh, fun mem => swept.extended.subset mem⟩
      rw [if_neg skipped]
      refine ⟨swept.grown, ?_, swept.extended, fun key mem => (swept.within key mem).imp_right (mem_cons_of_mem _),
        swept.more, fun quiet => ⟨(swept.done quiet).1, forall_mem_cons.mpr ⟨fun known => ?_, (swept.done quiet).2⟩⟩⟩
      · rw [map_cons, ← swept.marked]
        simp only [mark, still]
      · by_contra new
        exact taken ⟨new, known⟩

theorem grown_bounded (grown : Grown (Child pairs) pid pids) : pids.length ≤ pairs.length := by
  rw [← length_map Prod.fst]
  refine ((grown_nodup grown).subperm fun key mem => ?_).length_le
  cases grown_reached grown key mem with
  | single below | tail _ below => exact mem_map_of_mem below

theorem passes_closed (fuel : Nat) (distinct : (pairs.map Prod.fst).Nodup) (positive : ∀ pair ∈ pairs, 0 < pair.1)
    (grown : Grown (Child pairs) pid pids) (enough : pairs.length + 1 ≤ pids.length + fuel) :
    ∃ last, passes pid fuel (pairs.map (mark pids)) pids = some last ∧ Grown (Child pairs) pid last ∧
    ∀ upper lower, Child pairs upper lower → upper = pid ∨ upper ∈ last → lower ∈ last := by
  have bounded := grown_bounded grown
  induction fuel generalizing pids with
  | zero => omega
  | succ fuel ih =>
    have swept := pass_swept (Subset.refl pairs) distinct positive grown
    rw [passes]
    cases found : (pass pid (pairs.map (mark pids)) pids).2.2 with
    | true =>
      have longer := swept.more found
      rw [if_pos rfl, swept.marked]
      exact ih swept.grown (by omega) (grown_bounded swept.grown)
    | false =>
      obtain ⟨same, closed⟩ := swept.done found
      rw [if_neg (by simp), same]
      exact ⟨pids, rfl, grown, fun upper lower below => closed (lower, upper) below⟩

theorem descendants_gathered (pid : Int) (listing : List (Int × Int)) (real : 0 < pid)
    (distinct : (listing.map Prod.fst).Nodup) (positive : ∀ pair ∈ listing, 0 < pair.1) :
    ∃ pids, gatherDescendants pid listing = some pids ∧ pids.Nodup ∧
    (∀ found, found ∈ pids ↔ found ≠ pid ∧ Relation.TransGen (Child listing) pid found) ∧
    ∀ before found later, pids = before ++ found :: later → ∀ parent, Child listing parent found →
    parent = pid ∨ parent ∈ before := by
  have listed {pair : Int × Int} (mem : pair ∈ scanned pid listing) : pair ∈ listing := (mem_filter.mp mem).1
  have apart : ((scanned pid listing).map Prod.fst).Nodup := distinct.sublist (filter_sublist.map Prod.fst)
  have unmarked : (scanned pid listing).map (mark []) = scanned pid listing :=
    (map_congr_left fun _ _ => if_neg not_mem_nil).trans (map_id' _)
  obtain ⟨pids, gathered, grown, closed⟩ := passes_closed ((scanned pid listing).length + 1) apart
    (fun pair mem => positive pair (listed mem)) (Grown.begin : Grown _ pid []) (Nat.le_add_left _ _)
  rw [unmarked] at gathered
  have below (found : Int) (mem : found ∈ pids) : ∃ upper, Child (scanned pid listing) upper found := by
    cases grown_reached grown found mem with
    | single below | tail _ below => exact ⟨_, below⟩
  refine ⟨pids, gathered, grown_nodup grown, fun found => ⟨fun mem => ⟨?_, ?_⟩, fun both => ?_⟩, ?_⟩
  · obtain ⟨upper, child⟩ := below found mem
    exact (of_decide_eq_true (mem_filter.mp child).2).2.1
  · exact Relation.TransGen.mono (fun _ _ child => listed child) _ _ (grown_reached grown found mem)
  · -- A path that comes back to the process itself starts again there.
    refine (Or.resolve_left ?_ both.1 : found ∈ pids)
    have reached := both.2
    have step (upper lower : Int) (child : Child listing upper lower) (known : upper = pid ∨ upper ∈ pids) :
        lower = pid ∨ lower ∈ pids := by
      refine or_iff_not_imp_left.mpr fun other => closed upper lower (mem_filter.mpr ⟨child, decide_eq_true ?_⟩) known
      refine ⟨positive _ child, other, ?_⟩
      rcases known with rfl | mem
      · exact real
      · obtain ⟨_, above⟩ := below upper mem
        exact positive _ (listed above)
    clear both
    induction reached with
    | single child => exact step _ _ child (.inl rfl)
    | tail _ child ih => exact step _ _ child ih
  · intro before found later place parent child
    obtain ⟨upper, above, known⟩ := grown_after grown place
    obtain rfl : parent = upper := (Prod.mk.inj (inj_on_of_nodup_map distinct child (listed above) rfl)).2
    exact known

theorem descendants_of_cycle : ∃ pids, gatherDescendants 7 [(9, 8), (8, 7), (7, 9), (5, 5), (6, 1)] = some pids ∧
    pids.Nodup := by
  obtain ⟨pids, gathered, nodup, -⟩ := descendants_gathered 7 [(9, 8), (8, 7), (7, 9), (5, 5), (6, 1)] (by decide)
    (by decide) (by decide)
  exact ⟨pids, gathered, nodup⟩

end Evemon.Descendants
