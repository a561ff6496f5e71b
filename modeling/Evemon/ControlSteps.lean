import Evemon.Controls

namespace Evemon.Controls

open Fdmon Ipc List Function Collect

variable (owners : Owners) (a b : Watch)

theorem same_watch_iff : sameWatch a b ↔ watchKey a = watchKey b := by
  simp only [sameWatch, watchKey, Bool.and_eq_true, Bool.or_eq_true, decide_eq_true_eq, Prod.mk.injEq]
  constructor
  · rintro ⟨⟨kinds, pids⟩, other | values⟩
    · exact ⟨kinds, pids, by rw [if_neg other, if_neg (kinds ▸ other)]⟩
    · exact ⟨kinds, pids, by rw [kinds, values]⟩
  · rintro ⟨kinds, pids, values⟩
    by_cases first : a.kind = 1
    · exact ⟨⟨kinds, pids⟩, .inr (by rwa [if_pos first, if_pos (kinds ▸ first)] at values)⟩
    · exact ⟨⟨kinds, pids⟩, .inl first⟩

theorem merge_watch_key (same : watchKey a = watchKey b) : watchKey (mergeWatch a b) = watchKey a := by
  by_cases tree : b.kind = 2
  · have kinds : a.kind = 2 := (congrArg Prod.fst same).trans tree
    simp [mergeWatch, tree, watchKey, kinds]
  · rw [mergeWatch, if_neg tree]

theorem word_cases {value : UInt32} (positive : ¬ value = 0) (small : value ≤ 3) : value = 1 ∨ value = 2 ∨ value = 3 := by
  simp only [← UInt32.toNat_inj, UInt32.le_iff_toNat_le, UInt32.reduceToNat] at *
  omega

inductive Accepted : Watch → Prop where
  | fd (pid value : UInt32) (positive : pidPositive pid = true) : Accepted ⟨1, pid, value⟩
  | tree (pid value : UInt32) (positive : pidPositive pid = true) (mask : value = 1 ∨ value = 2 ∨ value = 3) :
      Accepted ⟨2, pid, value⟩
  | orphan : Accepted ⟨3, 0, 0⟩

theorem accepted_of_checks {w} (passed : watchRejected w = false) : Accepted w := by
  obtain ⟨kind, pid, value⟩ := w
  simp only [watchRejected, Bool.or_eq_false_iff, Bool.and_eq_false_iff, decide_eq_false_iff_not, not_not] at passed
  obtain ⟨⟨⟨⟨⟨⟨low, high⟩, small⟩, named⟩, -⟩, masks⟩, bare⟩ := passed
  have positive : kind ≠ 3 → pidPositive pid := by
    intro other
    have nonzero : ¬ pid = 0 := named.resolve_left other
    simp only [pidPositive, decide_eq_true_eq]
    simp only [intMax, ← UInt32.toNat_inj, UInt32.le_iff_toNat_le, UInt32.lt_iff_toNat_lt, UInt32.reduceToNat] at *
    omega
  have kinds : kind = 1 ∨ kind = 2 ∨ kind = 3 := by
    refine word_cases ?_ (UInt32.not_lt.mp high)
    rintro rfl
    exact low (by decide)
  rcases kinds with rfl | rfl | rfl
  · exact .fd pid value (positive (by decide))
  · obtain ⟨nonzero, bounded⟩ := masks.resolve_left (by decide)
    exact .tree pid value (positive (by decide)) (word_cases nonzero (UInt32.not_lt.mp bounded))
  · obtain ⟨rfl, rfl⟩ := bare.resolve_left (by decide)
    exact .orphan

theorem merged_mask {a b : UInt32} (atA : a = 1 ∨ a = 2 ∨ a = 3) (atB : b = 1 ∨ b = 2 ∨ b = 3) :
    a ||| b = 1 ∨ a ||| b = 2 ∨ a ||| b = 3 := by
  rcases atA with rfl | rfl | rfl <;> rcases atB with rfl | rfl | rfl <;> decide

theorem merge_watch_accepted (same : sameWatch a b) (atA : Accepted a) (atB : Accepted b) : Accepted (mergeWatch a b) := by
  have keys := (same_watch_iff a b).mp same
  cases atB with
  | fd pid value positive => exact atA
  | orphan => exact atA
  | tree pid value positive mask =>
    cases atA with
    | fd other stored known | orphan => simp [watchKey] at keys
    | tree other stored known masked => exact .tree other (stored ||| value) known (merged_mask masked mask)

theorem union_keys_nodup : ((collectUnion owners).map watchKey).Nodup :=
  collect_keys_nodup same_watch_iff merge_watch_key (registrations owners)

theorem registration_accepted (w : Watch) (mem : w ∈ registrations owners) : Accepted w := by
  obtain ⟨slot, -, inside⟩ := mem_flatMap.mp mem
  obtain ⟨registration, -, rfl⟩ := mem_map.mp inside
  exact accepted_of_checks registration.property

theorem union_accepted : ∀ w ∈ collectUnion owners, Accepted w :=
  collect_all merge_watch_accepted (registration_accepted owners)

theorem mem_union_keys (wanted : UInt32 × UInt32 × UInt32) :
    wanted ∈ (collectUnion owners).map watchKey ↔ wanted ∈ (registrations owners).map watchKey :=
  mem_collect_keys same_watch_iff merge_watch_key (registrations owners) wanted

theorem contains_iff (set : List Watch) (w : Watch) : contains set w ↔ watchKey w ∈ set.map watchKey := by
  simp only [contains, any_eq_true, same_watch_iff, mem_map]

theorem registrations_cleared {slot} (empty : (owners slot).watches = []) :
    registrations (update owners slot OwnerSlot.free) = registrations owners := by
  have each (other : Fin ownerSlots) : (update owners slot OwnerSlot.free other).watches = (owners other).watches := by
    by_cases here : other = slot
    · rw [here, update_self, empty]
      rfl
    · rw [update_of_ne here]
  simp only [registrations, each]

theorem fresh_registrations {t} (fresh : Fresh t) : registrations t.owners = [] := by
  simp [registrations, fresh.owners, OwnerSlot.free]

inductive Outcome (owner : UInt64) (request : WireState) (forward rollback : Kernel) (t : Tracing) :
    Option IpcCode × Tracing → Prop where
  | refused (code : IpcCode) (unreached : requested owner request t = none) (early : code ≠ .internal) :
      Outcome owner request forward rollback t (some code, t)
  | applied (owners final : Owners) (asked : requested owner request t = some owners)
      (done : (applyUnion forward (collectUnion t.owners) (collectUnion owners) t.ebpf).1 = true)
      (same : registrations final = registrations owners) :
      Outcome owner request forward rollback t (none, { t with
        owners := final
        ebpf := (applyUnion forward (collectUnion t.owners) (collectUnion owners) t.ebpf).2 })
  | undone (owners : Owners) (asked : requested owner request t = some owners)
      (failed : (applyUnion forward (collectUnion t.owners) (collectUnion owners) t.ebpf).1 = false) :
      Outcome owner request forward rollback t (some .internal, { t with
        ebpf := (applyUnion rollback (collectUnion owners) (collectUnion t.owners)
          (applyUnion forward (collectUnion t.owners) (collectUnion owners) t.ebpf).2).2 })

theorem replace_outcome (owner : UInt64) (request : WireState) (forward rollback : Kernel) (t : Tracing) :
    Outcome owner request forward rollback t (queryControlsReplace owner request forward rollback t) := by
  unfold queryControlsReplace
  cases parsed : (getReplacement.run request).1 with
  | none => exact .refused .badRequest (by simp [requested, parsed]) (by decide)
  | some watches =>
    unfold replaceWatches
    by_cases unsupported : watches.val ≠ [] ∧ t.ebpfActive = false
    · simp only [if_pos unsupported]
      exact .refused .unsupported (by simp [requested, parsed, unsupported]) (by decide)
    · simp only [if_neg unsupported]
      cases found : findSlot owner t.owners with
      | none => exact .refused .busy (by simp [requested, parsed, found]) (by decide)
      | some slot =>
        have asked : requested owner request t = some (update t.owners slot ⟨owner, watches.val, watches.property⟩) := by
          simp only [requested, parsed, Option.bind_some, if_neg unsupported, found, Option.map_some]
        dsimp only
        generalize table : update t.owners slot ⟨owner, watches.val, watches.property⟩ = owners at asked ⊢
        by_cases done : (applyUnion forward (collectUnion t.owners) (collectUnion owners) t.ebpf).1
        · rw [if_pos done]
          refine .applied owners _ asked done ?_
          by_cases empty : watches.val = []
          · rw [if_pos empty]
            exact registrations_cleared owners (by rw [← table, update_self]; exact empty)
          · rw [if_neg empty]
        · have restored : update owners slot (t.owners slot) = t.owners := by
            rw [← table, update_idem, update_eq_self]
          rw [if_neg done, restored]
          exact .undone owners asked (Bool.eq_false_iff.mpr done)

theorem command_outcome (c : Command) (t : Tracing) : (c.requested t = none ∧ c.step t = t) ∨
    ∃ request code, c.requested t = requested c.owner request t ∧
    Outcome c.owner request c.forward c.rollback t (code, c.step t) := by
  obtain ⟨owner, control, forward, rollback⟩ := c
  cases control with
  | replace request => exact .inr ⟨request, _, rfl, replace_outcome owner request forward rollback t⟩
  | drop heap =>
    by_cases held : holdsSlot owner t.owners
    · have outcome := replace_outcome owner (emptyRequest heap) forward rollback t
      simp only [Command.requested, Command.step, queryControlsDrop, held, if_true]
      exact .inr ⟨emptyRequest heap, _, rfl, outcome⟩
    · simp [Command.requested, Command.step, queryControlsDrop, held]

end Evemon.Controls
