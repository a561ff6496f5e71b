import Evemon.ControlRollback

namespace Evemon.Controls

open Fdmon Ipc List Function Nat UInt64

theorem mem_registrations (owners : Owners) (w : Watch) :
    w ∈ registrations owners ↔ ∃ slot, ∃ r ∈ (owners slot).watches, r.val = w := by
  simp [registrations]

variable {a b : Watch}

theorem pair_of_key (pair : a.kind = 1) (same : watchKey a = watchKey b) : a = b := by
  obtain ⟨kind, pid, value⟩ := a
  obtain rfl : kind = 1 := pair
  obtain ⟨other, key, stored⟩ := b
  obtain rfl : 1 = other := congrArg Prod.fst same
  simpa [watchKey] using same

theorem usable_of_key {st} (same : watchKey a = watchKey b) (usable : Usable st b) : Usable st a := by
  have kinds : a.kind = b.kind := congrArg Prod.fst same
  by_cases pair : a.kind = 1
  · rwa [pair_of_key pair same]
  · exact ⟨fun kind => absurd kind pair, fun kind => usable.tree (kinds ▸ kind)⟩

-- Taking registrations away can only fail where a (PID, FD) pair that stays is applied again:
-- probes are attached, and every root that stays has its place in the table.
theorem shrink_applied_iff {kernel} {old next : List Watch} (atOld : ∀ w ∈ old, Accepted w)
    (atNext : ∀ w ∈ next, Accepted w) (distinct : (next.map watchKey).Nodup) {st} (sound : Sound old st)
    (subset : ∀ w ∈ next, watchKey w ∈ old.map watchKey) :
    (applyUnion kernel old next st).1 ↔ ∀ w ∈ next, w.kind = 1 → kernel.update w := by
  have linked (some : next ≠ []) : st.linkEnterWrite := by
    obtain ⟨w, mem⟩ := exists_mem_of_ne_nil next some
    refine sound.linked fun none => ?_
    simpa [none] using subset w mem
  have rootsStay (pid : UInt32) (mem : pid ∈ roots next) : pid ∈ roots old := by
    rw [mem_roots] at mem ⊢
    obtain ⟨w, inside, key⟩ := mem_map.mp mem
    exact key ▸ subset w inside
  constructor
  · intro done
    rw [(apply_union_done kernel old next st done).2] at done
    exact fun w mem => (reapply_done kernel next atNext _ distinct done w mem).granted
  · intro granted
    have later := withdrawn_later kernel old next st atOld
    rw [apply_union_linked kernel old next st linked]
    refine @reapply_succeeds kernel next atNext _ (fun w mem => ?_) granted
      (fun some => later.write (linked some)) (roots old) sound.room rootsStay fun pid present => ?_
    · obtain ⟨before, inside, key⟩ := mem_map.mp (subset w mem)
      exact (@usable_later _ _ later w).mpr (usable_of_key key.symm (sound.usable before inside))
    · rw [SwapTable.mem_keys, withdrawn_find kernel old next st atOld] at present
      by_cases leaving : treeKey pid ∈ old.map watchKey ∧ treeKey pid ∉ next.map watchKey
      · simp [leaving] at present
      · rw [if_neg leaving, ← SwapTable.mem_keys] at present
        exact sound.within pid present

section

def Unique (owners : Owners) : Prop :=
  ∀ a b, (owners a).owner = (owners b).owner → (owners a).owner ≠ 0 → a = b

variable (owner : UInt64) {owners : Owners} {slot : Fin ownerSlots}

theorem find_slot_some (found : findSlot owner owners = some slot) :
    (owners slot).owner = owner ∨ (∀ other, (owners other).owner ≠ owner) ∧ (owners slot).owner = 0 := by
  rcases Option.or_eq_some_iff.mp found with named | ⟨unnamed, free⟩
  · exact .inl (by simpa using List.find?_some named)
  · refine .inr ⟨fun other => ?_, by simpa using List.find?_some free⟩
    simpa using List.find?_eq_none.mp unnamed other (mem_finRange other)

theorem find_slot_none (full : findSlot owner owners = none) (slot : Fin ownerSlots) :
    (owners slot).owner ≠ owner ∧ (owners slot).owner ≠ 0 := by
  obtain ⟨unnamed, used⟩ := Option.or_eq_none_iff.mp full
  exact ⟨by simpa using List.find?_eq_none.mp unnamed slot (mem_finRange slot),
    by simpa using List.find?_eq_none.mp used slot (mem_finRange slot)⟩

theorem find_slot_held (unique : Unique owners) (held : (owners slot).owner = owner) (nonzero : owner ≠ 0) :
    findSlot owner owners = some slot := by
  cases found : findSlot owner owners with
  | none => exact absurd held (find_slot_none owner found slot).1
  | some other =>
    rcases find_slot_some owner found with named | ⟨unnamed, -⟩
    · rw [unique other slot (named.trans held.symm) (named ▸ nonzero)]
    · exact absurd held (unnamed slot)

theorem replace_owners (request : WireState) (forward rollback : Kernel) (t : Tracing) :
    (queryControlsReplace owner request forward rollback t).2.owners = t.owners ∨
    ∃ slot entry, findSlot owner t.owners = some slot ∧ (entry.owner = owner ∨ entry.owner = 0) ∧
    (queryControlsReplace owner request forward rollback t).2.owners = update t.owners slot entry := by
  unfold queryControlsReplace
  cases (getReplacement.run request).1 with
  | none => exact .inl rfl
  | some watches =>
    unfold replaceWatches
    by_cases unsupported : watches.val ≠ [] ∧ t.ebpfActive = false
    · simp only [if_pos unsupported, true_or]
    · simp only [if_neg unsupported]
      cases findSlot owner t.owners with
      | none => exact .inl rfl
      | some slot =>
        dsimp only
        split
        · by_cases empty : watches.val = []
          · exact .inr ⟨slot, OwnerSlot.free, rfl, .inr rfl, by simp [if_pos empty]⟩
          · exact .inr ⟨slot, ⟨owner, watches.val, watches.property⟩, rfl, .inl rfl, by simp [if_neg empty]⟩
        · exact .inl (by simp)

theorem command_owners (c : Command) (t : Tracing) : (c.step t).owners = t.owners ∨
    ∃ slot entry, findSlot c.owner t.owners = some slot ∧ (entry.owner = c.owner ∨ entry.owner = 0) ∧
    (c.step t).owners = update t.owners slot entry := by
  obtain ⟨owner, control, forward, rollback⟩ := c
  cases control with
  | replace request => exact replace_owners owner request forward rollback t
  | drop heap =>
    by_cases held : holdsSlot owner t.owners
    · simpa only [Command.step, queryControlsDrop, if_pos held] using
        replace_owners owner (emptyRequest heap) forward rollback t
    · exact .inl (by simp only [Command.step, queryControlsDrop, if_neg held])

theorem command_unique {c : Command} {t : Tracing} (unique : Unique t.owners) : Unique (c.step t).owners := by
  rcases command_owners c t with same | ⟨slot, entry, found, named, after⟩
  · rwa [same]
  · -- Nobody but the slot that is written may hold the owner it is written for.
    have alone (other : Fin ownerSlots) (away : other ≠ slot) (same : (t.owners other).owner = entry.owner)
        (nonzero : entry.owner ≠ 0) : False := by
      have own : entry.owner = c.owner := named.resolve_right nonzero
      rcases find_slot_some c.owner found with held | ⟨unnamed, -⟩
      · exact away (unique other slot (same.trans (own.trans held.symm)) (same ▸ nonzero))
      · exact unnamed other (same.trans own)
    rw [after]
    intro a b same nonzero
    by_cases atA : a = slot
    · by_cases atB : b = slot
      · rw [atA, atB]
      · subst atA
        rw [update_self, update_of_ne atB] at same
        rw [update_self] at nonzero
        exact absurd (alone b atB same.symm nonzero) id
    · rw [update_of_ne atA] at same nonzero
      by_cases atB : b = slot
      · subst atB
        rw [update_self] at same
        exact absurd (alone a atA same (same ▸ nonzero)) id
      · rw [update_of_ne atB] at same
        exact unique a b same nonzero

end

theorem empty_replacement_parsed (heap : Heap) (cap : Nat) :
    (getReplacement.run { buf := { data := [0, 0, 0, 0], cap := cap }, heap := heap }).1 = some ⟨[], zero_le _⟩ := by
  have zero : BigEndian.decode32 0 0 0 0 = 0 := by decide
  have read : readU32.run { buf := { data := [0, 0, 0, 0], cap := cap }, heap := heap } = (BigEndian.decode32 0 0 0 0,
        { buf := { data := [0, 0, 0, 0], cap := cap, pos := 4, reads := [(0, 4)] }, heap := heap }) := rfl
  rw [zero] at read
  have count : (ipcGetU32.run { buf := { data := [0, 0, 0, 0], cap := cap }, heap := heap }) =
      (0, { buf := { data := [0, 0, 0, 0], cap := cap, pos := 4, reads := [(0, 4)] }, heap := heap,
            calls := [⟨false, true⟩] }) := by
    simp only [ipcGetU32, called, read]
    rfl
  rw [getReplacement, Prog.run_bind, count]
  rfl

theorem empty_request_parsed (heap : Heap) : (getReplacement.run (emptyRequest heap)).1 =
    if heap.grant heap.asked then some ⟨[], zero_le _⟩ else none := by
  have zero : BigEndian.encode32 0 = [0, 0, 0, 0] := by decide
  cases granted : heap.grant heap.asked with
  | true =>
    have written : emptyRequest heap =
        { buf := { data := [0, 0, 0, 0], cap := 1024 }, heap := { heap with asked := heap.asked + 1 } } := by
      simp [emptyRequest, ipcPutU32, ipcPutBytes, malloc, setCap, appendBytes, granted, sizeSub, ipcLimit, grownCap,
        zero]
    rw [written, empty_replacement_parsed, if_pos rfl]
  | false =>
    have written : emptyRequest heap =
        { buf := { error := some .ENOMEM }, heap := { heap with asked := heap.asked + 1 } } := by
      simp [emptyRequest, ipcPutU32, ipcPutBytes, malloc, setError, granted, sizeSub, ipcLimit, zero]
    rw [written]
    rfl

-- The empty request is allocated, and every (PID, FD) pair of the other slots is granted again.
def Releases (owner : UInt64) (heap : Heap) (forward : Kernel) (t : Tracing) : Prop :=
  ∀ slot, (t.owners slot).owner = owner → heap.grant heap.asked = true ∧
    ∀ other, other ≠ slot → ∀ w ∈ (t.owners other).watches, w.val.kind = 1 → forward.update w.val = true

def Released (owner : UInt64) (t : Tracing) : Prop := ∀ slot, (t.owners slot).owner ≠ owner

theorem emptied_slot_registrations (owner : UInt64) (owners : Owners) (slot : Fin ownerSlots) (w : Watch) :
    w ∈ registrations (update owners slot ⟨owner, [], zero_le _⟩) ↔
    ∃ other, other ≠ slot ∧ ∃ r ∈ (owners other).watches, r.val = w := by
  rw [mem_registrations]
  constructor
  · rintro ⟨other, r, mem, same⟩
    by_cases here : other = slot
    · subst here
      simp at mem
    · rw [update_of_ne here] at mem
      exact ⟨other, here, r, mem, same⟩
  · rintro ⟨other, away, r, mem, same⟩
    exact ⟨other, r, by rwa [update_of_ne away], same⟩

variable {t : Tracing}

theorem emptied_slot_applied_iff (owner : UInt64) (kernel : Kernel) (slot : Fin ownerSlots)
    (sound : Sound (collectUnion t.owners) t.ebpf) :
    (applyUnion kernel (collectUnion t.owners) (collectUnion (update t.owners slot ⟨owner, [], zero_le _⟩)) t.ebpf).1 ↔
    ∀ other, other ≠ slot → ∀ w ∈ (t.owners other).watches, w.val.kind = 1 → kernel.update w.val := by
  generalize table : update t.owners slot ⟨owner, [], zero_le _⟩ = owners
  have left (w : Watch) := emptied_slot_registrations owner t.owners slot w
  rw [table] at left
  rw [shrink_applied_iff (union_accepted t.owners) (union_accepted owners) (union_keys_nodup owners) sound]
  · constructor
    · intro granted other away w mem pair
      have key : watchKey w.val ∈ (collectUnion owners).map watchKey :=
        (mem_union_keys owners _).mpr (mem_map.mpr ⟨w.val, (left w.val).mpr ⟨other, away, w, mem, rfl⟩, rfl⟩)
      obtain ⟨entry, inside, same⟩ := mem_map.mp key
      obtain rfl := pair_of_key pair same.symm
      exact granted _ inside pair
    · intro granted entry inside pair
      obtain ⟨w, mem, same⟩ := mem_map.mp ((mem_union_keys owners _).mp (mem_map.mpr ⟨entry, inside, rfl⟩))
      obtain rfl := pair_of_key pair same.symm
      obtain ⟨other, away, r, stored, rfl⟩ := (left entry).mp mem
      exact granted other away r stored pair
  · intro entry inside
    obtain ⟨w, mem, same⟩ := mem_map.mp ((mem_union_keys owners _).mp (mem_map.mpr ⟨entry, inside, rfl⟩))
    obtain ⟨other, -, r, stored, rfl⟩ := (left w).mp mem
    rw [← same, mem_union_keys]
    exact mem_map.mpr ⟨r.val, (mem_registrations t.owners _).mpr ⟨other, r, stored, rfl⟩, rfl⟩

theorem drop_released_iff {owner : UInt64} (nonzero : owner ≠ 0) (heap : Heap) (forward rollback : Kernel)
    (sound : Sound (collectUnion t.owners) t.ebpf) (unique : Unique t.owners) :
    Released owner (queryControlsDrop owner heap forward rollback t) ↔ Releases owner heap forward t := by
  by_cases held : ∃ slot, (t.owners slot).owner = owner
  · obtain ⟨slot, own⟩ := held
    have holds : holdsSlot owner t.owners := by
      simp only [holdsSlot, any_eq_true, decide_eq_true_eq]
      exact ⟨slot, mem_finRange slot, own⟩
    have only (other : Fin ownerSlots) (same : (t.owners other).owner = owner) : other = slot :=
      unique other slot (same.trans own.symm) (same ▸ nonzero)
    have kept : ¬ Released owner t := fun released => released slot own
    have condition : Releases owner heap forward t ↔ heap.grant heap.asked ∧
        ∀ other, other ≠ slot → ∀ w ∈ (t.owners other).watches, w.val.kind = 1 → forward.update w.val :=
      ⟨fun releases => releases slot own, fun granted other same => only other same ▸ granted⟩
    rw [queryControlsDrop, if_pos holds, queryControlsReplace, empty_request_parsed, condition,
      ← emptied_slot_applied_iff owner forward slot sound]
    by_cases granted : heap.grant heap.asked
    · have found := find_slot_held owner unique own nonzero
      rw [if_pos granted]
      simp only [granted, true_and, replaceWatches, ne_eq, not_true_eq_false, false_and, if_false, found]
      by_cases done : (applyUnion forward (collectUnion t.owners)
          (collectUnion (update t.owners slot ⟨owner, [], zero_le _⟩)) t.ebpf).1
      · simp only [done, if_true, update_idem, iff_true]
        intro other
        by_cases here : other = slot
        · subst here
          simpa [OwnerSlot.free] using nonzero.symm
        · simpa [update_of_ne here] using fun same => here (only other same)
      · simp only [done, Bool.false_eq_true, if_false, update_idem, update_eq_self, iff_false]
        exact kept
    · simpa [if_neg granted, granted] using kept
  · have absent : ∀ slot, (t.owners slot).owner ≠ owner := fun slot same => held ⟨slot, same⟩
    have unheld : holdsSlot owner t.owners = false := by simpa [holdsSlot] using absent
    simp only [queryControlsDrop, unheld, Bool.false_eq_true, if_false]
    exact ⟨fun _ slot same => absurd same (absent slot), fun _ => absent⟩

section

-- The connections of query_worker as far as the owners table can see them: the tickets of
-- the open ones, and the last ticket given out.
structure Service where
  tracing : Tracing
  opened : List UInt64 := []
  ticket : UInt64 := 0

inductive Event where
  | connect
  | control (owner : UInt64) (request : WireState) (forward rollback : Kernel)
  | disconnect (owner : UInt64) (heap : Heap) (forward rollback : Kernel)
  | fork (parent child : UInt32) (updated : Bool)
  | exec (pid : UInt32) (reads : ExecReads)

def serve (s : Service) : Event → Service
  | .connect =>
    if s.opened.length < clientsMax then
      { s with opened := s.opened ++ [s.ticket + 1], ticket := s.ticket + 1 }
    else s
  | .control owner request forward rollback =>
    if owner ∈ s.opened then
      { s with tracing := step s.tracing (.command ⟨owner, .replace request, forward, rollback⟩) }
    else s
  | .disconnect owner heap forward rollback =>
    if owner ∈ s.opened then
      { s with
        tracing := step s.tracing (.command ⟨owner, .drop heap, forward, rollback⟩)
        opened := s.opened.erase owner }
    else s
  | .fork parent child updated => { s with tracing := step s.tracing (.fork parent child updated) }
  | .exec pid reads => { s with tracing := step s.tracing (.exec pid reads) }

structure Started (s : Service) : Prop where
  fresh : Fresh s.tracing
  opened : s.opened = []
  ticket : s.ticket = 0

def Numbered (s : Service) (event : Event) : Prop := event = .connect → s.ticket.toNat + 1 < 2 ^ 64

def Connected (s : Service) : Prop := Runs.Reachable Started Numbered serve s

def ReleasesAll (s : Service) (event : Event) : Prop :=
  Numbered s event ∧ ∀ owner heap forward rollback, event = .disconnect owner heap forward rollback →
    owner ∈ s.opened → Releases owner heap forward s.tracing

def Releasing (s : Service) : Prop := Runs.Reachable Started ReleasesAll serve s

structure Ticketed (s : Service) : Prop where
  sound : Sound (collectUnion s.tracing.owners) s.tracing.ebpf
  unique : Unique s.tracing.owners
  issued : ∀ owner ∈ s.opened, owner ≠ 0 ∧ owner ≤ s.ticket
  distinct : s.opened.Nodup
  bounded : s.opened.length ≤ clientsMax

theorem fresh_unique (fresh : Fresh t) : Unique t.owners := by
  intro a b _ nonzero
  rw [fresh.owners] at nonzero
  exact absurd rfl nonzero

variable (s : Service) (event : Event)

theorem started_ticketed (started : Started s) : Ticketed s := by
  refine ⟨fresh_sound s.tracing started.fresh, fresh_unique started.fresh, ?_, ?_, ?_⟩
  all_goals simp [started.opened]

theorem next_ticket {ticket : UInt64} (room : ticket.toNat + 1 < 2 ^ 64) :
    ticket + 1 ≠ 0 ∧ ∀ owner ≤ ticket, owner ≤ ticket + 1 ∧ owner ≠ ticket + 1 := by
  have value : (ticket + 1).toNat = ticket.toNat + 1 := by
    rw [UInt64.toNat_add]
    exact Nat.mod_eq_of_lt room
  refine ⟨fun zero => ?_, fun owner below => ⟨?_, fun same => ?_⟩⟩
  · rw [zero] at value
    exact absurd value (by simp)
  · rw [UInt64.le_iff_toNat_le] at below ⊢
    omega
  · rw [UInt64.le_iff_toNat_le, same] at below
    omega

theorem step_unique (action : Action) (unique : Unique t.owners) : Unique (step t action).owners := by
  cases action with
  | command c => exact command_unique unique
  | fork parent child updated | exec pid reads => exact unique

theorem serve_ticketed (inv : Ticketed s) (numbered : Numbered s event) : Ticketed (serve s event) := by
  have moved (action : Action) := step_sound s.tracing action inv.sound
  have stays (action : Action) := step_unique action inv.unique
  cases event with
  | connect =>
    by_cases room : s.opened.length < clientsMax
    · obtain ⟨nonzero, later⟩ := next_ticket (numbered rfl)
      rw [serve, if_pos room]
      refine ⟨inv.sound, inv.unique, fun owner mem => ?_, ?_, ?_⟩
      · rcases mem_append.mp mem with before | _ | ⟨_, ⟨⟩⟩
        · exact ⟨(inv.issued owner before).1, (later owner (inv.issued owner before).2).1⟩
        · exact ⟨nonzero, UInt64.le_refl _⟩
      · refine inv.distinct.append (nodup_singleton _) (disjoint_singleton.mpr fun mem => ?_)
        exact (later _ (inv.issued _ mem).2).2 rfl
      · rw [length_append]
        exact room
    · rwa [serve, if_neg room]
  | control owner request forward rollback =>
    by_cases mem : owner ∈ s.opened
    · rw [serve, if_pos mem]
      exact ⟨moved _, stays _, inv.issued, inv.distinct, inv.bounded⟩
    · rwa [serve, if_neg mem]
  | disconnect owner heap forward rollback =>
    by_cases mem : owner ∈ s.opened
    · rw [serve, if_pos mem]
      exact ⟨moved _, stays _, fun other inside => inv.issued other (mem_of_mem_erase inside),
        inv.distinct.erase owner, Nat.le_trans length_erase_le inv.bounded⟩
    · rwa [serve, if_neg mem]
  | fork parent child updated | exec pid reads => exact ⟨moved _, stays _, inv.issued, inv.distinct, inv.bounded⟩

def Owned (s : Service) : Prop := ∀ slot, (s.tracing.owners slot).owner = 0 ∨ (s.tracing.owners slot).owner ∈ s.opened

theorem command_owned (c : Command) (t : Tracing) (slot : Fin ownerSlots) :
    ((c.step t).owners slot).owner = (t.owners slot).owner ∨ ((c.step t).owners slot).owner = c.owner ∨
    ((c.step t).owners slot).owner = 0 := by
  rcases command_owners c t with same | ⟨written, entry, -, named, after⟩
  · exact .inl (by rw [same])
  · rw [after]
    by_cases here : slot = written
    · subst here
      rw [update_self]
      exact .inr named
    · exact .inl (by rw [update_of_ne here])

theorem serve_owned (inv : Ticketed s) (owned : Owned s) (releases : ReleasesAll s event) : Owned (serve s event) := by
  cases event with
  | connect =>
    by_cases room : s.opened.length < clientsMax
    · rw [serve, if_pos room]
      exact fun slot => (owned slot).imp_right fun mem => mem_append_left _ mem
    · rwa [serve, if_neg room]
  | control owner request forward rollback =>
    by_cases mem : owner ∈ s.opened
    · rw [serve, if_pos mem]
      intro slot
      rcases command_owned ⟨owner, .replace request, forward, rollback⟩ s.tracing slot with same | own | free
      · simpa only [step, same] using owned slot
      · exact .inr (by simpa only [step, own] using mem)
      · exact .inl free
    · rwa [serve, if_neg mem]
  | disconnect owner heap forward rollback =>
    by_cases mem : owner ∈ s.opened
    · have gone := (drop_released_iff (inv.issued owner mem).1 heap forward rollback inv.sound
        inv.unique).mpr (releases.2 owner heap forward rollback rfl mem)
      rw [serve, if_pos mem]
      intro slot
      have away : ((Command.step ⟨owner, .drop heap, forward, rollback⟩ s.tracing).owners slot).owner ≠ owner := gone slot
      rcases command_owned ⟨owner, .drop heap, forward, rollback⟩ s.tracing slot with same | own | free
      · simp only [step]
        rw [same] at away ⊢
        exact (owned slot).imp_right fun inside => (mem_erase_of_ne away).mpr inside
      · exact absurd own away
      · exact .inl free
    · rwa [serve, if_neg mem]
  | fork parent child updated | exec pid reads => exact owned

theorem owned_finds_slot (inv : Ticketed s) (owned : Owned s) {owner : UInt64} (mem : owner ∈ s.opened) :
    ∃ slot, findSlot owner s.tracing.owners = some slot := by
  cases found : findSlot owner s.tracing.owners with
  | some slot => exact ⟨slot, rfl⟩
  | none =>
    have full := find_slot_none owner found
    have holders : (owner :: (List.finRange ownerSlots).map fun slot => (s.tracing.owners slot).owner).Nodup := by
      refine nodup_cons.mpr ⟨fun holds => ?_, ?_⟩
      · obtain ⟨slot, -, same⟩ := mem_map.mp holds
        exact (full slot).1 same
      · exact (nodup_finRange _).map_on fun a _ b _ same => inv.unique a b same (full a).2
    have subset : (owner :: (List.finRange ownerSlots).map fun slot => (s.tracing.owners slot).owner) ⊆ s.opened := by
      refine cons_subset.mpr ⟨mem, fun held inside => ?_⟩
      obtain ⟨slot, -, rfl⟩ := mem_map.mp inside
      exact (owned slot).resolve_left (full slot).2
    have count := (subperm_of_subset holders subset).length_le
    have bounded := inv.bounded
    simp only [length_cons, length_map, length_finRange, ownerSlots, clientsMax] at count bounded
    omega

theorem replace_not_busy {owner} {request} {forward rollback} {slot} (found : findSlot owner t.owners = some slot) :
    (queryControlsReplace owner request forward rollback t).1 ≠ some .busy := by
  unfold queryControlsReplace
  cases (getReplacement.run request).1 with
  | none => simp
  | some watches =>
    by_cases unsupported : watches.val ≠ [] ∧ t.ebpfActive = false
    · simp [replaceWatches, unsupported]
    · simp only [replaceWatches, if_neg unsupported, found]
      split <;> simp

theorem slots_released (s : Service) : (Connected s → ∀ owner ∈ s.opened, ∀ heap forward rollback,
    (Released owner (queryControlsDrop owner heap forward rollback s.tracing) ↔ Releases owner heap forward s.tracing)) ∧
    (Releasing s → Owned s ∧ ∀ owner ∈ s.opened, ∀ request forward rollback,
    (queryControlsReplace owner request forward rollback s.tracing).1 ≠ some .busy) := by
  constructor
  · intro connected owner mem heap forward rollback
    have inv := Runs.invariant Ticketed started_ticketed serve_ticketed s connected
    exact drop_released_iff (inv.issued owner mem).1 heap forward rollback inv.sound inv.unique
  · intro releasing
    have inv := Runs.invariant (fun s => Ticketed s ∧ Owned s)
      (fun start started => ⟨started_ticketed start started, fun slot => .inl (by rw [started.fresh.owners]; rfl)⟩)
      (fun s event inv releases => ⟨serve_ticketed s event inv.1 releases.1, serve_owned s event inv.1 inv.2 releases⟩)
      s releasing
    refine ⟨inv.2, fun owner mem request forward rollback => ?_⟩
    obtain ⟨slot, found⟩ := owned_finds_slot s inv.1 inv.2 mem
    exact replace_not_busy found

theorem serve_ticket : (serve s event).ticket.toNat ≤ s.ticket.toNat + 1 := by
  cases event with
  | connect =>
    by_cases room : s.opened.length < clientsMax
    · rw [serve, if_pos room, UInt64.toNat_add]
      exact Nat.mod_le _ _
    · rw [serve, if_neg room]
      exact Nat.le_succ _
  | control owner request forward rollback | disconnect owner heap forward rollback =>
    rw [serve]
    split <;> exact Nat.le_succ _
  | fork parent child updated | exec pid reads => exact Nat.le_succ _

theorem connected_run (events : List Event) (s : Service) (connected : Connected s)
    (room : s.ticket.toNat + events.length < 2 ^ 64) : Connected (events.foldl serve s) := by
  induction events generalizing s with
  | nil => exact connected
  | cons event rest ih =>
    have grown := serve_ticket s event
    rw [length_cons] at room
    refine ih (serve s event) (.step s event connected fun _ => ?_) ?_ <;> omega

def startedService : Service := { tracing := freshTracing }

theorem started_service_started : Started startedService := ⟨fresh_tracing_fresh, rfl, rfl⟩

def controlling (owner : UInt64) (watches : List Watch) : Event :=
  .control owner { buf := { data := controlBody watches }, heap := allGranted } granting granting

def denying : Kernel := { granting with update := fun _ => false }

def twoClients : List Event := [.connect, controlling 1 [⟨1, 100, 1⟩], .connect, controlling 2 [⟨3, 0, 0⟩]]

theorem granting_releases (owner : UInt64) {t} : Releases owner allGranted granting t :=
  fun _ _ => ⟨rfl, fun _ _ _ _ _ => rfl⟩

def reconnected : List Event :=
  [.connect, controlling 1 [⟨1, 100, 1⟩], .disconnect 1 allGranted granting granting, .connect]

theorem reconnected_releasing : Releasing (reconnected.foldl serve startedService) := by
  refine .step _ .connect (.step _ (.disconnect 1 allGranted granting granting) (.step _ (controlling 1 [⟨1, 100, 1⟩])
    (.step _ .connect (.start _ started_service_started) ?_) ?_) ?_) ?_
  · exact ⟨fun _ => by decide, nofun⟩
  · exact ⟨nofun, nofun⟩
  · refine ⟨nofun, ?_⟩
    rintro _ _ _ _ ⟨⟩ -
    exact granting_releases 1
  · exact ⟨fun _ => by decide +kernel, nofun⟩

theorem slots_released_two_clients :
    let s := twoClients.foldl serve startedService
    let later := reconnected.foldl serve startedService
    Connected s ∧ 2 ∈ s.opened ∧ Released 2 (queryControlsDrop 2 allGranted granting granting s.tracing) ∧
      Releasing later ∧ Owned later := by
  have connected := connected_run twoClients startedService (.start _ started_service_started) (by decide)
  have mem : 2 ∈ (twoClients.foldl serve startedService).opened := by decide +kernel
  exact ⟨connected, mem, ((slots_released _).1 connected 2 mem allGranted granting granting).mpr (granting_releases 2),
    reconnected_releasing, ((slots_released _).2 reconnected_releasing).1⟩

def leaking (owner : UInt64) : List Event :=
  [.connect, controlling owner [⟨3, 0, 0⟩], .disconnect owner allGranted denying granting]

def fifteenLeaks : List Event :=
  [.connect, controlling 1 [⟨1, 100, 1⟩]] ++ (List.range 15).flatMap (fun index => leaking (UInt64.ofNat (index + 2))) ++
    [.connect]

theorem failed_reapply_keeps_slot :
    let s := twoClients.foldl serve startedService
    let later := fifteenLeaks.foldl serve startedService
    Connected s ∧ 2 ∈ s.opened ∧ ¬ Released 2 (queryControlsDrop 2 allGranted denying granting s.tracing) ∧
      Connected later ∧ later.opened = [1, 17] ∧
      (queryControlsReplace 17 { buf := { data := controlBody [⟨3, 0, 0⟩] }, heap := allGranted } granting granting
        later.tracing).1 = some .busy := by
  have kept : ((queryControlsDrop 2 allGranted denying granting
      (twoClients.foldl serve startedService).tracing).owners ⟨1, by decide⟩).owner = 2 := by decide +kernel
  refine ⟨connected_run _ _ (.start _ started_service_started) (by decide), by decide +kernel,
    fun released => released _ kept, connected_run _ _ (.start _ started_service_started) (by decide),
    by decide +kernel, by decide +kernel⟩

end

end Evemon.Controls
