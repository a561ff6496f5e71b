import Evemon.WriteTab

-- What a write log tab has registered against what it shows.
namespace Evemon.WriteTab

open Plugins List

section

abbrev Registrations := Finset (UInt32 × UInt32)

def settle (regs : Registrations) : ServiceCall → Registrations
  | .monitorFdSubscribe pid fd => insert (pid, fd) regs
  | .monitorFdUnsubscribe pid fd => regs.erase (pid, fd)
  | .monitorWatchChildren _ _ => regs
  | .monitorUnwatchChildren _ => regs

def settleAll (regs : Registrations) (services : List ServiceCall) : Registrations := services.foldl settle regs

structure TabState where
  tab : Option Tab
  regs : Registrations

def tabStep (s : TabState) (event : TabEvent) : TabState :=
  match s.tab with
  | none => s
  | some tab => ⟨(handle tab event).2, settleAll s.regs (handle tab event).1⟩

def Subscribed (c : WriteLog) (fd : UInt32) : Prop := (fd = 1 ∧ c.stdout = true) ∨ (fd = 2 ∧ c.stderr = true)

def Wanted (c : WriteLog) (pid fd : UInt32) : Prop :=
  c.currentPid ≠ 0 ∧ Subscribed c fd ∧ (pid = c.currentPid ∨ pid ∈ c.descendants)

def Balances (regs : Registrations) (c : WriteLog) : Prop := ∀ pid fd, (pid, fd) ∈ regs ↔ Wanted c pid fd

def Balanced (s : TabState) : Prop :=
  match s.tab with
  | none => s.regs = ∅
  | some tab => Balances s.regs tab.log

variable {regs : Registrations} (c : WriteLog)

theorem settle_all_append (first second : List ServiceCall) :
    settleAll regs (first ++ second) = settleAll (settleAll regs first) second := foldl_append

theorem settle_all_watch : settleAll regs (watchCalls c) = regs := by
  unfold watchCalls
  split <;> rfl

theorem mem_subscribe (pid other fd : UInt32) :
    (other, fd) ∈ settleAll regs (subscribeCalls c pid) ↔ (other, fd) ∈ regs ∨ (other = pid ∧ Subscribed c fd) := by
  unfold subscribeCalls Subscribed
  cases c.stdout <;> cases c.stderr <;> simp [settleAll, settle] <;> tauto

theorem mem_unsubscribe (pid other fd : UInt32) :
    (other, fd) ∈ settleAll regs (unsubscribeCalls c pid) ↔ (other, fd) ∈ regs ∧ ¬ (other = pid ∧ Subscribed c fd) := by
  unfold unsubscribeCalls Subscribed
  cases c.stdout <;> cases c.stderr <;> simp [settleAll, settle] <;> tauto

theorem mem_unsubscribe_all (pids : List UInt32) (other fd : UInt32) :
    (other, fd) ∈ settleAll regs (pids.flatMap (unsubscribeCalls c)) ↔
    (other, fd) ∈ regs ∧ ¬ (other ∈ pids ∧ Subscribed c fd) := by
  induction pids generalizing regs with
  | nil => simp [settleAll]
  | cons pid rest ih =>
    rw [flatMap_cons, settle_all_append, ih, mem_unsubscribe, mem_cons]
    tauto

theorem mem_select {pid fd other wanted : UInt32} {want subscribed : Bool} (known : (pid, fd) ∈ regs ↔ subscribed) :
    (other, wanted) ∈ settleAll regs (selectCalls pid fd want subscribed) ↔
    if other = pid ∧ wanted = fd then want = true else (other, wanted) ∈ regs := by
  unfold selectCalls
  by_cases same : other = pid ∧ wanted = fd
  · rw [if_pos same, same.1, same.2]
    cases want <;> cases subscribed <;> simp_all [settleAll, settle]
  · rw [if_neg same]
    cases want <;> cases subscribed <;> simp [settleAll, settle] <;> tauto

end

section

structure Orderly (c : WriteLog) : Prop where
  idle : c.currentPid = 0 → c.stdout = false ∧ c.stderr = false ∧ c.descendants = []
  apart : c.currentPid ∉ c.descendants

def Leavable (c : WriteLog) : Prop := c.descendants = [] ∨ (c.stdout = false ∧ c.stderr = false)

variable {regs : Registrations} (c : WriteLog) (balances : Balances regs c) (orderly : Orderly c)

theorem not_subscribed (fd : UInt32) (quiet : c.stdout = false ∧ c.stderr = false) : ¬ Subscribed c fd := by
  unfold Subscribed
  rw [quiet.1, quiet.2]
  simp

include orderly in
theorem clear_empty : (clearCurrentPid c).2 = {} := by
  unfold clearCurrentPid
  by_cases none : c.currentPid = 0
  · rw [if_pos none]
    obtain ⟨stdout, stderr, descendants⟩ := orderly.idle none
    cases c
    simp_all
  · rw [if_neg none]
    rfl

include balances in
theorem clear_settles (leavable : c.currentPid = 0 ∨ Leavable c) : settleAll regs (clearCurrentPid c).1 = ∅ := by
  ext entry
  obtain ⟨pid, fd⟩ := entry
  refine iff_of_false (fun mem => ?_) (Finset.notMem_empty _)
  unfold clearCurrentPid at mem
  by_cases none : c.currentPid = 0
  · rw [if_pos none] at mem
    exact ((balances pid fd).mp mem).1 none
  · -- Both flags are cleared, so no call is made for the descendants.
    have silent : c.descendants.flatMap (unsubscribeCalls { c with stdout := false, stderr := false }) = [] :=
      flatMap_eq_nil_iff.mpr fun _ _ => rfl
    rw [if_neg none] at mem
    dsimp only [unsubscribeAllDescendants] at mem
    rw [silent, nil_append, settle_all_append] at mem
    change (pid, fd) ∈ settleAll regs (unsubscribeCalls c c.currentPid) at mem
    rw [mem_unsubscribe, balances] at mem
    obtain ⟨⟨-, subscribed, target⟩, kept⟩ := mem
    rcases target with own | descendant
    · exact kept ⟨own, subscribed⟩
    · rcases leavable.resolve_left none with empty | quiet
      · rw [empty] at descendant
        cases descendant
      · exact not_subscribed c fd quiet subscribed

variable (regs) in
include balances in
theorem apply_balances (some : c.currentPid ≠ 0) (index : Nat)
    (steady : c.descendants = [] ∨ (wants index 1 = c.stdout ∧ wants index 2 = c.stderr)) :
    Balances (settleAll regs (applySelection index c).1) (applySelection index c).2 := by
  have own (fd : UInt32) : (c.currentPid, fd) ∈ regs ↔ Subscribed c fd := by
    rw [balances, Wanted]
    exact ⟨fun wanted => wanted.2.1, fun subscribed => ⟨some, subscribed, .inl rfl⟩⟩
  have first : (c.currentPid, 1) ∈ regs ↔ c.stdout := by
    rw [own, Subscribed]
    simp
  have second : (c.currentPid, 2) ∈ settleAll regs (selectCalls c.currentPid 1 (wants index 1) c.stdout) ↔ c.stderr := by
    rw [mem_select first, if_neg (by simp), own, Subscribed]
    simp
  intro pid fd
  rw [applySelection, if_neg some, settle_all_append, mem_select second, mem_select first, balances]
  unfold Wanted Subscribed
  dsimp only
  by_cases same : pid = c.currentPid
  · by_cases one : fd = 1
    · simp [same, one, some]
    · by_cases two : fd = 2
      · simp [same, two, some]
      · simp [same, one, two]
  · rcases steady with empty | ⟨stdout, stderr⟩
    · simp [same, empty]
    · rw [stdout, stderr]
      simp [same]

theorem apply_orderly (some : c.currentPid ≠ 0) (index : Nat) (apart : c.currentPid ∉ c.descendants) :
    (applySelection index c).2.currentPid = c.currentPid ∧ Orderly (applySelection index c).2 := by
  rw [applySelection, if_neg some]
  exact ⟨rfl, fun none => absurd none some, apart⟩

include balances orderly

theorem selected_balances (index : Nat) {sel : UInt32} (leave : c.currentPid = sel ∨ Leavable c) :
    Balances (settleAll regs (onProcessSelected index sel c).1) (onProcessSelected index sel c).2 ∧
    Orderly (onProcessSelected index sel c).2 ∧ (onProcessSelected index sel c).2.currentPid = sel := by
  unfold onProcessSelected
  by_cases same : c.currentPid = sel
  · rw [if_pos same]
    exact ⟨balances, orderly, same⟩
  · rw [if_neg same]
    dsimp only
    have none := clear_settles c balances (.inr (leave.resolve_left same))
    rw [clear_empty c orderly]
    by_cases zero : sel = 0
    · rw [if_pos zero, none]
      refine ⟨fun pid fd => iff_of_false (Finset.notMem_empty _) fun wanted => wanted.1 zero, ?_, rfl⟩
      exact ⟨fun _ => ⟨rfl, rfl, rfl⟩, not_mem_nil⟩
    · have fresh : Balances ∅ { currentPid := sel } := fun pid fd =>
        iff_of_false (Finset.notMem_empty _) fun wanted => not_subscribed _ fd ⟨rfl, rfl⟩ wanted.2.1
      obtain ⟨kept, orderly⟩ := apply_orderly { currentPid := sel } zero index not_mem_nil
      rw [if_neg zero, settle_all_append, settle_all_append, none, settle_all_watch]
      exact ⟨apply_balances ∅ { currentPid := sel } fresh zero index (.inl rfl), orderly, kept⟩

theorem clear_balances (leavable : Leavable c) :
    Balances (settleAll regs (clearCurrentPid c).1) (clearCurrentPid c).2 ∧ Orderly (clearCurrentPid c).2 := by
  rw [clear_settles c balances (.inr leavable), clear_empty c orderly]
  exact ⟨fun pid fd => iff_of_false (Finset.notMem_empty _) fun wanted => wanted.1 rfl,
    fun _ => ⟨rfl, rfl, rfl⟩, not_mem_nil⟩

theorem combo_balances {index}
    (steady : c.descendants = [] ∨ (wants index 1 = c.stdout ∧ wants index 2 = c.stderr)) :
    Balances (settleAll regs (onComboChanged index c).1) (onComboChanged index c).2 ∧
    Orderly (onComboChanged index c).2 := by
  unfold onComboChanged
  by_cases none : c.currentPid = 0
  · rw [if_pos none]
    exact ⟨balances, orderly⟩
  · rw [if_neg none]
    dsimp only
    refine ⟨?_, (apply_orderly c none index orderly.apart).2⟩
    have applied := apply_balances regs c balances none index steady
    rw [settle_all_append]
    split
    · rw [settle_all_watch]
      exact applied
    · exact applied

theorem unsubscribe_all_balances :
    Balances (settleAll regs (unsubscribeAllDescendants c).1) (unsubscribeAllDescendants c).2 ∧
    Orderly (unsubscribeAllDescendants c).2 := by
  refine ⟨fun pid fd => ?_, fun none => ⟨(orderly.idle none).1, (orderly.idle none).2.1, rfl⟩, not_mem_nil⟩
  rw [unsubscribeAllDescendants, mem_unsubscribe_all, balances]
  have apart := orderly.apart
  have flags : Subscribed { c with descendants := [] } fd ↔ Subscribed c fd := Iff.rfl
  unfold Wanted
  rw [flags]
  constructor
  · intro both
    obtain ⟨⟨some, subscribed, target⟩, kept⟩ := both
    exact ⟨some, subscribed, target.imp id fun descendant => absurd ⟨descendant, subscribed⟩ kept⟩
  · intro wanted
    obtain ⟨some, subscribed, target⟩ := wanted
    have own : pid = c.currentPid := target.resolve_right not_mem_nil
    refine ⟨⟨some, subscribed, .inl own⟩, fun descendant => apart ?_⟩
    rw [← own]
    exact descendant.1

end

theorem subscribe_descendant_balances (regs : Registrations) (tab : Tab) (balances : Balances regs tab.log)
    (orderly : Orderly tab.log) (some : tab.log.currentPid ≠ 0) (pid : UInt32) (other : pid ≠ tab.log.currentPid) :
    Balances (settleAll regs (subscribeDescendant tab pid true).1) (subscribeDescendant tab pid true).2.log ∧
    Orderly (subscribeDescendant tab pid true).2.log ∧
    (subscribeDescendant tab pid true).2.log.currentPid = tab.log.currentPid := by
  unfold subscribeDescendant
  by_cases listed : pid ∈ tab.log.descendants
  · rw [if_pos listed]
    exact ⟨balances, orderly, rfl⟩
  · have added : Balances (settleAll regs (subscribeCalls tab.log pid))
        { tab.log with descendants := tab.log.descendants ++ [pid] } ∧
          Orderly { tab.log with descendants := tab.log.descendants ++ [pid] } := by
      refine ⟨fun who fd => ?_, fun none => absurd none some, fun mem => ?_⟩
      · have flags : Subscribed { tab.log with descendants := tab.log.descendants ++ [pid] } fd ↔ Subscribed tab.log fd :=
          Iff.rfl
        rw [mem_subscribe, balances]
        unfold Wanted
        rw [flags, mem_append, mem_singleton]
        tauto
      · rcases mem_append.mp mem with old | new
        · exact orderly.apart old
        · exact other (mem_singleton.mp new).symm
    rw [if_neg listed]
    dsimp only
    split
    · exact ⟨added.1, added.2, rfl⟩
    · exact ⟨added.1, added.2, rfl⟩

theorem subscribe_descendants_balances {descendants : List (UInt32 × Bool)} {regs} {tab : Tab}
    (balances : Balances regs tab.log) (orderly : Orderly tab.log) (some : tab.log.currentPid ≠ 0)
    (others : ∀ entry ∈ descendants, entry.1 ≠ tab.log.currentPid ∧ entry.2) :
    Balances (settleAll regs (subscribeDescendants tab descendants).1) (subscribeDescendants tab descendants).2.log ∧
    Orderly (subscribeDescendants tab descendants).2.log := by
  induction descendants generalizing regs tab with
  | nil => exact ⟨balances, orderly⟩
  | cons entry rest ih =>
    obtain ⟨pid, granted⟩ := entry
    obtain ⟨other, memory⟩ := others (pid, granted) mem_cons_self
    obtain rfl : granted := memory
    obtain ⟨one, neat, same⟩ := subscribe_descendant_balances regs tab balances orderly some pid other
    rw [subscribeDescendants, settle_all_append]
    refine ih one neat (by rw [same]; exact some) fun entry mem => ?_
    rw [same]
    exact others entry (mem_cons_of_mem _ mem)

section

def TidyEvent (tab : Tab) : TabEvent → Prop
  | .processSelected sel => tab.log.currentPid = sel ∨ Leavable tab.log
  | .comboChanged index =>
    tab.log.descendants = [] ∨ (wants index 1 = tab.log.stdout ∧ wants index 2 = tab.log.stderr)
  | .descendantsToggled _ => True
  | .update sel descendants =>
    (tab.log.currentPid = sel ∨ Leavable tab.log) ∧
      (tab.includeDescendants = true → ∀ entry ∈ descendants, entry.1 ≠ sel ∧ entry.2 = true)
  | .clear => Leavable tab.log
  | .destroy => Leavable tab.log

def Tidy (s : TabState) (event : TabEvent) : Prop := ∀ tab, s.tab = some tab → TidyEvent tab event

def TabStarts (s : TabState) : Prop := ∃ index, s = ⟨some { index }, ∅⟩

def TabInv (s : TabState) : Prop := Balanced s ∧ ∀ tab, s.tab = some tab → Orderly tab.log

variable {regs : Registrations} (tab : Tab)

theorem update_balances (balances : Balances regs tab.log) (orderly : Orderly tab.log)
    {sel} {descendants} (tidy : TidyEvent tab (.update sel descendants)) :
    Balances (settleAll regs (pluginUpdate sel descendants tab).1) (pluginUpdate sel descendants tab).2.log ∧
    Orderly (pluginUpdate sel descendants tab).2.log := by
  obtain ⟨leave, others⟩ := tidy
  obtain ⟨selected, neat, current⟩ := selected_balances tab.log balances orderly tab.index leave
  unfold pluginUpdate
  dsimp only
  split
  · rename_i active
    obtain ⟨included, flagged⟩ := Bool.and_eq_true_iff.mp active
    have some : (onProcessSelected tab.index sel tab.log).2.currentPid ≠ 0 := by
      intro none
      obtain ⟨stdout, stderr, -⟩ := neat.idle none
      rw [stdout, stderr] at flagged
      cases flagged
    rw [settle_all_append]
    refine subscribe_descendants_balances selected neat some fun entry mem => ?_
    rw [current]
    exact others included entry mem
  · exact ⟨selected, neat⟩

theorem inv_live (both : Balances regs tab.log ∧ Orderly tab.log) : TabInv ⟨some tab, regs⟩ := by
  refine ⟨both.1, fun other equal => ?_⟩
  rw [← Option.some.inj equal]
  exact both.2

theorem handle_balances (balances : Balances regs tab.log) (orderly : Orderly tab.log)
    {event} (tidy : TidyEvent tab event) : TabInv ⟨(handle tab event).2, settleAll regs (handle tab event).1⟩ := by
  cases event with
  | processSelected sel =>
    have selected := selected_balances tab.log balances orderly tab.index tidy
    exact inv_live { tab with log := _ } ⟨selected.1, selected.2.1⟩
  | comboChanged index =>
    exact inv_live { tab with log := _, index } (combo_balances tab.log balances orderly tidy)
  | descendantsToggled on =>
    cases on with
    | true => exact inv_live { tab with includeDescendants := true } ⟨balances, orderly⟩
    | false =>
      exact inv_live { tab with includeDescendants := false, log := _ } (unsubscribe_all_balances tab.log balances orderly)
  | update sel descendants => exact inv_live _ (update_balances tab balances orderly tidy)
  | clear => exact inv_live { tab with log := _ } (clear_balances tab.log balances orderly tidy)
  | destroy =>
    refine ⟨clear_settles tab.log balances (.inr tidy), fun other gone => ?_⟩
    cases gone

theorem tab_registrations_balanced (s : TabState) (reached : Runs.Reachable TabStarts Tidy tabStep s) : Balanced s := by
  have inv : TabInv s := by
    refine Runs.invariant TabInv (fun s starts => ?_) (fun s event inv tidy => ?_) s reached
    · obtain ⟨index, rfl⟩ := starts
      refine ⟨fun pid fd => iff_of_false (Finset.notMem_empty _) fun wanted => wanted.1 rfl, fun tab equal => ?_⟩
      rw [← Option.some.inj equal]
      exact ⟨fun _ => ⟨rfl, rfl, rfl⟩, not_mem_nil⟩
    · obtain ⟨tab, regs⟩ := s
      cases tab with
      | none => exact inv
      | some tab => exact handle_balances tab inv.1 (inv.2 tab rfl) (tidy tab rfl)
  exact inv.1

def tabAfter (events : List TabEvent) : TabState := events.foldl tabStep ⟨some { index := 3 }, ∅⟩

def tabFollowing (child : UInt32) (events : List TabEvent) : TabState :=
  tabAfter (.processSelected 7 :: .descendantsToggled true :: .update 7 [(child, true)] :: events)

theorem tab_registrations_balanced_descendant :
    Balanced (tabFollowing 8 []) ∧ (tabFollowing 8 []).regs = {(7, 1), (7, 2), (8, 1), (8, 2)} := by
  have fresh : Runs.Reachable TabStarts Tidy tabStep (tabAfter []) := .start _ ⟨3, rfl⟩
  have one := Runs.Reachable.step (tabAfter []) (TabEvent.processSelected 7) fresh (by
    intro tab equal
    cases equal
    exact .inr (.inl rfl))
  have two := Runs.Reachable.step (tabAfter [.processSelected 7]) (TabEvent.descendantsToggled true) one (by
    intro tab equal
    cases equal
    trivial)
  have three := Runs.Reachable.step (tabAfter [.processSelected 7, .descendantsToggled true])
    (TabEvent.update 7 [(8, true)]) two (by
      intro tab equal
      cases equal
      refine ⟨.inl rfl, fun _ entry mem => ?_⟩
      rw [mem_singleton.mp mem]
      exact ⟨by decide, rfl⟩)
  exact ⟨tab_registrations_balanced _ three, by decide +kernel⟩

theorem tab_registrations_leak : (tabFollowing 8 [.clear]).regs = {(8, 1), (8, 2)} ∧ ¬ Balanced (tabFollowing 8 [.clear]) ∧
    ¬ Balanced (tabFollowing 8 [.comboChanged 1]) ∧ ¬ Balanced (tabFollowing 7 [.descendantsToggled false]) := by
  have left : (8, 1) ∈ (tabFollowing 8 [.clear]).regs := by
    decide +kernel
  have stale : (8, 2) ∈ (tabFollowing 8 [.comboChanged 1]).regs := by
    decide +kernel
  have lost : (7, 1) ∉ (tabFollowing 7 [.descendantsToggled false]).regs := by
    decide +kernel
  refine ⟨by decide +kernel, fun balanced => ?_, fun balanced => ?_, fun balanced => ?_⟩
  · exact ((balanced 8 1).mp left).1 rfl
  · have subscribed := ((balanced 8 2).mp stale).2.1
    rcases subscribed with ⟨one, -⟩ | ⟨-, off⟩
    · exact absurd one (by decide)
    · cases off
  · exact lost ((balanced 7 1).mpr ⟨by decide, .inl ⟨rfl, rfl⟩, .inl rfl⟩)

end

end Evemon.WriteTab
