import Evemon.RemoteMirror

-- The tracing services that the host gives its plugins, and the two plugins that use them. All
-- instances of a client share one table of registrations.
namespace Evemon.Plugins

open Controls RemoteFdmon Prog

inductive ServiceCall where
  | monitorFdSubscribe (pid fd : UInt32)
  | monitorFdUnsubscribe (pid fd : UInt32)
  | monitorWatchChildren (pid mask : UInt32)
  | monitorUnwatchChildren (pid : UInt32)

def ServiceCall.watch : ServiceCall → Watch
  | .monitorFdSubscribe pid fd => ⟨1, pid, fd⟩
  | .monitorFdUnsubscribe pid fd => ⟨1, pid, fd⟩
  | .monitorWatchChildren pid mask => ⟨2, pid, mask⟩
  | .monitorUnwatchChildren pid => ⟨2, pid, 0⟩

def ServiceCall.removes : ServiceCall → Bool
  | .monitorFdSubscribe _ _ => false
  | .monitorFdUnsubscribe _ _ => true
  | .monitorWatchChildren _ _ => false
  | .monitorUnwatchChildren _ => true

-- A call of one instance. The backend is looked up by fdmon_write_enable and once more by
-- query_fdmon_control.
structure Call where
  caller : Nat
  service : ServiceCall
  enabled : Bool
  ebpf : Bool

def gtkUiHost (call : Call) (r : Remote) : Bool × Remote :=
  if call.service.removes = false ∧ call.enabled = false then (false, r)
  else queryFdmonControl call.ebpf call.service.watch call.service.removes r

-- `held` is ghost: the registrations an instance has made and neither removed nor replaced.
structure Tracer where
  remote : Remote := {}
  held : Nat → List Watch := fun _ => []

def withdrawn (w : Watch) (held : List Watch) : List Watch := held.filter fun x => watchKey x ≠ watchKey w

def step (t : Tracer) (call : Call) : Tracer :=
  let result := gtkUiHost call t.remote
  let others := withdrawn call.service.watch (t.held call.caller)
  { remote := result.2
    held :=
      if result.1 then
        Function.update t.held call.caller (if call.service.removes then others else call.service.watch :: others)
      else t.held }

def run (calls : List Call) : Tracer := calls.foldl step {}

section

def Covers (entry w : Watch) : Prop := watchKey entry = watchKey w ∧ (w.kind = 2 → entry.value &&& w.value = w.value)

def Kept (t : Tracer) : Prop := ∀ i, ∀ w ∈ t.held i, ∃ entry ∈ t.remote.table.watches, Covers entry w

-- A call takes nothing from the other instances: what it removes is not theirs, and what it
-- overwrites has no further descriptors.
def Fair (t : Tracer) (call : Call) : Prop :=
  ∀ j, j ≠ call.caller → ∀ w ∈ t.held j, watchKey w = watchKey call.service.watch →
    match call.service with
    | .monitorFdSubscribe _ _ => True
    | .monitorFdUnsubscribe _ _ => False
    | .monitorWatchChildren _ mask => call.enabled = true → call.ebpf = true → mask &&& w.value = w.value
    | .monitorUnwatchChildren _ => False

theorem covers_self (w : Watch) : Covers w w := ⟨rfl, fun _ => UInt32.and_self⟩

theorem withdrawn_mem (w x : Watch) (held : List Watch) : x ∈ withdrawn w held ↔ x ∈ held ∧ watchKey x ≠ watchKey w := by
  simp [withdrawn]

variable (t : Tracer) (call : Call)

theorem removal_spec (removes : call.service.removes) : (∀ x, x ∈ (step t call).remote.table.watches ↔
    x ∈ t.remote.table.watches ∧ watchKey x ≠ watchKey call.service.watch) ∧
    (step t call).held = Function.update t.held call.caller (withdrawn call.service.watch (t.held call.caller)) := by
  have host : gtkUiHost call t.remote = queryFdmonControl call.ebpf call.service.watch true t.remote := by
    simp only [gtkUiHost, removes, Bool.true_eq_false, false_and, if_false]
  have done := control_removes call.ebpf call.service.watch t.remote
  have spec := (control_spec call.ebpf call.service.watch true t.remote).1
  simp only [done, if_true] at spec
  simp only [step, host, done, removes, if_true]
  exact ⟨spec, trivial⟩

theorem addition_spec (adds : call.service.removes = false) :
    (step t call = t ∧ ((∃ x ∈ t.remote.table.watches, watchKey x = watchKey call.service.watch) →
    ¬ (call.enabled ∧ call.ebpf))) ∨ (call.enabled ∧ call.ebpf ∧ (∀ x, x ∈ (step t call).remote.table.watches ↔
    x = call.service.watch ∨ x ∈ t.remote.table.watches ∧ watchKey x ≠ watchKey call.service.watch) ∧
    (step t call).held = Function.update t.held call.caller
    (call.service.watch :: withdrawn call.service.watch (t.held call.caller))) := by
  cases enabled : call.enabled with
  | false => exact .inl ⟨by simp [step, gtkUiHost, adds, enabled], fun _ both => by cases both.1⟩
  | true =>
    have host : gtkUiHost call t.remote = queryFdmonControl call.ebpf call.service.watch false t.remote := by
      simp only [gtkUiHost, adds, enabled, Bool.true_eq_false, and_false, if_false]
    rcases control_adds call.ebpf call.service.watch t.remote with ⟨done, ebpf⟩ | ⟨failed, refused⟩
    · have spec := (control_spec call.ebpf call.service.watch false t.remote).1
      simp only [done, if_true] at spec
      refine .inr ⟨rfl, ebpf, ?_, ?_⟩
      · simp only [step, host]
        exact spec
      · simp only [step, host, done, adds, if_true, Bool.false_eq_true, if_false]
    · refine .inl ⟨by simp [step, host, failed], fun there both => ?_⟩
      rw [refused there] at both
      cases both.2

theorem kept_elsewhere (kept : Kept t) (table : ∀ x, x ∈ t.remote.table.watches → watchKey x ≠ watchKey call.service.watch →
    x ∈ (step t call).remote.table.watches)
    (j : Nat) (w : Watch) (mem : w ∈ t.held j) (other : watchKey w ≠ watchKey call.service.watch) :
    ∃ entry ∈ (step t call).remote.table.watches, Covers entry w := by
  obtain ⟨entry, there, covers⟩ := kept j w mem
  exact ⟨entry, table entry there fun same => other (covers.1.symm.trans same), covers⟩

theorem removal_kept (removes : call.service.removes) (kept : Kept t) :
    Kept (step t call) ↔ ∀ j, j ≠ call.caller → ∀ w ∈ t.held j, watchKey w ≠ watchKey call.service.watch := by
  obtain ⟨table, held⟩ := removal_spec t call removes
  have stays := kept_elsewhere t call kept fun x old other => (table x).mpr ⟨old, other⟩
  constructor
  · intro after j away w mem same
    obtain ⟨entry, there, covers⟩ := after j w (by rw [held, Function.update_of_ne away]; exact mem)
    exact ((table entry).mp there).2 (covers.1.trans same)
  · intro fair j w mem
    rw [held] at mem
    by_cases here : j = call.caller
    · rw [here, Function.update_self, withdrawn_mem] at mem
      exact stays call.caller w mem.1 mem.2
    · rw [Function.update_of_ne here] at mem
      exact stays j w mem (fair j here w mem)

theorem addition_kept (adds : call.service.removes = false) (kept : Kept t) :
    Kept (step t call) ↔ ∀ j, j ≠ call.caller → ∀ w ∈ t.held j, watchKey w = watchKey call.service.watch →
    call.enabled → call.ebpf → Covers call.service.watch w := by
  rcases addition_spec t call adds with ⟨same, refused⟩ | ⟨enabled, ebpf, table, held⟩
  · rw [same]
    refine iff_of_true kept fun j _ w mem key enabled ebpf => ?_
    obtain ⟨entry, there, covers⟩ := kept j w mem
    exact absurd ⟨enabled, ebpf⟩ (refused ⟨entry, there, covers.1.trans key⟩)
  · have stays := kept_elsewhere t call kept fun x old other => (table x).mpr (.inr ⟨old, other⟩)
    constructor
    · intro after j away w mem key _ _
      obtain ⟨entry, there, covers⟩ := after j w (by rw [held, Function.update_of_ne away]; exact mem)
      rcases (table entry).mp there with rfl | ⟨_, other⟩
      · exact covers
      · exact absurd (covers.1.trans key) other
    · intro fair j w mem
      rw [held] at mem
      have new : call.service.watch ∈ (step t call).remote.table.watches := (table _).mpr (.inl rfl)
      by_cases here : j = call.caller
      · rw [here, Function.update_self] at mem
        rcases List.mem_cons.mp mem with rfl | old
        · exact ⟨_, new, covers_self _⟩
        · obtain ⟨mine, other⟩ := (withdrawn_mem _ _ _).mp old
          exact stays call.caller w mine other
      · rw [Function.update_of_ne here] at mem
        by_cases key : watchKey w = watchKey call.service.watch
        · exact ⟨_, new, fair j here w mem key enabled ebpf⟩
        · exact stays j w mem key

theorem call_kept (kept : Kept t) : Kept (step t call) ↔ Fair t call := by
  obtain ⟨caller, service, enabled, ebpf⟩ := call
  cases service with
  | monitorFdSubscribe pid fd =>
    rw [addition_kept t _ rfl kept]
    refine iff_of_true (fun j away w mem key _ _ => ⟨key.symm, fun two => ?_⟩) fun j away w mem key => trivial
    have one : w.kind = 1 := congrArg Prod.fst key
    rw [one] at two
    cases two
  | monitorFdUnsubscribe pid fd | monitorUnwatchChildren pid => exact removal_kept t _ rfl kept
  | monitorWatchChildren pid mask =>
    rw [addition_kept t _ rfl kept]
    constructor
    · intro fair j away w mem key on ebpf
      exact (fair j away w mem key on ebpf).2 (congrArg Prod.fst key)
    · intro fair j away w mem key on ebpf
      exact ⟨key.symm, fun _ => fair j away w mem key on ebpf⟩

theorem run_snoc (calls : List Call) (call : Call) : run (calls ++ [call]) = step (run calls) call := by
  rw [run, List.foldl_append]
  rfl

end

-- What the instances have registered lasts through a sequence of calls exactly if every call of
-- it is fair.
theorem registrations_last (calls : List Call) : (∀ before after, calls = before ++ after → Kept (run before)) ↔
    ∀ before call after, calls = before ++ call :: after → Fair (run before) call := by
  constructor
  · rintro kept before call after rfl
    have now := kept before (call :: after) rfl
    have next := kept (before ++ [call]) after (by simp)
    rw [run_snoc] at next
    exact (call_kept _ call now).mp next
  · intro fair before
    induction before using List.reverseRecOn with
    | nil =>
      intro after _ i w mem
      cases mem
    | append_singleton earlier call ih =>
      rintro after rfl
      rw [run_snoc]
      have now := ih (call :: after) (by simp)
      exact (call_kept _ call now).mpr (fair earlier call after (by simp))

section

structure Session where
  caller : Nat
  backend : ServiceCall → Bool × Bool

def serve (session : Session) (service : ServiceCall) : Prog Tracer Bool :=
  let call : Call := ⟨session.caller, service, (session.backend service).1, (session.backend service).2⟩
  ⟨fun t => ((gtkUiHost call t.remote).1, step t call)⟩

structure WriteMonitor where
  monitoredPid : UInt32 := 0
  monitorFd1 : Bool := false
  monitorFd2 : Bool := false

def serveIf (session : Session) (condition : Bool) (service : ServiceCall) : Prog Tracer Bool :=
  if condition then serve session service else pure false

def WriteMonitor.unsubscribe (session : Session) (c : WriteMonitor) : Prog Tracer WriteMonitor :=
  if c.monitoredPid ≠ 0 then do
    let _ ← serveIf session c.monitorFd1 (.monitorFdUnsubscribe c.monitoredPid 1)
    let _ ← serveIf session c.monitorFd2 (.monitorFdUnsubscribe c.monitoredPid 2)
    pure {}
  else pure c

def WriteMonitor.onProcessSelected (session : Session) (sel : UInt32) (c : WriteMonitor) :
    Prog Tracer WriteMonitor := do
  let c ← c.unsubscribe session
  if sel = 0 then pure c
  else do
    let first ← serve session (.monitorFdSubscribe sel 1)
    let second ← serve session (.monitorFdSubscribe sel 2)
    pure ⟨sel, c.monitorFd1 || first, c.monitorFd2 || second⟩

structure WriteLog where
  currentPid : UInt32 := 0
  stdout : Bool := false
  stderr : Bool := false
  descendants : List UInt32 := []

def WriteLog.mask (c : WriteLog) : UInt32 := (if c.stdout then 1 else 0) ||| (if c.stderr then 2 else 0)

end

end Evemon.Plugins

-- The handlers of the write log: the host calls they make where every one of them succeeds.
namespace Evemon.WriteTab

open Plugins

def wants (index : Nat) (fd : UInt32) : Bool := if fd = 1 then index == 1 || index == 3 else index == 2 || index == 3

def subscribeCalls (c : WriteLog) (pid : UInt32) : List ServiceCall :=
  (if c.stdout then [.monitorFdSubscribe pid 1] else []) ++ if c.stderr then [.monitorFdSubscribe pid 2] else []

def unsubscribeCalls (c : WriteLog) (pid : UInt32) : List ServiceCall :=
  (if c.stdout then [.monitorFdUnsubscribe pid 1] else []) ++ if c.stderr then [.monitorFdUnsubscribe pid 2] else []

def selectCalls (pid fd : UInt32) (want subscribed : Bool) : List ServiceCall :=
  if want && !subscribed then [.monitorFdSubscribe pid fd]
  else if !want && subscribed then [.monitorFdUnsubscribe pid fd]
  else []

def applySelection (index : Nat) (c : WriteLog) : List ServiceCall × WriteLog :=
  if c.currentPid = 0 then ([], c)
  else
    (selectCalls c.currentPid 1 (wants index 1) c.stdout ++ selectCalls c.currentPid 2 (wants index 2) c.stderr,
      { c with stdout := wants index 1, stderr := wants index 2 })

def unsubscribeAllDescendants (c : WriteLog) : List ServiceCall × WriteLog :=
  (c.descendants.flatMap (unsubscribeCalls c), { c with descendants := [] })

def clearCurrentPid (c : WriteLog) : List ServiceCall × WriteLog :=
  if c.currentPid = 0 then ([], c)
  else
    let rest := unsubscribeAllDescendants { c with stdout := false, stderr := false }
    (unsubscribeCalls c c.currentPid ++ (rest.1 ++ [.monitorUnwatchChildren c.currentPid]), { rest.2 with currentPid := 0 })

def watchCalls (c : WriteLog) : List ServiceCall :=
  if c.mask != 0 then [.monitorWatchChildren c.currentPid c.mask] else []

def onProcessSelected (index : Nat) (sel : UInt32) (c : WriteLog) : List ServiceCall × WriteLog :=
  if c.currentPid = sel then ([], c)
  else
    let cleared := clearCurrentPid c
    let moved := { cleared.2 with currentPid := sel }
    if sel = 0 then (cleared.1, moved)
    else
      let applied := applySelection index moved
      (cleared.1 ++ (applied.1 ++ watchCalls applied.2), applied.2)

def onComboChanged (index : Nat) (c : WriteLog) : List ServiceCall × WriteLog :=
  if c.currentPid = 0 then ([], c)
  else
    let applied := applySelection index c
    (applied.1 ++ if applied.2.mask ≠ 0 then watchCalls applied.2 else [.monitorUnwatchChildren applied.2.currentPid],
      applied.2)

end Evemon.WriteTab

namespace Evemon.Plugins

open Controls RemoteFdmon Prog

def interference : Prog Tracer WriteLog := do
  let monitor : Session := ⟨0, fun _ => (true, true)⟩
  let tab : Session := ⟨1, fun _ => (true, true)⟩
  let _ ← WriteMonitor.onProcessSelected monitor 100 {}
  let selected := WriteTab.onProcessSelected 3 100 {}
  selected.1.forM fun service => discard (serve tab service)
  let changed := WriteTab.onComboChanged 0 selected.2
  changed.1.forM fun service => discard (serve tab service)
  pure changed.2

theorem tab_cancels_write_monitor : (interference.run {}).2.held 0 = [⟨1, 100, 2⟩, ⟨1, 100, 1⟩] ∧
    (interference.run {}).2.remote.table.watches = [] := by
  decide +kernel

end Evemon.Plugins
