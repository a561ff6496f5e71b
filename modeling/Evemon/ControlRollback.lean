import Evemon.ControlInstalled

namespace Evemon.Controls

open Fdmon Ipc

variable {st : Ebpf}

variable {union : List Watch} {after : Ebpf}

theorem sound_same (later : Later st after) (same : SameRoots st after) (sound : Sound union st) : Sound union after where
  within := by
    rw [same.parents]
    exact sound.within
  room := sound.room
  linked some := later.write (sound.linked some)
  usable w mem := (usable_later later w).mpr (sound.usable w mem)
  called w mem := later.calls _ (sound.called w mem)
  orphan absent := same.orphan.trans (sound.orphan absent)

theorem installed_same (same : SameRoots st after) (installed : Installed union st) : Installed union after where
  parents pid := by rw [same.parents, installed.parents]
  orphan := by rw [same.orphan, installed.orphan]

variable (t : Tracing)

theorem fresh_union (fresh : Fresh t) : collectUnion t.owners = [] := by
  rw [collectUnion, fresh_registrations fresh]
  rfl

theorem fresh_sound (fresh : Fresh t) : Sound (collectUnion t.owners) t.ebpf := by
  rw [fresh_union t fresh]
  exact ⟨by simp [fresh.parents, SwapTable.empty, SwapTable.keys], Nat.zero_le _, fun some => absurd rfl some, by simp,
    by simp, fun _ => fresh.orphan⟩

theorem fresh_installed (fresh : Fresh t) : Installed (collectUnion t.owners) t.ebpf := by
  rw [fresh_union t fresh]
  exact ⟨by simp [fresh.parents, SwapTable.empty, SwapTable.find, treeMask], by simp [fresh.orphan]⟩

theorem union_same {final owners} (same : registrations final = registrations owners) :
    collectUnion final = collectUnion owners := by
  rw [collectUnion, same, collectUnion]

theorem command_sound {c : Command} {t : Tracing} (sound : Sound (collectUnion t.owners) t.ebpf) :
    Sound (collectUnion (c.step t).owners) (c.step t).ebpf := by
  rcases command_outcome c t with ⟨-, same⟩ | ⟨request, code, -, outcome⟩
  · rwa [same]
  · generalize c.step t = result at outcome ⊢
    cases outcome with
    | refused code unreached early => exact sound
    | applied owners final asked done same =>
      simp only [union_same same]
      exact sound_applied (union_accepted t.owners) (union_accepted owners) sound (union_keys_nodup owners) done
    | undone owners asked failed =>
      exact sound_undone (union_accepted t.owners) (union_accepted owners) sound c.forward c.rollback

theorem step_sound (action : Action) (sound : Sound (collectUnion t.owners) t.ebpf) :
    Sound (collectUnion (step t action).owners) (step t action).ebpf := by
  cases action with
  | command c => exact command_sound sound
  | fork parent child updated =>
    obtain ⟨later, same⟩ := only_pids_spec (fork_only updated parent child t.ebpf)
    exact sound_same later same sound
  | exec pid reads =>
    obtain ⟨later, same⟩ := only_pids_spec (exec_only reads pid t.ebpf)
    exact sound_same later same sound

theorem command_installed {c : Command} {t : Tracing} (sound : Sound (collectUnion t.owners) t.ebpf)
    (installed : Installed (collectUnion t.owners) t.ebpf) (repeats : Repeats t.ebpf c.rollback) :
    Installed (collectUnion (c.step t).owners) (c.step t).ebpf := by
  rcases command_outcome c t with ⟨-, same⟩ | ⟨request, code, -, outcome⟩
  · rwa [same]
  · generalize c.step t = result at outcome ⊢
    cases outcome with
    | refused code unreached early => exact installed
    | applied owners final asked done same =>
      simp only [union_same same]
      exact installed_applied (union_accepted t.owners) (union_accepted owners) sound (union_keys_nodup owners) done
    | undone owners asked failed =>
      exact installed_undone (union_accepted t.owners) (union_accepted owners) sound (union_keys_nodup t.owners) c.forward
        c.rollback repeats

theorem events_installed {action : Action} (event : ∀ c, action ≠ .command c)
    (installed : Installed (collectUnion t.owners) t.ebpf) :
    Installed (collectUnion (step t action).owners) (step t action).ebpf := by
  cases action with
  | command c => exact absurd rfl (event c)
  | fork parent child updated =>
    exact installed_same (only_pids_spec (fork_only updated parent child t.ebpf)).2 installed
  | exec pid reads =>
    exact installed_same (only_pids_spec (exec_only reads pid t.ebpf)).2 installed

def Repeatable (t : Tracing) : Prop :=
  Runs.Reachable Fresh (fun state action => ∀ c, action = Action.command c → Repeats state.ebpf c.rollback) step t

theorem repeatable_installed (reached : Repeatable t) :
    Sound (collectUnion t.owners) t.ebpf ∧ Installed (collectUnion t.owners) t.ebpf := by
  refine Runs.invariant (fun t => Sound (collectUnion t.owners) t.ebpf ∧ Installed (collectUnion t.owners) t.ebpf)
    (fun start fresh => ?_) (fun t action holds allowed => ?_) t reached
  · exact ⟨fresh_sound start fresh, fresh_installed start fresh⟩
  · refine ⟨step_sound t action holds.1, ?_⟩
    cases action with
    | command c => exact command_installed holds.1 holds.2 (allowed c rfl)
    | fork parent child updated | exec pid reads => exact events_installed t nofun holds.2

-- Runs in which any rollback may fail.
def Reached (t : Tracing) : Prop := Runs.Reachable Fresh (fun _ _ => True) step t

theorem reached_sound (reached : Reached t) : Sound (collectUnion t.owners) t.ebpf :=
  Runs.invariant (fun t => Sound (collectUnion t.owners) t.ebpf) fresh_sound
    (fun t action sound _ => step_sound t action sound) t reached

def SameTables (st after : Ebpf) : Prop :=
  (∀ pid, after.watchedParents.find pid = st.watchedParents.find pid) ∧ after.orphanStdoutMode = st.orphanStdoutMode

theorem failed_control_changes_nothing (t : Tracing) (owner : UInt64) (request : WireState)
    (forward rollback : Kernel) (code : IpcCode)
    (failed : (queryControlsReplace owner request forward rollback t).1 = some code) :
    (queryControlsReplace owner request forward rollback t).2.owners = t.owners ∧ (Reached t → Repeats t.ebpf rollback →
    (SameTables t.ebpf (queryControlsReplace owner request forward rollback t).2.ebpf ↔
    (code = .internal → Installed (collectUnion t.owners) t.ebpf))) := by
  have outcome := replace_outcome owner request forward rollback t
  generalize queryControlsReplace owner request forward rollback t = result at outcome failed ⊢
  cases outcome with
  | refused refusal unreached early =>
    refine ⟨rfl, fun _ _ => ⟨fun _ internal => ?_, fun _ => ⟨fun _ => rfl, rfl⟩⟩⟩
    exact absurd ((Option.some.inj failed).trans internal) early
  | applied owners final asked done same => cases failed
  | undone owners asked gaveUp =>
    obtain rfl := Option.some.inj failed
    refine ⟨rfl, fun reached repeats => ?_⟩
    have restored := installed_undone (union_accepted t.owners) (union_accepted owners) (reached_sound t reached)
      (union_keys_nodup t.owners) forward rollback repeats
    constructor
    · rintro ⟨parents, orphan⟩ -
      exact ⟨fun pid => (parents pid).symm.trans (restored.parents pid), orphan.symm.trans restored.orphan⟩
    · intro follows
      have installed := follows rfl
      exact ⟨fun pid => (restored.parents pid).trans (installed.parents pid).symm,
        restored.orphan.trans installed.orphan.symm⟩

theorem granting_repeats {st} : Repeats st granting := ⟨fun _ => rfl, fun _ _ _ => rfl⟩

def treeAndOrphans : Tracing := (registering 1 [⟨2, 100, 1⟩, ⟨3, 0, 0⟩]).step freshTracing

def refusedRequest : WireState :=
  { buf := { data := controlBody [⟨2, 200, 2⟩, ⟨1, 300, 5⟩] }, heap := allGranted }

theorem tree_and_orphans_repeatable : Repeatable treeAndOrphans := by
  refine .step _ (Action.command (registering 1 [⟨2, 100, 1⟩, ⟨3, 0, 0⟩])) (.start _ fresh_tracing_fresh) ?_
  rintro _ ⟨⟩
  exact granting_repeats

theorem kernel_tables_follow (t : Tracing) (reached : Repeatable t) :
    (∀ pid, t.ebpf.watchedParents.find pid = treeMask (collectUnion t.owners) pid) ∧
    t.ebpf.orphanStdoutMode = decide (orphanKey ∈ (collectUnion t.owners).map watchKey) ∧
    (collectUnion t.owners ≠ [] → t.ebpf.linkEnterWrite = true) := by
  obtain ⟨sound, installed⟩ := repeatable_installed t reached
  exact ⟨installed.parents, installed.orphan, sound.linked⟩

theorem tree_and_orphans_follow : treeMask (collectUnion treeAndOrphans.owners) 100 = some 1 :=
  ((kernel_tables_follow _ tree_and_orphans_repeatable).1 100).symm.trans (by decide +kernel)

theorem tree_and_orphans_reached : Reached treeAndOrphans :=
  .step _ (Action.command (registering 1 [⟨2, 100, 1⟩, ⟨3, 0, 0⟩])) (.start _ fresh_tracing_fresh) trivial

theorem failed_control_changes_nothing_refused :
    (queryControlsReplace 1 refusedRequest granting granting treeAndOrphans).1 = some .internal ∧
    (queryControlsReplace 1 refusedRequest granting granting treeAndOrphans).2.owners = treeAndOrphans.owners ∧
    (queryControlsReplace 1 refusedRequest granting granting treeAndOrphans).2.ebpf.watchedParents.find 100 = some 1 := by
  have failed : (queryControlsReplace 1 refusedRequest granting granting treeAndOrphans).1 = some .internal := by
    decide +kernel
  obtain ⟨owners, tables⟩ := failed_control_changes_nothing treeAndOrphans 1 refusedRequest granting granting .internal
    failed
  have installed := (repeatable_installed _ tree_and_orphans_repeatable).2
  obtain ⟨parents, -⟩ := (tables tree_and_orphans_reached granting_repeats).mpr fun _ => installed
  exact ⟨failed, owners, (parents 100).trans (by decide +kernel)⟩

def failingRequest : WireState := { buf := { data := controlBody [⟨1, 300, 5⟩] }, heap := allGranted }

def pairAndTree : Tracing := (registering 1 [⟨1, 50, 1⟩, ⟨2, 100, 1⟩]).step freshTracing

-- The rollback of this request stops at the pair, so the tree is registered but not watched.
def halfRestored : Tracing :=
  Command.step ⟨1, .replace failingRequest, granting, { granting with update := fun _ => false }⟩ pairAndTree

theorem later_rollback_restores_tree : Reached halfRestored ∧ Repeats halfRestored.ebpf granting ∧
    (queryControlsReplace 1 failingRequest granting granting halfRestored).1 = some .internal ∧
    halfRestored.ebpf.watchedParents.find 100 = none ∧
    (queryControlsReplace 1 failingRequest granting granting halfRestored).2.ebpf.watchedParents.find 100 = some 1 := by
  refine ⟨?_, granting_repeats, by decide +kernel, by decide +kernel, by decide +kernel⟩
  have first : Reached pairAndTree := .step _ (Action.command _) (.start _ fresh_tracing_fresh) trivial
  exact .step _ (Action.command _) first trivial

end Evemon.Controls
