import Evemon.ControlCoverage

namespace Evemon.Controls

open Fdmon Ipc

def Descends (lineage : AList fun _ : UInt32 => UInt32) (root pid : UInt32) : Prop :=
  Relation.ReflTransGen (fun parent child => lineage.lookup child = some parent) root pid

def Asks (lineage : AList fun _ : UInt32 => UInt32) (w : Watch) (pid fd : UInt32) : Prop :=
  (w.kind = 1 ∧ w.pid = pid ∧ w.value = fd) ∨
    (w.kind = 2 ∧ hasFd w.value.toUInt8 fd = true ∧ Descends lineage w.pid pid)

def AskedByOther (t : Tracing) (owner : UInt64) (pid fd : UInt32) : Prop :=
  ∃ slot, (t.owners slot).owner ≠ owner ∧ (t.owners slot).owner ≠ 0 ∧
    ∃ w ∈ (t.owners slot).watches, Asks t.lineage w.val pid fd

-- The command takes no descriptor from a process that another owner has it registered for.
def KeepsOthers (c : Command) (t : Tracing) : Prop :=
  ∀ pid fd, t.ebpf.monitored pid fd = true → AskedByOther t c.owner pid fd →
    (c.step t).ebpf.monitored pid fd = true

def Retained (before after : List Watch) (pid fd : UInt32) : Prop :=
  Settles after pid fd ∨
    (treeKey pid ∉ after.map watchKey ∧
      (fdKey pid fd ∈ before.map watchKey → fdKey pid fd ∈ after.map watchKey) ∧
      ∀ root, treeKey root ∈ before.map watchKey → treeKey root ∈ after.map watchKey)

def Retains (c : Command) (t : Tracing) : Prop :=
  ∀ owners, c.requested t = some owners → ∀ pid fd, t.ebpf.monitored pid fd = true →
    AskedByOther t c.owner pid fd → Retained (registrations t.owners) (registrations owners) pid fd

theorem retained_union (before after : Owners) (pid fd : UInt32) :
    Retained (collectUnion before) (collectUnion after) pid fd ↔
    Retained (registrations before) (registrations after) pid fd := by
  simp only [Retained, settles_union, mem_union_keys]

theorem opened_of_monitored {st : Ebpf} {pid fd} (held : st.monitored pid fd) : st.monitoredPids.isSome := by
  cases opened : st.monitoredPids with
  | none => simp [Ebpf.monitored, Ebpf.mask, opened] at held
  | some map => rfl

theorem command_keeps_others (c : Command) (t : Tracing) (succeeds : c.Succeeds t) :
    (Retains c t → KeepsOthers c t) ∧ (Small t.ebpf → KeepsOthers c t → Retains c t) := by
  rcases succeeding_command succeeds with ⟨refused, same⟩ | ⟨owners, final, asked, -, done, after⟩
  · refine ⟨fun _ pid fd held _ => by rwa [same], fun _ _ owners asked => ?_⟩
    rw [refused] at asked
    cases asked
  · have monitored (pid fd : UInt32) (held : t.ebpf.monitored pid fd = true) :=
      @apply_monitored_iff pid fd c.forward succeeds.grants (collectUnion t.owners) (collectUnion owners)
        (union_accepted t.owners) (union_accepted owners) (union_keys_nodup owners) (is_fd_of_monitored held)
        t.ebpf (opened_of_monitored held) done
    constructor
    · intro retains pid fd held other
      have retained := (retained_union t.owners owners pid fd).mpr (retains owners asked pid fd held other)
      rw [after]
      refine (monitored pid fd held).mpr (retained.imp_right fun ⟨noTree, pairStays, treesStay⟩ => ⟨?_, noTree⟩)
      exact withdrawn_kept c.forward succeeds.grants (union_accepted t.owners) (is_fd_of_monitored held)
        t.ebpf held pairStays treesStay
    · intro small keeps next asks pid fd held other
      obtain rfl := Option.some.inj (asked.symm.trans asks)
      have kept := keeps pid fd held other
      rw [after] at kept
      refine (retained_union t.owners owners pid fd).mp (((monitored pid fd held).mp kept).imp_right ?_)
      rintro ⟨survived, noTree⟩
      exact ⟨noTree, withdrawn_lost c.forward succeeds.grants (union_accepted t.owners)
        (is_fd_of_monitored held) t.ebpf small survived⟩

def Traced (t : Tracing) : Prop :=
  Runs.Reachable Fresh (fun state action => ∀ c, action = Action.command c → c.Succeeds state) step t

def twoTrees : Tracing :=
  [Action.command (registering 1 [⟨2, 200, 1⟩]), .command (registering 2 [⟨2, 100, 1⟩]), .fork 100 101 true].foldl
    step freshTracing

theorem two_trees_traced : Traced twoTrees := by
  refine .step _ (Action.fork 100 101 true) (.step _ (Action.command (registering 2 [⟨2, 100, 1⟩]))
    (.step _ (Action.command (registering 1 [⟨2, 200, 1⟩])) (.start _ fresh_tracing_fresh) ?_) ?_) ?_
  iterate 2
    · rintro _ ⟨⟩
      exact succeeds_of_run granting_grants (by decide +kernel)
  nofun

theorem two_trees_drop_succeeds : (dropping 1).Succeeds twoTrees :=
  succeeds_of_run granting_grants (by decide +kernel)

def sharedTree : Tracing :=
  [Action.command (registering 1 [⟨2, 100, 1⟩]), .command (registering 2 [⟨2, 100, 1⟩]), .fork 100 101 true].foldl
    step freshTracing

theorem shared_tree_retained : Retains (dropping 1) sharedTree := by
  intro owners asked pid fd held _
  have before : registrations sharedTree.owners = [⟨2, 100, 1⟩, ⟨2, 100, 1⟩] := by decide +kernel
  have after : ((dropping 1).requested sharedTree).map registrations = some [⟨2, 100, 1⟩] := by decide +kernel
  rw [asked] at after
  rw [before, Option.some.inj after]
  by_cases root : pid = 100
  · subst root
    rcases is_fd_of_monitored held with rfl | rfl
    · exact .inl (.inl ⟨⟨2, 100, 1⟩, by decide, by decide, by decide⟩)
    · exact absurd held (by decide +kernel)
  · exact .inr ⟨by simp [treeKey, watchKey, root], by simp [fdKey, watchKey], by simp⟩

theorem command_keeps_others_shared_tree : ((dropping 1).step sharedTree).ebpf.monitored 101 1 = true ∧
    KeepsOthers (dropping 1) sharedTree := by
  have succeeds : (dropping 1).Succeeds sharedTree := succeeds_of_run granting_grants (by decide +kernel)
  exact ⟨by decide +kernel, (command_keeps_others (dropping 1) sharedTree succeeds).1 shared_tree_retained⟩

theorem drop_loses_other_descendant :
    Traced twoTrees ∧ (dropping 1).Succeeds twoTrees ∧ ¬ KeepsOthers (dropping 1) twoTrees := by
  refine ⟨two_trees_traced, two_trees_drop_succeeds, fun keeps => ?_⟩
  have before : twoTrees.ebpf.monitored 101 1 = true := by decide +kernel
  have after : ((dropping 1).step twoTrees).ebpf.monitored 101 1 = false := by decide +kernel
  have child : twoTrees.lineage.lookup 101 = some 100 := by decide +kernel
  have asked : AskedByOther twoTrees 1 101 1 :=
    ⟨⟨1, by decide⟩, by decide +kernel, by decide +kernel, ⟨⟨2, 100, 1⟩, by decide⟩, by decide +kernel,
      .inr ⟨rfl, by decide, .single child⟩⟩
  rw [keeps 101 1 before asked] at after
  cases after

end Evemon.Controls
