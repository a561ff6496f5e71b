import Evemon.ControlRelease
import Evemon.ControlRollback

namespace Evemon.Controls

open Fdmon Ipc List AList Option

section

def MaskValid (mask : UInt8) : Prop := mask = 1 ∨ mask = 2 ∨ mask = 3

instance (mask : UInt8) : Decidable (MaskValid mask) :=
  inferInstanceAs (Decidable (mask = 1 ∨ mask = 2 ∨ mask = 3))

def MapValid (map : PidMap) : Prop := ∀ pid mask, map.lookup pid = some mask → MaskValid mask

def MasksValid (st : Ebpf) : Prop := ∀ map, st.monitoredPids = some map → MapValid map

theorem mask_valid_or {a b : UInt8} (atA : a = 0 ∨ MaskValid a) (atB : MaskValid b) : MaskValid (a ||| b) := by
  rcases atA with rfl | rfl | rfl | rfl <;> rcases atB with rfl | rfl | rfl <;> decide

variable {fd : UInt32}

theorem fd_bit_valid (isFd : IsFd fd) : MaskValid (fdBit fd) := by
  rcases isFd with rfl | rfl <;> decide

variable {mask : UInt8}

theorem mask_valid_clear (valid : MaskValid mask) (isFd : IsFd fd) (left : mask &&& ~~~fdBit fd ≠ 0) :
    MaskValid (mask &&& ~~~fdBit fd) := by
  rcases isFd with rfl | rfl <;> rcases valid with rfl | rfl | rfl <;> first | decide | exact absurd (by decide) left

theorem word_mask_valid {mask : UInt32} (masks : mask = 1 ∨ mask = 2 ∨ mask = 3) : MaskValid mask.toUInt8 := by
  rcases masks with rfl | rfl | rfl <;> decide

theorem map_valid_insert {map} (valid : MapValid map) (key : UInt32) (atMask : MaskValid mask) :
    MapValid (map.insert key mask) := by
  intro pid stored found
  by_cases here : pid = key
  · subst here
    rw [lookup_insert] at found
    exact Option.some.inj found ▸ atMask
  · rw [lookup_insert_ne here] at found
    exact valid pid stored found

theorem map_valid_erase {map} (valid : MapValid map) (key : UInt32) : MapValid (map.erase key) := by
  intro pid stored found
  by_cases here : pid = key
  · subst here
    rw [lookup_erase] at found
    cases found
  · rw [lookup_erase_ne here] at found
    exact valid pid stored found

theorem map_valid_flush {order} {deleted : UInt32 → Bool} (map : PidMap) (valid : MapValid map) :
    MapValid (flush order deleted map) := by
  rw [flush]
  induction order.take flushMax generalizing map with
  | nil => exact valid
  | cons key rest ih =>
    rw [foldl_cons]
    by_cases granted : deleted key
    · rw [if_pos granted]
      exact ih _ (map_valid_erase valid key)
    · rw [if_neg granted]
      exact ih map valid

variable {st after : Ebpf}

theorem masks_valid_map {change : PidMap → PidMap} (valid : MasksValid st)
    (mapped : after.monitoredPids = st.monitoredPids.map change) (keeps : ∀ map, MapValid map → MapValid (change map)) :
    MasksValid after := by
  intro map opened
  rw [mapped] at opened
  obtain ⟨before, held, rfl⟩ := map_eq_some_iff.mp opened
  exact keeps before (valid before held)

theorem masks_valid_same (valid : MasksValid st) (same : after.monitoredPids = st.monitoredPids) : MasksValid after := by
  rw [MasksValid, same]
  exact valid

variable (updated : Bool) (kernel : Kernel) (w : Watch) {pid : UInt32}

theorem add_pid_fd_masks (valid : MasksValid st) : MasksValid (fdmonAddPidFd updated pid fd st).2 := by
  rcases add_pid_fd_cases updated pid fd st with same | ⟨map, opened, isFd, stored⟩
  · rwa [same]
  · rw [stored]
    rintro after ⟨⟩
    refine map_valid_insert (valid map opened) pid (mask_valid_or ?_ (fd_bit_valid isFd))
    cases found : map.lookup pid with
    | none => exact .inl rfl
    | some mask => exact .inr (valid map opened pid mask found)

theorem remove_pid_fd_masks {updated deleted} (valid : MasksValid st) :
    MasksValid (fdmonRemovePidFd updated deleted pid fd st).2 := by
  obtain same | ⟨map, mask, opened, found, isFd, stored | ⟨last, stored⟩⟩ := @remove_pid_fd_cases updated deleted pid fd st _ rfl
  · rwa [same]
  · rw [stored]
    rintro after ⟨⟩
    exact map_valid_erase (valid map opened) pid
  · have held := valid map opened
    rw [stored]
    rintro after ⟨⟩
    exact map_valid_insert held pid (mask_valid_clear (held pid mask found) isFd last)

theorem watch_parent_masks {key fdMask : UInt32} (masks : fdMask = 1 ∨ fdMask = 2 ∨ fdMask = 3) (valid : MasksValid st) :
    MasksValid (fdmonWatchParentFds updated key fdMask st).2 := by
  obtain same | ⟨-, pids, made, kept⟩ := watch_parent_cases updated key fdMask st
  · rwa [same]
  · have stored (after : Ebpf) (same : after.monitoredPids = pids) : MasksValid after := by
      rw [made] at same
      split at same
      · exact masks_valid_map valid same fun map atMap => map_valid_insert atMap key (word_mask_valid masks)
      · exact masks_valid_same valid same
    obtain kept | ⟨table, -, kept⟩ := kept <;> exact stored _ (congrArg (·.2.monitoredPids) kept)

theorem add_watch_masks (accepted : Accepted w) (st : Ebpf) (valid : MasksValid st) :
    MasksValid (addWatch kernel w st).2 := by
  cases accepted with
  | fd key value positive => exact add_pid_fd_masks _ valid
  | tree key value positive masks => exact watch_parent_masks _ masks valid
  | orphan => exact masks_valid_same valid (orphan_enable_pids kernel.attach st)

theorem withdraw_watch_masks (accepted : Accepted w) (st : Ebpf)
    (valid : MasksValid st) : MasksValid (withdrawWatch kernel w st) := by
  cases accepted with
  | fd key value positive => exact remove_pid_fd_masks valid
  | tree key value positive masks =>
    have flushed : (withdrawWatch kernel ⟨2, key, value⟩ st).monitoredPids = st.monitoredPids.map fun map =>
        flush (kernel.order map) (kernel.delete ⟨2, key, value⟩) map := by
      simp [withdrawWatch, fdmonUnwatchParentFds, positive]
    exact masks_valid_map valid flushed fun map => map_valid_flush map
  | orphan => exact valid

variable (watches : List Watch)

theorem withdraw_all_masks (accepted : ∀ w ∈ watches, Accepted w) (st : Ebpf) (valid : MasksValid st) :
    MasksValid (watches.foldl (fun st w => withdrawWatch kernel w st) st) :=
  List.foldlRecOn watches _ valid fun st before w mem => withdraw_watch_masks kernel w (accepted w mem) st before

theorem reapply_masks (accepted : ∀ w ∈ watches, Accepted w) {st} (valid : MasksValid st) :
    MasksValid (reapply kernel watches st).2 :=
  reapply_rule kernel watches MasksValid (fun w mem => add_watch_masks kernel w (accepted w mem)) st valid

variable {old : List Watch}

theorem withdrawn_masks (next : List Watch) (atOld : ∀ w ∈ old, Accepted w) (valid : MasksValid st) :
    MasksValid (withdrawn kernel old next st) := by
  rw [withdrawn, withdraw_eq]
  exact withdraw_all_masks kernel _ (gone_accepted old next atOld) _
    (masks_valid_same valid (enabled_state_pids kernel next st))

theorem applied_masks {next : List Watch} (atOld : ∀ w ∈ old, Accepted w) (atNext : ∀ w ∈ next, Accepted w)
    (valid : MasksValid st) (done : (applyUnion kernel old next st).1) : MasksValid (applyUnion kernel old next st).2 := by
  rw [(apply_union_done kernel old next st done).2]
  exact reapply_masks kernel next atNext (withdrawn_masks kernel next atOld valid)

theorem register_pid_masks (atMask : MaskValid mask) (valid : MasksValid st) :
    MasksValid (registerPid updated pid mask st) := by
  cases updated with
  | false => exact valid
  | true => exact masks_valid_map valid rfl fun map atMap => map_valid_insert atMap pid atMask

theorem orphan_fds_masks {orphaned : UInt32 → Bool} {updated} (pid : UInt32) (valid : MasksValid st) :
    MasksValid (maybeRegisterOrphanFds orphaned updated pid st) := by
  rw [maybeRegisterOrphanFds]
  cases first : orphaned 1 <;> cases second : orphaned 2 <;>
    first
      | exact valid
      | exact register_pid_masks updated (by decide) valid

theorem fork_masks (parent child : UInt32) (valid : MasksValid st) :
    MasksValid (traceSchedProcessFork updated parent child st) := by
  rcases fork_cases updated parent child st with same | ⟨map, mask, opened, found, stored⟩
  · rwa [same]
  · have held := valid map opened
    rw [stored]
    rintro after ⟨⟩
    exact map_valid_insert held child (held parent mask found)

theorem tree_masks (accepted : Accepted w) (tree : w.kind = 2) : w.value = 1 ∨ w.value = 2 ∨ w.value = 3 := by
  cases accepted with
  | fd key value positive => cases tree
  | tree key value positive masks => exact masks
  | orphan => cases tree

variable {union : List Watch}

theorem child_fds_masks (accepted : ∀ w ∈ union, Accepted w) {reads}
    (parents : ∀ root, st.watchedParents.find root = treeMask union root) (valid : MasksValid st) :
    MasksValid (registerChildFds reads pid st) := by
  simp only [registerChildFds, parents]
  by_cases unknown : st.watchedParents.entries = [] ∨ reads.ppid = 0
  · rw [if_pos unknown]
    exact valid
  · rw [if_neg unknown]
    cases found : treeMask union reads.ppid with
    | none => exact valid
    | some fdMask =>
      obtain ⟨w, named, rfl⟩ := map_eq_some_iff.mp found
      have key : watchKey w = treeKey reads.ppid := by simpa using List.find?_some named
      have masks := tree_masks w (accepted w (mem_of_find?_eq_some named)) (congrArg Prod.fst key)
      have nonzero : w.value ≠ 0 := by rcases masks with same | same | same <;> rw [same] <;> decide
      rw [getD_some, if_neg nonzero]
      exact register_pid_masks _ (word_mask_valid masks) valid

theorem exec_masks (accepted : ∀ w ∈ union, Accepted w) (reads : ExecReads) (pid : UInt32)
    (parents : ∀ root, st.watchedParents.find root = treeMask union root) (valid : MasksValid st) :
    MasksValid (handleExec reads pid st) := by
  by_cases detached : st.linkSchedExec = false
  · rw [handleExec, if_pos detached]
    exact valid
  · rw [handleExec, if_neg detached]
    by_cases mode : st.orphanStdoutMode
    · rw [if_pos mode]
      obtain ⟨_, _, same⟩ := orphan_fds_only reads.orphaned reads.orphanUpdated pid st
      refine child_fds_masks accepted (fun root => ?_) (orphan_fds_masks pid valid)
      rw [same, parents]
    · rw [if_neg mode]
      exact child_fds_masks accepted parents valid

theorem emptied_of_unmonitored (valid : MasksValid st) (none : ∀ pid fd, st.monitored pid fd = false) : Emptied st := by
  intro map opened
  refine pid_map_empty fun pid => ?_
  cases found : map.lookup pid with
  | none => rfl
  | some mask =>
    have first := none pid 1
    have second := none pid 2
    simp only [Ebpf.monitored, Ebpf.mask, opened, bind_some, found, getD_some] at first second
    rcases valid map opened pid mask found with rfl | rfl | rfl
    · exact absurd first (by decide)
    · exact absurd second (by decide)
    · exact absurd first (by decide)

end

section

-- A command that leaves no registration clears the map: it withdraws a root, or every
-- descriptor in the map is the (PID, FD) pair of some owner.
def Clears (c : Command) (t : Tracing) : Prop :=
  ∀ owners, c.requested t = some owners → registrations owners = [] →
    ((∃ w ∈ registrations t.owners, w.kind = 2) ∧ Small t.ebpf) ∨
      ∀ pid fd, t.ebpf.monitored pid fd = true → fdKey pid fd ∈ (registrations t.owners).map watchKey

structure Asked (t : Tracing) : Prop where
  masks : MasksValid t.ebpf
  sound : Sound (collectUnion t.owners) t.ebpf
  installed : Installed (collectUnion t.owners) t.ebpf

structure IdleEmpty (t : Tracing) : Prop extends Asked t where
  empty : registrations t.owners = [] → Emptied t.ebpf

theorem union_nil {owners} (idle : registrations owners = []) : collectUnion owners = [] := by
  rw [collectUnion, idle]
  rfl

theorem gone_nil (old : List Watch) : gone [] old = old := by
  simp [gone, contains]

variable (c : Command) (t : Tracing)

theorem command_asked (asked : Asked t) (succeeds : c.Succeeds t) : Asked (c.step t) := by
  have sound : Sound _ (c.step t).ebpf := command_sound asked.sound
  rcases succeeding_command succeeds with ⟨-, same⟩ | ⟨owners, final, -, same, done, after⟩
  · rwa [same]
  · rw [after] at sound ⊢
    refine ⟨applied_masks c.forward (union_accepted t.owners) (union_accepted owners) asked.masks done, sound, ?_⟩
    simp only [union_same same]
    exact installed_applied (union_accepted t.owners) (union_accepted owners) asked.sound (union_keys_nodup owners) done

variable (action : Action)

theorem step_asked (asked : Asked t) (succeeds : ∀ c, action = Action.command c → c.Succeeds t) :
    Asked (step t action) := by
  have sound := step_sound t action asked.sound
  cases action with
  | command c => exact command_asked c t asked (succeeds c rfl)
  | fork parent child updated =>
    exact ⟨fork_masks updated parent child asked.masks, sound, events_installed t nofun asked.installed⟩
  | exec pid reads =>
    exact ⟨exec_masks (union_accepted t.owners) reads pid asked.installed.parents asked.masks, sound,
      events_installed t nofun asked.installed⟩

theorem cleared_eq (kernel : Kernel) (old : List Watch) (st : Ebpf) :
    (applyUnion kernel old [] st).2 = old.foldl (fun st w => withdrawWatch kernel w st) st := by
  simp [applyUnion, withdraw_eq, gone_nil]

theorem emptied_iff {kernel : Kernel} (grants : kernel.Grants) {old : List Watch} (accepted : ∀ w ∈ old, Accepted w)
    {st} (valid : MasksValid st) :
    (((∃ w ∈ old, w.kind = 2) ∧ Small st) ∨ (∀ pid fd, st.monitored pid fd → fdKey pid fd ∈ old.map watchKey) →
    Emptied (old.foldl (fun st w => withdrawWatch kernel w st) st)) ∧
    (Emptied (old.foldl (fun st w => withdrawWatch kernel w st) st) →
    (∃ w ∈ old, w.kind = 2) ∨ ∀ pid fd, st.monitored pid fd → fdKey pid fd ∈ old.map watchKey) := by
  constructor
  · rintro (⟨tree, small⟩ | named)
    · exact withdrawn_tree_emptied grants accepted st small tree
    · refine emptied_of_unmonitored (withdraw_all_masks kernel old accepted st valid) fun pid fd => ?_
      by_contra held
      have held := Bool.eq_true_of_not_eq_false held
      obtain ⟨before, absent⟩ := withdrawn_subset grants (is_fd_of_monitored held) old accepted st held
      exact absent (named pid fd before)
  · intro emptied
    by_cases tree : ∃ w ∈ old, w.kind = 2
    · exact .inl tree
    · refine .inr fun pid fd held => ?_
      have after := @withdrawn_monitored kernel grants pid fd (is_fd_of_monitored held) old accepted
        (fun w mem kind => tree ⟨w, mem, kind⟩) st
      rw [emptied_monitored emptied, held] at after
      simpa using after

theorem union_has_tree (owners : Owners) :
    (∃ w ∈ collectUnion owners, w.kind = 2) ↔ ∃ w ∈ registrations owners, w.kind = 2 := by
  have keyed (watches : List Watch) : (∃ w ∈ watches, w.kind = 2) ↔ ∃ pid, treeKey pid ∈ watches.map watchKey := by
    constructor
    · rintro ⟨w, mem, tree⟩
      exact ⟨w.pid, mem_map.mpr ⟨w, mem, tree_key_of_kind w tree⟩⟩
    · rintro ⟨pid, mem⟩
      obtain ⟨w, mem, key⟩ := mem_map.mp mem
      exact ⟨w, mem, congrArg Prod.fst key⟩
  simp only [keyed, mem_union_keys]

theorem clearing_emptied (asked : Asked t) (succeeds : c.Succeeds t) {owners}
    (requests : c.requested t = some owners) (idle : registrations owners = []) :
    (Clears c t → Emptied (c.step t).ebpf) ∧ (Small t.ebpf → Emptied (c.step t).ebpf → Clears c t) := by
  rcases succeeding_command succeeds with ⟨refused, -⟩ | ⟨next, final, asks, -, -, after⟩
  · rw [refused] at requests
    cases requests
  · obtain rfl := Option.some.inj (asks.symm.trans requests)
    obtain ⟨clears, cleared⟩ := emptied_iff succeeds.grants (union_accepted t.owners) asked.masks
    simp only [union_has_tree, mem_union_keys] at clears cleared
    rw [after]
    simp only [union_nil idle, cleared_eq]
    refine ⟨fun condition => clears (condition next asks idle), fun small emptied other otherAsks _ => ?_⟩
    exact (cleared emptied).imp_left fun tree => ⟨tree, small⟩

theorem command_idle_empty (inv : IdleEmpty t) (succeeds : c.Succeeds t) (clears : Clears c t) : IdleEmpty (c.step t) := by
  refine ⟨command_asked c t inv.toAsked succeeds, fun idle => ?_⟩
  rcases succeeding_command succeeds with ⟨-, same⟩ | ⟨owners, final, asks, kept, -, after⟩
  · rw [same] at idle ⊢
    exact inv.empty idle
  · rw [after] at idle
    exact (clearing_emptied c t inv.toAsked succeeds asks (kept.symm.trans idle)).1 clears

theorem idle_fork_empty (updated : Bool) (parent child : UInt32) {st} (emptied : Emptied st) :
    Emptied (traceSchedProcessFork updated parent child st) := by
  rcases fork_cases updated parent child st with same | ⟨map, mask, opened, found, -⟩
  · rwa [same]
  · simp [emptied map opened] at found

theorem idle_exec_same {reads} (pid : UInt32) {st} (installed : Installed [] st) :
    handleExec reads pid st = st := by
  have mode : st.orphanStdoutMode = false := by simpa using installed.orphan
  have none := installed.parents reads.ppid
  simp [handleExec, registerChildFds, mode, none, treeMask]

theorem step_idle_empty (inv : IdleEmpty t) (succeeds : ∀ c, action = Action.command c → c.Succeeds t ∧ Clears c t) :
    IdleEmpty (step t action) := by
  have asked := step_asked t action inv.toAsked fun c same => (succeeds c same).1
  cases action with
  | command c => exact command_idle_empty c t inv (succeeds c rfl).1 (succeeds c rfl).2
  | fork parent child updated =>
    exact ⟨asked, fun idle => idle_fork_empty updated parent child (inv.empty idle)⟩
  | exec pid reads =>
    refine ⟨asked, fun idle => ?_⟩
    have installed := inv.installed
    rw [@union_nil t.owners idle] at installed
    simpa only [step, @idle_exec_same reads pid t.ebpf installed] using inv.empty idle

theorem fresh_asked (fresh : Fresh t) : Asked t := by
  refine ⟨fun map opened pid mask found => ?_, fresh_sound t fresh, fresh_installed t fresh⟩
  rw [fresh.pids map opened, lookup_empty] at found
  cases found

theorem traced_asked (traced : Traced t) : Asked t :=
  Runs.invariant Asked fresh_asked (fun state action asked => step_asked state action asked) t traced

def Clearing (t : Tracing) : Prop :=
  Runs.Reachable Fresh (fun state action => ∀ c, action = Action.command c → c.Succeeds state ∧ Clears c state) step t

theorem idle_map_empty (t : Tracing) : (Clearing t → registrations t.owners = [] → Emptied t.ebpf) ∧
    ∀ (c : Command) (owners : Owners), Traced t → c.Succeeds t → c.requested t = some owners →
    registrations owners = [] → Small t.ebpf → (Emptied (c.step t).ebpf ↔ Clears c t) := by
  constructor
  · intro cleared
    have inv := Runs.invariant IdleEmpty (fun start fresh => ⟨fresh_asked start fresh, fun _ => fresh.pids⟩)
      (fun state action inv => step_idle_empty state action inv) t cleared
    exact inv.empty
  · intro c owners traced succeeds requests idle small
    obtain ⟨clears, cleared⟩ := clearing_emptied c t (traced_asked t traced) succeeds requests idle
    exact ⟨cleared small, clears⟩

def treeDropped : Tracing :=
  [Action.command (registering 1 [⟨2, 100, 1⟩]), .fork 100 101 true, .command (dropping 1)].foldl step freshTracing

theorem tree_dropped_clearing : Clearing treeDropped := by
  refine .step _ (Action.command (dropping 1)) (.step _ (Action.fork 100 101 true)
    (.step _ (Action.command (registering 1 [⟨2, 100, 1⟩])) (.start _ fresh_tracing_fresh) ?_) nofun) ?_
  · rintro _ ⟨⟩
    refine ⟨succeeds_of_run granting_grants (by decide +kernel), fun owners asks idle => ?_⟩
    have stays : ((registering 1 [⟨2, 100, 1⟩]).requested freshTracing).all
        (fun owners => !(registrations owners).isEmpty) := by decide +kernel
    simp [asks, idle] at stays
  · rintro _ ⟨⟩
    refine ⟨succeeds_of_run granting_grants (by decide +kernel), fun owners _ _ => .inl ⟨?_, fun map opened => ?_⟩⟩
    · exact ⟨⟨2, 100, 1⟩, by decide +kernel, rfl⟩
    · have size : (step (step freshTracing (.command (registering 1 [⟨2, 100, 1⟩])))
          (.fork 100 101 true)).ebpf.monitoredPids.all (fun map => decide (map.keys.length ≤ flushMax)) := by
        decide +kernel
      rw [opened] at size
      simpa using size

theorem idle_map_empty_tree_dropped : Clearing treeDropped ∧ Emptied treeDropped.ebpf :=
  ⟨tree_dropped_clearing, (idle_map_empty treeDropped).1 tree_dropped_clearing (by decide +kernel)⟩

def pairDropped : Tracing :=
  [Action.command (registering 1 [⟨1, 100, 1⟩]), .fork 100 101 true, .command (dropping 1)].foldl step freshTracing

theorem pair_dropped_traced : Traced pairDropped := by
  refine .step _ (Action.command (dropping 1)) (.step _ (Action.fork 100 101 true)
    (.step _ (Action.command (registering 1 [⟨1, 100, 1⟩])) (.start _ fresh_tracing_fresh) ?_) nofun) ?_
  all_goals
    rintro _ ⟨⟩
    exact succeeds_of_run granting_grants (by decide +kernel)

theorem forked_child_stays_traced :
    Traced pairDropped ∧ registrations pairDropped.owners = [] ∧ pairDropped.ebpf.monitored 101 1 = true ∧
    ¬ Emptied pairDropped.ebpf := by
  have held : pairDropped.ebpf.monitored 101 1 = true := by decide +kernel
  refine ⟨pair_dropped_traced, by decide +kernel, held, fun emptied => ?_⟩
  rw [emptied_monitored emptied] at held
  cases held

end

end Evemon.Controls
