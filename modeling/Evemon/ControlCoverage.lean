import Evemon.ControlTable

namespace Evemon.Controls

open Fdmon Ipc List AList Collect

structure Kernel.Grants (kernel : Kernel) : Prop where
  attach : kernel.attach = true
  update : ∀ w, kernel.update w = true
  delete : ∀ w key, kernel.delete w key = true

section

variable {kernel : Kernel} (grants : kernel.Grants) {pid fd : UInt32} (isFd : IsFd fd)

include grants isFd

theorem withdraw_watch_monitored {w} (accepted : Accepted w) {st} (notTree : w.kind ≠ 2) :
    (withdrawWatch kernel w st).monitored pid fd = (st.monitored pid fd && !decide (watchKey w = fdKey pid fd)) := by
  cases accepted with
  | fd key other positive =>
    have removed := remove_pid_fd_monitored key other pid fd st isFd
    simp only [withdrawWatch, grants.update, grants.delete, if_true, removed, watchKey, fdKey, Prod.mk.injEq, true_and,
      eq_comm]
  | tree key mask positive masks => exact absurd rfl notTree
  | orphan => simp [withdrawWatch, fdmonOrphanStdoutDisable, watchKey, fdKey, Ebpf.monitored, Ebpf.mask]

theorem withdraw_watch_subset {w} (accepted : Accepted w) {st}
    (held : (withdrawWatch kernel w st).monitored pid fd) : st.monitored pid fd ∧ watchKey w ≠ fdKey pid fd := by
  by_cases tree : w.kind = 2
  · have other : w.kind ≠ 1 := by rw [tree]; decide
    rw [withdrawWatch, if_neg other, if_pos tree] at held
    refine ⟨unwatch_monitored (grants.delete w) pid fd st held, fun equal => ?_⟩
    exact other (congrArg Prod.fst equal)
  · rw [withdraw_watch_monitored grants isFd accepted tree] at held
    simpa using held

variable (watches : List Watch)

theorem withdrawn_monitored (accepted : ∀ w ∈ watches, Accepted w) (noTree : ∀ w ∈ watches, w.kind ≠ 2) (st : Ebpf) :
    (watches.foldl (fun st w => withdrawWatch kernel w st) st).monitored pid fd =
    (st.monitored pid fd && !decide (fdKey pid fd ∈ watches.map watchKey)) := by
  induction watches generalizing st with
  | nil => simp
  | cons w rest ih =>
    obtain ⟨atHead, atRest⟩ := forall_mem_cons.mp accepted
    obtain ⟨headFd, restFd⟩ := forall_mem_cons.mp noTree
    rw [foldl_cons, ih atRest restFd, withdraw_watch_monitored grants isFd atHead headFd]
    simp only [map_cons, mem_cons, Bool.decide_or, Bool.not_or, Bool.and_assoc, eq_comm]

theorem withdrawn_subset (accepted : ∀ w ∈ watches, Accepted w) (st : Ebpf)
    (held : (watches.foldl (fun st w => withdrawWatch kernel w st) st).monitored pid fd) :
    st.monitored pid fd ∧ fdKey pid fd ∉ watches.map watchKey := by
  induction watches generalizing st with
  | nil => exact ⟨held, not_mem_nil⟩
  | cons w rest ih =>
    obtain ⟨atHead, atRest⟩ := forall_mem_cons.mp accepted
    obtain ⟨after, later⟩ := ih atRest _ held
    obtain ⟨before, here⟩ := withdraw_watch_subset grants isFd atHead after
    refine ⟨before, fun mem => ?_⟩
    rcases mem_cons.mp mem with equal | mem
    · exact here equal.symm
    · exact later mem

end

def Small (st : Ebpf) : Prop := ∀ map, st.monitoredPids = some map → map.keys.length ≤ flushMax

def Emptied (st : Ebpf) : Prop := ∀ map, st.monitoredPids = some map → map = ∅

variable {st : Ebpf}

theorem emptied_small (emptied : Emptied st) : Small st := by
  intro map opened
  rw [emptied map opened]
  exact Nat.zero_le _

theorem emptied_monitored {st} (emptied : Emptied st) (pid fd : UInt32) : st.monitored pid fd = false := by
  cases opened : st.monitoredPids with
  | none => simp [Ebpf.monitored, Ebpf.mask, opened]
  | some map => simp [Ebpf.monitored, Ebpf.mask, opened, emptied map opened]

variable {updated deleted : Bool}

theorem remove_pid_fd_small (key other : UInt32) (small : Small st) :
    Small (fdmonRemovePidFd updated deleted key other st).2 := by
  obtain same | ⟨map, mask, opened, found, -, stored | ⟨-, stored⟩⟩ := @remove_pid_fd_cases updated deleted key other st _ rfl
  · rwa [same]
  · rw [stored]
    rintro after ⟨⟩
    rw [keys_erase]
    exact Nat.le_trans (length_erase_le) (small map opened)
  · have present : key ∈ map.keys := mem_keys.mp (lookup_isSome.mp (by rw [found]; rfl))
    have size := small map opened
    rw [stored]
    rintro after ⟨⟩
    rw [keys_insert, length_cons, length_erase_of_mem present]
    have positive := length_pos_of_mem present
    omega

theorem remove_pid_fd_emptied {key other} (emptied : Emptied st) :
    Emptied (fdmonRemovePidFd updated deleted key other st).2 := by
  obtain same | ⟨map, mask, opened, found, -⟩ := @remove_pid_fd_cases updated deleted key other st _ rfl
  · rwa [same]
  · simp [emptied map opened] at found

theorem unwatch_emptied {order : PidMap → List UInt32} {deleted : UInt32 → Bool} (granted : ∀ key, deleted key)
    (complete : ∀ map, (order map).Perm map.keys) {key} (positive : pidPositive key) (small : Small st) :
    Emptied (fdmonUnwatchParentFds order deleted key st) := by
  intro after opened
  rw [fdmonUnwatchParentFds, if_neg (by simp [positive])] at opened
  obtain ⟨map, before, rfl⟩ := Option.map_eq_some_iff.mp opened
  exact flush_small granted map (complete map) (small map before)

theorem withdraw_watch_emptied {kernel : Kernel} (grants : kernel.Grants) (w : Watch) (accepted : Accepted w)
    (st : Ebpf) (emptied : Emptied st) : Emptied (withdrawWatch kernel w st) := by
  cases accepted with
  | fd key other positive => exact remove_pid_fd_emptied emptied
  | tree key mask positive masks =>
    exact unwatch_emptied (grants.delete _) kernel.complete positive (emptied_small emptied)
  | orphan => exact emptied

theorem withdrawn_emptied {kernel : Kernel} (grants : kernel.Grants) (watches : List Watch)
    (accepted : ∀ w ∈ watches, Accepted w) {st} (emptied : Emptied st) :
    Emptied (watches.foldl (fun st w => withdrawWatch kernel w st) st) :=
  List.foldlRecOn watches _ emptied fun st before w mem =>
    withdraw_watch_emptied grants w (accepted w mem) st before

theorem withdrawn_tree_emptied {kernel : Kernel} (grants : kernel.Grants) {watches : List Watch}
    (accepted : ∀ w ∈ watches, Accepted w) (st : Ebpf) (small : Small st) (tree : ∃ w ∈ watches, w.kind = 2) :
    Emptied (watches.foldl (fun st w => withdrawWatch kernel w st) st) := by
  induction watches generalizing st with
  | nil => simp at tree
  | cons w rest ih =>
    obtain ⟨atHead, atRest⟩ := forall_mem_cons.mp accepted
    cases atHead with
    | tree key mask positive masks =>
      refine withdrawn_emptied grants rest atRest ?_
      exact unwatch_emptied (grants.delete _) kernel.complete positive small
    | fd key other positive =>
      exact ih atRest _ (remove_pid_fd_small key other small) (by simpa using tree)
    | orphan => exact ih atRest _ small (by simpa using tree)

section

def stepBit (pid fd : UInt32) (bit : Bool) (w : Watch) : Bool :=
  if watchKey w = fdKey pid fd then true else if watchKey w = treeKey pid then hasFd w.value.toUInt8 fd else bit

def Settles (watches : List Watch) (pid fd : UInt32) : Prop :=
  (∃ w ∈ watches, watchKey w = treeKey pid ∧ hasFd w.value.toUInt8 fd = true) ∨
    (fdKey pid fd ∈ watches.map watchKey ∧
      (treeKey pid ∈ watches.map watchKey →
        Collect.leads (treeKey pid) (fdKey pid fd) (watches.map watchKey) = true))

variable {pid fd : UInt32}

theorem fd_key_ne_tree_key (pid other fd : UInt32) : fdKey pid fd ≠ treeKey other := by
  simp [fdKey, treeKey]

variable (kernel : Kernel) {earlier : List Watch} (w : Watch)

theorem settles_append_pair (pair : watchKey w = fdKey pid fd)
    (fresh : fdKey pid fd ∉ earlier.map watchKey) : Settles (earlier ++ [w]) pid fd := by
  refine .inr ⟨by simp [pair], fun tree => ?_⟩
  simp only [map_append, map_cons, map_nil, mem_append, mem_singleton, pair] at tree ⊢
  have before : treeKey pid ∈ earlier.map watchKey :=
    tree.resolve_right fun equal => fd_key_ne_tree_key pid pid fd equal.symm
  rw [leads_append, if_pos (.inl before)]
  exact leads_of_absent _ _ _ before fresh

theorem settles_append_tree (tree : watchKey w = treeKey pid) (fresh : treeKey pid ∉ earlier.map watchKey) :
    Settles (earlier ++ [w]) pid fd ↔ hasFd w.value.toUInt8 fd := by
  constructor
  · rintro (⟨other, mem, key, held⟩ | ⟨pair, ahead⟩)
    · rcases mem_append.mp mem with before | last
      · exact absurd (mem_map.mpr ⟨other, before, key⟩) fresh
      · rwa [mem_singleton.mp last] at held
    · have ahead := ahead (by simp [tree])
      simp only [map_append, map_cons, map_nil, mem_append, mem_singleton, tree] at pair ahead
      have before : fdKey pid fd ∈ earlier.map watchKey := pair.resolve_right (fd_key_ne_tree_key pid pid fd)
      rw [leads_append, if_pos (.inr before)] at ahead
      exact absurd (leads_mem _ ahead) fresh
  · exact fun held => .inl ⟨w, by simp, tree, held⟩

theorem settles_append_other (notPair : watchKey w ≠ fdKey pid fd)
    (notTree : watchKey w ≠ treeKey pid) : Settles (earlier ++ [w]) pid fd ↔ Settles earlier pid fd := by
  have leading : fdKey pid fd ∈ earlier.map watchKey →
      Collect.leads (treeKey pid) (fdKey pid fd) (earlier.map watchKey ++ [watchKey w]) =
        Collect.leads (treeKey pid) (fdKey pid fd) (earlier.map watchKey) := fun present => by
    rw [leads_append, if_pos (.inr present)]
  simp only [Settles, map_append, map_cons, map_nil, mem_append, mem_singleton,
    notPair.symm, notTree.symm, or_false, or_and_right, exists_or, exists_eq_left, notTree, false_and]
  exact or_congr Iff.rfl (and_congr_right fun present => by rw [leading present])

-- The induction follows the list from its end: the last registration of the process decides.
theorem final_bit_iff {watches : List Watch} (distinct : (watches.map watchKey).Nodup) (bit : Bool) :
    watches.foldl (stepBit pid fd) bit ↔ Settles watches pid fd ∨ (bit ∧ treeKey pid ∉ watches.map watchKey) := by
  induction watches using List.reverseRecOn with
  | nil => simp [Settles]
  | append_singleton earlier w ih =>
    rw [map_append] at distinct
    have fresh : watchKey w ∉ earlier.map watchKey := fun mem =>
      (nodup_append.mp distinct).2.2 _ mem _ (mem_singleton_self _) rfl
    have ih := ih distinct.of_append_left
    rw [foldl_append, foldl_cons, foldl_nil, stepBit]
    by_cases pair : watchKey w = fdKey pid fd
    · have settled := settles_append_pair w pair (pair ▸ fresh)
      simp [pair, settled]
    · by_cases tree : watchKey w = treeKey pid
      · rw [if_neg pair, if_pos tree, settles_append_tree w tree (tree ▸ fresh)]
        simp [tree]
      · rw [if_neg pair, if_neg tree, ih, settles_append_other w pair tree]
        simp [Ne.symm tree]

theorem settles_union (owners : Owners) :
    Settles (collectUnion owners) pid fd ↔ Settles (registrations owners) pid fd := by
  let bit (w : Watch) : Bool := hasFd w.value.toUInt8 fd
  have merged (a b : Watch) (_ : watchKey a = treeKey pid) (atB : watchKey b = treeKey pid) :
      bit (mergeWatch a b) = (bit a || bit b) := by
    have tree : b.kind = 2 := congrArg Prod.fst atB
    simp only [bit, mergeWatch, if_pos tree, ← has_fd_or, UInt32.toUInt8_or]
  have masks := exists_collect same_watch_iff merge_watch_key merged (registrations owners)
  have order := leads_collect same_watch_iff merge_watch_key (treeKey pid) (fdKey pid fd) (registrations owners)
  rw [Settles, Settles, mem_union_keys, mem_union_keys, collectUnion, masks, order]

theorem add_watch_monitored (grants : kernel.Grants) (w : Watch) (accepted : Accepted w)
    (st : Ebpf) (map : PidMap) (opened : st.monitoredPids = some map) (isFd : IsFd fd) (done : (addWatch kernel w st).1) :
    (addWatch kernel w st).2.monitored pid fd = stepBit pid fd (st.monitored pid fd) w := by
  cases accepted with
  | fd key other positive =>
    have same : addWatch kernel ⟨1, key, other⟩ st = fdmonAddPidFd true key other st := by
      simp [addWatch, grants.update]
    rw [same] at done ⊢
    rw [add_pid_fd_monitored key pid fd st isFd done]
    by_cases here : pid = key ∧ fd = other
    · simp [stepBit, watchKey, fdKey, here]
    · have elsewhere : ¬ (key = pid ∧ other = fd) := fun equal => here ⟨equal.1.symm, equal.2.symm⟩
      simp [stepBit, watchKey, fdKey, treeKey, here, elsewhere]
  | tree key mask positive masks =>
    have same : addWatch kernel ⟨2, key, mask⟩ st = fdmonWatchParentFds true key mask st := by
      simp [addWatch, grants.update]
    have nonzero : mask ≠ 0 := by rcases masks with rfl | rfl | rfl <;> decide
    rw [same] at done ⊢
    rw [watch_parent_monitored key mask pid fd st map isFd opened nonzero done]
    simp [stepBit, watchKey, fdKey, treeKey, eq_comm]
  | orphan =>
    have same : addWatch kernel ⟨3, 0, 0⟩ st = fdmonOrphanStdoutEnable kernel.attach st := by simp [addWatch]
    rw [same, monitored_congr _ (orphan_enable_pids kernel.attach st)]
    simp [stepBit, watchKey, fdKey, treeKey]

theorem reapply_monitored (grants : kernel.Grants) (watches : List Watch)
    (accepted : ∀ w ∈ watches, Accepted w) (isFd : IsFd fd) {st : Ebpf}
    (opened : st.monitoredPids.isSome) (done : (reapply kernel watches st).1) :
    (reapply kernel watches st).2.monitored pid fd = watches.foldl (stepBit pid fd) (st.monitored pid fd) := by
  induction watches generalizing st with
  | nil => rfl
  | cons w rest ih =>
    obtain ⟨atHead, atRest⟩ := forall_mem_cons.mp accepted
    obtain ⟨added, same⟩ := reapply_cons w done
    obtain ⟨map, held⟩ := Option.isSome_iff_exists.mp opened
    rw [same] at done ⊢
    rw [ih atRest ((add_watch_later kernel w atHead st).opened.trans opened) done, foldl_cons,
      add_watch_monitored kernel grants w atHead st map held isFd added]

theorem enabled_state_pids (next : List Watch) (st : Ebpf) :
    (enabledState kernel next st).monitoredPids = st.monitoredPids := by
  by_cases some : next ≠ []
  · rw [enabledState, if_pos some, write_enable_pids]
  · rw [enabledState, if_neg some]

theorem apply_monitored_iff (grants : kernel.Grants) (old next : List Watch)
    (atOld : ∀ w ∈ old, Accepted w) (accepted : ∀ w ∈ next, Accepted w) (distinct : (next.map watchKey).Nodup)
    (isFd : IsFd fd) (st : Ebpf) (opened : st.monitoredPids.isSome) (done : (applyUnion kernel old next st).1) :
    (applyUnion kernel old next st).2.monitored pid fd ↔ Settles next pid fd ∨
    ((withdrawn kernel old next st).monitored pid fd ∧ treeKey pid ∉ next.map watchKey) := by
  have same := (apply_union_done kernel old next st done).2
  have stillOpen := (withdrawn_later kernel old next st atOld).opened.trans opened
  rw [same] at done ⊢
  rw [reapply_monitored kernel grants next accepted isFd stillOpen done, final_bit_iff distinct]

theorem tree_key_of_kind (tree : w.kind = 2) : watchKey w = treeKey w.pid := by
  simp [watchKey, treeKey, tree]

variable {old next : List Watch}

theorem withdrawn_kept (grants : kernel.Grants) (accepted : ∀ w ∈ old, Accepted w) (isFd : IsFd fd) (st : Ebpf)
    (held : st.monitored pid fd) (pairStays : fdKey pid fd ∈ old.map watchKey → fdKey pid fd ∈ next.map watchKey)
    (treesStay : ∀ root, treeKey root ∈ old.map watchKey → treeKey root ∈ next.map watchKey) :
    (withdrawn kernel old next st).monitored pid fd := by
  rw [withdrawn, withdraw_eq, withdrawn_monitored grants isFd _ (gone_accepted old next accepted)]
  · have start := monitored_congr _ (enabled_state_pids kernel next st) pid fd
    have absent : fdKey pid fd ∉ (gone next old).map watchKey := fun leaving => by
      obtain ⟨before, lost⟩ := (gone_key next old _).mp leaving
      exact lost (pairStays before)
    simp [start, held, absent]
  · intro w mem tree
    obtain ⟨before, lost⟩ := (mem_gone next old w).mp mem
    rw [tree_key_of_kind w tree] at lost
    exact lost (treesStay w.pid (mem_map.mpr ⟨w, before, tree_key_of_kind w tree⟩))

theorem withdrawn_lost (grants : kernel.Grants) (accepted : ∀ w ∈ old, Accepted w) (isFd : IsFd fd) (st : Ebpf)
    (small : Small st) (held : (withdrawn kernel old next st).monitored pid fd) :
    (fdKey pid fd ∈ old.map watchKey → fdKey pid fd ∈ next.map watchKey) ∧
    ∀ root, treeKey root ∈ old.map watchKey → treeKey root ∈ next.map watchKey := by
  have atGone := gone_accepted old next accepted
  have smallStart : Small (enabledState kernel next st) := by
    rw [Small, enabled_state_pids]
    exact small
  rw [withdrawn, withdraw_eq] at held
  constructor
  · intro before
    by_contra lost
    exact (withdrawn_subset grants isFd _ atGone _ held).2 ((gone_key next old _).mpr ⟨before, lost⟩)
  · intro root before
    by_contra lost
    obtain ⟨w, mem, key⟩ := mem_map.mp ((gone_key next old _).mpr ⟨before, lost⟩)
    have emptied := withdrawn_tree_emptied grants atGone _ smallStart ⟨w, mem, congrArg Prod.fst key⟩
    rw [emptied_monitored emptied] at held
    cases held

end

-- Every backend call of the command succeeds, those whose answer is ignored included.
structure Command.Succeeds (c : Command) (t : Tracing) : Prop where
  grants : c.forward.Grants
  applied : ∀ owners, c.requested t = some owners →
    (applyUnion c.forward (collectUnion t.owners) (collectUnion owners) t.ebpf).1 = true

theorem succeeding_command {c : Command} {t} (succeeds : c.Succeeds t) : (c.requested t = none ∧ c.step t = t) ∨
      ∃ owners final, c.requested t = some owners ∧ registrations final = registrations owners ∧
        (applyUnion c.forward (collectUnion t.owners) (collectUnion owners) t.ebpf).1 ∧ c.step t = { t with
          owners := final
          ebpf := (applyUnion c.forward (collectUnion t.owners) (collectUnion owners) t.ebpf).2 } := by
  rcases command_outcome c t with refused | ⟨request, code, asks, outcome⟩
  · exact .inl refused
  · generalize after : c.step t = result at outcome ⊢
    cases outcome with
    | refused code unreached early => exact .inl ⟨asks.trans unreached, rfl⟩
    | applied owners final asked done same => exact .inr ⟨owners, final, asks.trans asked, same, done, rfl⟩
    | undone owners asked failed =>
      rw [succeeds.applied owners (asks.trans asked)] at failed
      cases failed

-- Whatever an owner has registered is in the mask of its PID.
def Covered (t : Tracing) : Prop := ∀ w ∈ registrations t.owners,
  (w.kind = 1 → IsFd w.value → t.ebpf.monitored w.pid w.value = true) ∧
    (w.kind = 2 → ∀ fd, IsFd fd → hasFd w.value.toUInt8 fd = true → t.ebpf.monitored w.pid fd = true)

-- No (PID, FD) pair stands before the first mask of its PID, in the order of the owner
-- slots, unless some mask of the PID has the descriptor.
def Orderly (owners : Owners) : Prop := ∀ w ∈ registrations owners,
  w.kind = 1 → IsFd w.value → Settles (registrations owners) w.pid w.value

def Quiet (t : Tracing) : Prop :=
  Runs.Reachable (fun start => Fresh start ∧ start.ebpf.monitoredPids.isSome = true)
    (fun state (c : Command) => c.Succeeds state) (fun state c => c.step state) t

structure Settled (t : Tracing) : Prop where
  opened : t.ebpf.monitoredPids.isSome = true
  settles : ∀ pid fd, IsFd fd → Settles (registrations t.owners) pid fd → t.ebpf.monitored pid fd = true
  pairs : ∀ pid fd, IsFd fd → fdKey pid fd ∈ (registrations t.owners).map watchKey →
    t.ebpf.monitored pid fd = true → Settles (registrations t.owners) pid fd

variable {c : Command} {t : Tracing}

theorem succeeding_settled (settled : Settled t) (succeeds : c.Succeeds t) : Settled (c.step t) := by
  rcases succeeding_command succeeds with ⟨-, same⟩ | ⟨owners, final, -, same, done, after⟩
  · rwa [same]
  · have monitored (pid fd : UInt32) (isFd : IsFd fd) :=
      @apply_monitored_iff pid fd c.forward succeeds.grants (collectUnion t.owners) (collectUnion owners)
        (union_accepted t.owners) (union_accepted owners) (union_keys_nodup owners) isFd t.ebpf settled.opened done
    have later := apply_union_later c.forward _ _ t.ebpf (union_accepted t.owners) (union_accepted owners)
    rw [after]
    refine ⟨later.opened.trans settled.opened, fun pid fd isFd settles => ?_, fun pid fd isFd pair held => ?_⟩
    · rw [monitored pid fd isFd, settles_union, ← same]
      exact .inl settles
    · rw [same] at pair ⊢
      rcases (monitored pid fd isFd).mp held with settles | ⟨-, noTree⟩
      · exact (settles_union owners).mp settles
      · rw [mem_union_keys] at noTree
        exact .inr ⟨pair, fun tree => absurd tree noTree⟩

theorem quiet_settled (quiet : Quiet t) : Settled t := by
  refine Runs.invariant Settled (fun start initial => ?_) (fun t c settled succeeds => ?_) t quiet
  · have none := fresh_registrations initial.1
    exact ⟨initial.2, by simp [none, Settles], by simp [none]⟩
  · exact succeeding_settled settled succeeds

theorem covered_iff_orderly (t : Tracing) (quiet : Quiet t) : Covered t ↔ Orderly t.owners := by
  have settled := quiet_settled quiet
  constructor
  · intro covered w mem pair isFd
    refine settled.pairs w.pid w.value isFd (mem_map.mpr ⟨w, mem, ?_⟩) ((covered w mem).1 pair isFd)
    simp [watchKey, fdKey, pair]
  · intro orderly w mem
    refine ⟨fun pair isFd => settled.settles w.pid w.value isFd (orderly w mem pair isFd), fun tree fd isFd held => ?_⟩
    refine settled.settles w.pid fd isFd (.inl ⟨w, mem, ?_, held⟩)
    simp [watchKey, treeKey, tree]

theorem granting_grants : granting.Grants := ⟨rfl, fun _ => rfl, fun _ _ => rfl⟩

theorem succeeds_of_run (grants : c.forward.Grants) (ran : (c.requested t).all (fun owners =>
      (applyUnion c.forward (collectUnion t.owners) (collectUnion owners) t.ebpf).1)) : c.Succeeds t :=
  ⟨grants, fun owners asked => by simpa [asked] using ran⟩

def pairThenTree : Tracing :=
  (registering 2 [⟨2, 100, 2⟩]).step ((registering 1 [⟨1, 100, 1⟩]).step freshTracing)

theorem pair_then_tree_quiet : Quiet pairThenTree := by
  refine .step _ (registering 2 [⟨2, 100, 2⟩]) (.step _ (registering 1 [⟨1, 100, 1⟩]) (.start _ ?_) ?_) ?_
  · exact ⟨fresh_tracing_fresh, rfl⟩
  all_goals exact succeeds_of_run granting_grants (by decide +kernel)

theorem covered_iff_orderly_pair_then_tree : Quiet pairThenTree ∧ (Covered pairThenTree ↔ Orderly pairThenTree.owners) :=
  ⟨pair_then_tree_quiet, covered_iff_orderly pairThenTree pair_then_tree_quiet⟩

theorem stored_mask_loses_descriptor : Quiet pairThenTree ∧ ¬ Covered pairThenTree := by
  refine ⟨pair_then_tree_quiet, fun covered => ?_⟩
  have mem : (⟨1, 100, 1⟩ : Watch) ∈ registrations pairThenTree.owners := by decide +kernel
  have lost : pairThenTree.ebpf.monitored 100 1 = false := by decide +kernel
  have kept := (covered _ mem).1 rfl (.inl rfl)
  rw [lost] at kept
  cases kept

end Evemon.Controls
