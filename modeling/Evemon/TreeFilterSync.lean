import Evemon.TreeFilter

-- When bringing a shadow store up to date gives what rebuilding it gives.
namespace Evemon.ProcTree

open List Forest

open Ipc (Bytes)

section

structure RowKey where
  pid : Int32
  icon : Option Nat
  pinnedRoot : Int32

def Row.key (row : Row) : RowKey := ⟨row.pid, row.icon, row.pinnedRoot⟩

def SameData (real row : Row) : Prop := syncRowFromReal row real = row

theorem sync_row_eq_iff {fsRow real : Row} (row : Row) (same : real.pid = fsRow.pid) :
    syncRowFromReal fsRow real = row ↔ fsRow.key = row.key ∧ SameData real row := by
  constructor
  · intro equal
    rw [← equal]
    refine ⟨?_, rfl⟩
    have pid : (syncRowFromReal fsRow real).pid = fsRow.pid := same
    rw [Row.key, Row.key, pid]
    rfl
  · intro ⟨keys, data⟩
    rw [Row.key, Row.key, RowKey.mk.injEq] at keys
    rw [← data, syncRowFromReal, syncRowFromReal, keys.2.1, keys.2.2]

variable (find : Int32 → Option (Row × Forest Row))

theorem sync_rows_cons (row : Row) (children next synced : Forest Row) :
    syncRows find (.cons row children next) = some synced ↔
    ∃ real below after, find row.pid = some real ∧ syncRows find children = some below ∧
    syncRows find next = some after ∧ .cons (syncRowFromReal row real.1) below after = synced := by
  rw [syncRows]
  cases find row.pid with
  | none => simp
  | some real =>
    cases syncRows find children with
    | none => simp
    | some below =>
      cases syncRows find next with
      | none => simp
      | some after => simp

theorem sync_rows_pids (finds : ∀ pid real, find pid = some real → real.1.pid = pid) (fs synced : Forest Row)
    (done : syncRows find fs = some synced) : synced.flat.map Row.pid = fs.flat.map Row.pid := by
  induction fs generalizing synced with
  | nil =>
    cases done
    rfl
  | cons row children next inner later =>
    obtain ⟨real, below, after, found, belowDone, afterDone, rfl⟩ := (sync_rows_cons find row children next synced).mp done
    have pid : (syncRowFromReal row real.1).pid = row.pid := finds row.pid real found
    simp [pid, inner below belowDone, later after afterDone]

theorem sync_rows_eq_iff (finds : ∀ pid real, find pid = some real → real.1.pid = pid) (fs wanted : Forest Row) :
    syncRows find fs = some wanted ↔
    fs.map Row.key = wanted.map Row.key ∧ ∀ row ∈ wanted.flat, ∃ real, find row.pid = some real ∧ SameData real.1 row := by
  induction fs generalizing wanted with
  | nil =>
    cases wanted with
    | nil | cons row children next => simp [syncRows, Forest.map]
  | cons row children next inner later =>
    rw [sync_rows_cons]
    cases wanted with
    | nil => simp [Forest.map]
    | cons wantedRow wantedChildren wantedNext =>
      simp only [Forest.map, Forest.cons.injEq, flat_cons, forall_mem_cons, forall_mem_append]
      constructor
      · intro synced
        obtain ⟨real, below, after, found, belowDone, afterDone, same, sameBelow, sameAfter⟩ := synced
        rw [sameBelow, inner] at belowDone
        rw [sameAfter, later] at afterDone
        obtain ⟨keys, data⟩ := (sync_row_eq_iff wantedRow (finds row.pid real found)).mp same
        have pid : row.pid = wantedRow.pid := congrArg RowKey.pid keys
        exact ⟨⟨keys, belowDone.1, afterDone.1⟩, ⟨real, pid ▸ found, data⟩, belowDone.2, afterDone.2⟩
      · intro matched
        obtain ⟨⟨keys, belowKeys, afterKeys⟩, ⟨real, found, data⟩, belowData, afterData⟩ := matched
        have pid : row.pid = wantedRow.pid := congrArg RowKey.pid keys
        rw [← pid] at found
        refine ⟨real, wantedChildren, wantedNext, found, (inner _).mpr ⟨belowKeys, belowData⟩,
          (later _).mpr ⟨afterKeys, afterData⟩, ?_, rfl, rfl⟩
        exact (sync_row_eq_iff wantedRow (finds row.pid real found)).mpr ⟨keys, data⟩

theorem sync_rows_none (fs : Forest Row) : syncRows find fs = none ↔ ∃ row ∈ fs.flat, find row.pid = none := by
  induction fs with
  | nil => simp [syncRows]
  | cons row children next inner later =>
    rw [syncRows]
    simp only [flat_cons, exists_mem_cons_iff, mem_append, or_and_right, exists_or, ← inner, ← later]
    cases find row.pid with
    | none => simp
    | some real =>
      cases syncRows find children with
      | none => simp
      | some below =>
        cases syncRows find next with
        | none => simp
        | some after => simp

end

section

theorem find_iter_pid (rows : Forest Row) (pid : Int32) (found : Row × Forest Row)
    (search : findIterByPid rows pid = some found) : found.1.pid = pid := by
  have first : rows.flat.find? (fun row => row.pid = pid) = some found.1 := by
    rw [← find_flat]
    change (findIterByPid rows pid).map Prod.fst = _
    rw [search]
    rfl
  simpa using List.find?_some first

theorem find_iter_none (rows : Forest Row) (pid : Int32) :
    findIterByPid rows pid = none ↔ pid ∉ rows.flat.map Row.pid := by
  rw [← Option.map_eq_none_iff (f := Prod.fst), findIterByPid, find_flat, List.find?_eq_none, mem_map]
  simp

def firstRow (rows : Forest Row) (pid : Int32) : Option Row := rows.flat.find? fun row => row.pid = pid

theorem first_row_find (rows : Forest Row) (pid : Int32) : firstRow rows pid = (findIterByPid rows pid).map Prod.fst :=
  (find_flat _ _).symm

def wanted (matched : Row → Bool) (real : Forest Row) : Forest Row := findAndCopyMatches matched false real

inductive SyncExact (matched : Row → Bool) (real fs : Forest Row) : Prop where
  | counted (differ : countFilterMatches matched false real ≠ fs.count)
  | gone (row : Row) (listed : row ∈ fs.flat) (missing : row.pid ∉ real.flat.map Row.pid)
  | same (keys : fs.map Row.key = (wanted matched real).map Row.key)
      (data : ∀ row ∈ (wanted matched real).flat, ∃ first, firstRow real row.pid = some first ∧ SameData first row)

variable (strdown : Bytes → Bytes) (ctx : FilterCtx)

theorem sync_matching_iff (matched : Row → Bool) (fs : Forest Row) (rebuilt : FilterCtx)
    (installed : rebuilt.filterStore = some (wanted matched ctx.store)) :
    (syncMatching ctx matched fs rebuilt).filterStore = rebuilt.filterStore ↔ SyncExact matched ctx.store fs := by
  have rowsIff := sync_rows_eq_iff (findIterByPid ctx.store) (find_iter_pid ctx.store) fs (wanted matched ctx.store)
  have missing := sync_rows_none (findIterByPid ctx.store) fs
  rw [installed]
  unfold syncMatching
  by_cases differ : countFilterMatches matched false ctx.store ≠ fs.count
  · rw [if_pos differ]
    exact ⟨fun _ => .counted differ, fun _ => installed⟩
  rw [if_neg differ]
  cases synced : syncFilterRows ctx.store fs with
  | none =>
    obtain ⟨row, listed, none⟩ := missing.mp synced
    exact ⟨fun _ => .gone row listed ((find_iter_none ctx.store row.pid).mp none), fun _ => installed⟩
  | some rows =>
    have data : (∀ row ∈ (wanted matched ctx.store).flat, ∃ real, findIterByPid ctx.store row.pid = some real ∧ SameData real.1 row) ↔
        ∀ row ∈ (wanted matched ctx.store).flat, ∃ first, firstRow ctx.store row.pid = some first ∧ SameData first row := by
      simp only [first_row_find, Option.map_eq_some_iff]
      constructor
      · intro held row mem
        obtain ⟨real, found, same⟩ := held row mem
        exact ⟨real.1, ⟨real, found, rfl⟩, same⟩
      · intro held row mem
        obtain ⟨first, ⟨real, found, rfl⟩, same⟩ := held row mem
        exact ⟨real, found, same⟩
    rw [data] at rowsIff
    change some rows = some _ ↔ _
    change syncFilterRows ctx.store fs = some _ ↔ _ at rowsIff
    rw [synced] at rowsIff
    rw [rowsIff]
    constructor
    · exact fun held => .same held.1 held.2
    · intro holds
      cases holds with
      | counted other => exact absurd other differ
      | gone row listed absent =>
        have none : syncFilterRows ctx.store fs = none :=
          missing.mpr ⟨row, listed, (find_iter_none ctx.store row.pid).mpr absent⟩
        rw [synced] at none
        cases none
      | same keys held => exact ⟨keys, held⟩

-- With no filter text the name filter is off, and its shadow store is left alone.
def NameExact (fs : Forest Row) : Prop :=
  if ctx.filterText = [] then fs = wanted (ctx.nameMatches strdown) ctx.store
  else SyncExact (ctx.nameMatches strdown) ctx.store fs

def AudioExact (fs : Forest Row) : Prop :=
  if ctx.filterText = [] then SyncExact ctx.audioMatches ctx.store fs
  else SyncExact (ctx.nameMatches strdown) ctx.store fs

theorem sync_filter_exact {fs} (shadow : ctx.filterStore = some fs) :
    (syncFilterStore strdown ctx).filterStore = (rebuildFilterStore strdown ctx).filterStore ↔
    NameExact strdown ctx fs := by
  unfold syncFilterStore NameExact
  rw [shadow]
  simp only
  split
  · rw [shadow]
    exact Option.some_inj
  · exact sync_matching_iff ctx _ fs _ rfl

theorem sync_audio_exact {fs} (shadow : ctx.filterStore = some fs) :
    (syncAudioFilterStore strdown ctx).filterStore = (rebuildAudioFilterStore strdown ctx).filterStore ↔
    AudioExact strdown ctx fs := by
  unfold syncAudioFilterStore AudioExact
  rw [shadow]
  simp only
  by_cases active : ctx.filterText = []
  · rw [if_pos active, if_neg (not_not_intro active)]
    apply sync_matching_iff
    rw [rebuildAudioFilterStore, if_neg (not_not_intro active)]
    rfl
  · have name := sync_filter_exact strdown ctx shadow
    rw [NameExact, if_neg active] at name
    rw [if_neg active, if_pos active, rebuildAudioFilterStore, if_pos active]
    exact name

theorem sync_equals_rebuild (fs : Forest Row) (shadow : ctx.filterStore = some fs) :
    ((syncFilterStore strdown ctx).filterStore = (rebuildFilterStore strdown ctx).filterStore ↔ NameExact strdown ctx fs) ∧
    ((syncAudioFilterStore strdown ctx).filterStore = (rebuildAudioFilterStore strdown ctx).filterStore ↔
    AudioExact strdown ctx fs) :=
  ⟨sync_filter_exact strdown ctx shadow, sync_audio_exact strdown ctx shadow⟩

end

section

variable (rows : Forest Row)

theorem gpu_rows_client : gpuRowsHaveClient rows = rows.flat.any matchGpu := by
  induction rows with
  | nil => rfl
  | cons row children next inner later => simp [gpuRowsHaveClient, inner, later, Bool.or_assoc]

theorem copy_gpu_client : (copyGpuBranches rows).2 = gpuRowsHaveClient rows := by
  induction rows with
  | nil => rfl
  | cons row children next inner later => simp [copyGpuBranches, gpuRowsHaveClient, inner, later]

theorem no_client_branches (none : gpuRowsHaveClient rows = false) :
    rows.branches.filter (fun branch => gpuSubtreeHasClient branch.1 branch.2) = [] := by
  induction rows with
  | nil => rfl
  | cons row children next inner later =>
    rw [gpuRowsHaveClient, Bool.or_eq_false_iff, Bool.or_eq_false_iff] at none
    have own : ¬ gpuSubtreeHasClient row children := by simp [gpuSubtreeHasClient, none.1]
    rw [Forest.branches, filter_cons, if_neg own, filter_append, inner none.1.2, later none.2]
    rfl

theorem copy_gpu_flat : (copyGpuChildren rows).flat =
    (rows.branches.filter fun branch => gpuSubtreeHasClient branch.1 branch.2).map fun branch => copyRow branch.1 := by
  unfold copyGpuChildren
  induction rows with
  | nil => rfl
  | cons row children next inner later =>
    have below := copy_gpu_client children
    cases keep : gpuSubtreeHasClient row children with
    | true =>
      have kept : (matchGpu row || (copyGpuBranches children).2) := by rw [below]; exact keep
      simp [copyGpuBranches, Forest.branches, kept, keep, inner, later]
    | false =>
      have dropped : (matchGpu row || (copyGpuBranches children).2) = false := by rw [below]; exact keep
      have none : gpuRowsHaveClient children = false := (Bool.or_eq_false_iff.mp keep).2
      simp [copyGpuBranches, Forest.branches, dropped, keep, later, no_client_branches children none]

theorem copy_gpu_empty : (copyGpuBranches rows).2 = decide (0 < (copyGpuChildren rows).flat.length) := by
  unfold copyGpuChildren
  induction rows with
  | nil => rfl
  | cons row children next inner later =>
    cases keep : (matchGpu row || (copyGpuBranches children).2) with
    | true => simp [copyGpuBranches, keep]
    | false => simp [copyGpuBranches, keep, later]

theorem count_gpu_rows : countGpuRows rows = (copyGpuChildren rows).count := by
  rw [count_flat]
  induction rows with
  | nil => rfl
  | cons row children next inner later =>
    have below := copy_gpu_empty children
    rw [← inner] at below
    rw [countGpuRows, ← below, inner, later]
    unfold copyGpuChildren
    cases keep : (matchGpu row || (copyGpuBranches children).2) with
    | true => simp [copyGpuBranches, keep]; omega
    | false => simp [copyGpuBranches, keep]

end

section

variable (threshold : Int32)

theorem count_cpu_rows (rows : Forest Row) : countCpuIntensiveRows threshold rows =
    (copyCpuIntensiveChildren threshold rows).count := by
  induction rows with
  | nil => rfl
  | cons row children next inner later =>
    rw [countCpuIntensiveRows, copyCpuIntensiveChildren, inner, later]
    split
    · rfl
    · exact Nat.zero_add _

def GroupMonotone (rows : Forest Row) : Prop :=
  ∀ branch ∈ rows.branches, ∀ below ∈ branch.2.flat, below.groupCpu ≤ branch.1.groupCpu

theorem group_monotone_cons (row : Row) (children next : Forest Row) : GroupMonotone (.cons row children next) ↔
    (∀ below ∈ children.flat, below.groupCpu ≤ row.groupCpu) ∧ GroupMonotone children ∧ GroupMonotone next := by
  simp only [GroupMonotone, Forest.branches, forall_mem_cons, forall_mem_append]

def cpuSum (rows : Forest Row) : Int := (rows.flat.map fun row => row.cpu.toInt).sum

theorem compute_group_cpu_sums {rows : Forest Row} (busy : ∀ row ∈ rows.flat, 0 ≤ row.cpu.toInt)
    (fits : cpuSum rows < 2 ^ 31) : (0 ≤ cpuSum rows ∧ (computeGroupCpu rows).2 = cpuSum rows) ∧
    (∀ row ∈ (computeGroupCpu rows).1.flat, row.groupCpu.toInt ≤ cpuSum rows) ∧
    GroupMonotone (computeGroupCpu rows).1 := by
  induction rows with
  | nil => exact ⟨⟨Int.le_refl 0, rfl⟩, forall_mem_nil _, forall_mem_nil _⟩
  | cons row children next inner later =>
    have split : cpuSum (.cons row children next) = row.cpu.toInt + (cpuSum children + cpuSum next) := by
      simp [cpuSum]
    rw [Forest.flat_cons, forall_mem_cons, forall_mem_append] at busy
    have sums (part : Forest Row) (each : ∀ row ∈ part.flat, 0 ≤ row.cpu.toInt) : 0 ≤ cpuSum part :=
      List.sum_nonneg (forall_mem_map.mpr each)
    have left := sums children busy.2.1
    have right := sums next busy.2.2
    have own := busy.1
    rw [split] at fits ⊢
    obtain ⟨⟨-, below⟩, belowBound, belowMonotone⟩ := inner busy.2.1 (by omega)
    obtain ⟨⟨-, after⟩, afterBound, afterMonotone⟩ := later busy.2.2 (by omega)
    have stored : (Int32.ofInt (row.cpu.toInt + cpuSum children)).toInt = row.cpu.toInt + cpuSum children :=
      Int32.toInt_ofInt_of_le (by omega) (by omega)
    simp only [computeGroupCpu, below, after, stored, group_monotone_cons, Forest.flat_cons, forall_mem_cons,
      forall_mem_append]
    refine ⟨⟨by omega, by omega⟩, ⟨by omega, fun row mem => ?_, fun row mem => ?_⟩, fun row mem => ?_, belowMonotone,
      afterMonotone⟩
    · have bound := belowBound row mem
      omega
    · have bound := afterBound row mem
      omega
    · have bound := belowBound row mem
      rw [Int32.le_iff_toInt_le, stored]
      omega

theorem find_unpinned_branch {target} {rows} {found}
    (search : findUnpinnedIterByPid target rows = some found) : found.1.pid = target ∧ found ∈ rows.branches := by
  induction rows with
  | nil => cases search
  | cons row children next inner later =>
    rw [findUnpinnedIterByPid] at search
    rw [Forest.branches, mem_cons, mem_append]
    split at search
    · split at search
      · rename_i here
        cases search
        exact ⟨here, .inl rfl⟩
      · obtain below | ⟨_, after⟩ := Option.or_eq_some_iff.mp search
        · exact (inner below).imp id fun mem => .inr (.inl mem)
        · exact (later after).imp id fun mem => .inr (.inr mem)
    · exact (later search).imp id fun mem => .inr (.inr mem)

theorem busy_row_copied {target} {rows} (monotone : GroupMonotone rows) {found}
    (search : findUnpinnedIterByPid target rows = some found) (busy : matchCpuIntensiveGroup threshold found.1) :
    copyRow found.1 ∈ (copyCpuIntensiveChildren threshold rows).flat := by
  induction rows with
  | nil => cases search
  | cons row children next inner later =>
    obtain ⟨above, belowMonotone, afterMonotone⟩ := (group_monotone_cons row children next).mp monotone
    rw [findUnpinnedIterByPid] at search
    rw [copyCpuIntensiveChildren]
    split at search
    · rename_i unpinned
      split at search
      · cases search
        rw [if_pos busy]
        exact mem_cons_self
      · obtain below | ⟨_, after⟩ := Option.or_eq_some_iff.mp search
        · have listed : found.1 ∈ children.flat := by
            rw [← branches_flat]
            exact mem_map_of_mem (find_unpinned_branch below).2
          have matched : matchCpuIntensiveGroup threshold row := by
            rw [matchCpuIntensiveGroup, Bool.and_eq_true, decide_eq_true_eq, decide_eq_true_eq] at busy ⊢
            exact ⟨unpinned, Int32.le_trans busy.2 (above found.1 listed)⟩
          rw [if_pos matched]
          exact mem_cons_of_mem _ (mem_append_left _ (inner belowMonotone below))
        · have mem := later afterMonotone after
          split
          · exact mem_cons_of_mem _ (mem_append_right _ mem)
          · exact mem
    · have mem := later afterMonotone search
      split
      · exact mem_cons_of_mem _ (mem_append_right _ mem)
      · exact mem

end

section

theorem membership_current {current : Row × Forest Row → Bool} {real fs} (held : membershipIsCurrent current real fs) :
    ∀ row ∈ fs.flat, ∃ found, findUnpinnedIterByPid row.pid real = some found ∧ current found := by
  induction fs with
  | nil => exact forall_mem_nil _
  | cons row children next inner later =>
    rw [membershipIsCurrent, Bool.and_eq_true, Bool.and_eq_true] at held
    rw [flat_cons, forall_mem_cons, forall_mem_append]
    refine ⟨?_, inner held.1.2, later held.2⟩
    cases search : findUnpinnedIterByPid row.pid real with
    | none =>
      rw [search] at held
      cases held.1.1
    | some found =>
      rw [search] at held
      exact ⟨found, rfl, held.1.1⟩

theorem same_set {fs copies : Forest Row} (distinct : (fs.flat.map Row.pid).Nodup) (counted : copies.count = fs.count)
    (inside : ∀ row ∈ fs.flat, row.pid ∈ copies.flat.map Row.pid) (pid : Int32) :
    pid ∈ fs.flat.map Row.pid ↔ pid ∈ copies.flat.map Row.pid := by
  have subset : fs.flat.map Row.pid ⊆ copies.flat.map Row.pid := by
    intro pid mem
    obtain ⟨row, listed, rfl⟩ := mem_map.mp mem
    exact inside row listed
  have long : (copies.flat.map Row.pid).length ≤ (fs.flat.map Row.pid).length := by
    rw [length_map, length_map, ← count_flat, ← count_flat, counted]
  exact ((distinct.subperm subset).perm_of_length_le long).mem_iff

variable (strdown : Bytes → Bytes) (ctx : FilterCtx)

def FilterCtx.pids (ctx : FilterCtx) : List Int32 := (ctx.filterStore.map fun fs => fs.flat.map Row.pid).getD []

theorem find_unpinned_pid (real : Forest Row) (pid : Int32) (found : Row × Forest Row)
    (search : findUnpinnedIterByPid pid real = some found) : found.1.pid = pid :=
  (find_unpinned_branch search).1

theorem kept_store {find : Int32 → Option (Row × Forest Row)}
    (finds : ∀ pid real, find pid = some real → real.1.pid = pid)
    (fs : Forest Row) {changed : Bool} {rebuilt after : FilterCtx} (again : rebuilt.rebuilds = ctx.rebuilds + 1)
    (stale : changed → after = rebuilt) (current : changed = false → after = (syncRows find fs).elim rebuilt fun synced =>
    { ctx with filterStore := some synced })
    (kept : after.rebuilds = ctx.rebuilds) : changed = false ∧ after.pids = fs.flat.map Row.pid := by
  have renewed : after ≠ rebuilt := by
    intro same
    rw [same, again] at kept
    omega
  have unchanged : changed = false := Bool.eq_false_iff.mpr fun other => renewed (stale other)
  refine ⟨unchanged, ?_⟩
  cases done : syncRows find fs with
  | none =>
    rw [done] at current
    exact absurd (current unchanged) renewed
  | some synced =>
    rw [done] at current
    rw [current unchanged]
    exact sync_rows_pids find finds fs synced done

theorem agreement_iff (count size : Nat) (members : Bool) :
    (decide (count ≠ size) || !members) = false ↔ count = size ∧ members := by
  rw [Bool.or_eq_false_iff, decide_eq_false_iff_not, not_not, Bool.not_eq_false']

variable (fs : Forest Row)

theorem sync_cpu_kept (shadow : ctx.filterStore = some fs) (plain : ctx.filterText = [])
    (kept : (syncCpuIntensiveFilterStore strdown ctx).rebuilds = ctx.rebuilds) :
    countCpuIntensiveRows ctx.threshold ctx.store = fs.count ∧ cpuFilterMembershipIsCurrent ctx.threshold ctx.store fs ∧
    (syncCpuIntensiveFilterStore strdown ctx).pids = fs.flat.map Row.pid := by
  have again : (rebuildCpuIntensiveFilterStore strdown ctx).rebuilds = ctx.rebuilds + 1 := by
    rw [rebuildCpuIntensiveFilterStore, if_neg (not_not_intro plain)]
    rfl
  unfold syncCpuIntensiveFilterStore at kept ⊢
  rw [if_neg (not_not_intro plain), shadow] at kept ⊢
  obtain ⟨agree, pids⟩ := kept_store ctx (find_unpinned_pid ctx.store) fs again (fun changed => if_pos changed)
    (fun same => (if_neg (Bool.eq_false_iff.mp same)).trans (by rw [syncCpuFilterRows]; cases syncRows _ fs <;> rfl)) kept
  rw [agreement_iff] at agree
  exact ⟨agree.1, agree.2, pids⟩

theorem sync_gpu_kept (shadow : ctx.filterStore = some fs) (plain : ctx.filterText = [])
    (kept : (syncGpuFilterStore strdown ctx).rebuilds = ctx.rebuilds) :
    countGpuRows ctx.store = fs.count ∧ gpuFilterMembershipIsCurrent ctx.store fs ∧
    (syncGpuFilterStore strdown ctx).pids = fs.flat.map Row.pid := by
  have again : (rebuildGpuFilterStore strdown ctx).rebuilds = ctx.rebuilds + 1 := by
    rw [rebuildGpuFilterStore, if_neg (not_not_intro plain)]
    rfl
  unfold syncGpuFilterStore at kept ⊢
  rw [shadow] at kept ⊢
  simp only at kept ⊢
  rw [if_neg (not_not_intro plain)] at kept ⊢
  obtain ⟨agree, pids⟩ := kept_store ctx (find_iter_pid ctx.store) fs again (fun changed => if_pos changed)
    (fun same => (if_neg (Bool.eq_false_iff.mp same)).trans (by rw [syncFilterRows]; cases syncRows _ fs <;> rfl)) kept
  rw [agreement_iff] at agree
  exact ⟨agree.1, agree.2, pids⟩

structure FiltersExact (strdown : Bytes → Bytes) (ctx : FilterCtx) : Prop where
  cpu : GroupMonotone ctx.store → (syncCpuIntensiveFilterStore strdown ctx).rebuilds = ctx.rebuilds →
    ∀ pid, pid ∈ (syncCpuIntensiveFilterStore strdown ctx).pids ↔ pid ∈ (rebuildCpuIntensiveFilterStore strdown ctx).pids
  computed : ∀ rows, ctx.store = (computeGroupCpu rows).1 → (∀ row ∈ rows.flat, 0 ≤ row.cpu.toInt) →
    cpuSum rows < 2 ^ 31 → GroupMonotone ctx.store
  gpu : (syncGpuFilterStore strdown ctx).rebuilds = ctx.rebuilds →
    ∀ pid, pid ∈ (syncGpuFilterStore strdown ctx).pids ↔ pid ∈ (rebuildGpuFilterStore strdown ctx).pids
  cpuCounted : ∀ threshold, countCpuIntensiveRows threshold ctx.store = (copyCpuIntensiveChildren threshold ctx.store).count
  gpuCounted : countGpuRows ctx.store = (copyGpuChildren ctx.store).count
  gpuCopied : (copyGpuChildren ctx.store).flat =
    (ctx.store.branches.filter fun branch => matchGpu branch.1 || branch.2.flat.any matchGpu).map fun branch => copyRow branch.1

theorem filters_keep_set (fs : Forest Row) (shadow : ctx.filterStore = some fs) (plain : ctx.filterText = [])
    (distinct : (fs.flat.map Row.pid).Nodup) : FiltersExact strdown ctx where
  cpu monotone kept pid := by
    obtain ⟨counted, current, pids⟩ := sync_cpu_kept strdown ctx fs shadow plain kept
    rw [pids, rebuildCpuIntensiveFilterStore, if_neg (not_not_intro plain)]
    apply same_set distinct ((count_cpu_rows _ _).symm.trans counted)
    intro row mem
    obtain ⟨found, search, busy⟩ := membership_current current row mem
    have copied := busy_row_copied ctx.threshold monotone search busy
    rw [← find_unpinned_pid ctx.store row.pid found search]
    exact mem_map.mpr ⟨_, copied, rfl⟩
  computed rows made busy fits := by
    rw [made]
    exact (compute_group_cpu_sums busy fits).2.2
  gpu kept pid := by
    obtain ⟨counted, current, pids⟩ := sync_gpu_kept strdown ctx fs shadow plain kept
    rw [pids, rebuildGpuFilterStore, if_neg (not_not_intro plain)]
    apply same_set distinct ((count_gpu_rows _).symm.trans counted)
    intro row mem
    obtain ⟨found, search, client⟩ := membership_current current row mem
    obtain ⟨same, listed⟩ := find_unpinned_branch search
    rw [copy_gpu_flat, map_map, ← same]
    exact mem_map_of_mem (mem_filter.mpr ⟨listed, client⟩)
  cpuCounted threshold := count_cpu_rows threshold ctx.store
  gpuCounted := count_gpu_rows ctx.store
  gpuCopied := by
    rw [copy_gpu_flat]
    simp only [gpuSubtreeHasClient, gpu_rows_client]

def sampleRow (pid : Int32) (name : Bytes) (groupCpu : Int32) : Row where
  node := 0
  cells := { pid, ppid := 1, name }
  groupCpu

def busyPair : FilterCtx where
  store := .cons (sampleRow 1 [] 900000) (.cons (sampleRow 2 [] 800000) .nil .nil) .nil
  filterStore := some (.cons (sampleRow 1 [] 700000) (.cons (sampleRow 2 [] 600000) .nil .nil) .nil)

theorem busy_pair_monotone : GroupMonotone busyPair.store := by
  unfold GroupMonotone
  decide +kernel

theorem filters_keep_set_busy_pair : (syncCpuIntensiveFilterStore id busyPair).rebuilds = busyPair.rebuilds ∧
    (∀ pid, pid ∈ (syncCpuIntensiveFilterStore id busyPair).pids ↔
    pid ∈ (rebuildCpuIntensiveFilterStore id busyPair).pids) ∧ FiltersExact id busyPair :=
  have kept := filters_keep_set id busyPair _ rfl rfl (by decide)
  ⟨by decide +kernel, kept.cpu busy_pair_monotone (by decide +kernel), kept⟩

def busyBelowIdle : FilterCtx where
  store := .cons (sampleRow 1 [] 0) (.cons (sampleRow 2 [] 900000) .nil .nil) (.cons (sampleRow 3 [] 900000) .nil .nil)
  filterStore := some (.cons (sampleRow 2 [] 900000) .nil .nil)

theorem busy_row_kept_below_idle : (syncCpuIntensiveFilterStore id busyBelowIdle).rebuilds = busyBelowIdle.rebuilds ∧
      (syncCpuIntensiveFilterStore id busyBelowIdle).pids = [2] ∧
      (rebuildCpuIntensiveFilterStore id busyBelowIdle).pids = [3] := by decide +kernel

def namesBefore : FilterCtx where
  store := .cons (sampleRow 1 [97] 0) .nil .nil
  filterStore := none
  filterText := [97]

def namesSwapped : FilterCtx :=
  { rebuildFilterStore id namesBefore with
    store := .cons (sampleRow 1 [120] 0) .nil (.cons (sampleRow 2 [97] 0) .nil .nil) }

theorem sync_equals_rebuild_same : ((syncFilterStore id (rebuildFilterStore id namesBefore)).filterStore =
    (rebuildFilterStore id (rebuildFilterStore id namesBefore)).filterStore ↔
    NameExact id (rebuildFilterStore id namesBefore) (wanted (namesBefore.nameMatches id) namesBefore.store)) ∧
    ((syncAudioFilterStore id (rebuildFilterStore id namesBefore)).filterStore =
    (rebuildAudioFilterStore id (rebuildFilterStore id namesBefore)).filterStore ↔
    AudioExact id (rebuildFilterStore id namesBefore) (wanted (namesBefore.nameMatches id) namesBefore.store)) :=
  sync_equals_rebuild id (rebuildFilterStore id namesBefore) _ rfl

theorem swapped_row_kept :
    (syncFilterStore id namesSwapped).pids = [1] ∧ (rebuildFilterStore id namesSwapped).pids = [2] := by decide +kernel

end

end Evemon.ProcTree
