import Evemon.TaskReuse

-- Descendants of a watched root. The fork program uses the ids of two tasks as keys of a map that
-- the write programs read by thread-group id.
namespace Evemon.Fdmon

open Function Option

structure Watchable (root fdMask : UInt32) (world : World) : Prop where
  alive : (world.processes root).isSome = true
  forks : world.ebpf.linkSchedFork = true
  opened : world.ebpf.monitoredPids.isSome = true
  watched : (fdmonWatchParentFds true root fdMask world.ebpf).1 = true
  apart : ∀ id, (world.threads id).isSome = true → world.processes id = none

-- The state the call leaves. From here on the ghost field says who descends from the root.
def World.watch (root fdMask : UInt32) (world : World) : World :=
  let after := world.step (.watchParentFds true root fdMask)
  { after with processes := fun id => (after.processes id).map fun process => { process with descends := id == root } }

-- The map has room for every child.
def Granted : Event → Prop
  | .fork updated _ _ => updated = true
  | .thread updated _ _ => updated = true
  | _ => True

def NoThreadKeys (world : World) : Prop := ∀ id, (world.threads id).isSome = true → world.ebpf.entry id = none

structure Traced (fdMask : UInt32) (world : World) : Prop where
  descendants : ∀ pid process, world.processes pid = some process → process.descends = true →
    world.ebpf.entry pid = some fdMask.toUInt8
  leaders : NoThreadKeys world

-- Only leaders create processes in the tree, no thread is created by or under an id that is
-- a key, and no call changes the mask of a descendant or writes a key for a thread.
def LeadersOnly (fdMask : UInt32) (world : World) : Event → Prop
  | .fork _ creator _ => world.descends creator = true → (world.processes creator).isSome = true
  | .thread _ creator child => world.ebpf.entry creator = none ∧ world.ebpf.entry child = none
  | .exit _ _ => True
  | .exec reads pid =>
    world.threads pid = none ∧ (world.descends pid = true →
      (world.ebpf.orphanStdoutMode = false ∨ orphanMask reads = 0 ∨ orphanMask reads = fdMask.toUInt8) ∧
      (parentMask reads world.ebpf = 0 ∨ (parentMask reads world.ebpf).toUInt8 = fdMask.toUInt8))
  | .writeEnable _ => True
  | .addPidFd updated pid fd => world.threads pid = none ∧ (world.descends pid = true →
      (fdmonAddPidFd updated pid fd world.ebpf).2.entry pid = world.ebpf.entry pid)
  | .removePidFd updated deleted pid fd => world.threads pid = none ∧ (world.descends pid = true →
      (fdmonRemovePidFd updated deleted pid fd world.ebpf).2.entry pid = world.ebpf.entry pid)
  | .watchParentFds _ pid mask =>
    world.threads pid = none ∧ (world.descends pid = true → mask.toUInt8 = fdMask.toUInt8)
  | .unwatchParentFds _ _ _ => False
  | .orphanStdoutEnable _ => True
  | .orphanStdoutDisable => True

structure Inherits (fdMask : UInt32) (world : World) : Prop where
  forks : world.ebpf.linkSchedFork = true
  apart : ∀ id, (world.threads id).isSome = true → world.processes id = none
  traced : Traced fdMask world

theorem only_pids_link {st after} (only : OnlyPids st after) : after.linkSchedFork = st.linkSchedFork := by
  obtain ⟨pids, -, rfl⟩ := only
  rfl

variable (attached : Bool)

theorem write_enable_link (st : Ebpf) : (fdmonWriteEnable attached st).2.linkSchedFork = st.linkSchedFork := by
  cases linked : st.linkEnterWrite <;> cases attached <;> simp [fdmonWriteEnable, linked, Ebpf.succeeded]

theorem orphan_enable_link (st : Ebpf) : (fdmonOrphanStdoutEnable attached st).2.linkSchedFork = st.linkSchedFork := by
  cases exec : st.linkSchedExec <;> cases linked : st.linkEnterWrite <;> cases attached <;>
    simp [fdmonOrphanStdoutEnable, fdmonWriteEnable, exec, linked, Ebpf.succeeded]

theorem add_link (updated : Bool) (pid fd : UInt32) (st : Ebpf) :
    (fdmonAddPidFd updated pid fd st).2.linkSchedFork = st.linkSchedFork := by
  rcases add_pid_fd_cases updated pid fd st with same | ⟨_, _, _, same⟩ <;> rw [same]
  rfl

theorem watch_link (updated : Bool) (pid fdMask : UInt32) (st : Ebpf) :
    (fdmonWatchParentFds updated pid fdMask st).2.linkSchedFork = st.linkSchedFork := by
  obtain same | ⟨_, _, _, same | ⟨_, _, same⟩⟩ := watch_parent_cases updated pid fdMask st <;> rw [same]
  rfl

theorem descends_leader {world : World} {pid} {process} (alive : world.processes pid = some process) :
    world.descends pid = process.descends := by
  simp [World.descends, World.group, alive]

variable (fdMask : UInt32)

theorem inherits_call {registers} {pid} {ebpf : Ebpf} {world}
    (inherits : Inherits fdMask world) (link : ebpf.linkSchedFork = world.ebpf.linkSchedFork)
    (leader : world.threads pid = none) (entries : ∀ key, ebpf.entry key = world.ebpf.entry key ∨
    key = pid ∧ (world.descends pid → ebpf.entry key = some fdMask.toUInt8)) :
    Inherits fdMask (world.call registers pid ebpf) where
  forks := link.trans inherits.forks
  apart id mem := by
    cases alive : (world.call registers pid ebpf).processes id with
    | none => rfl
    | some process =>
      obtain ⟨-, before, found, -⟩ := call_processes alive
      rw [inherits.apart id mem] at found
      cases found
  traced.descendants other process alive descends := by
    obtain ⟨-, before, found, -, same, -⟩ := call_processes alive
    have before_descends : before.descends := same.symm.trans descends
    rcases entries other with kept | ⟨rfl, written⟩
    · exact kept.trans (inherits.traced.descendants other before found before_descends)
    · exact written ((descends_leader found).trans before_descends)
  traced.leaders id mem := by
    rcases entries id with kept | ⟨rfl, -⟩
    · exact kept.trans (inherits.traced.leaders id mem)
    · exact absurd mem (by simp [World.call, leader])

variable (world : World)

theorem inherits_ebpf {ebpf : Ebpf} (inherits : Inherits fdMask world)
    (link : ebpf.linkSchedFork = world.ebpf.linkSchedFork) (entries : ∀ key, ebpf.entry key = world.ebpf.entry key) :
    Inherits fdMask { world with ebpf := ebpf } where
  forks := link.trans inherits.forks
  apart := inherits.apart
  traced.descendants pid process alive descends :=
    (entries pid).trans (inherits.traced.descendants pid process alive descends)
  traced.leaders id mem := (entries id).trans (inherits.traced.leaders id mem)

theorem inherits_kept {registers} {pid} {ebpf : Ebpf} {written : Prop} (inherits : Inherits fdMask world)
    (link : ebpf.linkSchedFork = world.ebpf.linkSchedFork) (leader : world.threads pid = none)
    (kept : world.descends pid → ebpf.entry pid = world.ebpf.entry pid)
    (entries : ∀ key, ebpf.entry key = world.ebpf.entry key ∨ key = pid ∧ written) :
    Inherits fdMask (world.call registers pid ebpf) := by
  refine inherits_call fdMask inherits link leader fun key => ?_
  rcases entries key with same | ⟨rfl, -⟩
  · exact .inl same
  · by_cases descends : world.descends key
    · exact .inl (kept descends)
    · exact .inr ⟨rfl, fun inside => absurd inside descends⟩

theorem inherits_fork {creator child} {world} (inherits : Inherits fdMask world)
    (free : world.group child = none) (leads : world.descends creator → (world.processes creator).isSome) :
    Inherits fdMask (world.step (.fork true creator child)) where
  forks := (only_pids_link (fork_only true creator child world.ebpf)).trans inherits.forks
  apart id mem := by
    have old : id ≠ child := by
      rintro rfl
      simp only [World.step, (group_none free).2] at mem
      cases mem
    simp only [World.step, update_of_ne old]
    exact inherits.apart id mem
  traced.descendants pid process alive descends := by
    simp only [World.step] at alive ⊢
    rw [fork_entry]
    by_cases new : pid = child
    · -- The creator is a leader that descends, so the key looked up is its own.
      subst new
      rw [update_self, some_inj] at alive
      subst alive
      obtain ⟨parent, found⟩ := isSome_iff_exists.mp (leads descends)
      have entry := inherits.traced.descendants creator parent found ((descends_leader found).symm.trans descends)
      rw [if_pos ⟨rfl, by rw [entry]; rfl, inherits.forks, rfl⟩]
      exact entry
    · rw [update_of_ne new] at alive
      rw [if_neg (fun written => new written.1)]
      exact inherits.traced.descendants pid process alive descends
  traced.leaders id mem := by
    have old : id ≠ child := by
      rintro rfl
      simp only [World.step, (group_none free).2] at mem
      cases mem
    simp only [World.step]
    rw [fork_entry, if_neg (fun written => old written.1)]
    exact inherits.traced.leaders id mem

theorem inherits_thread {updated} {creator child} {world}
    (inherits : Inherits fdMask world) (free : world.group child = none) (outside : world.ebpf.entry creator = none)
    (unused : world.ebpf.entry child = none) : Inherits fdMask (world.step (.thread updated creator child)) := by
  have same : ∀ key, (traceSchedProcessFork updated creator child world.ebpf).entry key = world.ebpf.entry key := by
    intro key
    rw [fork_entry, if_neg]
    rintro ⟨-, present, -⟩
    rw [outside] at present
    cases present
  constructor
  · exact (only_pids_link (fork_only updated creator child world.ebpf)).trans inherits.forks
  · intro id mem
    simp only [World.step] at mem ⊢
    by_cases new : id = child
    · rw [new]
      exact (group_none free).1
    · rw [update_of_ne new] at mem
      exact inherits.apart id mem
  · constructor
    · intro pid process alive descends
      exact (same pid).trans (inherits.traced.descendants pid process alive descends)
    · intro id mem
      simp only [World.step] at mem ⊢
      rw [same]
      by_cases new : id = child
      · rw [new]
        exact unused
      · rw [update_of_ne new] at mem
        exact inherits.traced.leaders id mem

theorem inherits_exit {deleted} (id : UInt32) {world}
    (inherits : Inherits fdMask world) : Inherits fdMask (world.step (.exit deleted id)) := by
  cases mem : world.threads id with
  | some group =>
    have fewer : ∀ other, (update world.threads id none other).isSome → (world.threads other).isSome := by
      intro other still
      by_cases here : other = id
      · rw [here, mem]
        rfl
      · rwa [update_of_ne here] at still
    simp only [World.step, mem, at_exit_unattached]
    exact ⟨inherits.forks, fun other still => inherits.apart other (fewer other still),
      inherits.traced.descendants, fun other still => inherits.traced.leaders other (fewer other still)⟩
  | none =>
    have fewer : ∀ other process, update world.processes id none other = some process →
        world.processes other = some process := by
      intro other process still
      by_cases here : other = id
      · rw [here, update_self] at still
        cases still
      · rwa [update_of_ne here] at still
    simp only [World.step, mem, at_exit_unattached]
    refine ⟨inherits.forks, fun other task => ?_, fun pid process alive descends => ?_, inherits.traced.leaders⟩
    · have gone := inherits.apart other task
      by_cases here : other = id
      · simp [here]
      · simpa [here] using gone
    · exact inherits.traced.descendants pid process (fewer pid process alive) descends

theorem inherits_exec {reads} (pid : UInt32) {world}
    (inherits : Inherits fdMask world) (leads : LeadersOnly fdMask world (.exec reads pid)) :
    Inherits fdMask (world.step (.exec reads pid)) := by
  obtain ⟨leader, masks⟩ := leads
  apply inherits_call fdMask inherits (only_pids_link (exec_only reads pid world.ebpf)) leader
  intro key
  rcases exec_entry reads pid key world.ebpf with same | ⟨here, registers, written⟩ | ⟨here, registers, written⟩
  · exact .inl same
  · refine .inr ⟨here, fun descends => ?_⟩
    rw [written]
    simp only [orphanRegisters, Bool.and_eq_true, bne_iff_ne] at registers
    rcases (masks descends).1 with off | zero | equal
    · rw [off] at registers
      exact absurd registers.1.1.2 (by decide)
    · exact absurd zero registers.1.2
    · rw [equal]
  · refine .inr ⟨here, fun descends => ?_⟩
    rw [written]
    simp only [childRegisters, Bool.and_eq_true, bne_iff_ne] at registers
    rcases (masks descends).2 with zero | equal
    · exact absurd zero registers.1.2
    · rw [equal]

theorem inherits_step {event} (inherits : Inherits fdMask world) (possible : world.Possible event)
    (granted : Granted event) (leads : LeadersOnly fdMask world event) : Inherits fdMask (world.step event) := by
  cases event with
  | fork updated creator child =>
    cases granted
    exact inherits_fork fdMask inherits possible.2 leads
  | thread updated creator child =>
    exact inherits_thread fdMask inherits possible.2 leads.1 leads.2
  | exit deleted id => exact inherits_exit fdMask id inherits
  | exec reads pid => exact inherits_exec fdMask pid inherits leads
  | writeEnable attached =>
    exact inherits_ebpf fdMask world inherits (write_enable_link attached world.ebpf)
      fun key => write_enable_entry attached key world.ebpf
  | addPidFd updated pid fd =>
    exact inherits_kept fdMask world inherits (add_link updated pid fd world.ebpf) leads.1 leads.2
      (add_entry updated pid fd · world.ebpf)
  | removePidFd updated deleted pid fd =>
    have link := only_pids_link (remove_pid_fd_only updated deleted pid fd world.ebpf)
    exact @inherits_kept fdMask world false pid _ _ inherits link leads.1 leads.2
      (remove_entry updated deleted pid fd · world.ebpf)
  | watchParentFds updated pid mask =>
    obtain ⟨leader, masks⟩ := leads
    apply inherits_call fdMask inherits (watch_link updated pid mask world.ebpf) leader
    intro key
    rcases watch_entry updated pid mask key world.ebpf with same | ⟨here, -, written⟩
    · exact .inl same
    · exact .inr ⟨here, fun descends => by rw [written, masks descends]⟩
  | unwatchParentFds order deleted pid => exact leads.elim
  | orphanStdoutEnable attached =>
    exact inherits_ebpf fdMask world inherits (orphan_enable_link attached world.ebpf)
      fun key => orphan_enable_entry attached key world.ebpf
  | orphanStdoutDisable => exact inherits_ebpf fdMask world inherits rfl fun _ => rfl

theorem inherits_watch {root fdMask} {world} (watchable : Watchable root fdMask world)
    (nonzero : fdMask ≠ 0) (clear : NoThreadKeys world) : Inherits fdMask (world.watch root fdMask) := by
  have positive : pidPositive root := by
    cases valid : pidPositive root with
    | true => rfl
    | false => exact absurd watchable.watched (by simp [fdmonWatchParentFds, valid])
  have linked : world.ebpf.linkSchedExec := by
    cases exec : world.ebpf.linkSchedExec with
    | true => rfl
    | false => exact absurd watchable.watched (by simp [fdmonWatchParentFds, positive, exec])
  have registers : watchRegisters true root fdMask world.ebpf := by simp [watchRegisters, positive, linked, nonzero]
  have leader : ∀ id, (world.threads id).isSome → id ≠ root := by
    rintro id mem rfl
    have alive := watchable.alive
    rw [watchable.apart id mem] at alive
    cases alive
  refine ⟨(watch_link true root fdMask world.ebpf).trans watchable.forks, fun id mem => ?_,
    fun pid process alive descends => ?_, fun id mem => ?_⟩
  · have absent := watchable.apart id mem
    simp [World.watch, World.step, World.call, registers, leader id mem, absent]
  · have here : pid = root := by
      simp only [World.watch, map_eq_some_iff] at alive
      obtain ⟨before, -, rfl⟩ := alive
      simpa using descends
    obtain ⟨map, opened⟩ := isSome_iff_exists.mp watchable.opened
    subst here
    simp [World.watch, World.step, World.call, Ebpf.entry, watch_pids, registers, opened]
  · rcases watch_entry true root fdMask id world.ebpf with same | ⟨here, -⟩
    · exact same.trans (clear id mem)
    · exact absurd here (leader id mem)

theorem descendants_traced (root fdMask : UInt32) (before world : World) (watchable : Watchable root fdMask before)
    (nonzero : fdMask ≠ 0) (clear : NoThreadKeys before) (reached : Runs.Reachable (· = before.watch root fdMask)
    (fun world event => world.Possible event ∧ Granted event ∧ LeadersOnly fdMask world event) World.step world) :
    Traced fdMask world := by
  have inherits : Inherits fdMask world := by
    apply Runs.invariant (Inherits fdMask) ?_ ?_ world reached
    · rintro state rfl
      exact inherits_watch watchable nonzero clear
    · intro state event inherits taken
      exact inherits_step fdMask state inherits taken.1 taken.2.1 taken.2.2
  exact inherits.traced

def threadedRoot : World where
  ebpf := { linkSchedExec := true, linkSchedFork := true, monitoredPids := some ∅ }
  processes id := if id = 1 ∨ id = 10 then some {} else none
  threads id := if id = 11 then some 10 else none

theorem threaded_root_watchable : Watchable 10 3 threadedRoot where
  alive := rfl
  forks := rfl
  opened := rfl
  watched := by decide +kernel
  apart id mem := by
    simp only [threadedRoot] at mem ⊢
    split at mem
    · rename_i here
      rw [here]
      rfl
    · cases mem

theorem threaded_root_clear : NoThreadKeys threadedRoot := fun _ _ => rfl

theorem descendants_traced_grandchild :
    Traced 3 (((threadedRoot.watch 10 3).step (.fork true 10 12)).step (.fork true 12 13)) := by
  refine descendants_traced 10 3 threadedRoot _ threaded_root_watchable (by decide) threaded_root_clear ?_
  exact .step _ _ (.step _ _ (.start _ rfl) ⟨⟨rfl, rfl⟩, rfl, fun _ => rfl⟩) ⟨⟨rfl, rfl⟩, rfl, fun _ => rfl⟩

theorem thread_child_untraced :
    Watchable 10 3 threadedRoot ∧ NoThreadKeys threadedRoot ∧
      (let world := (threadedRoot.watch 10 3).step (.fork true 11 12)
       Runs.Reachable (· = threadedRoot.watch 10 3) (fun world event => world.Possible event ∧ Granted event)
          World.step world ∧
        world.processes 12 = some { inherited := true, descends := true } ∧ world.ebpf.entry 12 = none) ∧
      (let world := (threadedRoot.watch 10 3).step (.thread true 10 12)
       Runs.Reachable (· = threadedRoot.watch 10 3) (fun world event => world.Possible event ∧ Granted event)
          World.step world ∧
        world.threads 12 = some 10 ∧ world.ebpf.entry 12 = some 3) := by
  refine ⟨threaded_root_watchable, threaded_root_clear, ⟨.step _ _ (.start _ rfl) ⟨⟨rfl, rfl⟩, rfl⟩, ?_, ?_⟩,
    .step _ _ (.start _ rfl) ⟨⟨rfl, rfl⟩, rfl⟩, ?_, ?_⟩
  · decide +kernel
  · decide +kernel
  · decide +kernel
  · decide +kernel

end Evemon.Fdmon
