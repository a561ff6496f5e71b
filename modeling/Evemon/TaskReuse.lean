import Evemon.Lib.Runs
import Evemon.Tasks

-- Which processes may be in the map when ids are given again: nothing deletes the entry of a
-- process that exits, so a key can outlive its process.
namespace Evemon.Fdmon

open Function

structure Started (world : World) : Prop where
  map : world.ebpf.monitoredPids = none ∨ world.ebpf.monitoredPids = some ∅
  parents : world.ebpf.watchedParents = SwapTable.empty
  orphan : world.ebpf.orphanStdoutMode = false
  unmarked : ∀ pid process, world.processes pid = some process → process = {}
  apart : ∀ id, (world.threads id).isSome = true → world.processes id = none

-- A monitored process was registered itself, or created by a process monitored then.
def Justified (world : World) : Prop :=
  ∀ pid process, world.processes pid = some process → (world.ebpf.entry pid).isSome = true →
    process.registered = true ∨ process.inherited = true

-- A process is created under an id, or by a task, that is a key only where the process that
-- creates it is monitored.
def CleanIds (world : World) : Event → Prop
  | .fork _ creator child =>
    (world.ebpf.entry child).isSome = true ∨ (world.ebpf.entry creator).isSome = true → world.monitors creator = true
  | _ => True

theorem started_justified (world : World) (started : Started world) : Justified world := by
  intro pid process alive held
  rcases started.map with missing | empty
  · simp [Ebpf.entry, missing] at held
  · simp [Ebpf.entry, empty] at held

variable {world : World} {ebpf : Ebpf}

theorem justified_fewer (justified : Justified world)
    (keys : ∀ pid, (ebpf.entry pid).isSome → (world.ebpf.entry pid).isSome) : Justified { world with ebpf := ebpf } :=
  fun pid process alive held => justified pid process alive (keys pid held)

theorem call_processes {registers} {pid other} {ebpf} {world : World} {process}
    (alive : (world.call registers pid ebpf).processes other = some process) :
    (other = pid ∧ registers → process.registered) ∧
    ∃ before, world.processes other = some before ∧ process.inherited = before.inherited ∧
    process.descends = before.descends ∧ (before.registered → process.registered) := by
  cases registers with
  | false => exact ⟨fun named => absurd named.2 (by decide), process, alive, rfl, rfl, id⟩
  | true =>
    simp only [World.call, if_true] at alive
    by_cases here : other = pid
    · subst here
      rw [update_self, Option.map_eq_some_iff] at alive
      obtain ⟨before, found, rfl⟩ := alive
      exact ⟨fun _ => rfl, before, found, rfl, rfl, fun _ => rfl⟩
    · rw [update_of_ne here] at alive
      exact ⟨fun named => absurd named.1 here, process, alive, rfl, rfl, id⟩

theorem justified_call {registers : Bool} {pid : UInt32} (justified : Justified world)
    (keys : ∀ key, ebpf.entry key = world.ebpf.entry key ∨ key = pid ∧ registers) :
    Justified (world.call registers pid ebpf) := by
  intro other process alive held
  obtain ⟨marked, before, found, inherited, -, registered⟩ := call_processes alive
  rcases keys other with same | named
  · have earlier : (world.ebpf.entry other).isSome := by
      rw [← same]
      exact held
    rcases justified other before found earlier with was | was
    · exact .inl (registered was)
    · exact .inr (inherited.trans was)
  · exact .inl (marked named)

theorem group_none {world : World} {id} (free : world.group id = none) :
    world.processes id = none ∧ world.threads id = none := by
  unfold World.group at free
  split at free
  · cases free
  · rename_i absent
    exact ⟨by simpa using absent, free⟩

variable {updated : Bool} {creator child : UInt32}

theorem justified_fork (justified : Justified world) (clean : CleanIds world (.fork updated creator child)) :
    Justified (world.step (.fork updated creator child)) := by
  intro pid process alive held
  simp only [World.step] at alive held
  rw [fork_entry] at held
  by_cases new : pid = child
  · -- The key of the new process is its parent's or was there before.
    subst new
    rw [update_self, Option.some_inj] at alive
    subst alive
    refine .inr (clean ?_)
    split at held
    · exact .inr held
    · exact .inl held
  · rw [update_of_ne new] at alive
    rw [if_neg (fun written => new written.1)] at held
    exact justified pid process alive held

theorem justified_thread (justified : Justified world) (free : world.group child = none) :
    Justified (world.step (.thread updated creator child)) := by
  intro pid process alive held
  simp only [World.step] at alive held
  have old : pid ≠ child := by
    rintro rfl
    rw [(group_none free).1] at alive
    cases alive
  rw [fork_entry, if_neg (fun written => old written.1)] at held
  exact justified pid process alive held

theorem justified_exit {deleted} {id} (justified : Justified world) :
    Justified (world.step (.exit deleted id)) := by
  cases mem : world.threads id with
  | some group =>
    simp only [World.step, mem, at_exit_unattached]
    exact justified
  | none =>
    simp only [World.step, mem, at_exit_unattached]
    intro pid process alive held
    by_cases here : pid = id
    · subst here
      simp at alive
    · exact justified pid process (by rwa [← update_of_ne here none world.processes]) held

theorem justified_step {event} (justified : Justified world) (possible : world.Possible event)
    (clean : CleanIds world event) : Justified (world.step event) := by
  cases event with
  | fork updated creator child => exact justified_fork justified clean
  | thread updated creator child => exact justified_thread justified possible.2
  | exit deleted id => exact justified_exit justified
  | exec reads pid =>
    apply justified_call justified
    intro key
    rcases exec_entry reads pid key world.ebpf with same | ⟨here, orphan, -⟩ | ⟨here, child, -⟩
    · exact .inl same
    · exact .inr ⟨here, by rw [orphan, Bool.true_or]⟩
    · exact .inr ⟨here, by rw [child, Bool.or_true]⟩
  | writeEnable attached =>
    exact justified_fewer justified
      fun pid held => (write_enable_entry attached pid world.ebpf) ▸ held
  | addPidFd updated pid fd => exact justified_call justified fun key => add_entry updated pid fd key world.ebpf
  | removePidFd updated deleted pid fd =>
    apply justified_fewer justified
    intro key held
    rcases remove_entry updated deleted pid fd key world.ebpf with same | ⟨rfl, present⟩
    · exact same ▸ held
    · exact present
  | watchParentFds updated pid fdMask =>
    apply justified_call justified
    intro key
    rcases watch_entry updated pid fdMask key world.ebpf with same | ⟨here, registers, -⟩
    · exact .inl same
    · exact .inr ⟨here, registers⟩
  | unwatchParentFds order deleted pid =>
    apply justified_fewer justified
    intro key held
    rcases unwatch_entry order deleted pid key world.ebpf with same | gone
    · exact same ▸ held
    · rw [gone] at held
      cases held
  | orphanStdoutEnable attached =>
    exact justified_fewer justified
      fun pid held => (orphan_enable_entry attached pid world.ebpf) ▸ held
  | orphanStdoutDisable => exact justified

def twoProcesses : World where
  ebpf := { linkSchedExec := true, linkSchedFork := true, monitoredPids := some ∅ }
  processes id := if id = 1 ∨ id = 10 then some {} else none
  threads _ := none

theorem two_processes_started : Started twoProcesses where
  map := .inr rfl
  parents := rfl
  orphan := rfl
  unmarked pid process alive := by
    simp only [twoProcesses] at alive
    split at alive
    · exact (Option.some_inj.mp alive).symm
    · cases alive
  apart id mem := by cases mem

def exitedMonitored : World := (twoProcesses.step (.addPidFd true 10 1)).step (.exit true 10)

theorem exited_monitored_reached {allowed : World → Event → Prop} (first : allowed twoProcesses (.addPidFd true 10 1))
    (second : allowed (twoProcesses.step (.addPidFd true 10 1)) (.exit true 10)) :
    Runs.Reachable Started allowed World.step exitedMonitored :=
  .step _ _ (.step _ _ (.start _ two_processes_started) first) second

theorem exited_monitored_possible : (twoProcesses.step (.addPidFd true 10 1)).Possible (.exit true 10) :=
  ⟨rfl, fun _ _ mem => by cases mem⟩

theorem reused_ids_justified (world : World)
    (reached : Runs.Reachable Started (fun world event => world.Possible event ∧ CleanIds world event) World.step world) :
    Justified world :=
  Runs.invariant Justified started_justified
    (fun _ _ justified taken => justified_step justified taken.1 taken.2) world reached

theorem reused_ids_justified_other_id : Justified (exitedMonitored.step (.fork true 1 11)) := by
  refine reused_ids_justified _ (.step _ _ (exited_monitored_reached ⟨trivial, trivial⟩
    ⟨exited_monitored_possible, trivial⟩) ⟨⟨rfl, rfl⟩, fun held => ?_⟩)
  revert held
  decide +kernel

theorem reused_id_monitored : Runs.Reachable Started World.Possible World.step (exitedMonitored.step (.fork true 1 10)) ∧
    (exitedMonitored.step (.fork true 1 10)).processes 10 = some {} ∧
    (exitedMonitored.step (.fork true 1 10)).ebpf.entry 10 = some 1 ∧
    ¬ Justified (exitedMonitored.step (.fork true 1 10)) := by
  have unmarked : (exitedMonitored.step (.fork true 1 10)).processes 10 = some {} := by decide +kernel
  have held : (exitedMonitored.step (.fork true 1 10)).ebpf.entry 10 = some 1 := by decide +kernel
  refine ⟨.step _ _ (exited_monitored_reached trivial exited_monitored_possible) ⟨rfl, rfl⟩, unmarked, held, ?_⟩
  intro justified
  have marked := justified 10 {} unmarked (by rw [held]; rfl)
  revert marked
  decide

end Evemon.Fdmon
