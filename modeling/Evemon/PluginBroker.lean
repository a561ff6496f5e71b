import Evemon.PluginReload

-- The broker gathers data for the PIDs that plugins track when a cycle starts, on a thread of
-- its own, and hands it to the plugins that track them when the cycle is dispatched.
namespace Evemon.Loader

open CText List BitVec

def needPipewire : UInt32 := 128

structure Bundle where
  pid : Int
  needs : UInt32
deriving DecidableEq

structure Update where
  trackedPid : Int
  dataNeeds : UInt32
  bundle : Bundle
deriving DecidableEq

-- The cycle of the worker, the cycles it has handed over and that wait for the main thread,
-- and as ghost the calls of update made so far.
structure Broker where
  world : World := {}
  working : Option (List Bundle) := none
  completed : List (List Bundle) := []
  updates : List Update := []

def Broker.instances (broker : Broker) : List Instance := broker.world.registry.instances

def Instance.wanting (inst : Instance) : Bool := !inst.plugin.wantsUpdate || inst.wants

def pluginCollectTrackedPids (instances : List Instance) (maxOut : Nat) : List Int :=
  instances.foldl (fun out inst =>
    if maxOut ≤ out.length ∨ inst.trackedPid ≤ 0 ∨ inst.wanting = false ∨ inst.trackedPid ∈ out then out
    else out ++ [inst.trackedPid]) []

def pidNeeds (pid : Int) (instances : List Instance) : UInt32 :=
  instances.foldl (fun needs inst =>
    if inst.trackedPid = pid ∧ inst.wanting = true then needs ||| inst.plugin.dataNeeds else needs) 0

-- `audio`: there is a callback for audio PIDs. `started`: memory and the thread were granted.
-- The previous worker has been cancelled and joined.
def brokerStart (audio started : Bool) (broker : Broker) : Broker :=
  if broker.instances = [] then broker
  else
    let pids := pluginCollectTrackedPids broker.instances broker.instances.length
    let audioOnly := pids = [] ∧ audio = true ∧ broker.world.registry.combinedNeeds &&& needPipewire ≠ 0
    if (pids = [] ∧ ¬ audioOnly) ∨ started = false then { broker with working := none }
    else { broker with working := some (pids.map fun pid => ⟨pid, pidNeeds pid broker.instances⟩) }

def brokerComplete (answered : Int → Bool) (broker : Broker) : Broker :=
  match broker.working with
  | none => broker
  | some cycle =>
    { broker with working := none, completed := broker.completed ++ [cycle.filter fun bundle => answered bundle.pid] }

def pluginDispatchUpdate (instances : List Instance) (bundle : Bundle) : List Update :=
  (instances.filter fun inst =>
    inst.plugin.update && (inst.plugin.role = .service || inst.widget) && inst.trackedPid = bundle.pid && inst.wanting).map
      fun inst => ⟨inst.trackedPid, inst.plugin.dataNeeds, bundle⟩

def brokerDispatchCycle (index : Nat) (broker : Broker) : Broker :=
  match broker.completed[index]? with
  | none => broker
  | some cycle =>
    { broker with
      completed := broker.completed.eraseIdx index
      updates := broker.updates ++ cycle.flatMap (pluginDispatchUpdate broker.instances) }

def Broker.modify (instanceId : Nat) (change : Instance → Instance) (broker : Broker) : Broker :=
  { broker with
    world :=
      { broker.world with
        registry :=
          { broker.world.registry with
            instances := broker.instances.map fun inst => if inst.instanceId = instanceId then change inst else inst } } }

def pluginInstanceSetPid (instanceId : Nat) (pid : Int) (pinned : Bool) (broker : Broker) : Broker :=
  broker.modify instanceId fun inst => { inst with trackedPid := pid, pinned := pinned }

inductive Activity where
  | start (audio started : Bool)
  | complete (answered : Int → Bool)
  | cancel
  | dispatch (index : Nat)
  | setPid (instanceId : Nat) (pid : Int) (pinned : Bool)
  | wants (instanceId : Nat) (answer : Bool)
  | widget (instanceId : Nat)
  | loader (event : Event)

def Broker.step (broker : Broker) : Activity → Broker
  | .start audio started => brokerStart audio started broker
  | .complete answered => brokerComplete answered broker
  | .cancel => { broker with working := none }
  | .dispatch index => brokerDispatchCycle index broker
  | .setPid instanceId pid pinned => pluginInstanceSetPid instanceId pid pinned broker
  | .wants instanceId answer => broker.modify instanceId fun inst => { inst with wants := answer }
  | .widget instanceId => broker.modify instanceId fun inst => { inst with widget := true }
  | .loader event => { broker with world := broker.world.step event }

def Covers (needs wanted : UInt32) : Prop := wanted &&& needs = wanted

instance (needs wanted : UInt32) : Decidable (Covers needs wanted) := inferInstanceAs (Decidable (_ = _))

def Broker.inFlight (broker : Broker) : List Bundle := broker.working.getD [] ++ broker.completed.flatten

structure Update.Served (update : Update) : Prop where
  tracks : update.trackedPid = update.bundle.pid
  gathered : Covers update.bundle.needs update.dataNeeds

def Event.library : Event → Option Library
  | .load library _ => some library
  | .asyncLoad library _ _ => some library
  | .create library _ => some library
  | .destroy _ => none
  | .reload library _ => some library
  | .toggle _ _ library _ => some library
  | .registryDestroy _ => none

-- Whoever begins to track a PID, or begins to want data, while data for the PID is in flight
-- needs no more than is being gathered.
def Steady (broker : Broker) : Activity → Prop
  | .setPid instanceId pid _ =>
    ∀ inst ∈ broker.instances, inst.instanceId = instanceId → inst.wanting = true →
      ∀ bundle ∈ broker.inFlight, bundle.pid = pid → Covers bundle.needs inst.plugin.dataNeeds
  | .wants instanceId answer =>
    answer = true → ∀ inst ∈ broker.instances, inst.instanceId = instanceId →
      ∀ bundle ∈ broker.inFlight, bundle.pid = inst.trackedPid → Covers bundle.needs inst.plugin.dataNeeds
  | .loader event =>
    ∀ library plugin, event.library = some library → library.descriptor = some plugin → plugin.role = .system →
      ∀ bundle ∈ broker.inFlight, bundle.pid = 1 → Covers bundle.needs plugin.dataNeeds
  | _ => True

structure Supplied (broker : Broker) : Prop where
  served : ∀ update ∈ broker.updates, update.Served
  positive : ∀ bundle ∈ broker.inFlight, 0 < bundle.pid
  covered : ∀ bundle ∈ broker.inFlight, ∀ inst ∈ broker.instances, inst.trackedPid = bundle.pid → inst.wanting = true →
    Covers bundle.needs inst.plugin.dataNeeds

variable (needs : UInt32)

theorem covers_self (wanted : UInt32) : Covers (needs ||| wanted) wanted := by
  rw [Covers, ← UInt32.toBitVec_inj]
  apply eq_of_getLsbD_eq
  intro index bound
  simp only [UInt32.toBitVec_and, UInt32.toBitVec_or, getLsbD_and, getLsbD_or]
  cases wanted.toBitVec.getLsbD index <;> simp

theorem covers_more (more : UInt32) {wanted} (covers : Covers needs wanted) : Covers (needs ||| more) wanted := by
  rw [Covers, ← UInt32.toBitVec_inj] at covers ⊢
  apply eq_of_getLsbD_eq
  intro index bound
  have bit := congrArg (fun bits => bits.getLsbD index) covers
  simp only [UInt32.toBitVec_and, UInt32.toBitVec_or, getLsbD_and, getLsbD_or] at bit ⊢
  revert bit
  cases wanted.toBitVec.getLsbD index <;> cases needs.toBitVec.getLsbD index <;> simp

theorem pid_needs_grow (pid : Int) {wanted} {instances : List Instance} {needs}
    (covers : Covers needs wanted) :
    Covers (instances.foldl (fun needs inst =>
      if inst.trackedPid = pid ∧ inst.wanting then needs ||| inst.plugin.dataNeeds else needs) needs) wanted := by
  induction instances generalizing needs with
  | nil => exact covers
  | cons inst rest ih =>
    rw [foldl_cons]
    apply ih
    split
    · exact covers_more needs _ covers
    · exact covers

theorem pid_needs_covers (pid : Int) (instances : List Instance) (inst : Instance) (mem : inst ∈ instances)
    (tracks : inst.trackedPid = pid) (wants : inst.wanting) : Covers (pidNeeds pid instances) inst.plugin.dataNeeds := by
  obtain ⟨before, after, rfl⟩ := append_of_mem mem
  rw [pidNeeds, foldl_append, foldl_cons, if_pos ⟨tracks, wants⟩]
  exact pid_needs_grow pid (covers_self _ _)

theorem collect_positive {instances} {maxOut : Nat} :
    ∀ pid ∈ pluginCollectTrackedPids instances maxOut, 0 < pid := by
  rw [pluginCollectTrackedPids]
  induction instances using List.reverseRecOn with
  | nil => exact forall_mem_nil _
  | append_singleton rest inst ih =>
    intro pid mem
    rw [foldl_append, foldl_cons, foldl_nil] at mem
    split at mem
    · exact ih pid mem
    · rename_i taken
      rcases mem_append.mp mem with old | _ | ⟨_, ⟨⟩⟩
      · exact ih pid old
      · by_contra small
        exact taken (.inr (.inl (not_lt.mp small)))

section

def Comes (library : Library) (inst : Instance) : Prop :=
  library.descriptor = some inst.plugin ∧ inst.trackedPid = inst.plugin.firstPid

variable (plugin : Descriptor)

theorem register_member (handle : Nat) (widget : Bool) (path : Text) (world : World) (library : Library)
    (described : library.descriptor = some plugin) :
    ∀ inst ∈ (world.register plugin handle widget path).registry.instances,
    inst ∈ world.registry.instances ∨ Comes library inst := by
  intro inst mem
  rcases mem_append.mp mem with old | _ | ⟨_, ⟨⟩⟩
  · exact .inl old
  · exact .inr ⟨described, rfl⟩

theorem activate_registry (world : World) : (world.activatePlugin plugin).registry = world.registry := by
  unfold World.activatePlugin
  split <;> rfl

variable (library : Library) (path : Text) {world : World}

theorem loaded_member {library} {path} {world after} (loaded : Loaded library path world after) :
    ∀ inst ∈ after.registry.instances, inst ∈ world.registry.instances ∨ Comes library inst := by
  cases loaded with
  | same | refused handle | numbered handle => exact fun inst => .inl
  | hidden handle plugin widget found described =>
    exact register_member plugin handle widget path (world.dlopen handle) library described
  | shown handle plugin widget found described =>
    rw [activate_registry]
    exact register_member plugin handle widget path (world.dlopen handle) library described

theorem create_member {pluginId} {world} :
    ∀ inst ∈ (pluginInstanceCreate library pluginId world).registry.instances,
    inst ∈ world.registry.instances ∨ Comes library inst := by
  unfold pluginInstanceCreate
  split
  · exact fun inst => .inl
  split
  · exact fun inst => .inl
  cases described : library.descriptor with
  | none => exact fun inst => .inl
  | some plugin =>
    simp only
    split
    · exact fun inst => .inl
    split
    · exact fun inst => .inl
    · rw [activate_registry]
      exact register_member plugin _ _ [] world library described

theorem remove_subset (instanceId : Nat) (registry : Registry) :
    (registry.remove instanceId).instances ⊆ registry.instances := by
  unfold Registry.remove
  split
  · exact eraseP_subset
  · exact List.Subset.refl _

theorem remove_all_subset {ids : List Nat} (registry : Registry) :
    (ids.foldl (fun left instanceId => left.remove instanceId) registry).instances ⊆ registry.instances := by
  induction ids generalizing registry with
  | nil => exact List.Subset.refl _
  | cons instanceId rest ih => exact List.Subset.trans (ih _) (remove_subset instanceId registry)

theorem close_reloaded_subset : (world.closeReloaded path).registry.instances ⊆ world.registry.instances := by
  rw [World.closeReloaded]
  cases (fromPath path world.registry).head? <;> exact remove_all_subset world.registry

theorem reload_member : ∀ inst ∈ (pluginReload library path world).2.registry.instances,
    inst ∈ world.registry.instances ∨ Comes library inst := by
  intro inst mem
  rcases loaded_member (load_loaded library path _) inst mem with old | new
  · exact .inl (close_reloaded_subset path old)
  · exact .inr new

theorem toggle_member {active} {asked} {library} (path : Text) {world} :
    ∀ inst ∈ (onPluginToggled active asked library path world).registry.instances,
    inst ∈ world.registry.instances ∨ Comes library inst := by
  unfold onPluginToggled
  split
  · exact fun inst => .inl
  split
  · cases asked with
    | none => exact reload_member library path
    | some handle => exact reload_member library path
  · exact fun inst mem => .inl (close_reloaded_subset path mem)

theorem loader_member {event} : ∀ inst ∈ (world.step event).registry.instances,
    inst ∈ world.registry.instances ∨ ∃ library, event.library = some library ∧ Comes library inst := by
  intro inst mem
  cases event with
  | load library path => exact (loaded_member (load_loaded library path world) inst mem).imp_right fun new => ⟨library, rfl, new⟩
  | asyncLoad library cancelled path =>
    exact (loaded_member (async_load_loaded library cancelled path world) inst mem).imp_right fun new => ⟨library, rfl, new⟩
  | create library pluginId =>
    exact (create_member library inst mem).imp_right fun new => ⟨library, rfl, new⟩
  | destroy instanceId => exact .inl (remove_subset instanceId world.registry mem)
  | reload library path => exact (reload_member library path inst mem).imp_right fun new => ⟨library, rfl, new⟩
  | toggle active asked library path =>
    exact (toggle_member path inst mem).imp_right fun new => ⟨library, rfl, new⟩
  | registryDestroy allocated => exact absurd mem not_mem_nil

end

section

variable {broker : Broker} (supplied : Supplied broker)

include supplied

theorem supplied_fewer (working : Option (List Bundle)) (completed : List (List Bundle))
    (subset : working.getD [] ++ completed.flatten ⊆ broker.inFlight) :
    Supplied { broker with working := working, completed := completed } where
  served := supplied.served
  positive bundle flying := supplied.positive bundle (subset flying)
  covered bundle flying := supplied.covered bundle (subset flying)

theorem supplied_start {audio started} : Supplied (brokerStart audio started broker) := by
  unfold brokerStart
  split
  · exact supplied
  simp only
  split
  · exact supplied_fewer supplied none broker.completed (subset_append_right _ _)
  have old (bundle : Bundle) (waits : bundle ∈ broker.completed.flatten) : bundle ∈ broker.inFlight :=
    mem_append_right _ waits
  constructor
  case served => exact supplied.served
  case positive =>
    intro bundle flying
    rcases mem_append.mp flying with new | waits
    · obtain ⟨pid, collected, rfl⟩ := mem_map.mp new
      exact collect_positive pid collected
    · exact supplied.positive bundle (old bundle waits)
  case covered =>
    intro bundle flying inst mem tracks wants
    rcases mem_append.mp flying with new | waits
    · obtain ⟨pid, -, rfl⟩ := mem_map.mp new
      exact pid_needs_covers pid broker.instances inst mem tracks wants
    · exact supplied.covered bundle (old bundle waits) inst mem tracks wants

theorem supplied_complete {answered : Int → Bool} : Supplied (brokerComplete answered broker) := by
  unfold brokerComplete
  cases worked : broker.working with
  | none => exact supplied
  | some cycle =>
    apply supplied_fewer supplied
    intro bundle flying
    rw [Broker.inFlight, worked]
    simp only [Option.getD_none, nil_append, flatten_append, flatten_cons, flatten_nil,
      append_nil, mem_append, mem_filter] at flying
    rcases flying with waits | ⟨answers, -⟩
    · exact mem_append_right _ waits
    · exact mem_append_left _ answers

theorem dispatch_served {bundle : Bundle} (flying : bundle ∈ broker.inFlight) :
    ∀ update ∈ pluginDispatchUpdate broker.instances bundle, update.Served := by
  intro update called
  obtain ⟨inst, chosen, rfl⟩ := mem_map.mp called
  obtain ⟨mem, meets⟩ := mem_filter.mp chosen
  simp only [Bool.and_eq_true, decide_eq_true_eq] at meets
  exact ⟨meets.1.2, supplied.covered bundle flying inst mem meets.1.2 meets.2⟩

theorem supplied_dispatch {index} : Supplied (brokerDispatchCycle index broker) := by
  unfold brokerDispatchCycle
  cases found : broker.completed[index]? with
  | none => exact supplied
  | some cycle =>
    have waiting : cycle ∈ broker.completed := mem_of_getElem? found
    have fewer := supplied_fewer supplied broker.working (broker.completed.eraseIdx index) (by
      intro bundle flying
      rcases mem_append.mp flying with works | waits
      · exact mem_append_left _ works
      · obtain ⟨other, left, inside⟩ := mem_flatten.mp waits
        exact mem_append_right _ (mem_flatten.mpr ⟨other, mem_of_mem_eraseIdx left, inside⟩))
    refine ⟨?_, fewer.positive, fewer.covered⟩
    intro update made
    rcases mem_append.mp made with before | now
    · exact supplied.served update before
    · obtain ⟨bundle, inside, called⟩ := mem_flatMap.mp now
      have flying : bundle ∈ broker.inFlight :=
        mem_append_right _ (mem_flatten.mpr ⟨cycle, waiting, inside⟩)
      exact dispatch_served supplied flying update called

variable (instanceId : Nat)

theorem supplied_modify (change : Instance → Instance)
    (changed : ∀ inst ∈ broker.instances, inst.instanceId = instanceId → ∀ bundle ∈ broker.inFlight,
    (change inst).trackedPid = bundle.pid → (change inst).wanting →
    Covers bundle.needs (change inst).plugin.dataNeeds) : Supplied (broker.modify instanceId change) where
  served := supplied.served
  positive := supplied.positive
  covered bundle flying inst mem tracks wants := by
    obtain ⟨before, held, rfl⟩ := mem_map.mp mem
    split at tracks
    · rename_i named
      rw [if_pos named] at wants ⊢
      exact changed before held named bundle flying tracks wants
    · rename_i other
      rw [if_neg other] at wants ⊢
      exact supplied.covered bundle flying before held tracks wants

theorem supplied_set_pid (pid : Int) {pinned} (steady : Steady broker (.setPid instanceId pid pinned)) :
    Supplied (pluginInstanceSetPid instanceId pid pinned broker) := by
  apply supplied_modify supplied
  intro inst mem named bundle flying tracks wants
  exact steady inst mem named wants bundle flying tracks.symm

theorem supplied_wants {answer} (steady : Steady broker (.wants instanceId answer)) :
    Supplied (broker.modify instanceId fun inst => { inst with wants := answer }) := by
  apply supplied_modify supplied
  intro inst mem named bundle flying tracks wants
  cases answer with
  | true => exact steady rfl inst mem named bundle flying tracks.symm
  | false =>
    -- Whoever still wants data has no wants_update, and wanted it before.
    apply supplied.covered bundle flying inst mem tracks
    rw [Instance.wanting, Bool.or_false] at wants
    rw [Instance.wanting, wants, Bool.true_or]

theorem supplied_loader {event} (steady : Steady broker (.loader event)) :
    Supplied { broker with world := broker.world.step event } where
  served := supplied.served
  positive := supplied.positive
  covered bundle flying inst mem tracks wants := by
    rcases loader_member inst mem with old | ⟨library, named, described, first⟩
    · exact supplied.covered bundle flying inst old tracks wants
    · have above : 0 < inst.plugin.firstPid := by
        rw [← first, tracks]
        exact supplied.positive bundle flying
      rw [Descriptor.firstPid] at above first
      split at above
      · rename_i system
        rw [if_pos system, tracks] at first
        exact steady library inst.plugin named described system bundle flying first
      · exact absurd above (lt_irrefl 0)

theorem supplied_step {activity} (steady : Steady broker activity) : Supplied (broker.step activity) := by
  cases activity with
  | start audio started => exact supplied_start supplied
  | complete answered => exact supplied_complete supplied
  | cancel => exact supplied_fewer supplied none broker.completed (subset_append_right _ _)
  | dispatch index => exact supplied_dispatch supplied
  | setPid instanceId pid pinned => exact supplied_set_pid supplied instanceId pid steady
  | wants instanceId answer => exact supplied_wants supplied instanceId steady
  | widget instanceId =>
    apply supplied_modify supplied
    exact fun inst mem named bundle flying => supplied.covered bundle flying inst mem
  | loader event => exact supplied_loader supplied steady

end

def Broker.Empty (broker : Broker) : Prop := ∃ world, World.Empty world ∧ broker = { world }

theorem supplied_empty (broker : Broker) (empty : broker.Empty) : Supplied broker := by
  obtain ⟨world, -, rfl⟩ := empty
  exact ⟨forall_mem_nil _, forall_mem_nil _, forall_mem_nil _⟩

theorem updates_served (broker : Broker) (reached : Runs.Reachable Broker.Empty Steady Broker.step broker) :
    ∀ update ∈ broker.updates, update.Served := by
  have supplied := Runs.invariant Supplied supplied_empty
    (fun state activity supplied steady => supplied_step supplied steady) broker reached
  exact supplied.served

def abundant (broker : Broker) : Activity → Bool
  | .loader _ => broker.inFlight.isEmpty
  | _ => decide (∀ inst ∈ broker.instances, ∀ bundle ∈ broker.inFlight, Covers bundle.needs inst.plugin.dataNeeds)

theorem abundant_steady (broker : Broker) (activity : Activity) (checked : abundant broker activity) :
    Steady broker activity := by
  cases activity with
  | setPid instanceId pid pinned =>
    intro inst mem _ _ bundle flying _
    exact of_decide_eq_true checked inst mem bundle flying
  | wants instanceId answer =>
    intro _ inst mem _ bundle flying _
    exact of_decide_eq_true checked inst mem bundle flying
  | loader event =>
    intro library plugin _ _ _ bundle flying _
    rw [isEmpty_iff.mp checked] at flying
    exact absurd flying not_mem_nil
  | _ => trivial

def pluginFile (handle : Nat) (needs : UInt32) (wantsUpdate : Bool) : Library :=
  { handle := some handle, descriptor := some { id := some [120], dataNeeds := needs, wantsUpdate := wantsUpdate } }

def twoPlugins (first second : Library) : List Activity :=
  [.loader (.load first [97]), .loader (.load second [98]), .setPid 1 5 false]

def cycleAround (activity : Activity) : List Activity :=
  [.start false true, activity, .complete fun _ => true, .dispatch 0]

def switchedToMore : List Activity :=
  twoPlugins (pluginFile 1 3 false) (pluginFile 2 1 false) ++ cycleAround (.setPid 2 5 false)

theorem updates_served_switched : (switchedToMore.foldl Broker.step {}).updates = [⟨5, 3, ⟨5, 3⟩⟩, ⟨5, 1, ⟨5, 3⟩⟩] ∧
    ∀ update ∈ (switchedToMore.foldl Broker.step {}).updates, update.Served := by
  refine ⟨by decide +kernel, updates_served _ ?_⟩
  refine Runs.reachable_follows abundant abundant_steady switchedToMore {} (.start _ ?_) (by decide +kernel)
  exact ⟨{}, ⟨{}, true, rfl, rfl⟩, rfl⟩

def switchedToLess : List Activity :=
  twoPlugins (pluginFile 1 1 false) (pluginFile 2 2 false) ++ cycleAround (.setPid 2 5 false)

def wantedLater : List Activity :=
  twoPlugins (pluginFile 1 1 false) (pluginFile 2 2 true) ++ [.setPid 2 5 false, .wants 2 false] ++
    cycleAround (.wants 2 true)

theorem update_lacks_needs :
    (Runs.Reachable (· = {}) (fun _ _ => True) Broker.step (switchedToLess.foldl Broker.step {}) ∧
    (switchedToLess.foldl Broker.step {}).updates = [⟨5, 1, ⟨5, 1⟩⟩, ⟨5, 2, ⟨5, 1⟩⟩]) ∧
    (Runs.Reachable (· = {}) (fun _ _ => True) Broker.step (wantedLater.foldl Broker.step {}) ∧
    (wantedLater.foldl Broker.step {}).updates = [⟨5, 1, ⟨5, 1⟩⟩, ⟨5, 2, ⟨5, 1⟩⟩]) ∧
    ¬ (Update.mk 5 2 ⟨5, 1⟩).Served := by
  have run (activities : List Activity) (follows : Runs.follows (fun _ _ => true) Broker.step activities {} = true) :
      Runs.Reachable (· = {}) (fun _ _ => True) Broker.step (activities.foldl Broker.step {}) :=
    Runs.reachable_follows (fun _ _ => true) (fun _ _ _ => trivial) activities ({} : Broker) (.start _ rfl) follows
  refine ⟨⟨run _ (by decide +kernel), by decide +kernel⟩, ⟨run _ (by decide +kernel), by decide +kernel⟩, ?_⟩
  intro served
  exact absurd served.gathered (by decide +kernel)

end Evemon.Loader
