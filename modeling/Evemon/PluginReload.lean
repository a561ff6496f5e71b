import Evemon.Lib.Runs
import Evemon.PluginRegistry

-- Handles and the instances that use them: a handle is closed once, when no instance is left
-- that uses it.
namespace Evemon.Loader

open CText List Function

def Registry.handles (registry : Registry) : List Nat := registry.instances.map Instance.handle

structure Settled (world : World) : Prop where
  safe : world.dangling = false
  balanced : world.ended = true → ∀ handle, world.opens handle = world.closes handle

def Fresh (library : Library) (path : Text) (registry : Registry) : Prop :=
  ∀ handle, library.handle = some handle → ∀ inst ∈ registry.instances, inst.handle = handle → inst.soPath = path

structure Whole (path : Text) (registry : Registry) : Prop where
  few : (fromPath path registry).length ≤ reloadMax
  one : ∀ first ∈ fromPath path registry, ∀ second ∈ fromPath path registry, first.handle = second.handle
  own : ∀ first ∈ fromPath path registry, ∀ inst ∈ registry.instances, inst.handle = first.handle → inst.soPath = path

def Tidy (world : World) : Event → Prop
  | .load library _ => ∀ handle, library.handle = some handle → handle ∉ world.registry.handles
  | .asyncLoad library _ _ => ∀ handle, library.handle = some handle → handle ∉ world.registry.handles
  | .create _ _ => True
  | .destroy instanceId =>
    ∀ inst ∈ world.registry.instances, inst.instanceId = instanceId →
      ∃ other ∈ world.registry.instances, other.instanceId ≠ instanceId ∧ other.handle = inst.handle
  | .reload library path => Whole path world.registry ∧ Fresh library path world.registry
  | .toggle _ _ library path => Whole path world.registry ∧ Fresh library path world.registry
  | .registryDestroy allocated => allocated = true ∨ world.registry.handles.Nodup

structure Accounted (world : World) : Prop where
  safe : world.dangling = false
  distinct : (world.registry.instances.map Instance.instanceId).Nodup
  numbered : ∀ inst ∈ world.registry.instances, inst.instanceId < world.registry.nextInstanceId
  held : ∀ handle ∈ world.registry.handles, world.opens handle = world.closes handle + 1
  dropped : ∀ handle ∉ world.registry.handles, world.opens handle = world.closes handle
  emptied : world.ended = true → world.registry.instances = []

theorem accounted_settled (world : World) (accounted : Accounted world) : Settled world where
  safe := accounted.safe
  balanced ended handle := by
    apply accounted.dropped handle
    rw [Registry.handles, accounted.emptied ended]
    exact not_mem_nil

section

variable {world : World} (accounted : Accounted world)

include accounted

variable (plugin : Descriptor) (handle : Nat)

theorem accounted_open_close : Accounted ((world.dlopen handle).dlclose handle) := by
  have both (other : Nat) (more : Nat) (before : world.opens other = world.closes other + more) :
      ((world.dlopen handle).dlclose handle).opens other = ((world.dlopen handle).dlclose handle).closes other + more := by
    by_cases same : other = handle
    · subst same
      simp only [World.dlclose, World.dlopen, update_self]
      omega
    · simp only [World.dlclose, World.dlopen, update_of_ne same]
      exact before
  exact ⟨accounted.safe, accounted.distinct, accounted.numbered, fun other used => both other 1 (accounted.held other used),
    fun other unused => both other 0 (accounted.dropped other unused), accounted.emptied⟩

theorem accounted_number : Accounted world.number :=
  ⟨accounted.safe, accounted.distinct, fun inst mem => Nat.lt_succ_of_lt (accounted.numbered inst mem),
    accounted.held, accounted.dropped, accounted.emptied⟩

theorem accounted_activate : Accounted (world.activatePlugin plugin) := by
  unfold World.activatePlugin
  split
  · exact ⟨accounted.safe, accounted.distinct, accounted.numbered, accounted.held, accounted.dropped, accounted.emptied⟩
  · exact accounted

variable (widget : Bool)

theorem register_distinct (path : Text) :
    ((world.register plugin handle widget path).registry.instances.map Instance.instanceId).Nodup := by
  simp only [World.register]
  rw [map_append]
  refine accounted.distinct.append (nodup_singleton _) (disjoint_singleton.mpr fun mem => ?_)
  obtain ⟨inst, held, same⟩ := mem_map.mp mem
  exact Nat.ne_of_lt (accounted.numbered inst held) same

theorem register_numbered (path : Text) : ∀ inst ∈ (world.register plugin handle widget path).registry.instances,
    inst.instanceId < (world.register plugin handle widget path).registry.nextInstanceId := by
  intro inst mem
  rcases mem_append.mp mem with old | _ | ⟨_, ⟨⟩⟩
  · exact Nat.lt_succ_of_lt (accounted.numbered inst old)
  · exact Nat.lt_succ_self _

omit accounted in
theorem register_handles (plugin : Descriptor) (handle : Nat) (widget : Bool) (path : Text) :
    (world.register plugin handle widget path).registry.handles = world.registry.handles ++ [handle] := by
  simp [World.register, Registry.handles]

theorem accounted_open_register (running : world.ended = false) {handle : Nat}
    (unused : handle ∉ world.registry.handles) {plugin} {widget} {path} :
    Accounted ((world.dlopen handle).register plugin handle widget path) where
  safe := accounted.safe
  distinct := register_distinct accounted plugin handle widget path
  numbered := register_numbered accounted plugin handle widget path
  held other used := by
    rw [register_handles, mem_append, mem_singleton] at used
    by_cases same : other = handle
    · subst same
      have before := accounted.dropped other unused
      simp only [World.register, World.dlopen, update_self]
      omega
    · simp only [World.register, World.dlopen, update_of_ne same]
      exact accounted.held other (used.resolve_right same)
  dropped other absent := by
    rw [register_handles, mem_append, mem_singleton, not_or] at absent
    simp only [World.register, World.dlopen, update_of_ne absent.2]
    exact accounted.dropped other absent.1
  emptied ended := absurd (running.symm.trans ended) (by decide)

theorem accounted_share (running : world.ended = false) {handle : Nat} (used : handle ∈ world.registry.handles)
    {plugin} {widget} (path : Text) : Accounted (world.register plugin handle widget path) where
  safe := accounted.safe
  distinct := register_distinct accounted plugin handle widget path
  numbered := register_numbered accounted plugin handle widget path
  held other mem := by
    rw [register_handles, mem_append, mem_singleton] at mem
    rcases mem with old | rfl
    · exact accounted.held other old
    · exact accounted.held other used
  dropped other absent := by
    rw [register_handles, mem_append, mem_singleton, not_or] at absent
    exact accounted.dropped other absent.1
  emptied ended := absurd (running.symm.trans ended) (by decide)

end

section

variable (library : Library)

inductive Loaded (path : Text) (world : World) : World → Prop where
  | same : Loaded path world world
  | refused (handle : Nat) : Loaded path world ((world.dlopen handle).dlclose handle)
  | numbered (handle : Nat) : Loaded path world ((world.dlopen handle).dlclose handle).number
  | hidden (handle : Nat) (plugin : Descriptor) (widget : Bool) (found : library.handle = some handle)
      (described : library.descriptor = some plugin) :
      Loaded path world ((world.dlopen handle).register plugin handle widget path)
  | shown (handle : Nat) (plugin : Descriptor) (widget : Bool) (found : library.handle = some handle)
      (described : library.descriptor = some plugin) :
      Loaded path world (((world.dlopen handle).register plugin handle widget path).activatePlugin plugin)

theorem load_loaded (path : Text) (world : World) : Loaded library path world (loadSinglePlugin library path world).2 := by
  unfold loadSinglePlugin
  iterate 2
    split
    · exact .same
  cases found : library.handle with
  | none => exact .same
  | some handle =>
    simp only
    split
    · exact .refused handle
    cases described : library.descriptor with
    | none => exact .refused handle
    | some plugin =>
      simp only
      iterate 4
        split
        · exact .refused handle
      split
      · exact .numbered handle
      · exact .shown handle plugin _ found described

theorem async_load_loaded (cancelled : Bool) (path : Text) (world : World) :
    Loaded library path world (asyncLoadPlugin library cancelled path world) := by
  unfold asyncLoadPlugin
  iterate 2
    split
    · exact .same
  cases found : library.handle with
  | none => exact .same
  | some handle =>
    simp only
    split
    · exact .refused handle
    cases described : library.descriptor with
    | none => exact .refused handle
    | some plugin =>
      simp only
      iterate 4
        split
        · exact .refused handle
      split
      · exact .shown handle plugin _ found described
      · exact .hidden handle plugin _ found described

theorem accounted_loaded {path} {world after} (loaded : Loaded library path world after)
    (accounted : Accounted world) (running : world.ended = false)
    (fresh : ∀ handle, library.handle = some handle → handle ∉ world.registry.handles) : Accounted after := by
  cases loaded with
  | same => exact accounted
  | refused handle => exact accounted_open_close accounted handle
  | numbered handle => exact accounted_number (accounted_open_close accounted handle)
  | hidden handle plugin widget found =>
    exact accounted_open_register accounted running (fresh handle found)
  | shown handle plugin widget found =>
    apply accounted_activate
    exact accounted_open_register accounted running (fresh handle found)

theorem accounted_create {pluginId} {world} (accounted : Accounted world)
    (running : world.ended = false) : Accounted (pluginInstanceCreate library pluginId world) := by
  unfold pluginInstanceCreate
  cases found : world.registry.instances.find? fun inst => inst.plugin.id = some pluginId with
  | none => exact accounted
  | some inst =>
    have used : inst.handle ∈ world.registry.handles := mem_map_of_mem (mem_of_find?_eq_some found)
    simp only
    split
    · exact accounted
    cases library.descriptor with
    | none => exact accounted
    | some plugin =>
      simp only
      split
      · exact accounted
      split
      · exact accounted_number accounted
      · apply accounted_activate
        exact accounted_share accounted running used []

end

theorem erase_distinct {instanceId : Nat} {instances : List Instance}
    (distinct : (instances.map Instance.instanceId).Nodup) :
    (instances.eraseP fun inst => inst.instanceId = instanceId) =
    instances.filter fun inst => inst.instanceId ≠ instanceId := by
  induction instances with
  | nil => rfl
  | cons inst rest ih =>
    rw [map_cons, nodup_cons] at distinct
    by_cases here : inst.instanceId = instanceId
    · have others : ∀ other ∈ rest, other.instanceId ≠ instanceId :=
        fun other mem same => distinct.1 (mem_map.mpr ⟨other, mem, same.trans here.symm⟩)
      rw [eraseP_cons_of_pos (by simpa using here), filter_cons_of_neg (by simpa using here),
        filter_eq_self.mpr (by simpa using others)]
    · rw [eraseP_cons_of_neg (by simpa using here), filter_cons_of_pos (by simpa using here), ih distinct.2]

variable (instanceId : Nat)

theorem remove_instances {registry : Registry} (distinct : (registry.instances.map Instance.instanceId).Nodup) :
    (registry.remove instanceId).instances = registry.instances.filter fun inst => inst.instanceId ≠ instanceId := by
  unfold Registry.remove
  split
  · exact erase_distinct distinct
  · rename_i absent
    refine (filter_eq_self.mpr fun inst mem => ?_).symm
    simp only [any_eq_true, decide_eq_true_eq, not_exists, not_and] at absent
    simpa using absent inst mem

theorem remove_next (registry : Registry) : (registry.remove instanceId).nextInstanceId = registry.nextInstanceId := by
  unfold Registry.remove
  split <;> rfl

variable (ids : List Nat)

theorem remove_all_instances (registry : Registry) (distinct : (registry.instances.map Instance.instanceId).Nodup) :
    (ids.foldl (fun left instanceId => left.remove instanceId) registry).instances =
    registry.instances.filter fun inst => inst.instanceId ∉ ids := by
  induction ids generalizing registry with
  | nil => simp
  | cons instanceId rest ih =>
    have left := remove_instances instanceId distinct
    have kept : ((registry.remove instanceId).instances.map Instance.instanceId).Nodup := by
      rw [left]
      exact distinct.sublist (List.Sublist.map _ filter_sublist)
    rw [foldl_cons, ih _ kept, left, filter_filter]
    congr 1
    funext inst
    simp [Bool.and_comm]

theorem remove_all_next (registry : Registry) :
    (ids.foldl (fun left instanceId => left.remove instanceId) registry).nextInstanceId = registry.nextInstanceId := by
  induction ids generalizing registry with
  | nil => rfl
  | cons instanceId rest ih => rw [foldl_cons, ih, remove_next]

theorem unload_instances {path} {registry : Registry}
    (distinct : (registry.instances.map Instance.instanceId).Nodup) (few : (fromPath path registry).length ≤ reloadMax) :
    (unload path registry).instances = registry.instances.filter fun inst => inst.soPath ≠ path := by
  rw [unload, take_of_length_le few, remove_all_instances _ registry distinct]
  refine filter_congr fun inst mem => ?_
  rw [decide_eq_decide, not_iff_not]
  constructor
  · intro named
    obtain ⟨other, found, same⟩ := mem_map.mp named
    obtain ⟨held, ofPath⟩ := mem_filter.mp found
    have equal := inj_on_of_nodup_map distinct held mem same
    rw [← equal]
    simpa using ofPath
  · intro ofPath
    exact mem_map.mpr ⟨inst, mem_filter.mpr ⟨mem, by simpa using ofPath⟩, rfl⟩

theorem accounted_fewer {world after : World} (accounted : Accounted world)
    (sublist : after.registry.instances.Sublist world.registry.instances)
    (next : after.registry.nextInstanceId = world.registry.nextInstanceId) (ended : after.ended = world.ended)
    (safe : after.dangling = false)
    (held : ∀ handle ∈ after.registry.handles, after.opens handle = after.closes handle + 1)
    (dropped : ∀ handle ∉ after.registry.handles, after.opens handle = after.closes handle) : Accounted after where
  safe := safe
  distinct := accounted.distinct.sublist (sublist.map _)
  numbered inst mem := by
    rw [next]
    exact accounted.numbered inst (sublist.subset mem)
  held := held
  dropped := dropped
  emptied finished := by
    rw [ended] at finished
    have nothing := accounted.emptied finished
    rw [nothing] at sublist
    exact sublist_nil.mp sublist

theorem accounted_destroy {world} (accounted : Accounted world) (tidy : Tidy world (.destroy instanceId)) :
    Accounted (pluginInstanceDestroy instanceId world) := by
  have left : (pluginInstanceDestroy instanceId world).registry.instances =
      world.registry.instances.filter fun inst => inst.instanceId ≠ instanceId :=
    remove_instances instanceId accounted.distinct
  have handles (handle : Nat) : handle ∈ (pluginInstanceDestroy instanceId world).registry.handles ↔
      handle ∈ world.registry.handles := by
    simp only [Registry.handles, left, mem_map, mem_filter, decide_eq_true_eq]
    constructor
    · rintro ⟨inst, ⟨mem, -⟩, same⟩
      exact ⟨inst, mem, same⟩
    · rintro ⟨inst, mem, same⟩
      by_cases named : inst.instanceId = instanceId
      · obtain ⟨other, held, different, shared⟩ := tidy inst mem named
        exact ⟨other, ⟨held, different⟩, shared.trans same⟩
      · exact ⟨inst, ⟨mem, named⟩, same⟩
  refine accounted_fewer accounted ?_ (remove_next instanceId world.registry) rfl accounted.safe ?_ ?_
  · rw [left]
    exact filter_sublist
  · exact fun handle used => accounted.held handle ((handles handle).mp used)
  · exact fun handle unused => accounted.dropped handle fun used => unused ((handles handle).mpr used)

section

variable {path : Text} {world : World} (accounted : Accounted world) (whole : Whole path world.registry)

include accounted whole

theorem close_reloaded_instances :
    (world.closeReloaded path).registry.instances = world.registry.instances.filter fun inst => inst.soPath ≠ path := by
  rw [World.closeReloaded]
  cases (fromPath path world.registry).head? <;> exact unload_instances accounted.distinct whole.few

theorem close_reloaded_handles {first : Instance} (found : first ∈ fromPath path world.registry) (handle : Nat) :
    handle ∈ (world.closeReloaded path).registry.handles ↔ handle ∈ world.registry.handles ∧ handle ≠ first.handle := by
  simp only [Registry.handles, close_reloaded_instances accounted whole, mem_map, mem_filter, decide_eq_true_eq]
  constructor
  · rintro ⟨inst, ⟨mem, other⟩, rfl⟩
    exact ⟨⟨inst, mem, rfl⟩, fun same => other (whole.own first found inst mem same)⟩
  · rintro ⟨⟨inst, mem, rfl⟩, different⟩
    refine ⟨inst, ⟨mem, fun ofPath => different ?_⟩, rfl⟩
    exact whole.one inst (mem_filter.mpr ⟨mem, by simpa using ofPath⟩) first found

theorem accounted_close_reloaded : Accounted (world.closeReloaded path) := by
  have left := close_reloaded_instances accounted whole
  have sublist : (world.closeReloaded path).registry.instances.Sublist world.registry.instances := by
    rw [left]
    exact filter_sublist
  have next : (world.closeReloaded path).registry.nextInstanceId = world.registry.nextInstanceId := by
    rw [World.closeReloaded]
    cases (fromPath path world.registry).head? <;> exact remove_all_next _ world.registry
  cases head : (fromPath path world.registry).head? with
  | none =>
    have nothing : fromPath path world.registry = [] := List.head?_eq_none_iff.mp head
    have same : (world.closeReloaded path).registry.instances = world.registry.instances := by
      rw [left]
      refine filter_eq_self.mpr fun inst mem => ?_
      by_contra ofPath
      have found : inst ∈ fromPath path world.registry := mem_filter.mpr ⟨mem, by simpa using ofPath⟩
      rw [nothing] at found
      cases found
    have handles : (world.closeReloaded path).registry.handles = world.registry.handles :=
      congrArg (List.map Instance.handle) same
    refine accounted_fewer accounted sublist next ?_ ?_ ?_ ?_ <;>
      simp only [World.closeReloaded, head] at handles ⊢
    · exact accounted.safe
    · rw [handles]
      exact accounted.held
    · rw [handles]
      exact accounted.dropped
  | some first =>
    have found : first ∈ fromPath path world.registry := mem_of_head? head
    have used : first.handle ∈ world.registry.handles := mem_map_of_mem (mem_filter.mp found).1
    have handles := close_reloaded_handles accounted whole found
    have nobody : ((unload path world.registry).instances.any fun inst => inst.handle = first.handle) = false := by
      rw [any_eq_false]
      intro inst mem same
      have still : inst.handle ∈ (world.closeReloaded path).registry.handles := by
        rw [Registry.handles, left, ← unload_instances accounted.distinct whole.few]
        exact mem_map_of_mem mem
      exact ((handles inst.handle).mp still).2 (by simpa using same)
    refine accounted_fewer accounted sublist next ?_ ?_ (fun handle still => ?_) (fun handle gone => ?_)
    · simp only [World.closeReloaded, head, World.dlclose]
    · simp only [World.closeReloaded, head, World.dlclose, nobody, accounted.safe, Bool.or_false]
    · obtain ⟨before, different⟩ := (handles handle).mp still
      simp only [World.closeReloaded, head, World.dlclose, update_of_ne different]
      exact accounted.held handle before
    · by_cases same : handle = first.handle
      · subst same
        simp only [World.closeReloaded, head, World.dlclose, update_self]
        exact accounted.held first.handle used
      · have unused : handle ∉ world.registry.handles := fun before => gone ((handles handle).mpr ⟨before, same⟩)
        simp only [World.closeReloaded, head, World.dlclose, update_of_ne same]
        exact accounted.dropped handle unused

theorem accounted_reload (running : world.ended = false) {library} (fresh : Fresh library path world.registry) :
    Accounted (pluginReload library path world).2 := by
  have stopped : (world.closeReloaded path).ended = world.ended := by
    rw [World.closeReloaded]
    cases (fromPath path world.registry).head? <;> rfl
  apply accounted_loaded library (load_loaded library path _) (accounted_close_reloaded accounted whole)
    (stopped.trans running)
  intro handle given used
  rw [Registry.handles, close_reloaded_instances accounted whole] at used
  obtain ⟨inst, mem, same⟩ := mem_map.mp used
  obtain ⟨held, other⟩ := mem_filter.mp mem
  have elsewhere : inst.soPath ≠ path := by simpa using other
  exact elsewhere (fresh handle given inst held same)

end

variable (handles : List Nat)

theorem closes_all (world : World) (handle : Nat) :
    (handles.foldl (fun world handle => world.dlclose handle) world).closes handle =
    world.closes handle + handles.count handle := by
  induction handles generalizing world with
  | nil => rfl
  | cons first rest ih =>
    rw [foldl_cons, ih, count_cons, World.dlclose]
    by_cases same : handle = first
    · subst same
      simp only [update_self, beq_self_eq_true, if_true]
      omega
    · simp only [update_of_ne same, beq_iff_eq, Ne.symm same, if_false]
      rfl

theorem opens_all (world : World) :
    (handles.foldl (fun world handle => world.dlclose handle) world).opens = world.opens ∧
    (handles.foldl (fun world handle => world.dlclose handle) world).dangling = world.dangling := by
  induction handles generalizing world with
  | nil => exact ⟨rfl, rfl⟩
  | cons first rest ih => exact ih (world.dlclose first)

theorem accounted_registry_destroy {allocated} {world} (accounted : Accounted world)
    (tidy : Tidy world (.registryDestroy allocated)) : Accounted (pluginRegistryDestroy allocated world) := by
  have once (handle : Nat) : (if allocated then world.registry.handles.dedup else world.registry.handles).count handle =
      if handle ∈ world.registry.handles then 1 else 0 := by
    rcases tidy with known | distinct
    · rw [known, if_pos rfl, count_dedup]
    · rw [distinct.dedup, ite_self, List.Nodup.count distinct]
  constructor
  · exact (opens_all _ world).2.trans accounted.safe
  · exact nodup_nil
  · exact forall_mem_nil _
  · exact forall_mem_nil _
  · intro handle _
    have closed := closes_all (if allocated then world.registry.handles.dedup else world.registry.handles) world handle
    have opened := congrFun (opens_all (if allocated then world.registry.handles.dedup else world.registry.handles)
      world).1 handle
    by_cases used : handle ∈ world.registry.handles
    · rw [once, if_pos used] at closed
      exact opened.trans ((accounted.held handle used).trans closed.symm)
    · rw [once, if_neg used] at closed
      exact opened.trans ((accounted.dropped handle used).trans closed.symm)
  · exact fun _ => rfl

theorem accounted_step {world} {event} (accounted : Accounted world) (running : world.ended = false)
    (tidy : Tidy world event) : Accounted (world.step event) := by
  cases event with
  | load library path => exact accounted_loaded library (load_loaded library path world) accounted running tidy
  | asyncLoad library cancelled path =>
    exact accounted_loaded library (async_load_loaded library cancelled path world) accounted running tidy
  | create library pluginId => exact accounted_create library accounted running
  | destroy instanceId => exact accounted_destroy instanceId accounted tidy
  | reload library path => exact accounted_reload accounted tidy.1 running tidy.2
  | toggle active asked library path =>
    simp only [World.step, onPluginToggled]
    split
    · exact accounted
    split
    · cases asked with
      | none => exact accounted_reload accounted tidy.1 running tidy.2
      | some handle =>
        have told := accounted_open_close accounted handle
        exact accounted_reload told tidy.1 running tidy.2
    · exact accounted_close_reloaded accounted tidy.1
  | registryDestroy allocated => exact accounted_registry_destroy accounted tidy

theorem accounted_start {world : World} (empty : world.Empty) : Accounted world := by
  obtain ⟨⟨_, needs, next⟩, services, rfl, rfl⟩ := empty
  exact ⟨rfl, nodup_nil, forall_mem_nil _, forall_mem_nil _, fun _ _ => rfl, fun _ => rfl⟩

theorem handles_settled (world : World)
    (reached : Runs.Reachable World.Empty (fun world event => world.ended = false ∧ Tidy world event) World.step world) :
    Settled world := by
  apply accounted_settled
  exact Runs.invariant Accounted (fun _ => accounted_start)
    (fun state event accounted taken => accounted_step accounted taken.1 taken.2) world reached

def plainLibrary : Library := { handle := some 1, descriptor := some { id := some [120] } }

def loadedOnce : World := ({} : World).step (.load plainLibrary [97])

theorem handles_settled_reload_and_copy :
    Settled (((loadedOnce.step (.reload plainLibrary [97])).step (.create plainLibrary [120])).step
    (.registryDestroy true)) := by
  refine handles_settled _ (.step _ _ (.step _ _ (.step _ _ (.step _ _ (.start _ ⟨{}, true, rfl, rfl⟩) ⟨rfl, ?_⟩) ⟨rfl, ⟨?_, ?_⟩⟩)
    ⟨rfl, trivial⟩) ⟨rfl, .inl rfl⟩)
  · intro handle _
    exact not_mem_nil
  · exact ⟨by decide +kernel, by decide +kernel, by decide +kernel⟩
  · have only : ∀ inst ∈ loadedOnce.registry.instances, inst.soPath = [97] := by decide +kernel
    exact fun _ _ inst mem _ => only inst mem

theorem reload_leaves_instance : (Runs.Reachable (· = {}) (fun world _ => world.ended = false) World.step
    ((loadedOnce.step (.create plainLibrary [120])).step (.reload plainLibrary [97])) ∧
    ((loadedOnce.step (.create plainLibrary [120])).step (.reload plainLibrary [97])).dangling = true) ∧
    Runs.Reachable (· = {}) (fun world _ => world.ended = false) World.step
    ((loadedOnce.step (.destroy 1)).step (.registryDestroy true)) ∧
    ((loadedOnce.step (.destroy 1)).step (.registryDestroy true)).ended = true ∧
    ((loadedOnce.step (.destroy 1)).step (.registryDestroy true)).opens 1 = 1 ∧
    ((loadedOnce.step (.destroy 1)).step (.registryDestroy true)).closes 1 = 0 := by
  have loaded : Runs.Reachable (· = {}) (fun world _ => world.ended = false) World.step loadedOnce :=
    .step _ _ (.start _ rfl) rfl
  refine ⟨⟨.step _ _ (.step _ _ loaded rfl) rfl, ?_⟩, .step _ _ (.step _ _ loaded rfl) rfl, rfl, ?_, ?_⟩
  · decide +kernel
  · decide +kernel
  · decide +kernel

end Evemon.Loader
