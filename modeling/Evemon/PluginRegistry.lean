import Evemon.Lib.CText

-- The registry of plugin instances, and the library handles that its functions open, copy
-- and close.
namespace Evemon.Loader

open CText

inductive Role where
  | process
  | service
  | system
deriving DecidableEq

def pluginAbiVersion : Nat := 1

-- A callback is there or not. What wants_update answers changes over time and is kept with
-- the instance.
structure Descriptor where
  id : Option Text
  abiVersion : Nat := pluginAbiVersion
  role : Role := .process
  dataNeeds : UInt32 := 0
  activate : Bool := true
  createWidget : Bool := true
  update : Bool := true
  wantsUpdate : Bool := false
  dependencies : List Text := []
deriving DecidableEq

structure Instance where
  instanceId : Nat
  plugin : Descriptor
  handle : Nat
  widget : Bool
  trackedPid : Int
  pinned : Bool := false
  soPath : Text
  isActive : Bool := true
  wants : Bool := true

structure Registry where
  instances : List Instance := []
  combinedNeeds : UInt32 := 0
  nextInstanceId : Nat := 1

-- Ghost: the counts of successful dlopen and of dlclose calls, `activated`, the calls of activate,
-- and `dangling`: a reload has closed a handle that a remaining instance uses. `ended` after
-- plugin_registry_destroy.
structure World where
  registry : Registry := {}
  hostServices : Bool := true
  opens : Nat → Nat := fun _ => 0
  closes : Nat → Nat := fun _ => 0
  dangling : Bool := false
  ended : Bool := false
  activated : List Descriptor := []

-- A registry without plugins, with or without host services.
def World.Empty (world : World) : Prop :=
  ∃ registry hostServices, registry.instances = [] ∧ world = { registry, hostServices }

def World.dlopen (handle : Nat) (world : World) : World :=
  { world with opens := Function.update world.opens handle (world.opens handle + 1) }

def World.dlclose (handle : Nat) (world : World) : World :=
  { world with closes := Function.update world.closes handle (world.closes handle + 1) }

-- What the file system, the dynamic linker, the settings and the plugin itself answer while
-- one plugin is loaded.
structure Library where
  trusted : Bool := true
  manifestId : Option Text := none
  built : Text → Bool := fun _ => true
  enabled : Text → Bool := fun _ => true
  handle : Option Nat
  initFn : Bool := true
  descriptor : Option Descriptor
  allocated : Bool := true
  widget : Bool := true
  shuttingDown : Bool := false

def Descriptor.complete (plugin : Descriptor) : Bool :=
  match plugin.role with
  | .service => plugin.activate
  | _ => plugin.createWidget && plugin.update

def Descriptor.firstPid (plugin : Descriptor) : Int := if plugin.role = .system then 1 else 0

def World.number (world : World) : World :=
  { world with registry := { world.registry with nextInstanceId := world.registry.nextInstanceId + 1 } }

def World.register (plugin : Descriptor) (handle : Nat) (widget : Bool) (soPath : Text) (world : World) : World :=
  { world with
    registry :=
      { instances := world.registry.instances ++
          [{ instanceId := world.registry.nextInstanceId, plugin := plugin, handle := handle, widget := widget,
             trackedPid := plugin.firstPid, soPath := soPath }]
        combinedNeeds := world.registry.combinedNeeds ||| plugin.dataNeeds
        nextInstanceId := world.registry.nextInstanceId + 1 } }

def World.activatePlugin (plugin : Descriptor) (world : World) : World :=
  if plugin.activate && world.hostServices then { world with activated := world.activated ++ [plugin] } else world

def unwanted (wanted : Text → Bool) (id : Option Text) : Bool := id.any fun name => !wanted name

def loadSinglePlugin (library : Library) (path : Text) (world : World) : Bool × World :=
  if library.trusted = false then (false, world)
  else if unwanted library.built library.manifestId then (true, world)
  else
    match library.handle with
    | none => (false, world)
    | some handle =>
      let opened := world.dlopen handle
      if library.initFn = false then (false, opened.dlclose handle)
      else
        match library.descriptor with
        | none => (false, opened.dlclose handle)
        | some plugin =>
          if plugin.abiVersion ≠ pluginAbiVersion then (false, opened.dlclose handle)
          else if unwanted library.built plugin.id || unwanted library.enabled plugin.id then
            (true, opened.dlclose handle)
          else if plugin.complete = false then (false, opened.dlclose handle)
          else if library.allocated = false then (false, opened.dlclose handle)
          else if plugin.role ≠ .service ∧ library.widget = false then (false, opened.number.dlclose handle)
          else (true, (opened.register plugin handle (plugin.role ≠ .service) path).activatePlugin plugin)

-- One file of the asynchronous scan: async_scan_worker up to the post, async_loaded_idle, and
-- what it calls, gtk_ui_on_plugin_loaded_gtk.
def asyncLoadPlugin (library : Library) (cancelled : Bool) (path : Text) (world : World) : World :=
  if library.trusted = false then world
  else if unwanted library.built library.manifestId then world
  else
    match library.handle with
    | none => world
    | some handle =>
      let opened := world.dlopen handle
      if library.initFn = false then opened.dlclose handle
      else
        match library.descriptor with
        | none => opened.dlclose handle
        | some plugin =>
          if plugin.abiVersion ≠ pluginAbiVersion then opened.dlclose handle
          else if unwanted library.built plugin.id then opened.dlclose handle
          else if plugin.complete = false then opened.dlclose handle
          else if cancelled || unwanted library.enabled plugin.id || !library.allocated then opened.dlclose handle
          else
            let shown := !library.shuttingDown && (plugin.role = .service || library.widget)
            let registered := opened.register plugin handle (shown && plugin.role ≠ .service) path
            if shown then registered.activatePlugin plugin else registered

def pluginInstanceCreate (library : Library) (pluginId : Text) (world : World) : World :=
  match world.registry.instances.find? fun inst => inst.plugin.id = some pluginId with
  | none => world
  | some found =>
    if library.initFn = false then world
    else
      match library.descriptor with
      | none => world
      | some plugin =>
        if library.allocated = false then world
        else if plugin.role ≠ .service ∧ library.widget = false then world.number
        else (world.register plugin found.handle (plugin.role ≠ .service) []).activatePlugin plugin

def recalcNeeds (instances : List Instance) : UInt32 :=
  instances.foldl (fun needs inst => needs ||| inst.plugin.dataNeeds) 0

def Registry.remove (instanceId : Nat) (registry : Registry) : Registry :=
  if registry.instances.any fun inst => inst.instanceId = instanceId then
    let left := registry.instances.eraseP fun inst => inst.instanceId = instanceId
    { registry with instances := left, combinedNeeds := recalcNeeds left }
  else registry

def pluginInstanceDestroy (instanceId : Nat) (world : World) : World :=
  { world with registry := world.registry.remove instanceId }

def reloadMax : Nat := 256

def fromPath (path : Text) (registry : Registry) : List Instance :=
  registry.instances.filter fun inst => inst.soPath = path

-- The instances of the file are destroyed by their numbers, as many as fit the array.
def unload (path : Text) (registry : Registry) : Registry :=
  (((fromPath path registry).take reloadMax).map Instance.instanceId).foldl
    (fun left instanceId => left.remove instanceId) registry

def World.closeReloaded (path : Text) (world : World) : World :=
  let left := unload path world.registry
  match (fromPath path world.registry).head? with
  | none => { world with registry := left }
  | some first =>
    World.dlclose first.handle
      { world with
        registry := left
        dangling := world.dangling || left.instances.any fun inst => inst.handle = first.handle }

def pluginReload (library : Library) (path : Text) (world : World) : Bool × World :=
  loadSinglePlugin library path (world.closeReloaded path)

-- The menu item of a plugin file. A file whose plugin id is unknown is opened once more to
-- ask for it.
def onPluginToggled (active : Bool) (asked : Option Nat) (library : Library) (path : Text) (world : World) : World :=
  if path = [] then world
  else if active then
    let told := match asked with
      | none => world
      | some handle => (world.dlopen handle).dlclose handle
    (pluginReload library path told).2
  else world.closeReloaded path

def pluginRegistryDestroy (allocated : Bool) (world : World) : World :=
  let handles := world.registry.instances.map Instance.handle
  let closed := (if allocated then handles.dedup else handles).foldl (fun world handle => world.dlclose handle) world
  { closed with registry := { nextInstanceId := world.registry.nextInstanceId }, ended := true }

inductive Event where
  | load (library : Library) (path : Text)
  | asyncLoad (library : Library) (cancelled : Bool) (path : Text)
  | create (library : Library) (pluginId : Text)
  | destroy (instanceId : Nat)
  | reload (library : Library) (path : Text)
  | toggle (active : Bool) (asked : Option Nat) (library : Library) (path : Text)
  | registryDestroy (allocated : Bool)

def World.step (world : World) : Event → World
  | .load library path => (loadSinglePlugin library path world).2
  | .asyncLoad library cancelled path => asyncLoadPlugin library cancelled path world
  | .create library pluginId => pluginInstanceCreate library pluginId world
  | .destroy instanceId => pluginInstanceDestroy instanceId world
  | .reload library path => (pluginReload library path world).2
  | .toggle active asked library path => onPluginToggled active asked library path world
  | .registryDestroy allocated => pluginRegistryDestroy allocated world

end Evemon.Loader
