import Evemon.PluginRegistry

-- The two scans of the plugin directory, and the order in which they activate plugins.
namespace Evemon.Loader

open CText List

-- A directory entry with what is answered while it is loaded. `cancelled`: the scan is cancelled
-- when the main thread handles the file.
structure Listed where
  name : Text
  library : Library
  cancelled : Bool := false

structure Directory where
  trusted : Bool := true
  opened : Bool := true
  entries : List Listed

def pathSize : Nat := 4096

def soSuffix : Text := [46, 115, 111]

def soPath (dir name : Text) : Option Text :=
  let path := dir ++ 47 :: name
  if name.length < 4 ∨ name.drop (name.length - 3) ≠ soSuffix then none
  else if pathSize ≤ path.length then none
  else some path

def scanEntry (dir : Text) (scanned : Nat × World) (listed : Listed) : Nat × World :=
  match soPath dir listed.name with
  | none => scanned
  | some path =>
    let result := loadSinglePlugin listed.library path scanned.2
    (if result.1 then scanned.1 + 1 else scanned.1, result.2)

def pluginLoaderScan (dir : Text) (directory : Directory) (world : World) : Nat × World :=
  if directory.trusted = false ∨ directory.opened = false then (0, world)
  else directory.entries.foldl (scanEntry dir) (0, world)

def asyncScanEntry (dir : Text) (world : World) (listed : Listed) : World :=
  match soPath dir listed.name with
  | none => world
  | some path => asyncLoadPlugin listed.library listed.cancelled path world

-- The worker reads `read` entries before it sees that the scan is cancelled. Its results are
-- handled on the main thread in the order of the entries.
def asyncScanWorker (dir : Text) (directory : Directory) (read : Nat) (world : World) : World :=
  if directory.trusted = false ∨ directory.opened = false then world
  else (directory.entries.take read).foldl (asyncScanEntry dir) world

def Directory.Present (dir : Text) (directory : Directory) (name : Text) : Prop :=
  ∃ listed ∈ directory.entries, (soPath dir listed.name).isSome = true ∧
    ∃ plugin, listed.library.descriptor = some plugin ∧ plugin.id = some name

def InOrder (present : Text → Prop) (calls : List Descriptor) : Prop :=
  ∀ before plugin after, calls = before ++ plugin :: after →
    ∀ name ∈ plugin.dependencies, present name → ∃ earlier ∈ before, earlier.id = some name

def ListedInOrder (present : Text → Prop) (activation : Listed → Option Descriptor) (entries : List Listed) : Prop :=
  ∀ before listed after, entries = before ++ listed :: after → ∀ plugin, activation listed = some plugin →
    ∀ name ∈ plugin.dependencies, present name →
      ∃ earlier ∈ before, ∃ other, activation earlier = some other ∧ other.id = some name

theorem in_order_filter_map (present : Text → Prop) (activation : Listed → Option Descriptor) (entries : List Listed) :
    InOrder present (entries.filterMap activation) ↔ ListedInOrder present activation entries := by
  constructor
  · intro ordered before listed after split plugin activates name named found
    have calls : entries.filterMap activation = before.filterMap activation ++ plugin :: after.filterMap activation := by
      rw [split, filterMap_append, filterMap_cons_some activates]
    obtain ⟨other, mem, identified⟩ := ordered _ plugin _ calls name named found
    obtain ⟨earlier, listedBefore, activated⟩ := mem_filterMap.mp mem
    exact ⟨earlier, listedBefore, other, activated, identified⟩
  · intro ordered before plugin after calls name named found
    obtain ⟨front, back, rfl, rfl, rest⟩ := filterMap_eq_append_iff.mp calls
    obtain ⟨skipped, listed, later, rfl, nothing, activates, -⟩ := filterMap_eq_cons_iff.mp rest
    obtain ⟨earlier, mem, other, activated, identified⟩ :=
      ordered (front ++ skipped) listed later (by rw [append_assoc]) plugin activates name named found
    rcases mem_append.mp mem with first | second
    · exact ⟨other, mem_filterMap.mpr ⟨earlier, first, activated⟩, identified⟩
    · rw [nothing earlier second] at activated
      cases activated

def Library.activates (library : Library) : Option Descriptor :=
  if library.trusted = false ∨ unwanted library.built library.manifestId = true ∨ library.handle = none ∨
      library.initFn = false then none
  else
    library.descriptor.filter fun plugin =>
      plugin.abiVersion = pluginAbiVersion && !unwanted library.built plugin.id &&
        !unwanted library.enabled plugin.id && plugin.complete && library.allocated &&
        (plugin.role = .service || library.widget) && plugin.activate

def Listed.activates (dir : Text) (listed : Listed) : Option Descriptor :=
  if soPath dir listed.name = none then none else listed.library.activates

def Listed.activatesLater (dir : Text) (listed : Listed) : Option Descriptor :=
  if soPath dir listed.name = none then none
  else if listed.cancelled = true ∨ listed.library.shuttingDown = true then none
  else listed.library.activates

theorem activate_calls (plugin : Descriptor) (world : World) :
    (world.activatePlugin plugin).hostServices = world.hostServices ∧ (world.activatePlugin plugin).activated =
    world.activated ++ if plugin.activate && world.hostServices then [plugin] else [] := by
  unfold World.activatePlugin
  split <;> simp

def Adds (world after : World) (called : Option Descriptor) : Prop :=
  after.hostServices = world.hostServices ∧
    after.activated = world.activated ++ (if world.hostServices then called else none).toList

variable {after : World}

theorem adds_nothing {world : World} (services : after.hostServices = world.hostServices)
    (calls : after.activated = world.activated) : Adds world after none := by
  refine ⟨services, ?_⟩
  rw [calls, ite_self, Option.toList_none, append_nil]

variable {path : Text}

theorem adds_activate {world} {handle} {widget} {plugin} :
    Adds world (((world.dlopen handle).register plugin handle widget path).activatePlugin plugin)
    (if plugin.activate then some plugin else none) := by
  have calls := activate_calls plugin ((world.dlopen handle).register plugin handle widget path)
  refine ⟨calls.1, calls.2.trans ?_⟩
  have same : ((world.dlopen handle).register plugin handle widget path).activated = world.activated := rfl
  have services : ((world.dlopen handle).register plugin handle widget path).hostServices = world.hostServices := rfl
  rw [same, services]
  cases plugin.activate <;> cases world.hostServices <;> rfl

variable {library : Library}

theorem adds_none {world : World} (none : library.activates = none) (services : after.hostServices = world.hostServices)
    (calls : after.activated = world.activated) : Adds world after library.activates := by
  rw [none]
  exact adds_nothing services calls

theorem load_adds {world} : Adds world (loadSinglePlugin library path world).2 library.activates := by
  unfold loadSinglePlugin
  iterate 2
    split
    · exact adds_none (by simp_all [Library.activates]) rfl rfl
  cases opened : library.handle with
  | none => exact adds_none (by simp [Library.activates, opened]) rfl rfl
  | some handle =>
    simp only
    split
    · exact adds_none (by simp_all [Library.activates]) rfl rfl
    cases described : library.descriptor with
    | none => exact adds_none (by simp [Library.activates, described]) rfl rfl
    | some plugin =>
      simp only
      split
      · exact adds_none (by simp_all [Library.activates]) rfl rfl
      split
      · rename_i either
        rcases Bool.or_eq_true _ _ |>.mp either with notBuilt | disabled <;>
          exact adds_none (by simp_all [Library.activates]) rfl rfl
      iterate 3
        split
        · exact adds_none (by simp_all [Library.activates]) rfl rfl
      have activates : library.activates = if plugin.activate then some plugin else none := by
        simp_all [Library.activates, Option.filter, or_iff_not_imp_left]
      rw [activates]
      exact adds_activate

theorem async_load_adds {cancelled} {world} : Adds world (asyncLoadPlugin library cancelled path world)
    (if cancelled ∨ library.shuttingDown then none else library.activates) := by
  have silent (after : World) (services : after.hostServices = world.hostServices)
      (calls : after.activated = world.activated) (none : library.activates = none) :
      Adds world after (if cancelled ∨ library.shuttingDown then Option.none else library.activates) := by
    rw [none, ite_self]
    exact adds_nothing services calls
  unfold asyncLoadPlugin
  iterate 2
    split
    · exact silent _ rfl rfl (by simp_all [Library.activates])
  cases opened : library.handle with
  | none => exact silent _ rfl rfl (by simp [Library.activates, opened])
  | some handle =>
    simp only
    split
    · exact silent _ rfl rfl (by simp_all [Library.activates])
    cases described : library.descriptor with
    | none => exact silent _ rfl rfl (by simp [Library.activates, described])
    | some plugin =>
      simp only
      iterate 3
        split
        · exact silent _ rfl rfl (by simp_all [Library.activates])
      cases cancelled with
      | true =>
        simp only [Bool.true_or, if_true, true_or]
        exact adds_nothing rfl rfl
      | false =>
        split
        · rename_i refused
          simp only [Bool.false_or, Bool.or_eq_true, Bool.not_eq_true'] at refused
          rcases refused with disabled | noMemory <;> exact silent _ rfl rfl (by simp_all [Library.activates])
        cases down : library.shuttingDown with
        | true =>
          simp only [Bool.not_true, Bool.false_and, Bool.false_eq_true, if_false, or_true, if_true]
          exact adds_nothing rfl rfl
        | false =>
          split
          · have activates : library.activates = if plugin.activate then some plugin else none := by
              simp_all [Library.activates, Option.filter]
            simp only [Bool.false_eq_true, or_false, if_false, activates]
            exact adds_activate
          · have none : library.activates = none := by
              simp_all [Library.activates, Option.filter]
            rw [none, ite_self]
            exact adds_nothing rfl rfl

section

variable (dir : Text) {load : World → Listed → World} {called : Listed → Option Descriptor}

theorem adds_all (each : ∀ world listed, Adds world (load world listed) (called listed)) (entries : List Listed)
    (world : World) : (entries.foldl load world).activated =
    world.activated ++ if world.hostServices then entries.filterMap called else [] := by
  induction entries generalizing world with
  | nil => simp
  | cons listed rest ih =>
    obtain ⟨services, calls⟩ := each world listed
    rw [foldl_cons, ih, services, calls, append_assoc]
    congr 1
    cases world.hostServices with
    | false => rfl
    | true => cases added : called listed <;> simp [added]

theorem scan_entry_adds (world : World) (listed : Listed) :
    Adds world (scanEntry dir (0, world) listed).2 (listed.activates dir) := by
  unfold scanEntry Listed.activates
  cases soPath dir listed.name with
  | none => exact adds_nothing rfl rfl
  | some path => exact load_adds

theorem async_scan_entry_adds (world : World) (listed : Listed) :
    Adds world (asyncScanEntry dir world listed) (listed.activatesLater dir) := by
  unfold asyncScanEntry Listed.activatesLater
  cases soPath dir listed.name with
  | none => exact adds_nothing rfl rfl
  | some path => exact async_load_adds

theorem scan_entries {entries : List Listed} (loaded : Nat) (world : World) :
    (entries.foldl (scanEntry dir) (loaded, world)).2 =
    entries.foldl (fun world listed => (scanEntry dir (0, world) listed).2) world := by
  induction entries generalizing loaded world with
  | nil => rfl
  | cons listed rest ih =>
    have same : (scanEntry dir (loaded, world) listed).2 = (scanEntry dir (0, world) listed).2 := by
      unfold scanEntry
      cases soPath dir listed.name <;> rfl
    rw [foldl_cons, foldl_cons, ← same, ← ih]

structure Scanned (directory : Directory) (world : World) : Prop where
  trusted : directory.trusted = true
  opened : directory.opened = true
  services : world.hostServices = true

theorem in_order_nil (present : Text → Prop) : InOrder present [] := by
  intro before plugin after split
  exact absurd split (by simp)

variable (directory : Directory) (world : World) (fresh : world.activated = [])

include fresh

theorem scan_in_order {entries : List Listed} {present : Text → Prop}
    (each : ∀ world listed, Adds world (load world listed) (called listed)) (after : World)
    (done : after = if directory.trusted = false ∨ directory.opened = false then world else entries.foldl load world) :
    InOrder present after.activated ↔ (Scanned directory world → ListedInOrder present called entries) := by
  by_cases unread : directory.trusted = false ∨ directory.opened = false
  · rw [done, if_pos unread, fresh]
    have never : ¬ Scanned directory world := by
      rintro ⟨trusted, opened, -⟩
      simp [trusted, opened] at unread
    exact ⟨fun _ scanned => absurd scanned never, fun _ => in_order_nil present⟩
  · rw [done, if_neg unread, adds_all each, fresh, nil_append]
    cases services : world.hostServices with
    | false =>
      have never : ¬ Scanned directory world := fun scanned => by simp [scanned.services] at services
      exact ⟨fun _ scanned => absurd scanned never, fun _ => in_order_nil present⟩
    | true =>
      have scanned : Scanned directory world := by
        simp only [not_or, Bool.not_eq_false] at unread
        exact ⟨unread.1, unread.2, services⟩
      rw [if_pos rfl, in_order_filter_map]
      exact ⟨fun ordered _ => ordered, fun ordered => ordered scanned⟩

theorem activation_in_order : (InOrder (directory.Present dir) (pluginLoaderScan dir directory world).2.activated ↔
    (Scanned directory world → ListedInOrder (directory.Present dir) (Listed.activates dir) directory.entries)) ∧
    ∀ read, (InOrder (directory.Present dir) (asyncScanWorker dir directory read world).activated ↔
    (Scanned directory world →
    ListedInOrder (directory.Present dir) (Listed.activatesLater dir) (directory.entries.take read))) := by
  constructor
  · apply scan_in_order directory world fresh (scan_entry_adds dir)
    unfold pluginLoaderScan
    split
    · rfl
    · exact scan_entries dir 0 world
  · intro read
    exact scan_in_order directory world fresh (async_scan_entry_adds dir) _ rfl

end

def Directory.Acyclic (directory : Directory) : Prop :=
  ∃ rank : Text → Nat, ∀ listed ∈ directory.entries, ∀ plugin ∈ listed.library.descriptor, ∀ id ∈ plugin.id,
    ∀ name ∈ plugin.dependencies, rank name < rank id

def plainPlugin : Descriptor := { id := some [98] }

def needyPlugin : Descriptor := { id := some [97], dependencies := [[98]] }

def plainFile : Listed := { name := [98, 46, 115, 111], library := { handle := some 1, descriptor := some plainPlugin } }

def needyFile : Listed := { name := [97, 46, 115, 111], library := { handle := some 2, descriptor := some needyPlugin } }

theorem activation_in_order_listed :
    (pluginLoaderScan [] { entries := [plainFile, needyFile] } {}).2.activated = [plainPlugin, needyPlugin] ∧
      InOrder (Directory.Present [] { entries := [plainFile, needyFile] })
        (pluginLoaderScan [] { entries := [plainFile, needyFile] } {}).2.activated := by
  refine ⟨by decide +kernel, (activation_in_order [] { entries := [plainFile, needyFile] } {} rfl).1.mpr fun _ => ?_⟩
  have plain : plainFile.activates [] = some plainPlugin := by decide +kernel
  intro before listed after split plugin activates name named _
  cases before with
  | nil =>
    cases split
    cases plain.symm.trans activates
    exact absurd named not_mem_nil
  | cons first rest =>
    cases rest with
    | nil =>
      cases split
      have needy : needyFile.activates [] = some needyPlugin := by decide +kernel
      cases needy.symm.trans activates
      cases mem_singleton.mp named
      exact ⟨plainFile, mem_singleton_self _, plainPlugin, plain, rfl⟩
    | cons second rest =>
      have lengths := congrArg List.length split
      simp at lengths

theorem dependency_activated_late :
    let directory : Directory := { entries := [needyFile, plainFile] }
    directory.Acyclic ∧ directory.Present [] [98] ∧
      ¬ InOrder (directory.Present []) (pluginLoaderScan [] directory {}).2.activated ∧
      ¬ InOrder (directory.Present []) (asyncScanWorker [] directory 2 {}).activated := by
  intro directory
  have present : directory.Present [] [98] :=
    ⟨plainFile, mem_cons_of_mem _ (mem_singleton_self _), by decide +kernel, plainPlugin, rfl, rfl⟩
  have late : ¬ InOrder (directory.Present []) [needyPlugin, plainPlugin] := by
    intro ordered
    obtain ⟨earlier, mem, -⟩ := ordered [] needyPlugin [plainPlugin] rfl [98] (mem_singleton_self _) present
    exact not_mem_nil mem
  have synchronous : (pluginLoaderScan [] directory {}).2.activated = [needyPlugin, plainPlugin] := by decide +kernel
  have asynchronous : (asyncScanWorker [] directory 2 {}).activated = [needyPlugin, plainPlugin] := by decide +kernel
  refine ⟨⟨fun name => if name = [97] then 1 else 0, by decide +kernel⟩, present, ?_, ?_⟩
  · rw [synchronous]
    exact late
  · rw [asynchronous]
    exact late

end Evemon.Loader
