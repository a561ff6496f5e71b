import Evemon.Lib.Json

-- The settings file: a JSON object read into the settings and written from them, with the process
-- view of each remote host in an object of its own.
namespace Evemon.Settings

open CText Json

def settingsMaxColumns : Nat := 32

def settingsMaxPlugins : Nat := 64

def settingsMaxHotkeys : Nat := 64

def settingsColNameMax : Nat := 64

def settingsPluginIdMax : Nat := 128

def settingsThemeMax : Nat := 128

def settingsHotkeyMax : Nat := 128

def settingsFrontendMax : Nat := 16

def settingsHostMax : Nat := 256

inductive HotkeyMode where
  | gtk
  | macos

structure View where
  preselectedPid : Int := 1
  showAudioOnly : Bool := false
  showCpuIntensive : Bool := false
  showGpuOnly : Bool := false
deriving DecidableEq

structure Plugin where
  id : Text
  enabled : Bool

structure Hotkey where
  action : Text
  binding : Text

-- The tables of the source with their counts are lists. The defaults are those of
-- settings_set_defaults.
structure Settings where
  frontend : Text := []
  theme : Text := []
  fontSize : Int := 9
  detailPanelOpen : Bool := false
  procInfoOpen : Bool := true
  detailPanelPosition : Int := 0
  view : View := {}
  spectroTheme : Int := 0
  systemPanelOpen : Bool := false
  systemPanelPosition : Int := 0
  columns : List Text := []
  plugins : List Plugin := []
  hotkeyMode : HotkeyMode := .gtk
  customHotkeys : List Hotkey := []

def stored (size : Nat) (text : Text) : Text := (cString text).take (size - 1)

def toInt (value : Int) : Int := value.bmod (2 ^ 32)

def readProcessView (view : View) (root : Option Json) : View :=
  let pid := match integerValue (objectGet root (ascii "preselected_pid")) with
    | some value => if 0 ≤ value then toInt value else view.preselectedPid
    | none => view.preselectedPid
  let audio := (booleanValue (objectGet root (ascii "show_audio_only"))).getD view.showAudioOnly
  let cpu := (booleanValue (objectGet root (ascii "show_cpu_intensive"))).getD view.showCpuIntensive
  let gpu := (booleanValue (objectGet root (ascii "show_gpu_only"))).getD view.showGpuOnly
  if gpu then ⟨pid, false, false, gpu⟩
  else if cpu then ⟨pid, false, cpu, gpu⟩
  else ⟨pid, audio, cpu, gpu⟩

def readString (root : Option Json) (key : Text) (size : Nat) (unread : Text) : Text :=
  match stringValue (objectGet root key) with
  | some text => stored size text
  | none => unread

def readBoolean (root : Option Json) (key : Text) (unread : Bool) : Bool :=
  (booleanValue (objectGet root key)).getD unread

def readInteger (root : Option Json) (key : Text) (low high unread : Int) : Int :=
  match integerValue (objectGet root key) with
  | some value => if low ≤ toInt value ∧ toInt value ≤ high then toInt value else unread
  | none => unread

def readColumn (item : Json) : Option Text := (stringValue (some item)).map (stored settingsColNameMax)

def readPlugin (item : Json) : Option Plugin :=
  (stringValue (objectGet (some item) (ascii "id"))).map fun id =>
    ⟨stored settingsPluginIdMax id, (booleanValue (objectGet (some item) (ascii "enabled"))).getD true⟩

def readHotkey (item : Json) : Option Hotkey :=
  match stringValue (objectGet (some item) (ascii "action")), stringValue (objectGet (some item) (ascii "binding")) with
  | some action, some binding => some ⟨stored settingsHotkeyMax action, stored settingsHotkeyMax binding⟩
  | _, _ => none

def readTable {α : Type} (root : Option Json) (key : Text) (limit : Nat) (read : Json → Option α) : List α :=
  match arrayItems (objectGet root key) with
  | some items => (items.take limit).filterMap read
  | none => []

def readHotkeyMode (root : Option Json) : HotkeyMode :=
  match stringValue (objectGet root (ascii "hotkey_mode")) with
  | some mode => if cString mode = ascii "macos" then .macos else .gtk
  | none => .gtk

def readView (host : Text) (root : Option Json) : View :=
  if host = [] then readProcessView {} root
  else readProcessView {} (objectGet (objectGet root (ascii "hosts")) host)

def settingsFromRoot (host : Text) (root : Option Json) : Settings where
  frontend := readString root (ascii "frontend") settingsFrontendMax []
  theme := readString root (ascii "theme") settingsThemeMax []
  fontSize := readInteger root (ascii "font_size") 6 30 9
  detailPanelOpen := readBoolean root (ascii "detail_panel_open") false
  procInfoOpen := readBoolean root (ascii "proc_info_open") true
  detailPanelPosition := readInteger root (ascii "detail_panel_position") 0 3 0
  view := readView host root
  spectroTheme := readInteger root (ascii "spectro_theme") 0 15 0
  systemPanelOpen := readBoolean root (ascii "system_panel_open") false
  systemPanelPosition := readInteger root (ascii "system_panel_position") 0 3 0
  columns := readTable root (ascii "columns") settingsMaxColumns readColumn
  plugins := readTable root (ascii "plugins") settingsMaxPlugins readPlugin
  hotkeyMode := readHotkeyMode root
  customHotkeys := readTable root (ascii "custom_hotkeys") settingsMaxHotkeys readHotkey

-- The settings file and the temporary file beside it, as contents of some type.
structure Disk (File : Type) where
  settings : Option File
  temporary : Option File := none

-- The answers to the calls that settings_save makes. `written` is what a failed write
-- leaves in the temporary file.
structure Answers (File : Type) where
  mkdir : Bool := true
  rootAllocated : Bool := true
  mkstemp : Bool := true
  fchown : Bool := true
  write : Bool := true
  fsync : Bool := true
  close : Bool := true
  rename : Bool := true
  unlink : Bool := true
  written : File

-- The JSON library: which texts it takes for UTF-8, its parser and its printer.
variable {File : Type} (valid : Text → Bool) (load : File → Option Json) (dump : Json → Option File)

def settingsLoadFromFile (host : Text) (file : Option File) : Settings :=
  match file.bind load with
  | some (.object fields) => settingsFromRoot host (some (.object fields))
  | _ => {}

def settingsSelectHost (hostname : Text) (disk : Disk File) : Settings :=
  settingsLoadFromFile load (stored settingsHostMax hostname) disk.settings

def jsonString (text : Text) : Option Json := if valid text then some (.string text) else none

def appearanceFields (s : Settings) : List (Text × Option Json) :=
  [(ascii "frontend", if s.frontend = [] then none else jsonString valid s.frontend),
    (ascii "theme", if s.theme = [] then none else jsonString valid s.theme),
    (ascii "font_size", some (.integer s.fontSize)),
    (ascii "detail_panel_open", some (.bool s.detailPanelOpen)),
    (ascii "proc_info_open", some (.bool s.procInfoOpen)),
    (ascii "detail_panel_position", some (.integer s.detailPanelPosition)),
    (ascii "preselected_pid", some (.integer s.view.preselectedPid)),
    (ascii "show_audio_only", some (.bool s.view.showAudioOnly)),
    (ascii "show_cpu_intensive", some (.bool s.view.showCpuIntensive)),
    (ascii "show_gpu_only", some (.bool s.view.showGpuOnly))]

def viewKeys : List (Text × Json) :=
  [(ascii "preselected_pid", .integer 1), (ascii "show_audio_only", .bool false),
    (ascii "show_cpu_intensive", .bool false), (ascii "show_gpu_only", .bool false)]

def hostView (root : List (Text × Json)) : Json :=
  .object (setAll (viewKeys.map fun key => (key.1, root.lookup key.1)) [])

def localFields (previous : Option Json) : List (Text × Option Json) :=
  viewKeys.map fun key => (key.1, some ((objectGet previous key.1).getD key.2))

def previousHosts (previous : Option Json) : List (Text × Json) :=
  match objectGet previous (ascii "hosts") with
  | some (.object fields) => fields
  | _ => []

def panelFields (s : Settings) : List (Text × Option Json) :=
  [(ascii "spectro_theme", some (.integer s.spectroTheme)),
    (ascii "system_panel_open", some (.bool s.systemPanelOpen)),
    (ascii "system_panel_position", some (.integer s.systemPanelPosition)),
    (ascii "columns", if s.columns = [] then none else some (.array (s.columns.filterMap (jsonString valid)))),
    (ascii "plugins", if s.plugins = [] then none else some (.array (s.plugins.filterMap fun plugin =>
      (jsonString valid plugin.id).map fun id => .object [(ascii "id", id), (ascii "enabled", .bool plugin.enabled)]))),
    (ascii "hotkey_mode", some (.string (match s.hotkeyMode with
      | .macos => ascii "macos"
      | .gtk => ascii "gtk"))),
    (ascii "custom_hotkeys", if s.customHotkeys = [] then none else
      some (.array (s.customHotkeys.filterMap fun hotkey =>
        (jsonString valid hotkey.action).bind fun action => (jsonString valid hotkey.binding).map fun binding =>
          .object [(ascii "action", action), (ascii "binding", binding)])))]

def savedHosts (host : Text) (root : List (Text × Json)) (previous : Option Json) : List (Text × Json) :=
  if host ≠ [] ∧ valid host then set host (hostView root) (previousHosts previous) else previousHosts previous

def settingsRoot (host : Text) (s : Settings) (previous : Option Json) : List (Text × Json) :=
  let root := setAll (appearanceFields valid s) []
  let hosts := savedHosts valid host root previous
  let merged := if host = [] then root else setAll (localFields previous) root
  let withHosts := if hosts = [] then merged else set (ascii "hosts") (.object hosts) merged
  setAll (panelFields valid s) withHosts

def settingsSave (answers : Answers File) (host : Text) (s : Settings) (disk : Disk File) : Bool × Disk File :=
  if answers.mkdir = false ∨ answers.rootAllocated = false ∨ answers.mkstemp = false then (false, disk)
  else
    let root := Json.object (settingsRoot valid host s (disk.settings.bind load))
    let dumped := if answers.fchown ∧ answers.write then dump root else none
    let temporary := dumped.getD answers.written
    if dumped.isSome ∧ answers.fsync ∧ answers.close ∧ answers.rename then (true, ⟨some temporary, none⟩)
    else (false, { disk with temporary := if answers.unlink then none else some temporary })

open List

def settingsPluginEnabled (plugins : List Plugin) (id : Text) : Bool :=
  ((plugins.find? fun held => held.id = id).map Plugin.enabled).getD true

def setPlugin (id : Text) (enabled room : Bool) : List Plugin → List Plugin
  | [] => if room then [⟨stored settingsPluginIdMax id, enabled⟩] else []
  | held :: rest =>
    if held.id = id then { held with enabled } :: rest else held :: setPlugin id enabled room rest

def settingsPluginSetEnabled (plugins : List Plugin) (id : Text) (enabled : Bool) : List Plugin :=
  setPlugin id enabled (decide (plugins.length < settingsMaxPlugins)) plugins

def setPlugins (calls : List (Text × Bool)) : List Plugin :=
  calls.foldl (fun plugins call => settingsPluginSetEnabled plugins call.1 call.2) []

variable {id : Text} {enabled room : Bool} {plugins : List Plugin}

theorem set_plugin_spec (whole : stored settingsPluginIdMax id = id) (fits : room ∨ id ∈ plugins.map Plugin.id) :
    (setPlugin id enabled room plugins).map Plugin.id =
    (if id ∈ plugins.map Plugin.id then plugins.map Plugin.id else plugins.map Plugin.id ++ [id]) ∧
    ∀ other, settingsPluginEnabled (setPlugin id enabled room plugins) other =
    if other = id then enabled else settingsPluginEnabled plugins other := by
  induction plugins with
  | nil =>
    have free : room := by simpa using fits
    refine ⟨by simp [setPlugin, free, whole], fun other => ?_⟩
    by_cases same : other = id
    · simp [setPlugin, settingsPluginEnabled, free, whole, same]
    · simp [setPlugin, settingsPluginEnabled, free, whole, same, Ne.symm same]
  | cons held rest ih =>
    rw [setPlugin]
    by_cases here : held.id = id
    · subst here
      refine ⟨by simp, fun other => ?_⟩
      by_cases same : held.id = other
      · simp [settingsPluginEnabled, same]
      · simp [settingsPluginEnabled, same, Ne.symm same]
    · obtain ⟨ids, reads⟩ := ih (fits.imp_right fun mem => (mem_cons.mp mem).resolve_left (Ne.symm here))
      rw [if_neg here, map_cons, ids, map_cons]
      refine ⟨?_, fun other => ?_⟩
      · by_cases mem : id ∈ rest.map Plugin.id
        · rw [if_pos mem, if_pos (mem_cons_of_mem _ mem)]
        · rw [if_neg mem, if_neg (not_mem_cons_of_ne_of_not_mem (Ne.symm here) mem), cons_append]
      · by_cases first : held.id = other
        · have different : other ≠ id := first ▸ here
          simp [settingsPluginEnabled, first, different]
        · simpa [settingsPluginEnabled, first] using reads other

theorem plugin_enablement_kept (calls : List (Text × Bool))
    (short : ∀ call ∈ calls, 0 ∉ call.1 ∧ call.1.length < settingsPluginIdMax)
    (few : (calls.map Prod.fst).toFinset.card ≤ settingsMaxPlugins) :
    (∀ id, settingsPluginEnabled (setPlugins calls) id = (calls.reverse.lookup id).getD true) ∧
    ((setPlugins calls).map Plugin.id).Nodup ∧ ∀ id, id ∈ (setPlugins calls).map Plugin.id ↔ id ∈ calls.map Prod.fst := by
  induction calls using List.reverseRecOn with
  | nil => exact ⟨fun _ => rfl, nodup_nil, fun _ => Iff.rfl⟩
  | append_singleton calls call ih =>
    obtain ⟨early, last⟩ := forall_mem_append.mp short
    obtain ⟨clean, below⟩ := last call mem_cons_self
    have grown : ((calls ++ [call]).map Prod.fst).toFinset = insert call.1 (calls.map Prod.fst).toFinset := by
      ext other
      simp
    rw [grown] at few
    obtain ⟨reads, nodup, ids⟩ := ih early (le_trans (Finset.card_le_card (Finset.subset_insert _ _)) few)
    have whole : stored settingsPluginIdMax call.1 = call.1 := by
      rw [stored, c_string_of_clean clean, take_of_length_le (by omega)]
    have fits : decide ((setPlugins calls).length < settingsMaxPlugins) ∨ call.1 ∈ (setPlugins calls).map Plugin.id := by
      refine or_iff_not_imp_right.mpr fun new => decide_eq_true ?_
      have same : ((setPlugins calls).map Plugin.id).toFinset = (calls.map Prod.fst).toFinset := by
        ext other
        rw [mem_toFinset, mem_toFinset, ids]
      rw [← same, Finset.card_insert_of_notMem (by rwa [mem_toFinset]), toFinset_card_of_nodup nodup, length_map] at few
      omega
    obtain ⟨after, found⟩ := @set_plugin_spec _ call.2 _ _ whole fits
    rw [setPlugins, foldl_append, foldl_cons, foldl_nil, settingsPluginSetEnabled, ← setPlugins, after]
    refine ⟨fun id => ?_, ?_⟩
    · rw [found, reads, reverse_append, reverse_singleton, singleton_append, lookup_cons]
      by_cases same : id = call.1
      · simp [same]
      · rw [if_neg same, beq_false_of_ne same]
    · by_cases mem : call.1 ∈ (setPlugins calls).map Plugin.id
      · rw [if_pos mem]
        refine ⟨nodup, fun id => ?_⟩
        rw [map_append, mem_append, ← ids, map_singleton, mem_singleton, or_iff_left_of_imp fun same => same ▸ mem]
      · rw [if_neg mem]
        refine ⟨?_, fun id => by rw [map_append, mem_append, mem_append, ids, map_singleton]⟩
        rw [← concat_eq_append]
        exact nodup.concat mem

theorem plugin_enablement_two : settingsPluginEnabled (setPlugins [([97], false), ([98], false), ([97], true)]) [98] = false :=
  (plugin_enablement_kept [([97], false), ([98], false), ([97], true)] (by decide) (by decide)).1 [98]

-- An id of 128 bytes is stored cut and never found again; the 65th id is dropped.
theorem plugin_enablement_lost :
    settingsPluginEnabled (setPlugins [(replicate 128 97, false)]) (replicate 128 97) = true ∧
    (setPlugins [(replicate 128 97, false), (replicate 128 97, false)]).length = 2 ∧
    settingsPluginEnabled (setPlugins ((range 65).map fun index => ([UInt8.ofNat (index + 1)], false))) [65] = true := by
  decide +kernel

end Evemon.Settings
