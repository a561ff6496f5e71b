import Evemon.Settings

-- What is saved is what is loaded again, and the views of other hosts stay what they were.
namespace Evemon.Settings

open CText Json List Option

variable {File : Type} (valid : Text → Bool)

structure Fits (size : Nat) (text : Text) : Prop where
  utf8 : valid text = true
  nulFree : 0 ∉ text
  short : text.length < size

def View.Exclusive (view : View) : Prop :=
  (view.showAudioOnly = true → view.showCpuIntensive = false ∧ view.showGpuOnly = false) ∧
    (view.showCpuIntensive = true → view.showGpuOnly = false)

structure InRange (s : Settings) : Prop where
  frontend : Fits valid settingsFrontendMax s.frontend
  theme : Fits valid settingsThemeMax s.theme
  fontSize : 6 ≤ s.fontSize ∧ s.fontSize ≤ 30
  detailPanelPosition : 0 ≤ s.detailPanelPosition ∧ s.detailPanelPosition ≤ 3
  preselectedPid : 0 ≤ s.view.preselectedPid ∧ s.view.preselectedPid < 2 ^ 31
  exclusive : s.view.Exclusive
  spectroTheme : 0 ≤ s.spectroTheme ∧ s.spectroTheme ≤ 15
  systemPanelPosition : 0 ≤ s.systemPanelPosition ∧ s.systemPanelPosition ≤ 3
  columns : s.columns.length ≤ settingsMaxColumns ∧ ∀ name ∈ s.columns, Fits valid settingsColNameMax name
  plugins : s.plugins.length ≤ settingsMaxPlugins ∧ ∀ plugin ∈ s.plugins, Fits valid settingsPluginIdMax plugin.id
  customHotkeys : s.customHotkeys.length ≤ settingsMaxHotkeys ∧ ∀ hotkey ∈ s.customHotkeys,
    Fits valid settingsHotkeyMax hotkey.action ∧ Fits valid settingsHotkeyMax hotkey.binding


theorem read_process_view_sorted (view : View) (root : Option Json) :
    readProcessView view (root.map sorted) = readProcessView view root := by
  simp only [readProcessView, object_get_sorted, integer_value_sorted, boolean_value_sorted]

theorem read_view_sorted (host : Text) (root : Option Json) : readView host (root.map sorted) = readView host root := by
  simp only [readView, object_get_sorted, read_process_view_sorted]

variable (item : Json)

theorem read_column_sorted : readColumn item.sorted = readColumn item := by
  have same : stringValue (some item.sorted) = stringValue (some item) := string_value_sorted (some item)
  rw [readColumn, same, readColumn]

theorem read_plugin_sorted : readPlugin item.sorted = readPlugin item := by
  have get (key : Text) : objectGet (some item.sorted) key = (objectGet (some item) key).map sorted :=
    object_get_sorted (some item) key
  simp only [readPlugin, get, string_value_sorted, boolean_value_sorted]

theorem read_hotkey_sorted : readHotkey item.sorted = readHotkey item := by
  have get (key : Text) : objectGet (some item.sorted) key = (objectGet (some item) key).map sorted :=
    object_get_sorted (some item) key
  simp only [readHotkey, get, string_value_sorted]

variable {α : Type} {read : Json → Option α}

theorem read_table_sorted (root : Option Json) {key} {limit} (same : ∀ item, read item.sorted = read item) :
    readTable (root.map sorted) key limit read = readTable root key limit read := by
  simp only [readTable, object_get_sorted, array_items_sorted]
  cases arrayItems (objectGet root key) with
  | none => rfl
  | some items =>
    simp only [map_some, ← map_take, filterMap_map]
    exact congrArg (fun reader => (items.take limit).filterMap reader) (funext same)

theorem settings_from_sorted (host : Text) {root : Option Json} :
    settingsFromRoot host (root.map sorted) = settingsFromRoot host root := by
  simp only [settingsFromRoot, readString, readInteger, readBoolean, readHotkeyMode, read_view_sorted,
    read_table_sorted root read_column_sorted, read_table_sorted root read_plugin_sorted,
    read_table_sorted root read_hotkey_sorted, object_get_sorted, integer_value_sorted,
    boolean_value_sorted, string_value_sorted]

section

variable (host : Text) (s : Settings) (previous : Option Json)

theorem appearance_distinct : ((appearanceFields valid s).map Prod.fst).Nodup := by
  simp only [appearanceFields, map_cons, map_nil]
  decide

theorem panel_distinct : ((panelFields valid s).map Prod.fst).Nodup := by
  simp only [panelFields, map_cons, map_nil]
  decide

theorem local_distinct : ((localFields previous).map Prod.fst).Nodup := by
  simp only [localFields, viewKeys, map_cons, map_nil]
  decide

variable (key : Text)

theorem lookup_appearance :
    (setAll (appearanceFields valid s) []).lookup key = ((appearanceFields valid s).lookup key).join := by
  rw [lookup_set_all (appearance_distinct valid s), lookup_nil, or_none]

theorem lookup_root : (settingsRoot valid host s previous).lookup key = ((panelFields valid s).lookup key).join.or
    (if key = ascii "hosts" ∧ savedHosts valid host (setAll (appearanceFields valid s) []) previous ≠ [] then
    some (.object (savedHosts valid host (setAll (appearanceFields valid s) []) previous))
    else if host = [] then ((appearanceFields valid s).lookup key).join
    else ((localFields previous).lookup key).join.or ((appearanceFields valid s).lookup key).join) := by
  rw [settingsRoot, lookup_set_all (panel_distinct valid s)]
  congr 1
  have merged : (if host = [] then setAll (appearanceFields valid s) []
      else setAll (localFields previous) (setAll (appearanceFields valid s) [])).lookup key =
      if host = [] then ((appearanceFields valid s).lookup key).join
      else ((localFields previous).lookup key).join.or ((appearanceFields valid s).lookup key).join := by
    split
    · exact lookup_appearance valid s key
    · rw [lookup_set_all (local_distinct previous), lookup_appearance]
  by_cases none : savedHosts valid host (setAll (appearanceFields valid s) []) previous = []
  · simp only [none, if_true, ne_eq, not_true_eq_false, and_false, if_false]
    exact merged
  · simp only [none, if_false, ne_eq, not_false_eq_true, and_true]
    rw [lookup_set, merged]

variable {value : Option Json}

theorem root_panel (there : (panelFields valid s).lookup key = some value)
    (unset : ((localFields previous).lookup key).join = none)
    (absent : ((appearanceFields valid s).lookup key).join = none) (other : key ≠ ascii "hosts") :
    objectGet (some (.object (settingsRoot valid host s previous))) key = value := by
  rw [objectGet, lookup_root, there, unset, absent, if_neg (fun both => other both.1), or_none, ite_self, or_none]
  rfl

theorem root_appearance (there : (appearanceFields valid s).lookup key = some value)
    (absent : (panelFields valid s).lookup key = none) (unset : (localFields previous).lookup key = none)
    (other : key ≠ ascii "hosts") : objectGet (some (.object (settingsRoot valid host s previous))) key = value := by
  rw [objectGet, lookup_root, absent, unset, there, if_neg (fun both => other both.1)]
  simp

theorem root_view_local {value} (there : (appearanceFields valid s).lookup key = some (some value))
    (absent : (panelFields valid s).lookup key = none) (other : key ≠ ascii "hosts") (nobody : host = []) :
    objectGet (some (.object (settingsRoot valid host s previous))) key = some value := by
  rw [objectGet, lookup_root, absent, there, if_neg (fun both => other both.1), if_pos nobody]
  rfl

theorem root_view_kept {value} (there : (localFields previous).lookup key = some (some value))
    (absent : (panelFields valid s).lookup key = none) (other : key ≠ ascii "hosts") (named : host ≠ []) :
    objectGet (some (.object (settingsRoot valid host s previous))) key = some value := by
  rw [objectGet, lookup_root, absent, there, if_neg (fun both => other both.1), if_neg named]
  rfl

theorem previous_hosts_get : objectGet (objectGet previous (ascii "hosts")) key = (previousHosts previous).lookup key := by
  rw [previousHosts]
  cases objectGet previous (ascii "hosts") with
  | none => rfl
  | some value => cases value <;> rfl

theorem root_hosts_get : objectGet (objectGet (some (.object (settingsRoot valid host s previous))) (ascii "hosts")) key =
    (savedHosts valid host (setAll (appearanceFields valid s) []) previous).lookup key := by
  have unset : (localFields previous).lookup (ascii "hosts") = none := rfl
  have absent : (panelFields valid s).lookup (ascii "hosts") = none := rfl
  have unshown : (appearanceFields valid s).lookup (ascii "hosts") = none := rfl
  have fields : objectGet (some (.object (settingsRoot valid host s previous))) (ascii "hosts") =
      (settingsRoot valid host s previous).lookup (ascii "hosts") := rfl
  rw [fields, lookup_root, absent, unset, unshown]
  by_cases none : savedHosts valid host (setAll (appearanceFields valid s) []) previous = []
  · rw [none, if_neg (fun both => both.2 rfl)]
    simp [objectGet]
  · rw [if_pos ⟨rfl, none⟩]
    rfl

end

variable {size : Nat} {text : Text}

theorem stored_fits (fits : Fits valid size text) : stored size text = text := by
  have short := fits.short
  rw [stored, c_string_of_clean fits.nulFree, take_of_length_le (by omega)]

theorem to_int_small (value : Int) (low : 0 ≤ value) (high : value < 2 ^ 31) : toInt value = value := by
  rw [toInt, Int.bmod_eq_of_le] <;> omega

variable {root : Option Json}

theorem read_integer_back {key} (low high unread : Int) {value}
    (there : objectGet root key = some (.integer value)) (range : low ≤ value ∧ value ≤ high) (positive : 0 ≤ low)
    (small : high < 2 ^ 31) : readInteger root key low high unread = value := by
  have same := to_int_small value (by omega) (by omega)
  simp only [readInteger, there, integerValue, same, range, and_self, if_true]

theorem read_boolean_back {key} (unread : Bool) {value} (there : objectGet root key = some (.bool value)) :
    readBoolean root key unread = value := by
  rw [readBoolean, there]
  rfl

theorem read_string_back {key} (fits : Fits valid size text)
    (there : objectGet root key = if text = [] then none else jsonString valid text) : readString root key size [] =
    text := by
  rw [readString, there]
  by_cases empty : text = []
  · rw [if_pos empty, empty]
    rfl
  · rw [if_neg empty, jsonString, if_pos fits.utf8]
    exact stored_fits valid fits

variable {values : List α}

theorem filter_map_back {β : Type} {write : α → Option β} {read : β → Option α}
    (back : ∀ value ∈ values, (write value).bind read = some value) :
    (values.filterMap write).filterMap read = values := by
  rw [filterMap_filterMap]
  induction values with
  | nil => rfl
  | cons value rest ih =>
    rw [filterMap_cons, back value mem_cons_self]
    exact congrArg _ (ih fun other mem => back other (mem_cons_of_mem value mem))

theorem read_table_back {key} {limit : Nat} {write : α → Option Json} (few : values.length ≤ limit)
    (there : objectGet root key = if values = [] then none else some (.array (values.filterMap write)))
    (back : ∀ value ∈ values, (write value).bind read = some value) : readTable root key limit read = values := by
  rw [readTable, there]
  by_cases empty : values = []
  · rw [if_pos empty, empty]
    rfl
  · rw [if_neg empty]
    simp only [arrayItems]
    rw [take_of_length_le (le_trans (length_filterMap_le write values) few)]
    exact filter_map_back back

theorem read_process_view_back {view : View} {json} (exclusive : view.Exclusive)
    (pid : objectGet json (ascii "preselected_pid") = some (.integer view.preselectedPid))
    (audio : objectGet json (ascii "show_audio_only") = some (.bool view.showAudioOnly))
    (cpu : objectGet json (ascii "show_cpu_intensive") = some (.bool view.showCpuIntensive))
    (gpu : objectGet json (ascii "show_gpu_only") = some (.bool view.showGpuOnly))
    (range : 0 ≤ view.preselectedPid ∧ view.preselectedPid < 2 ^ 31) : readProcessView {} json = view := by
  have same := to_int_small view.preselectedPid range.1 range.2
  simp only [readProcessView, pid, audio, cpu, gpu, integerValue, booleanValue, getD_some, range.1, if_true, same]
  obtain ⟨number, audioOnly, cpuIntensive, gpuOnly⟩ := view
  obtain ⟨first, second⟩ := exclusive
  cases audioOnly <;> cases cpuIntensive <;> cases gpuOnly <;> simp_all

section

variable {host : Text} {s : Settings} (previous : Option Json)

theorem host_view_get {key : Text} {value} (mem : key ∈ viewKeys.map Prod.fst)
    (there : (appearanceFields valid s).lookup key = some (some value)) :
    objectGet (some (hostView (setAll (appearanceFields valid s) []))) key = some value := by
  have distinct : ((viewKeys.map fun name => (name.1, (setAll (appearanceFields valid s) []).lookup name.1)).map
      Prod.fst).Nodup := by
    simp only [viewKeys, map_cons, map_nil]
    decide
  have fields : (viewKeys.map fun name => (name.1, (setAll (appearanceFields valid s) []).lookup name.1)).lookup key =
      some ((setAll (appearanceFields valid s) []).lookup key) :=
    lookup_map_key (viewKeys.map Prod.fst) (fun name => (setAll (appearanceFields valid s) []).lookup name) key mem
  rw [hostView, objectGet, lookup_set_all distinct, fields, lookup_appearance, there]
  rfl

theorem saved_view (named : host ≠ [] → valid host) (inRange : InRange valid s) :
    readView host (some (.object (settingsRoot valid host s previous))) = s.view := by
  by_cases nobody : host = []
  · rw [readView, if_pos nobody]
    apply read_process_view_back inRange.exclusive
    iterate 4 exact root_view_local valid host s previous _ rfl rfl (by decide) nobody
    · exact inRange.preselectedPid
  · rw [readView, if_neg nobody, root_hosts_get, savedHosts, if_pos ⟨nobody, named nobody⟩, lookup_set, if_pos rfl]
    apply read_process_view_back inRange.exclusive
    iterate 4 exact host_view_get valid (by decide) rfl
    · exact inRange.preselectedPid

theorem saved_settings (named : host ≠ [] → valid host) (inRange : InRange valid s) :
    settingsFromRoot host (some (.object (settingsRoot valid host s previous))) = s := by
  have column (name : Text) (mem : name ∈ s.columns) : (jsonString valid name).bind readColumn = some name := by
    have fits := inRange.columns.2 name mem
    rw [jsonString, if_pos fits.utf8]
    exact congrArg some (stored_fits valid fits)
  have plugin (held : Plugin) (mem : held ∈ s.plugins) : ((jsonString valid held.id).map fun id =>
        Json.object [(ascii "id", id), (ascii "enabled", .bool held.enabled)]).bind readPlugin = some held := by
    have fits := inRange.plugins.2 held mem
    rw [jsonString, if_pos fits.utf8]
    exact congrArg (fun id => some (Plugin.mk id held.enabled)) (stored_fits valid fits)
  have hotkey (held : Hotkey) (mem : held ∈ s.customHotkeys) :
      ((jsonString valid held.action).bind fun action => (jsonString valid held.binding).map fun binding =>
        Json.object [(ascii "action", action), (ascii "binding", binding)]).bind readHotkey = some held := by
    obtain ⟨action, binding⟩ := inRange.customHotkeys.2 held mem
    rw [jsonString, if_pos action.utf8, jsonString, if_pos binding.utf8]
    have first := stored_fits valid action
    have second := stored_fits valid binding
    exact congrArg some (congrArg₂ Hotkey.mk first second)
  have appearance := @root_appearance valid host s previous
  have panel := @root_panel valid host s previous
  have frontend := read_string_back valid inRange.frontend (appearance (ascii "frontend") rfl rfl rfl (by decide))
  have theme := read_string_back valid inRange.theme (appearance (ascii "theme") rfl rfl rfl (by decide))
  have fontSize := read_integer_back 6 30 9
    (appearance (ascii "font_size") rfl rfl rfl (by decide)) inRange.fontSize (by decide)
    (by decide)
  have detailPanelOpen := read_boolean_back false (appearance (ascii "detail_panel_open") rfl rfl rfl (by decide))
  have procInfoOpen := read_boolean_back true (appearance (ascii "proc_info_open") rfl rfl rfl (by decide))
  have detailPanelPosition := read_integer_back 0 3 0 (appearance (ascii "detail_panel_position") rfl rfl rfl (by decide))
    inRange.detailPanelPosition (by decide) (by decide)
  have spectroTheme := read_integer_back 0 15 0
    (panel (ascii "spectro_theme") rfl rfl rfl (by decide)) inRange.spectroTheme (by decide)
    (by decide)
  have systemPanelOpen := read_boolean_back false (panel (ascii "system_panel_open") rfl rfl rfl (by decide))
  have systemPanelPosition := read_integer_back 0 3 0 (panel (ascii "system_panel_position") rfl rfl rfl (by decide))
    inRange.systemPanelPosition (by decide) (by decide)
  have columns := read_table_back inRange.columns.1 (panel (ascii "columns") rfl rfl rfl (by decide)) column
  have plugins := read_table_back inRange.plugins.1 (panel (ascii "plugins") rfl rfl rfl (by decide)) plugin
  have customHotkeys := read_table_back inRange.customHotkeys.1
    (panel (ascii "custom_hotkeys") rfl rfl rfl (by decide)) hotkey
  have hotkeyMode : readHotkeyMode (some (.object (settingsRoot valid host s previous))) = s.hotkeyMode := by
    rw [readHotkeyMode, panel (ascii "hotkey_mode") rfl rfl rfl (by decide)]
    cases s.hotkeyMode <;> rfl
  simp only [settingsFromRoot, frontend, theme, fontSize, detailPanelOpen, procInfoOpen, detailPanelPosition,
    saved_view valid previous named inRange, spectroTheme, systemPanelOpen, systemPanelPosition, columns, plugins,
    hotkeyMode, customHotkeys]

theorem kept_view (json kept : Option Json)
    (each : ∀ key ∈ viewKeys, objectGet kept key.1 = some ((objectGet json key.1).getD key.2)) :
    readProcessView {} kept = readProcessView {} json := by
  have pid := each (ascii "preselected_pid", .integer 1) (by simp [viewKeys])
  have audio := each (ascii "show_audio_only", .bool false) (by simp [viewKeys])
  have cpu := each (ascii "show_cpu_intensive", .bool false) (by simp [viewKeys])
  have gpu := each (ascii "show_gpu_only", .bool false) (by simp [viewKeys])
  have boolean (value : Option Json) : (booleanValue (some (value.getD (.bool false)))).getD false =
      (booleanValue value).getD false := by cases value <;> rfl
  simp only [readProcessView, pid, audio, cpu, gpu, boolean]
  cases objectGet json (ascii "preselected_pid") <;> rfl

theorem other_view {other : Text} (different : other ≠ host) :
    readView other (some (.object (settingsRoot valid host s previous))) = readView other previous := by
  by_cases nobody : other = []
  · have named : host ≠ [] := fun empty => different (nobody.trans empty.symm)
    rw [readView, if_pos nobody, readView, if_pos nobody]
    apply kept_view
    intro key mem
    simp only [viewKeys, mem_cons, not_mem_nil, or_false] at mem
    rcases mem with rfl | rfl | rfl | rfl
    iterate 4 exact root_view_kept valid host s previous _ rfl rfl (by decide) named
  · rw [readView, if_neg nobody, root_hosts_get, readView, if_neg nobody, previous_hosts_get, savedHosts]
    split
    · rw [lookup_set, if_neg different]
    · rfl

end

variable (load : File → Option Json) (dump : Json → Option File)

theorem load_view (host : Text) (file : Option File) :
    (settingsLoadFromFile load host file).view = readView host (file.bind load) := by
  rw [settingsLoadFromFile]
  cases file.bind load with
  | none => by_cases nobody : host = [] <;> simp [readView, nobody] <;> rfl
  | some json => cases json <;> by_cases nobody : host = [] <;> simp [readView, nobody, settingsFromRoot] <;> rfl

theorem load_saved (roundTrip : ∀ json file, dump json = some file → load file = some json.sorted) {host}
    {fields} {file} (dumped : dump (.object fields) = some file) :
    settingsLoadFromFile load host (some file) = settingsFromRoot host (some (.object fields)) := by
  rw [settingsLoadFromFile, bind_some, roundTrip _ _ dumped]
  exact @settings_from_sorted host (some (.object fields))

theorem save_cases (answers : Answers File) (host : Text) (s : Settings) (disk : Disk File) :
    ((settingsSave valid load dump answers host s disk).1 ∧ ∃ file,
    dump (.object (settingsRoot valid host s (disk.settings.bind load))) = some file ∧
    (settingsSave valid load dump answers host s disk).2.settings = some file) ∨
    (settingsSave valid load dump answers host s disk).1 = false ∧
    (settingsSave valid load dump answers host s disk).2.settings = disk.settings := by
  rw [settingsSave]
  split
  · exact .inr ⟨rfl, rfl⟩
  · by_cases opened : answers.fchown ∧ answers.write
    · simp only [if_pos opened]
      cases printed : dump (.object (settingsRoot valid host s (disk.settings.bind load))) with
      | none => exact .inr ⟨rfl, rfl⟩
      | some file =>
        by_cases moved : answers.fsync ∧ answers.close ∧ answers.rename
        · exact .inl (by simp [moved])
        · exact .inr (by simp [moved])
    · exact .inr (by simp [opened])

theorem settings_persist (roundTrip : ∀ json file, dump json = some file → load file = some json.sorted)
    (answers : Answers File) (s : Settings) (inRange : InRange valid s) (host : Text)
    (fits : Fits valid settingsHostMax host) (disk : Disk File) :
    ((settingsSave valid load dump answers host s disk).1 = true →
    settingsSelectHost load host (settingsSave valid load dump answers host s disk).2 = s) ∧
    (∀ other, 0 ∉ other → other.length < settingsHostMax → other ≠ host →
    (settingsSelectHost load other (settingsSave valid load dump answers host s disk).2).view =
    (settingsSelectHost load other disk).view) ∧ ((settingsSave valid load dump answers host s disk).1 = false →
    (settingsSave valid load dump answers host s disk).2.settings = disk.settings) := by
  have kept := stored_fits valid fits
  rcases save_cases valid load dump answers host s disk with ⟨done, file, dumped, replaced⟩ | ⟨failed, same⟩
  · refine ⟨fun _ => ?_, fun other nulFree short different => ?_, fun failed => ?_⟩
    · rw [settingsSelectHost, kept, replaced, load_saved load dump roundTrip dumped]
      exact saved_settings valid _ (fun _ => fits.utf8) inRange
    · have whole : stored settingsHostMax other = other := by
        rw [stored, c_string_of_clean nulFree, take_of_length_le (by omega)]
      rw [settingsSelectHost, settingsSelectHost, whole, replaced, load_saved load dump roundTrip dumped, load_view]
      exact other_view valid _ different
    · rw [done] at failed
      cases failed
  · refine ⟨fun done => ?_, fun other _ _ _ => ?_, fun _ => same⟩
    · rw [failed] at done
      cases done
    · rw [settingsSelectHost, settingsSelectHost, same]

def kept : Disk Json := ⟨some (.object [(ascii "preselected_pid", .integer 7)]), none⟩

theorem settings_persist_remote_host :
    settingsSelectHost some (ascii "box") (settingsSave (fun _ => true) some (fun json => some json.sorted)
        { written := .null } (ascii "box") { view := { preselectedPid := 42, showGpuOnly := true } } kept).2 =
        { view := { preselectedPid := 42, showGpuOnly := true } } ∧
      (settingsSelectHost some [] (settingsSave (fun _ => true) some (fun json => some json.sorted)
        { written := .null } (ascii "box") { view := { preselectedPid := 42, showGpuOnly := true } } kept).2).view =
        { preselectedPid := 7 } := by
  have persisted := settings_persist (fun _ => true) some (fun json => some json.sorted)
    (fun json file same => by rw [Option.some_inj.mp same]) { written := .null }
    { view := { preselectedPid := 42, showGpuOnly := true } }
    { frontend := ⟨rfl, by decide, by decide⟩, theme := ⟨rfl, by decide, by decide⟩, fontSize := by decide,
      detailPanelPosition := by decide, preselectedPid := by decide, exclusive := ⟨fun on => (nomatch on), fun on => nomatch on⟩,
      spectroTheme := by decide, systemPanelPosition := by decide, columns := ⟨by decide, forall_mem_nil _⟩,
      plugins := ⟨by decide, forall_mem_nil _⟩, customHotkeys := ⟨by decide, forall_mem_nil _⟩ }
    (ascii "box") ⟨rfl, by decide, by decide⟩ kept
  refine ⟨persisted.1 rfl, ?_⟩
  rw [persisted.2.1 [] (by decide) (by decide) (by decide)]
  decide +kernel

end Evemon.Settings
