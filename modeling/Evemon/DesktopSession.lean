import Mathlib.Data.List.Perm.Basic

-- Recovery of the desktop session of a user from the processes under /proc.
namespace Evemon.DesktopSession

open List

abbrev Text := List UInt8
abbrev Env := Text → Option Text

section

def ascii (text : String) : Text := text.toList.map fun char => char.toNat.toUInt8

def sessionKeys : List Text :=
  ["DISPLAY", "WAYLAND_DISPLAY", "XAUTHORITY", "XDG_SESSION_ID", "XDG_CURRENT_DESKTOP", "XDG_SESSION_DESKTOP",
    "XDG_SESSION_TYPE", "SSH_AUTH_SOCK", "SSH_ASKPASS", "SSH_ASKPASS_REQUIRE"].map ascii

def idKeys : List Text := ["DISPLAY", "WAYLAND_DISPLAY", "XDG_SESSION_ID"].map ascii

def busKey : Text := ascii "DBUS_SESSION_BUS_ADDRESS"

def desktopShells : List Text :=
  ["plasmashell\n", "gnome-shell\n", "sway\n", "Hyprland\n", "xfce4-session\n", "cinnamon\n", "mate-session\n",
    "lxqt-session\n"].map ascii

def entriesFrom : Text → Text → List Text
  | _, [] => []
  | entry, byte :: rest => if byte = 0 then entry :: entriesFrom [] rest else entriesFrom (entry ++ [byte]) rest

def processEnv (environment key : Text) : Option Text :=
  (entriesFrom [] environment).findSome? fun entry =>
    if entry.length > key.length ∧ entry.take key.length = key ∧ entry[key.length]? = some 61 then
      some (entry.drop (key.length + 1))
    else none

-- A directory under /proc; `owner` is none if it cannot be examined.
structure Process where
  entry : Text
  owner : Option UInt32
  comm : Option Text
  environ : Option Text

def numeric (entry : Text) : Bool :=
  match entry with
  | [] => false
  | first :: _ => decide (49 ≤ first ∧ first ≤ 57) && entry.all fun byte => decide (48 ≤ byte ∧ byte ≤ 57)

structure Session where
  bus : Text
  values : List (Option Text)
deriving DecidableEq

variable (uid : UInt32) (agent : Text → Bool)

def idMatches (env : Env) (environment key : Text) : Bool :=
  match env key with
  | none => true
  | some current => current.isEmpty || processEnv environment key == some current

def candidate (env : Env) (p : Process) : Option Session :=
  if !numeric p.entry then none
  else if p.owner ≠ some uid then none
  else if !(p.comm.any desktopShells.contains) then none
  else
    match p.environ with
    | none => none
    | some environment =>
      let fits := idKeys.all (idMatches env environment)
      match processEnv environment busKey with
      | none => none
      | some bus => if fits && !bus.isEmpty then some ⟨bus, sessionKeys.map (processEnv environment)⟩ else none

-- none is the return at a conflict.
def scan (env : Env) : List Process → Option Session → Option (Option Session)
  | [], held => some held
  | p :: rest, held =>
    match candidate uid env p with
    | none => scan env rest held
    | some session =>
      match held with
      | none => scan env rest (some session)
      | some first => if first = session then scan env rest (some first) else none

-- `agent` is user_agent: the path of a socket of the user.
def restoreSessionValue (env : Env) (setting : Text × Option Text) : Env :=
  if (env setting.1).any fun current => !current.isEmpty then env
  else
    match setting.2 with
    | none => env
    | some value =>
      if value.isEmpty then env
      else if setting.1 = ascii "SSH_AUTH_SOCK" ∧ !agent value then env
      else Function.update env setting.1 (some value)

def restoreDesktopEnvironment (env : Env) (listing : Option (List Process)) : Option Text × Env :=
  match listing with
  | none => (none, env)
  | some processes =>
    match scan uid env processes none with
    | none => (none, env)
    | some held =>
      let values := (held.map Session.values).getD (sessionKeys.map fun _ => none)
      (held.map Session.bus, (sessionKeys.zip values).foldl (restoreSessionValue agent) env)

end

section

variable (uid : UInt32) (agent : Text → Bool) (env : Env)

structure Qualifies (p : Process) (session : Session) : Prop where
  number : numeric p.entry = true
  owner : p.owner = some uid
  shell : ∃ comm, p.comm = some comm ∧ comm ∈ desktopShells
  environment : ∃ environment, p.environ = some environment ∧
    (∀ key ∈ idKeys, ∀ current, env key = some current → current ≠ [] → processEnv environment key = some current) ∧
    processEnv environment busKey = some session.bus ∧ session.bus ≠ [] ∧
    session.values = sessionKeys.map (processEnv environment)

theorem id_matches_iff (environment key : Text) : idMatches env environment key ↔
    ∀ current, env key = some current → current ≠ [] → processEnv environment key = some current := by
  unfold idMatches
  cases env key with
  | none => simp
  | some current => simp [or_iff_not_imp_left]

theorem candidate_iff (p : Process) (session : Session) : candidate uid env p = some session ↔
    Qualifies uid env p session := by
  have shell : p.comm.any desktopShells.contains ↔ ∃ comm, p.comm = some comm ∧ comm ∈ desktopShells := by
    simp [Option.any_eq_true]
  have ids : ∀ environment, idKeys.all (idMatches env environment) ↔ ∀ key ∈ idKeys, ∀ current,
      env key = some current → current ≠ [] → processEnv environment key = some current := by
    intro environment
    rw [all_eq_true]
    exact forall₂_congr fun key _ => id_matches_iff env environment key
  unfold candidate
  constructor
  · intro made
    split at made
    · cases made
    split at made
    · cases made
    split at made
    · cases made
    rename_i number owner known
    split at made
    · cases made
    rename_i environment readable
    dsimp only at made
    split at made
    · cases made
    rename_i bus held
    split at made
    · rename_i fits
      cases made
      simp only [Bool.and_eq_true, Bool.not_eq_true', isEmpty_eq_false_iff] at fits
      exact ⟨by simpa using number, not_not.mp owner, shell.mp (by simpa using known), environment, readable,
        (ids environment).mp fits.1, held, fits.2, rfl⟩
    · cases made
  · rintro ⟨number, owner, known, environment, readable, fits, held, named, values⟩
    have matching := (ids environment).mpr fits
    simp only [number, Bool.not_true, Bool.false_eq_true, if_false, owner, ne_eq, not_true_eq_false, shell.mpr known,
      readable, held, matching, Bool.true_and, Bool.not_eq_true', isEmpty_eq_false_iff, named, not_false_eq_true,
      if_true, ← values]

variable {processes : List Process}

theorem scan_held (first : Session) : scan uid env processes (some first) =
    if ∀ session ∈ processes.filterMap (candidate uid env), session = first then some (some first) else none := by
  induction processes with
  | nil => simp [scan]
  | cons p rest ih =>
    rw [scan]
    cases found : candidate uid env p with
    | none =>
      rw [filterMap_cons_none found]
      exact ih
    | some session =>
      rw [filterMap_cons_some found]
      simp only [forall_mem_cons]
      by_cases same : first = session
      · subst same
        rw [if_pos rfl, ih]
        simp only [true_and]
      · rw [if_neg same, if_neg fun all => same all.1.symm]

theorem scan_some_iff (session : Session) : scan uid env processes none = some (some session) ↔
    session ∈ processes.filterMap (candidate uid env) ∧
    ∀ other ∈ processes.filterMap (candidate uid env), other = session := by
  induction processes with
  | nil => simp [scan]
  | cons p rest ih =>
    rw [scan]
    cases found : candidate uid env p with
    | none =>
      rw [filterMap_cons_none found]
      exact ih
    | some first =>
      rw [filterMap_cons_some found, forall_mem_cons]
      dsimp only
      rw [scan_held]
      constructor
      · intro made
        split at made
        · rename_i all
          cases made
          exact ⟨mem_cons_self, rfl, all⟩
        · cases made
      · rintro ⟨-, rfl, all⟩
        rw [if_pos all]

theorem scan_none_iff : scan uid env processes none = some none ↔ processes.filterMap (candidate uid env) = [] := by
  induction processes with
  | nil => simp [scan]
  | cons p rest ih =>
    rw [scan]
    cases found : candidate uid env p with
    | none =>
      rw [filterMap_cons_none found]
      exact ih
    | some first =>
      rw [filterMap_cons_some found]
      dsimp only
      rw [scan_held]
      split <;> simp

theorem scan_perm {others} (order : processes.Perm others) : scan uid env processes none = scan uid env others none := by
  have same := order.filterMap (candidate uid env)
  refine Option.ext fun held => ?_
  cases held with
  | none =>
    rw [scan_none_iff, scan_none_iff]
    exact ⟨fun none => nil_perm.mp (none ▸ same), fun none => perm_nil.mp (none ▸ same)⟩
  | some session =>
    rw [scan_some_iff, scan_some_iff, same.mem_iff]
    simp only [same.mem_iff]

end

section

variable (uid : UInt32) (agent : Text → Bool)

theorem restore_value_kept (env : Env) (setting : Text × Option Text) (key : Text) {current} (held : env key = some current)
    (filled : current ≠ []) : restoreSessionValue agent env setting key = some current := by
  obtain ⟨name, value⟩ := setting
  unfold restoreSessionValue
  split
  · exact held
  rename_i unset
  cases value with
  | none => exact held
  | some value =>
    dsimp only
    split
    · exact held
    split
    · exact held
    by_cases here : key = name
    · rw [here] at held
      simp [held, filled] at unset
    · rw [Function.update_of_ne here]
      exact held

theorem restore_values_kept {settings : List (Text × Option Text)} (env : Env) (key : Text) {current}
    (held : env key = some current) (filled : current ≠ []) :
    settings.foldl (restoreSessionValue agent) env key = some current := by
  induction settings generalizing env with
  | nil => exact held
  | cons setting rest ih => exact ih _ (restore_value_kept agent env setting key held filled)

theorem restore_nothing {keys : List Text} {env} :
    (keys.zip (keys.map fun _ => none)).foldl (restoreSessionValue agent) env = env := by
  induction keys with
  | nil => rfl
  | cons key rest ih =>
    have same : restoreSessionValue agent env (key, none) = env := by
      unfold restoreSessionValue
      split <;> rfl
    rw [map_cons, zip_cons_cons, foldl_cons, same, ih]

def Agreed (env : Env) (processes : List Process) (session : Session) : Prop :=
  (∃ p ∈ processes, Qualifies uid env p session) ∧ ∀ p ∈ processes, ∀ other, Qualifies uid env p other → other = session

structure Recovered (env : Env) (processes : List Process) (result : Option Text × Env) : Prop where
  unordered : ∀ others, processes.Perm others → restoreDesktopEnvironment uid agent env (some others) = result
  found : ∀ bus, result.1 = some bus ↔ ∃ session, session.bus = bus ∧ Agreed uid env processes session
  quiet : result.1 = none → result.2 = env
  kept : ∀ key current, env key = some current → current ≠ [] → result.2 key = some current

theorem agreed_iff (env : Env) (processes : List Process) (session : Session) :
    Agreed uid env processes session ↔ scan uid env processes none = some (some session) := by
  rw [scan_some_iff]
  simp only [Agreed, mem_filterMap, candidate_iff, forall_exists_index, and_imp]
  exact and_congr_right fun _ => ⟨fun all other p mem => all p mem other, fun all p mem other => all other p mem⟩

theorem session_recovered (env : Env) (processes : List Process) :
    Recovered uid agent env processes (restoreDesktopEnvironment uid agent env (some processes)) := by
  refine ⟨fun others order => ?_, fun bus => ?_, fun none => ?_, fun key current held filled => ?_⟩
  · simp only [restoreDesktopEnvironment, scan_perm uid env order]
  · simp only [agreed_iff, restoreDesktopEnvironment]
    cases scan uid env processes none with
    | none => simp
    | some held => cases held <;> simp [eq_comm]
  · simp only [restoreDesktopEnvironment] at none ⊢
    cases outcome : scan uid env processes .none with
    | none => rfl
    | some held =>
      cases held with
      | none => exact restore_nothing agent
      | some session =>
        rw [outcome] at none
        cases none
  · simp only [restoreDesktopEnvironment]
    cases scan uid env processes none with
    | none => exact held
    | some session => exact restore_values_kept agent env key held filled

def shellProcess (number : String) (shell bus : String) : Process where
  entry := ascii number
  owner := some 1000
  comm := some (ascii shell)
  environ := some (busKey ++ ascii "=" ++ ascii bus ++ [0])

example : (restoreDesktopEnvironment 1000 (fun _ => true) (fun _ => none)
    (some [shellProcess "7" "sway\n" "a", shellProcess "9" "bash\n" "b"])).1 = some (ascii "a") := by
  decide +kernel

end

end Evemon.DesktopSession
