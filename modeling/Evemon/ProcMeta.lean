import Mathlib.Data.List.FinRange
import Evemon.Lib.Runs

-- The metadata service: database results for the selected process, from a cache of five slots.
namespace Evemon.ProcMeta

open Function

abbrev Text := List UInt8

section

def metaCacheSize : Nat := 5
def slotNameSize : Nat := 64

structure Slot (μ : Type) where
  pid : Int32
  name : Text
  lastAccessed : Nat
  data : μ

-- `published` is what the host was given last. Ghost: `asked` is the lookup of the last meta_update, if no clear
-- came after it, and `clock` its time.
structure Service (μ : Type) where
  cache : Fin metaCacheSize → Slot μ
  initSystem : Text
  lastPublished : Option (Fin metaCacheSize)
  published : Option μ
  asked : Option (Text × Int32)
  clock : Nat

structure Selected where
  pid : Int32
  name : Option Text
  comm : Text
  foreign : Bool

-- The name that is looked up; PID 1 may stand for the init system.
def lookupName (initSystem : Text) (selected : Selected) : Text :=
  let name := match selected.name with
    | some (byte :: rest) => byte :: rest
    | _ => selected.comm
  if !selected.foreign && selected.pid == 1 && !initSystem.isEmpty &&
      (name == [105, 110, 105, 116] || name == [49] || name == []) then initSystem.take 63
  else name

variable {μ : Type}

def cacheFind (cache : Fin metaCacheSize → Slot μ) (pid : Int32) (name : Text) : Option (Fin metaCacheSize) :=
  (List.finRange metaCacheSize).find? fun i =>
    (cache i).lastAccessed != 0 && (cache i).pid == pid && (cache i).name == name

def cacheEvictSlot (cache : Fin metaCacheSize → Slot μ) : Fin metaCacheSize :=
  (List.finRange metaCacheSize).tail.foldl
    (fun oldest i => if (cache i).lastAccessed < (cache oldest).lastAccessed then i else oldest) ⟨0, Nat.zero_lt_succ 4⟩

def Service.publish (s : Service μ) (slot : Fin metaCacheSize) : Service μ :=
  if s.lastPublished = some slot then s
  else { s with lastPublished := some slot, published := some (s.cache slot).data }

variable (db : Text → Int32 → μ) (empty : μ)

def metaUpdate (s : Service μ) (selected : Selected) (now : Nat) : Service μ :=
  let name := lookupName s.initSystem selected
  match cacheFind s.cache selected.pid name with
  | some slot =>
    let found := { s.cache slot with lastAccessed := now }
    { s with cache := Function.update s.cache slot found }.publish slot
  | none =>
    let slot := cacheEvictSlot s.cache
    let fresh := ⟨selected.pid, name.take (slotNameSize - 1), now, db name selected.pid⟩
    { s with cache := Function.update s.cache slot fresh }.publish slot

def metaClear (s : Service μ) : Service μ := { s with lastPublished := none, published := some empty }

inductive Action where
  | update (selected : Selected) (now : Nat)
  | clear

def step (s : Service μ) : Action → Service μ
  | .update selected now =>
    { metaUpdate db s selected now with asked := some (lookupName s.initSystem selected, selected.pid), clock := now }
  | .clear => { metaClear empty s with asked := none }

structure Starts (s : Service μ) : Prop where
  unused : ∀ slot, (s.cache slot).lastAccessed = 0
  unpublished : s.lastPublished = none
  idle : s.asked = none

-- The clock does not go back, and the name fits in a slot.
def Timely (s : Service μ) : Action → Prop
  | .update selected now => s.clock ≤ now ∧ (lookupName s.initSystem selected).length < slotNameSize
  | .clear => True

-- The slot that was published last is not recycled.
def Spared (s : Service μ) : Action → Prop
  | .update selected _ => cacheFind s.cache selected.pid (lookupName s.initSystem selected) = none →
      s.lastPublished ≠ some (cacheEvictSlot s.cache)
  | .clear => True

end

section

variable {μ : Type} {db : Text → Int32 → μ} {empty : μ}

def SlotExact (db : Text → Int32 → μ) (slot : Slot μ) : Prop := slot.data = db slot.name slot.pid

structure Inv (db : Text → Int32 → μ) (s : Service μ) : Prop where
  cached : ∀ slot, (s.cache slot).lastAccessed ≠ 0 → SlotExact db (s.cache slot)
  current : ∀ slot, s.lastPublished = some slot → s.published = some (s.cache slot).data
  answered : ∀ name pid, s.asked = some (name, pid) → s.published = some (db name pid)

theorem publish_inv {s} {slot} {filled : Slot μ} {name} {pid} {now : Nat}
    (inv : Inv db s) (exact : filled.data = db filled.name filled.pid) (same : filled.data = db name pid)
    (kept : s.lastPublished = some slot → (s.cache slot).data = filled.data) :
    Inv db { Service.publish { s with cache := update s.cache slot filled } slot with
      asked := some (name, pid), clock := now } := by
  have cached : ∀ other, (update s.cache slot filled other).lastAccessed ≠ 0 →
      SlotExact db (update s.cache slot filled other) := by
    intro other used
    by_cases here : other = slot
    · subst here
      rw [update_self]
      exact exact
    · rw [update_of_ne here] at used ⊢
      exact inv.cached other used
  unfold Service.publish
  dsimp only
  split
  · rename_i last
    have shown := inv.current slot last
    rw [kept last] at shown
    refine ⟨cached, fun other published => ?_, fun _ _ asked => ?_⟩
    · obtain rfl := Option.some_inj.mp (last.symm.trans published)
      simp only [update_self]
      exact shown
    · cases asked
      exact same ▸ shown
  · refine ⟨cached, fun other published => ?_, fun _ _ asked => ?_⟩
    · obtain rfl := Option.some_inj.mp published
      rfl
    · cases asked
      simp only [update_self, same]

theorem update_inv (s : Service μ) (selected : Selected) (now : Nat) (inv : Inv db s)
    (timely : Timely s (.update selected now))
    (spared : Spared s (.update selected now)) : Inv db (step db empty s (.update selected now)) := by
  unfold step metaUpdate
  dsimp only
  cases found : cacheFind s.cache selected.pid (lookupName s.initSystem selected) with
  | some slot =>
    have hit := List.find?_some found
    simp only [Bool.and_eq_true, bne_iff_ne, beq_iff_eq] at hit
    have exact := inv.cached slot hit.1.1
    refine publish_inv inv exact ?_ fun _ => rfl
    rw [← hit.1.2, ← hit.2]
    exact exact
  | none =>
    have whole : (lookupName s.initSystem selected).take (slotNameSize - 1) = lookupName s.initSystem selected :=
      List.take_of_length_le (Nat.le_pred_of_lt timely.2)
    refine publish_inv inv ?_ rfl fun last => absurd last (spared found)
    rw [whole]

theorem published_for_selected (s : Service μ)
    (reached : Runs.Reachable Starts (fun s action => Timely s action ∧ Spared s action) (step db empty) s) (name : Text)
    (pid : Int32) (asked : s.asked = some (name, pid)) : s.published = some (db name pid) := by
  refine (Runs.invariant (Inv db) (fun s starts => ?_) (fun s action inv taken => ?_) s reached).answered name pid asked
  · refine ⟨fun slot used => absurd (starts.unused slot) used, fun slot last => ?_, fun name pid asked => ?_⟩
    · rw [starts.unpublished] at last
      cases last
    · rw [starts.idle] at asked
      cases asked
  · cases action with
    | update selected now => exact update_inv s selected now inv taken.1 taken.2
    | clear =>
      refine ⟨inv.cached, fun slot last => ?_, fun name pid asked => ?_⟩
      · cases last
      · cases asked

def newService : Service (Text × Int32) :=
  ⟨fun _ => ⟨0, [], 0, ([], 0)⟩, [], none, none, none, 0⟩

def select (pid : Int32) (now : Nat) : Action := .update ⟨pid, some [120], [], false⟩ now

def after (actions : List Action) : Service (Text × Int32) := actions.foldl (step Prod.mk ([], 0)) newService

def timely (s : Service (Text × Int32)) : Action → Bool
  | .update selected now => decide (s.clock ≤ now) && decide ((lookupName s.initSystem selected).length < slotNameSize)
  | .clear => true

def spared (s : Service (Text × Int32)) : Action → Bool
  | .update selected _ => (cacheFind s.cache selected.pid (lookupName s.initSystem selected)).isSome ||
      decide (s.lastPublished ≠ some (cacheEvictSlot s.cache))
  | .clear => true

theorem timely_sound (s : Service (Text × Int32)) (action : Action) (checked : timely s action) : Timely s action := by
  cases action with
  | update selected now => simpa [timely, Timely] using checked
  | clear => trivial

theorem spared_sound {s} {action} (checked : spared s action) : Spared s action := by
  cases action with
  | update selected now =>
    intro none
    simpa [spared, none] using checked
  | clear => trivial

theorem new_service_starts : Starts newService := ⟨fun _ => rfl, rfl, rfl⟩

theorem published_for_selected_twice :
    (after [select 10 1, select 11 1, .clear, select 10 2]).published = some ([120], 10) := by
  have reached : Runs.Reachable Starts (fun s action => Timely s action ∧ Spared s action) (step Prod.mk ([], 0))
      (after [select 10 1, select 11 1, .clear, select 10 2]) := by
    refine Runs.reachable_follows (fun s action => timely s action && spared s action) (fun s action checked => ?_) _ _
      (.start _ new_service_starts) (by decide +kernel)
    rw [Bool.and_eq_true] at checked
    exact ⟨timely_sound s action checked.1, spared_sound checked.2⟩
  exact published_for_selected _ reached [120] 10 (by decide +kernel)

def sevenSelected : List Action :=
  [select 10 1, select 11 1, select 12 1, select 13 1, select 14 1, select 15 1, select 16 1]

theorem recycled_slot_not_published : Runs.Reachable Starts Timely (step Prod.mk ([], 0)) (after sevenSelected) ∧
    (after sevenSelected).asked = some ([120], 16) ∧ (after sevenSelected).published = some ([120], 15) :=
  ⟨Runs.reachable_follows timely timely_sound _ _ (.start _ new_service_starts) (by decide +kernel), by decide +kernel,
    by decide +kernel⟩

end

end Evemon.ProcMeta
