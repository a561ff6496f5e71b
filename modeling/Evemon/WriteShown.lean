import Evemon.WriteTabBalance
import Evemon.WriteText

-- Write events of one service, broadcast to the write logs of all its clients.
namespace Evemon.WriteTab

open Plugins Ipc List Bool

abbrev Cached := UInt32 → UInt32 × Bytes

def pidMatch (tab : Tab) (tgid : UInt32) : Bool :=
  decide (tgid = tab.log.currentPid) || tab.includeDescendants || decide (tgid ∈ tab.log.descendants)

def fdSubscribed (log : WriteLog) (fd : Int32) : Bool := (fd = 1 && log.stdout) || (fd = 2 && log.stderr)

def kernelThread (cached : Cached) (tgid : UInt32) : Bool :=
  decide ((cached tgid).1 = 0) || decide ((cached tgid).2.head? = some 0x5B)

-- What is appended for one event. `granted` answers the malloc of the handler.
def onFdWriteEvent (cached : Cached) (excludeKernel granted : Bool) (tab : Tab) (p : WritePayload) : Bytes :=
  if p.len = 0 then []
  else if fdSubscribed tab.log p.fd = false then []
  else if tab.log.currentPid = 0 then []
  else if pidMatch tab p.tgid.toUInt32 = false then []
  else if excludeKernel && kernelThread cached p.tgid.toUInt32 then []
  else if granted = false then []
  else WriteText.sanitise (p.data.take (min p.len.toNat fdWriteMax))

-- Ghost: an event whose text was appended, the tab and the processes at that time.
structure Shown where
  payload : WritePayload
  tab : Tab
  parents : UInt32 → UInt32
  text : Bytes

structure View where
  tab : Option Tab := none
  excludeKernel : Bool := true
  text : Bytes := []
  shown : List Shown := []

def receive (parents : UInt32 → UInt32) (cached : Cached) (granted : Bool) (p : WritePayload) (view : View) : View :=
  match view.tab with
  | none => view
  | some tab =>
    let text := onFdWriteEvent cached view.excludeKernel granted tab p
    if text = [] then view
    else { view with text := view.text ++ text, shown := view.shown ++ [⟨p, tab, parents, text⟩] }

def clearsText (tab : Tab) : TabEvent → Bool
  | .processSelected sel => decide (tab.log.currentPid ≠ sel)
  | .update sel _ => decide (tab.log.currentPid ≠ sel)
  | .clear => true
  | _ => false

def handleView (event : TabEvent) (view : View) : List ServiceCall × View :=
  match view.tab with
  | none => ([], view)
  | some tab =>
    ((handle tab event).1,
      { view with tab := (handle tab event).2, text := if clearsText tab event then [] else view.text })

-- A connection with its registrations, the events it has not read yet and its write logs.
structure Client where
  connected : Bool := false
  regs : Registrations := ∅
  cached : Cached := fun _ => (0, [])
  queue : List WritePayload := []
  views : Nat → View := fun _ => {}

structure Service where
  parents : UInt32 → UInt32
  clients : Nat → Client

inductive ServiceAction where
  | connect (client : Nat)
  | reparent (parents : UInt32 → UInt32)
  | record (payload : WritePayload)
  | lose (client : Nat)
  | deliver (client : Nat) (granted : Nat → Bool)
  | refresh (client : Nat) (cached : Cached)
  | register (client : Nat) (service : ServiceCall)
  | openView (client view index : Nat)
  | excludeKernel (client view : Nat) (on : Bool)
  | tabEvent (client view : Nat) (event : TabEvent)

def Service.update (s : Service) (client : Nat) (change : Client → Client) : Service :=
  { s with clients := Function.update s.clients client (change (s.clients client)) }

def Client.update (c : Client) (view : Nat) (change : View → View) : Client :=
  { c with views := Function.update c.views view (change (c.views view)) }

def serviceStep (s : Service) : ServiceAction → Service
  | .connect client => s.update client fun c => { c with connected := true, queue := [] }
  | .reparent parents => { s with parents }
  | .record payload =>
    { s with clients := fun client =>
        { s.clients client with
          queue := if (s.clients client).connected then (s.clients client).queue ++ [payload] else [] } }
  | .lose client => s.update client fun c => { c with queue := c.queue.tail }
  | .deliver client granted =>
    s.update client fun c =>
      match c.queue with
      | [] => c
      | payload :: rest =>
        { c with queue := rest, views := fun view => receive s.parents c.cached (granted view) payload (c.views view) }
  | .refresh client cached => s.update client fun c => { c with cached }
  | .register client service => s.update client fun c => { c with regs := settle c.regs service }
  | .openView client view index => s.update client fun c => c.update view fun v => { v with tab := some { index }, text := [] }
  | .excludeKernel client view on => s.update client fun c => c.update view fun v => { v with excludeKernel := on }
  | .tabEvent client view event =>
    s.update client fun c =>
      let handled := handleView event (c.views view)
      { c.update view fun _ => handled.2 with regs := settleAll c.regs handled.1 }

def Descends (parents : UInt32 → UInt32) (root pid : UInt32) : Prop :=
  Relation.TransGen (fun child parent => parents child = parent) pid root

-- A write is recorded for a registration of any client, or for one of a process that the writer
-- descends from: tracing is inherited.
def Traced (s : Service) (payload : WritePayload) : Prop :=
  ∃ client root fd, (root, fd) ∈ (s.clients client).regs ∧ payload.fd.toUInt32 = fd ∧
    (root = payload.tgid.toUInt32 ∨ Descends s.parents root payload.tgid.toUInt32)

def Lawful (s : Service) : ServiceAction → Prop
  | .record payload => Traced s payload
  | _ => True

def ServiceStarts (s : Service) : Prop := s.clients = fun _ => {}

def Related (entry : Shown) : Prop :=
  entry.payload.tgid.toUInt32 = entry.tab.log.currentPid ∨
    Descends entry.parents entry.tab.log.currentPid entry.payload.tgid.toUInt32

structure Rightful (entry : Shown) : Prop where
  subscribed : Subscribed entry.tab.log entry.payload.fd.toUInt32
  chosen : entry.payload.tgid.toUInt32 = entry.tab.log.currentPid ∨
    (entry.tab.includeDescendants = true ∧
      Descends entry.parents entry.tab.log.currentPid entry.payload.tgid.toUInt32)

def Honest (tab : Tab) : Prop := tab.includeDescendants = false → tab.log.descendants = []

theorem selected_descendants (index : Nat) (sel : UInt32) {c : WriteLog} (none : c.descendants = []) :
    (onProcessSelected index sel c).2.descendants = [] := by
  have cleared : (clearCurrentPid c).2.descendants = [] := by
    unfold clearCurrentPid
    split
    · exact none
    · rfl
  unfold onProcessSelected applySelection
  split
  · exact none
  · dsimp only
    split <;> exact cleared

theorem subscribe_descendants_included (tab : Tab) (descendants : List (UInt32 × Bool)) :
    (subscribeDescendants tab descendants).2.includeDescendants = tab.includeDescendants := by
  induction descendants generalizing tab with
  | nil => rfl
  | cons entry rest ih =>
    have one : (subscribeDescendant tab entry.1 entry.2).2.includeDescendants = tab.includeDescendants := by
      unfold subscribeDescendant
      split
      · rfl
      · dsimp only
        split
        · rfl
        · split <;> rfl
    exact (ih _).trans one

variable {tab : Tab}

theorem handle_honest (honest : Honest tab) {event} {after}
    (handled : (handle tab event).2 = some after) : Honest after := by
  cases event with
  | processSelected sel =>
    cases handled
    exact fun excluded => selected_descendants tab.index sel (honest excluded)
  | comboChanged index =>
    cases handled
    intro excluded
    change (onComboChanged index tab.log).2.descendants = []
    unfold onComboChanged applySelection
    split <;> exact honest excluded
  | descendantsToggled on =>
    cases handled
    cases on with
    | true => exact fun excluded => Bool.noConfusion excluded
    | false => exact fun _ => rfl
  | update sel descendants =>
    cases handled
    unfold pluginUpdate
    dsimp only
    split
    · rename_i active
      intro excluded
      rw [subscribe_descendants_included] at excluded
      rw [excluded] at active
      cases active
    · exact fun excluded => selected_descendants tab.index sel (honest excluded)
  | clear =>
    cases handled
    intro excluded
    change (clearCurrentPid tab.log).2.descendants = []
    unfold clearCurrentPid
    split
    · exact honest excluded
    · rfl
  | destroy => cases handled

variable {p : WritePayload}

theorem appended_checks {cached} {excludeKernel granted}
    (appended : onFdWriteEvent cached excludeKernel granted tab p ≠ []) :
    fdSubscribed tab.log p.fd ∧ pidMatch tab p.tgid.toUInt32 := by
  unfold onFdWriteEvent at appended
  constructor
  · by_contra absent
    rw [not_eq_true] at absent
    simp [absent] at appended
  · by_contra absent
    rw [not_eq_true] at absent
    simp [absent] at appended

theorem subscribed_of_check {log} {fd} (checked : fdSubscribed log fd) : Subscribed log fd.toUInt32 := by
  unfold fdSubscribed at checked
  rcases or_eq_true_iff.mp checked with first | second
  · obtain ⟨one, on⟩ := and_eq_true_iff.mp first
    rw [of_decide_eq_true one]
    exact .inl ⟨rfl, on⟩
  · obtain ⟨two, on⟩ := and_eq_true_iff.mp second
    rw [of_decide_eq_true two]
    exact .inr ⟨rfl, on⟩

variable {parents : UInt32 → UInt32}

theorem shown_rightful (honest : Honest tab) {text : Bytes} (subscribed : fdSubscribed tab.log p.fd)
    (matched : pidMatch tab p.tgid.toUInt32) :
    Rightful ⟨p, tab, parents, text⟩ ↔ (tab.includeDescendants → Related ⟨p, tab, parents, text⟩) := by
  constructor
  · intro rightful _
    exact rightful.chosen.imp id And.right
  · intro related
    refine ⟨subscribed_of_check subscribed, ?_⟩
    rcases eq_false_or_eq_true tab.includeDescendants with included | included
    · exact (related included).imp id fun descends => ⟨included, descends⟩
    · unfold pidMatch at matched
      rw [included, honest included] at matched
      exact .inl (by simpa using matched)

structure ViewInv (view : View) : Prop where
  honest : ∀ tab, view.tab = some tab → Honest tab
  right : ∀ entry ∈ view.shown, Rightful entry ↔ (entry.tab.includeDescendants = true → Related entry)
  text : ∃ recent, recent <:+ view.shown ∧ view.text = recent.flatMap Shown.text

theorem receive_inv (parents : UInt32 → UInt32) (cached : Cached) (granted : Bool) (p : WritePayload) (view : View)
    (inv : ViewInv view) : ViewInv (receive parents cached granted p view) := by
  unfold receive
  cases opened : view.tab with
  | none => exact inv
  | some tab =>
    dsimp only
    by_cases empty : onFdWriteEvent cached view.excludeKernel granted tab p = []
    · rw [if_pos empty]
      exact inv
    · rw [if_neg empty]
      obtain ⟨subscribed, matched⟩ := appended_checks empty
      have honest := inv.honest tab opened
      refine ⟨fun other equal => inv.honest other (opened.trans equal), fun entry mem => ?_, ?_⟩
      · rcases mem_append.mp mem with old | _ | ⟨_, ⟨⟩⟩
        · exact inv.right entry old
        · exact shown_rightful honest subscribed matched
      · obtain ⟨recent, ⟨earlier, split⟩, shown⟩ := inv.text
        refine ⟨recent ++ [⟨p, tab, parents, onFdWriteEvent cached view.excludeKernel granted tab p⟩], ⟨earlier, ?_⟩, ?_⟩
        · rw [← append_assoc, split]
        · rw [flatMap_append, ← shown]
          simp

theorem handle_view_inv (event : TabEvent) {view} (inv : ViewInv view) : ViewInv (handleView event view).2 := by
  unfold handleView
  cases opened : view.tab with
  | none => exact inv
  | some tab =>
    refine ⟨fun after handled => handle_honest (inv.honest tab opened) handled, inv.right, ?_⟩
    dsimp only
    split
    · exact ⟨[], nil_suffix, rfl⟩
    · exact inv.text

def ServiceInv (s : Service) : Prop := ∀ client view, ViewInv ((s.clients client).views view)

theorem update_inv (s : Service) (inv : ServiceInv s) (client : Nat) (change : Client → Client)
    (kept : ∀ view, ViewInv ((change (s.clients client)).views view)) : ServiceInv (s.update client change) := by
  intro other view
  unfold Service.update
  dsimp only
  by_cases same : other = client
  · rw [same, Function.update_self]
    exact kept view
  · rw [Function.update_of_ne same]
    exact inv other view

theorem client_update_inv {c : Client} (inv : ∀ view, ViewInv (c.views view)) {view} (change : View → View)
    (kept : ViewInv (change (c.views view))) (other : Nat) : ViewInv ((c.update view change).views other) := by
  unfold Client.update
  dsimp only
  by_cases same : other = view
  · rw [same, Function.update_self]
    exact kept
  · rw [Function.update_of_ne same]
    exact inv other

theorem service_step_inv {s} (inv : ServiceInv s) (action : ServiceAction) : ServiceInv (serviceStep s action) := by
  unfold serviceStep
  cases action with
  | reparent | record => exact inv
  | connect client | lose client | refresh client | register client => exact update_inv s inv client _ (inv client)
  | deliver client granted =>
    refine update_inv s inv client _ fun view => ?_
    split
    · exact inv client view
    · exact receive_inv _ _ _ _ _ (inv client view)
  | openView client view index =>
    refine update_inv s inv client _ (client_update_inv (inv client) _ ?_)
    refine ⟨fun tab equal => ?_, (inv client view).right, [], nil_suffix, rfl⟩
    cases equal
    exact fun _ => rfl
  | excludeKernel client view on =>
    have before := inv client view
    exact update_inv s inv client _ (client_update_inv (inv client) _ ⟨before.honest, before.right, before.text⟩)
  | tabEvent client view event =>
    refine update_inv s inv client _ fun other => ?_
    exact client_update_inv (inv client) (fun _ => (handleView event ((s.clients client).views view)).2)
      (handle_view_inv event (inv client view)) other

theorem shown_rightful_iff (s : Service) (reached : Runs.Reachable ServiceStarts Lawful serviceStep s)
    (client view : Nat) : (∃ recent, recent <:+ ((s.clients client).views view).shown ∧
    ((s.clients client).views view).text = recent.flatMap Shown.text) ∧ ∀ entry ∈ ((s.clients client).views view).shown,
    Rightful entry ↔ (entry.tab.includeDescendants = true → Related entry) := by
  have inv : ServiceInv s := by
    refine Runs.invariant ServiceInv (fun s starts client view => ?_) (fun s action inv _ => service_step_inv inv action) s
      reached
    rw [show s.clients = fun _ => {} from starts]
    refine ⟨fun tab absent => ?_, fun entry absent => ?_, [], nil_suffix, rfl⟩
    · cases absent
    · cases absent
  exact ⟨(inv client view).text, (inv client view).right⟩

def family : UInt32 → UInt32 := fun pid => if pid = 8 then 7 else if pid = 99 then 1 else 0

def written (tgid : Int32) : WritePayload := ⟨tgid, tgid, 1, 1, 0, List.replicate fdWriteMax 0x78, List.length_replicate⟩

def serviceAfter (actions : List ServiceAction) : Service := actions.foldl serviceStep ⟨family, fun _ => {}⟩

def traceable (s : Service) : ServiceAction → Bool
  | .record payload =>
    [0, 1].any fun client =>
      decide ((payload.tgid.toUInt32, payload.fd.toUInt32) ∈ (s.clients client).regs) ||
        decide ((s.parents payload.tgid.toUInt32, payload.fd.toUInt32) ∈ (s.clients client).regs)
  | _ => true

theorem traceable_lawful (s : Service) (action : ServiceAction) (checked : traceable s action) : Lawful s action := by
  cases action with
  | record payload =>
    obtain ⟨client, -, found⟩ := any_eq_true.mp checked
    rcases or_eq_true_iff.mp found with own | inherited
    · exact ⟨client, _, _, of_decide_eq_true own, rfl, .inl rfl⟩
    · exact ⟨client, _, _, of_decide_eq_true inherited, rfl, .inr (.single rfl)⟩
  | _ => trivial

theorem service_after_reachable {actions}
    (checked : Runs.follows traceable serviceStep actions ⟨family, fun _ => {}⟩) :
    Runs.Reachable ServiceStarts Lawful serviceStep (serviceAfter actions) :=
  Runs.reachable_follows traceable traceable_lawful actions _ (.start _ rfl) checked

def watchedFamily : List ServiceAction :=
  [.connect 0, .connect 1, .openView 0 0 3, .excludeKernel 0 0 false, .tabEvent 0 0 (.processSelected 7),
    .tabEvent 0 0 (.descendantsToggled true), .openView 1 0 3, .tabEvent 1 0 (.processSelected 99)]

def afterWrite (tgid : Int32) : Service :=
  serviceAfter (watchedFamily ++ [.record (written tgid), .deliver 0 fun _ => true])

theorem shown_rightful_iff_child : (((afterWrite 8).clients 0).views 0).text = [0x78] ∧
    ∀ entry ∈ (((afterWrite 8).clients 0).views 0).shown, Rightful entry := by
  have reached : Runs.Reachable ServiceStarts Lawful serviceStep (afterWrite 8) :=
    service_after_reachable (by decide +kernel)
  have child : ∀ entry ∈ (((afterWrite 8).clients 0).views 0).shown,
      entry.parents entry.payload.tgid.toUInt32 = entry.tab.log.currentPid := by
    decide +kernel
  refine ⟨by decide +kernel, fun entry mem => ?_⟩
  have right := (shown_rightful_iff _ reached 0 0).2 entry mem
  exact right.mpr fun _ => .inr (.single (child entry mem))

theorem descends_within {within : UInt32 → Prop} (closed : ∀ pid, within pid → within (parents pid)) {root pid}
    (inside : within pid) (descends : Descends parents root pid) : within root := by
  induction descends with
  | single step => exact step ▸ closed pid inside
  | tail earlier step ih => exact step ▸ closed _ ih

theorem unrelated_write_is_shown : Runs.Reachable ServiceStarts Lawful serviceStep (afterWrite 99) ∧
    (((afterWrite 99).clients 0).views 0).text = [0x78] ∧ ∃ entry ∈ (((afterWrite 99).clients 0).views 0).shown,
    ¬ Rightful entry := by
  refine ⟨service_after_reachable (by decide +kernel), by decide +kernel, ?_⟩
  have facts : (((afterWrite 99).clients 0).views 0).shown.map (fun entry => (entry.payload.tgid.toUInt32,
      entry.tab.log.currentPid, entry.parents 99, entry.parents 1, entry.parents 0)) = [(99, 7, 1, 0, 0)] := by
    decide +kernel
  obtain ⟨entry, shown, fields⟩ := map_eq_singleton_iff.mp facts
  have mem : entry ∈ (((afterWrite 99).clients 0).views 0).shown := shown ▸ mem_singleton_self entry
  simp only [Prod.mk.injEq] at fields
  obtain ⟨tgid, current, first, second, third⟩ := fields
  have closed : ∀ pid ∈ ([99, 1, 0] : List UInt32), entry.parents pid ∈ ([99, 1, 0] : List UInt32) := by
    simp [first, second, third]
  refine ⟨entry, mem, fun rightful => ?_⟩
  rcases rightful.chosen with same | descends
  · rw [tgid, current] at same
    exact absurd same (by decide)
  · have reached := descends.2
    rw [tgid, current] at reached
    have inside := descends_within closed (by decide) reached
    exact absurd inside (by decide)

end Evemon.WriteTab
