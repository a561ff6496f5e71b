import Mathlib.Data.List.FinRange

-- The event bus: a table of subscriptions, publishers on any thread that queue a copy of their
-- event, and the main loop that calls the subscribers of one event after the other.
namespace Evemon.EventBus

inductive EventType where
  | processSelected
  | albumArtUpdated
  | audioStateChanged
  | pidExited
  | jsonSnapshot
  | fdWrite
  | childExec
  | procMeta
  | custom
  | gpuSnapshot
deriving DecidableEq

abbrev Block := List UInt8

structure AlbumArt where
  pixbuf : Option Nat
  flat : Block
deriving DecidableEq

-- `json` is the text without the NUL that ends it.
structure JsonPayload where
  json : Option Block
  len : UInt64
  sourcePid : Int32
deriving DecidableEq

structure GpuPayload where
  monotonicNs : UInt64
  deviceCount : UInt32
  processCount : UInt32
  devices : Option (List Block)
  processes : Option (List Block)
deriving DecidableEq

-- The type of an event says what its payload points to. A NULL pointer is none.
inductive Event where
  | processSelected (pid : Option Int32)
  | albumArtUpdated (art : Option AlbumArt)
  | audioStateChanged (payload : Option Block)
  | pidExited (pid : Option Int32)
  | jsonSnapshot (snapshot : Option JsonPayload)
  | fdWrite (write : Option Block)
  | childExec (exec : Option Block)
  | procMeta (info : Option Block)
  | custom (payload : Option Block)
  | gpuSnapshot (snapshot : Option GpuPayload)
deriving DecidableEq

def Event.type : Event → EventType
  | .processSelected _ => .processSelected
  | .albumArtUpdated _ => .albumArtUpdated
  | .audioStateChanged _ => .audioStateChanged
  | .pidExited _ => .pidExited
  | .jsonSnapshot _ => .jsonSnapshot
  | .fdWrite _ => .fdWrite
  | .childExec _ => .childExec
  | .procMeta _ => .procMeta
  | .custom _ => .custom
  | .gpuSnapshot _ => .gpuSnapshot

-- Whether memory was granted: for the queued event, for its payload and for up to two arrays
-- of the payload.
structure Grants where
  idle : Bool := true
  payload : Bool := true
  first : Bool := true
  second : Bool := true

def sizeMax : UInt64 := 0xffffffffffffffff

def copyFlat {α : Type} (granted : Bool) : Option α → Option (Option α)
  | none => some none
  | some payload => if granted then some (some payload) else none

-- The product of count and element size does not overflow a 64-bit size_t.
def copyArray (granted : Bool) (count : UInt32) (items : Option (List Block)) : Option (Option (List Block)) :=
  if count = 0 then some none
  else
    match items with
    | none => none
    | some items => if granted then some (some (items.take count.toNat)) else none

def copyGpu (grants : Grants) (src : GpuPayload) : Option GpuPayload :=
  if grants.payload = false then none
  else
    match copyArray grants.first src.deviceCount src.devices with
    | none => none
    | some devices =>
      match copyArray grants.second src.processCount src.processes with
      | none => none
      | some processes => some { src with devices, processes }

def copyJson (grants : Grants) (src : JsonPayload) : Option JsonPayload :=
  match src.json with
  | none => none
  | some json =>
    if grants.payload = false ∨ src.len = sizeMax ∨ grants.first = false then none
    else some { src with json := some (json.take src.len.toNat) }

-- A payload of unknown layout cannot be copied.
def copyUnknown : Option Block → Option (Option Block)
  | none => some none
  | some _ => none

def eventToIdle (grants : Grants) (event : Event) : Option Event :=
  if grants.idle = false then none
  else
    match event with
    | .processSelected pid => (copyFlat grants.payload pid).map .processSelected
    | .albumArtUpdated art => (copyFlat grants.payload art).map .albumArtUpdated
    | .audioStateChanged payload => (copyUnknown payload).map .audioStateChanged
    | .pidExited pid => (copyFlat grants.payload pid).map .pidExited
    | .jsonSnapshot none => some (.jsonSnapshot none)
    | .jsonSnapshot (some src) => (copyJson grants src).map fun copy => .jsonSnapshot (some copy)
    | .fdWrite write => (copyFlat grants.payload write).map .fdWrite
    | .childExec exec => (copyFlat grants.payload exec).map .childExec
    | .procMeta info => (copyFlat grants.payload info).map .procMeta
    | .custom payload => (copyUnknown payload).map .custom
    | .gpuSnapshot none => some (.gpuSnapshot none)
    | .gpuSnapshot (some src) => (copyGpu grants src).map fun copy => .gpuSnapshot (some copy)

-- What a subscriber can read of the payload: as many elements of an array as its count says.
def readable (count : UInt32) (items : Option (List Block)) : Option (List Block) :=
  if count = 0 then none else items.map fun items => items.take count.toNat

def Event.content : Event → Event
  | .jsonSnapshot (some src) => .jsonSnapshot (some { src with json := src.json.map fun json => json.take src.len.toNat })
  | .gpuSnapshot (some src) =>
    .gpuSnapshot (some { src with
      devices := readable src.deviceCount src.devices
      processes := readable src.processCount src.processes })
  | event => event

def maxSubscriptions : Nat := 128

-- `callback` stands for cb with its user_data. Ghost: `token` is the number of the subscribe
-- call, `generation` the one it was made in.
structure Subscription where
  id : Nat
  type : EventType
  callback : Nat
  token : Nat
  generation : Nat
deriving DecidableEq

-- Ghost: the event as published, the subscriptions then, the number of the g_idle_add call and the
-- generation at that call, with which publish returns.
structure Idle where
  event : Event
  generation : Nat
  published : Event
  since : List Subscription
  serial : Nat := 0
  returned : Nat := 0
deriving DecidableEq

-- Ghost: what was there and what was matched when a dispatch started.
structure Dispatch where
  idle : Idle
  generation : Nat
  table : List Subscription
  matched : List Subscription
deriving DecidableEq

-- Ghost: one call of a subscriber. `revoked`: an unsubscribe of its id has returned.
structure Call where
  subscription : Subscription
  idle : Idle
  revoked : Bool
  generation : Nat
deriving DecidableEq

-- A free slot is none. `publishing` are publishers between reading the generation and g_idle_add,
-- `running` the event of dispatch_on_main with the subscribers not called yet. The rest is ghost;
-- `accepted` are the publishes whose event could be copied, with the generation and the
-- subscriptions then.
structure Bus where
  subs : Fin maxSubscriptions → Option Subscription := fun _ => none
  nextSubId : Nat := 1
  generation : Nat := 0
  publishing : List Idle := []
  queue : List Idle := []
  running : Option (Idle × List Subscription) := none
  issued : List Subscription := []
  revoked : List Subscription := []
  added : Nat := 0
  dispatches : List Dispatch := []
  calls : List Call := []
  accepted : List (Event × Nat × List Subscription) := []

def Bus.table (bus : Bus) : List Subscription := (List.finRange maxSubscriptions).filterMap bus.subs

def eventBusInit (bus : Bus) : Bus :=
  { bus with subs := fun _ => none, generation := bus.generation + 1, nextSubId := 1 }

def eventBusDestroy (bus : Bus) : Bus :=
  { bus with subs := fun _ => none, generation := bus.generation + 1 }

def freeSlot (bus : Bus) : Option (Fin maxSubscriptions) :=
  (List.finRange maxSubscriptions).find? fun slot => (bus.subs slot).isNone

def Bus.fresh (bus : Bus) (type : EventType) (callback : Nat) : Subscription :=
  ⟨bus.nextSubId, type, callback, bus.issued.length, bus.generation⟩

def eventBusSubscribe (type : EventType) (cb : Option Nat) (bus : Bus) : Nat × Bus :=
  match cb with
  | none => (0, bus)
  | some callback =>
    match freeSlot bus with
    | none => (0, bus)
    | some slot =>
      let sub := bus.fresh type callback
      (sub.id,
        { bus with
          subs := Function.update bus.subs slot (some sub)
          nextSubId := bus.nextSubId + 1
          issued := bus.issued ++ [sub] })

def slotOf (id : Int) (bus : Bus) : Option (Fin maxSubscriptions) :=
  (List.finRange maxSubscriptions).find? fun slot => (bus.subs slot).any fun sub => sub.id = id

def eventBusUnsubscribe (id : Int) (bus : Bus) : Bus :=
  if id ≤ 0 then bus
  else
    { bus with
      subs :=
        match slotOf id bus with
        | none => bus.subs
        | some slot => Function.update bus.subs slot none
      revoked := bus.revoked ++ bus.issued.filter fun sub => sub.id = id }

def eventBusPublish (event : Event) (grants : Grants) (bus : Bus) : Bus :=
  match eventToIdle grants event with
  | none => bus
  | some copy =>
    { bus with publishing := bus.publishing ++ [⟨copy, bus.generation, event, bus.table, 0, 0⟩] }

def idleAdd (index : Nat) (bus : Bus) : Bus :=
  match bus.publishing[index]? with
  | none => bus
  | some idle =>
    { bus with
      publishing := bus.publishing.eraseIdx index
      queue := bus.queue ++ [{ idle with serial := bus.added, returned := bus.generation }]
      added := bus.added + 1 }

def matching (idle : Idle) (bus : Bus) : List Subscription :=
  bus.table.filter fun sub => idle.generation = bus.generation && sub.type = idle.event.type

def dispatchOnMain (bus : Bus) : Bus :=
  match bus.running, bus.queue with
  | none, idle :: queue =>
    let matched := matching idle bus
    { bus with
      queue
      running := some (idle, matched)
      dispatches := bus.dispatches ++ [⟨idle, bus.generation, bus.table, matched⟩] }
  | _, _ => bus

-- The second half, one callback at a time. What a callback does to the bus comes between two
-- of these steps.
def callNext (bus : Bus) : Bus :=
  match bus.running with
  | some (idle, sub :: rest) =>
    { bus with
      running := some (idle, rest)
      calls := bus.calls ++ [⟨sub, idle, sub ∈ bus.revoked, bus.generation⟩] }
  | some (_, []) => { bus with running := none }
  | none => bus

inductive Action where
  | init
  | destroy
  | subscribe (type : EventType) (cb : Option Nat)
  | unsubscribe (id : Int)
  | publish (event : Event) (grants : Grants)
  | add (index : Nat)
  | dispatch
  | call

def Bus.step (bus : Bus) : Action → Bus
  | .init => eventBusInit bus
  | .destroy => eventBusDestroy bus
  | .subscribe type cb => (eventBusSubscribe type cb bus).2
  | .unsubscribe id => eventBusUnsubscribe id bus
  | .publish event grants =>
    { eventBusPublish event grants bus with
      accepted := bus.accepted ++
        if (eventToIdle grants event).isSome then [(event, bus.generation, bus.table)] else [] }
  | .add index => idleAdd index bus
  | .dispatch => dispatchOnMain bus
  | .call => callNext bus

variable {granted : Bool}

theorem copy_flat_same {α : Type} {payload copy : Option α} (copied : copyFlat granted payload = some copy) :
    copy = payload := by
  cases payload with
  | none => exact (Option.some.inj copied).symm
  | some value =>
    cases granted with
    | false => cases copied
    | true => exact (Option.some.inj copied).symm

theorem copy_unknown_same {payload copy} (copied : copyUnknown payload = some copy) : copy = payload := by
  cases payload with
  | none => exact (Option.some.inj copied).symm
  | some value => cases copied

theorem copy_array_readable {count} {items copy}
    (copied : copyArray granted count items = some copy) : readable count copy = readable count items := by
  unfold copyArray at copied
  unfold readable
  by_cases nothing : count = 0
  · rw [if_pos nothing, if_pos nothing]
  · rw [if_neg nothing] at copied ⊢
    rw [if_neg nothing]
    cases items with
    | none => cases copied
    | some items =>
      cases granted with
      | false => cases copied
      | true =>
        cases copied
        rw [Option.map_some, Option.map_some, List.take_take, min_self]

variable {grants : Grants}

theorem copy_json_content {src copy} (copied : copyJson grants src = some copy) :
    Event.content (.jsonSnapshot (some copy)) = Event.content (.jsonSnapshot (some src)) := by
  unfold copyJson at copied
  cases text : src.json with
  | none =>
    rw [text] at copied
    cases copied
  | some json =>
    rw [text] at copied
    simp only at copied
    split at copied
    · cases copied
    · cases copied
      simp only [Event.content, text, Option.map_some, List.take_take, min_self]

theorem copy_gpu_content {src copy} (copied : copyGpu grants src = some copy) :
    Event.content (.gpuSnapshot (some copy)) = Event.content (.gpuSnapshot (some src)) := by
  unfold copyGpu at copied
  split at copied
  · cases copied
  split at copied
  · cases copied
  rename_i devices first
  split at copied
  · cases copied
  rename_i processes second
  cases copied
  simp only [Event.content, copy_array_readable first, copy_array_readable second]

theorem event_to_idle_content {grants : Grants} {event : Event} (copy : Event) (copied : eventToIdle grants event = some copy) :
    copy.type = event.type ∧ copy.content = event.content := by
  unfold eventToIdle at copied
  split at copied
  · cases copied
  split at copied
  case h_5 => cases copied; exact ⟨rfl, rfl⟩
  case h_11 => cases copied; exact ⟨rfl, rfl⟩
  case h_6 src =>
    obtain ⟨payload, made, rfl⟩ := Option.map_eq_some_iff.mp copied
    exact ⟨rfl, copy_json_content made⟩
  case h_12 src =>
    obtain ⟨payload, made, rfl⟩ := Option.map_eq_some_iff.mp copied
    exact ⟨rfl, copy_gpu_content made⟩
  case h_3 =>
    obtain ⟨payload, made, rfl⟩ := Option.map_eq_some_iff.mp copied
    rw [copy_unknown_same made]
    exact ⟨rfl, rfl⟩
  case h_10 =>
    obtain ⟨payload, made, rfl⟩ := Option.map_eq_some_iff.mp copied
    rw [copy_unknown_same made]
    exact ⟨rfl, rfl⟩
  all_goals
    obtain ⟨payload, made, rfl⟩ := Option.map_eq_some_iff.mp copied
    rw [copy_flat_same made]
    exact ⟨rfl, rfl⟩

end Evemon.EventBus
