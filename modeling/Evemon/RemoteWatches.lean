import Evemon.Controls

-- The client's side of CONTROL: the table of registrations that its UI threads change, and the
-- worker that sends it to the service. A step is what happens under one hold of the table's lock.
namespace Evemon.RemoteFdmon

open Ipc Controls

abbrev Key := UInt32 × UInt32 × UInt32

structure WatchTable where
  entries : SwapTable Key Watch watchesMax
  keyed : ∀ entry ∈ entries.entries, watchKey entry.2 = entry.1

def WatchTable.watches (table : WatchTable) : List Watch := table.entries.entries.map Prod.snd

def WatchTable.empty : WatchTable := ⟨SwapTable.empty, fun _ mem => by cases mem⟩

theorem entry_find {table : WatchTable} {key} {w} (found : table.entries.find key = some w) :
    watchKey w = key :=
  table.keyed (key, w) ((SwapTable.find_eq_some key w table.entries).mp found)

def WatchTable.store (w : Watch) (table : WatchTable) : Option WatchTable :=
  match done : table.entries.store (watchKey w) w with
  | none => none
  | some stored => some ⟨stored, fun entry member => by
    have found := (SwapTable.find_eq_some entry.1 entry.2 stored).mpr member
    rw [SwapTable.store_find _ done] at found
    split at found
    · rename_i here
      rw [← Option.some.inj found, here]
    · exact entry_find found⟩

def WatchTable.remove (key : Key) (table : WatchTable) : WatchTable where
  entries := table.entries.remove key
  keyed entry member := by
    have found := (SwapTable.find_eq_some entry.1 entry.2 _).mpr member
    rw [SwapTable.remove_find] at found
    split at found
    · cases found
    · exact entry_find found

structure Remote where
  table : WatchTable := WatchTable.empty
  revision : UInt64 := 0

-- The outcome of query_fdmon_control is whether it returns 0. `ebpf` is what
-- query_fdmon_backend finds.
def queryFdmonControl (ebpf : Bool) (w : Watch) (remove : Bool) (r : Remote) : Bool × Remote :=
  if !remove && !ebpf then (false, r)
  else if remove then
    match r.table.entries.find (watchKey w) with
    | none => (true, r)
    | some _ => (true, { table := r.table.remove (watchKey w), revision := r.revision + 1 })
  else
    match r.table.store w with
    | none => (false, r)
    | some table => (true, { table := table, revision := r.revision + 1 })

def putWatch (w : Watch) : Wire Unit := do
  ipcPutU32 w.kind
  ipcPutU32 w.pid
  ipcPutU32 w.value

def putControls (watches : List Watch) : Wire Unit := do
  ipcPutU32 (UInt32.ofNat watches.length)
  watches.forM putWatch

-- A CONTROL frame that was sent to its end, and ghost: the table it was made from.
structure ControlFrame where
  body : Bytes
  table : List Watch
deriving DecidableEq

structure Connection where
  sentRevision : UInt64 := UInt64.ofNat (2 ^ 64 - 1)
  frames : List ControlFrame := []
deriving DecidableEq

inductive Stage where
  | apart
  | ready (c : Connection)
  | sending (c : Connection) (revision : UInt64) (body : IpcBuf) (table : List Watch)

inductive Operation where
  | add (w : Watch)
  | remove (w : Watch)

structure Client where
  remote : Remote := {}
  stage : Stage := .apart
  done : List Operation := []

def copyControls (heap : Heap) (c : Connection) (r : Remote) : Stage :=
  if c.sentRevision ≠ r.revision then
    .sending c r.revision ((putControls r.table.watches).run { buf := {}, heap := heap }).2.buf r.table.watches
  else .sending c r.revision {} r.table.watches

def sendControls (sent : Bool) (c : Connection) (revision : UInt64) (body : IpcBuf) (table : List Watch) : Stage :=
  if body.data.length = 0 then .ready { c with sentRevision := revision }
  else if body.error.isSome || decide (body.data.length > ipcLimit) || !sent then .apart
  else .ready { sentRevision := revision, frames := c.frames ++ [⟨body.data, table⟩] }

-- What the worker does next. `connect` is a connection whose HELLO and EVENTS requests were
-- answered; `hangUp` is any error or stop outside send_controls.
inductive Move where
  | connect
  | copy (heap : Heap)
  | send (sent : Bool)
  | hangUp

def Stage.next (r : Remote) : Stage → Move → Stage
  | .apart, .connect => .ready {}
  | .ready c, .copy heap => copyControls heap c r
  | .sending c revision body table, .send sent => sendControls sent c revision body table
  | .ready _, .hangUp => .apart
  | stage, _ => stage

inductive Action where
  | control (ebpf : Bool) (w : Watch) (remove : Bool)
  | worker (move : Move)

def control (ebpf : Bool) (w : Watch) (remove : Bool) (client : Client) : Client :=
  let result := queryFdmonControl ebpf w remove client.remote
  { client with
    remote := result.2
    done := if result.1 then client.done ++ [if remove then .remove w else .add w] else client.done }

def step (client : Client) : Action → Client
  | .control ebpf w remove => control ebpf w remove client
  | .worker move => { client with stage := client.stage.next client.remote move }

def Reached (allowed : Client → Action → Prop) (client : Client) : Prop :=
  Runs.Reachable (· = {}) allowed step client

end Evemon.RemoteFdmon
