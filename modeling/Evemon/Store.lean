import Evemon.Lib.ProbeTable
import Evemon.Proc

namespace Evemon.Store

open Ipc (Bytes Heap)
open ProbeTable (Table append find)
open Prog (inspect modify)

def storeKillDelayUs : Int := 2 * 1000000

def storeHtSize : Nat := 8192

inductive ProcStatus where
  | alive
  | dying
  | killed
deriving DecidableEq

structure ProcRecord where
  entry : ProcEntry
  status : ProcStatus
  diedAtUs : Int

abbrev Ht := Table storeHtSize Int32 Nat

-- `ht` and `snapHt` are none where calloc gave no memory. Every Steam record up to
-- extras_len is allocated.
structure ProcStore where
  records : List ProcRecord := []
  capacity : Nat := 0
  ht : Option Ht
  snapHt : Option Ht
  strtab : StrTab
  extras : List SteamInfo := []
  extrasCap : UInt32 := 0

-- `refused` is ghost: an allocation has failed, or strtab_push has answered 0 for a
-- string that is not empty.
structure StoreState where
  store : ProcStore
  heap : Heap
  refused : Bool := false

abbrev StoreProg := Prog StoreState

def htHome (pid : Int32) : Fin storeHtSize := ⟨pid.toUInt32.toNat % storeHtSize, Nat.mod_lt _ (by decide)⟩

def htInsert (ht : Ht) (pid : Int32) (idx : Nat) : Ht := append htHome ht pid idx

def htFind (ht : Ht) (pid : Int32) : Option Nat := find htHome ht pid

def indexPids (pids : List Int32) : Ht :=
  pids.zipIdx.foldl (fun ht entry => htInsert ht entry.1 entry.2) ProbeTable.empty

def ProcRecord.pid (rec : ProcRecord) : Int32 := rec.entry.pid

def ProcStore.pids (store : ProcStore) : List Int32 := store.records.map ProcRecord.pid

def alloc : StoreProg Bool := ⟨fun state =>
  let granted := state.heap.grant state.heap.asked
  (granted, { state with
    heap := { state.heap with asked := state.heap.asked + 1 }
    refused := state.refused || !granted })⟩

def allocWhen (needed : Bool) : StoreProg Bool := if needed = true then alloc else pure true

def noteRefused (lost : Bool) : StoreProg Unit :=
  modify fun state => { state with refused := state.refused || lost }

def changeStore (change : ProcStore → ProcStore) : StoreProg Unit :=
  modify fun state => { state with store := change state.store }

def current : StoreProg ProcStore := inspect StoreState.store

def pushString (s : Bytes) : StoreProg Nat := do
  let store ← current
  let granted ← allocWhen (strtabGrows store.strtab s)
  let pushed := strtabPush store.strtab s granted
  changeStore fun store => { store with strtab := pushed.1 }
  noteRefused (decide (s ≠ [] ∧ pushed.2 = 0))
  pure pushed.2

def rePushEntryStrings (src : ProcEntry) (srcStrtab : StrTab) : StoreProg ProcEntry := do
  let name ← pushString (procStr srcStrtab src.name.off)
  let cmd ← pushString (procStr srcStrtab src.cmd.off)
  let user ← pushString (procStr srcStrtab src.user.off)
  let cwd ← pushString (procStr srcStrtab src.cwd.off)
  let container ← pushString (procStr srcStrtab src.container.off)
  let service ← pushString (procStr srcStrtab src.service.off)
  let store ← current
  let placed (off : Nat) : StrRef := ⟨off, UInt16.ofNat (procStr store.strtab off).length⟩
  pure { src with
    name := placed name, cmd := placed cmd, user := placed user, cwd := placed cwd
    container := placed container, service := placed service }

def growExtras : StoreProg Unit := do
  let store ← current
  if store.extras.length ≥ store.extrasCap.toNat then
    let granted ← alloc
    if granted then
      changeStore fun store => { store with extrasCap := if store.extrasCap = 0 then 64 else store.extrasCap * 2 }

def copySteam (steam : SteamInfo) : StoreProg Nat := do
  growExtras
  let store ← current
  if store.extras.length < store.extrasCap.toNat then
    let granted ← alloc
    if granted then
      changeStore fun store => { store with extras := store.extras ++ [steam] }
      pure store.extras.length
    else pure uint32Max
  else
    noteRefused true
    pure uint32Max

def storeCopyEntry (src : ProcEntry) (snap : ProcSnapshot) : StoreProg ProcEntry := do
  let entry ← rePushEntryStrings src snap.strtab
  match snap.steam src with
  | none => pure { entry with extraIdx := uint32Max }
  | some steam =>
    let index ← copySteam steam
    pure { entry with extraIdx := index }

def strtabReset (tab : StrTab) : StrTab := if tab.buf = [] then tab else { tab with buf := [0] }

-- The copy of the string table that DYING records are read from, none where there was no
-- memory for it.
def saveStrtab : StoreProg (Option StrTab) := do
  let store ← current
  if store.strtab.buf.length > 1 then
    let granted ← alloc
    pure (if granted then some { store.strtab with cap := store.strtab.buf.length } else none)
  else pure (some {})

def agedRecord (now : Int) (rec : ProcRecord) (entry : ProcEntry) : ProcRecord :=
  match rec.status with
  | .alive => { entry, status := .dying, diedAtUs := now }
  | .dying => { rec with entry, status := if now - rec.diedAtUs > storeKillDelayUs then .killed else .dying }
  | .killed => { rec with entry }

def ageRecord (snap : ProcSnapshot) (snapHt : Ht) (oldStrtab : StrTab) (now : Int) (rec : ProcRecord) :
    StoreProg ProcRecord :=
  if rec.status = .killed then pure rec
  else
    match (htFind snapHt rec.pid).bind (snap.entries[·]?) with
    | some src => do
        let entry ← storeCopyEntry src snap
        pure { entry, status := .alive, diedAtUs := 0 }
    | none => do
        let entry ← rePushEntryStrings rec.entry oldStrtab
        pure (agedRecord now rec { entry with extraIdx := uint32Max })

def growRecords : StoreProg Bool := do
  let store ← current
  if store.records.length ≥ store.capacity then
    let granted ← alloc
    if granted then
      changeStore fun store => { store with capacity := if store.capacity = 0 then 256 else store.capacity * 2 }
      pure true
    else pure false
  else pure true

def appendEntry (snap : ProcSnapshot) (src : ProcEntry) : StoreProg Unit := do
  let room ← growRecords
  if room then
    let entry ← storeCopyEntry src snap
    changeStore fun store =>
      { store with
        records := store.records ++ [{ entry, status := .alive, diedAtUs := 0 }]
        ht := store.ht.map fun ht => htInsert ht src.pid store.records.length }

def appendMissing (snap : ProcSnapshot) (src : ProcEntry) : StoreProg Unit := do
  let store ← current
  if (store.ht.bind fun ht => htFind ht src.pid).isSome then pure () else appendEntry snap src

def appendNew (snap : ProcSnapshot) (entries : List ProcEntry) : StoreProg Unit := entries.forM (appendMissing snap)

def shrinkRecords : StoreProg Unit := do
  let store ← current
  if store.capacity > 256 ∧ store.records.length < store.capacity / 2 then
    let granted ← alloc
    if granted then
      changeStore fun store =>
        { store with capacity := if store.records.length < 128 then 256 else store.records.length * 2 }

def compact : StoreProg Unit := do
  let store ← current
  if store.records.any fun rec => decide (rec.status = .killed) then
    let kept := store.records.filter fun rec => decide (rec.status ≠ .killed)
    changeStore fun store =>
      { store with
        records := kept
        ht := store.ht.map fun _ => indexPids (kept.map ProcRecord.pid) }
    shrinkRecords

def procStoreUpdate (snap : ProcSnapshot) (now : Int) : StoreProg Unit := do
  let before ← current
  if before.ht.isNone ∨ before.snapHt.isNone then pure ()
  else
    let saved ← saveStrtab
    match saved with
    | none => pure ()
    | some oldStrtab =>
      let snapHt := indexPids (snap.entries.map ProcEntry.pid)
      changeStore fun store =>
        { store with strtab := strtabReset store.strtab, extras := [], snapHt := some snapHt }
      let records ← before.records.mapM' (ageRecord snap snapHt oldStrtab now)
      changeStore fun store => { store with records }
      appendNew snap snap.entries
      compact

def procStoreInit (htGranted snapGranted strtabGranted : Bool) : ProcStore where
  ht := if htGranted then some ProbeTable.empty else none
  snapHt := if snapGranted then some ProbeTable.empty else none
  strtab := if strtabGranted then strtabInit 65536 else {}

end Evemon.Store
