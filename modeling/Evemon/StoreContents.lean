import Evemon.SnapshotRows
import Evemon.Store

-- What the copies of one update put into the string table and the Steam records. Both only grow
-- during the update, so a record keeps what it was given.
namespace Evemon.Store

open List Prog Bool

open Ipc (Bytes)
open Prog (Grows Growth Stable Keeps)

def Refused (state : StoreState) : Prop := state.refused = true

structure Ready (state : StoreState) : Prop where
  terminated : Terminated state.store.strtab
  few : state.store.extras.length ≤ uint32Max

structure Later (state after : StoreState) : Prop where
  begun : Ready state
  ready : Ready after
  strings : Extends state.store.strtab after.store.strtab
  extras : state.store.extras <+: after.store.extras

theorem later_growth : Growth Ready Later where
  refl _ ready := ⟨ready, ready, extends_refl _, prefix_refl _⟩
  trans _ _ _ first second :=
    ⟨first.begun, second.ready, extends_trans first.strings second.strings, first.extras.trans second.extras⟩
  ready _ _ later := later.ready

structure Pushed (s : Bytes) (granted : Bool) (state after : StoreState) : Prop where
  strtab : after.store.strtab = (strtabPush state.store.strtab s granted).1
  extras : after.store.extras = state.store.extras
  kept : state.refused = true → after.refused = true
  answered : after.refused = false → granted = true
  placed : after.refused = false → s ≠ [] → (strtabPush state.store.strtab s granted).2 ≠ 0

theorem push_string_cases (s : Bytes) (state : StoreState) :
    ∃ granted, ((pushString s).run state).1 = (strtabPush state.store.strtab s granted).2 ∧
    Pushed s granted state ((pushString s).run state).2 := by
  have nonzero (granted : Bool) (sound : decide (s ≠ [] ∧ (strtabPush state.store.strtab s granted).2 = 0) = false)
      (nonempty : s ≠ []) : (strtabPush state.store.strtab s granted).2 ≠ 0 :=
    fun zero => of_decide_eq_false sound ⟨nonempty, zero⟩
  by_cases grows : strtabGrows state.store.strtab s
  · refine ⟨state.heap.grant state.heap.asked, by simp [pushString, current, changeStore, allocWhen, alloc, noteRefused, grows], ?_⟩
    simp only [pushString, current, changeStore, allocWhen, alloc, noteRefused, run_bind, run_inspect, grows,
      run_modify, if_true, run_pure]
    refine ⟨rfl, rfl, fun kept => ?_, fun sound => ?_, fun sound => nonzero _ (Bool.or_eq_false_iff.mp sound).2⟩
    · rw [kept, Bool.true_or, Bool.true_or]
    · simpa using (Bool.or_eq_false_iff.mp (Bool.or_eq_false_iff.mp sound).1).2
  · refine ⟨true, by simp [pushString, current, changeStore, allocWhen, noteRefused, grows], ?_⟩
    simp only [pushString, current, changeStore, allocWhen, noteRefused, run_bind, run_inspect, grows,
      run_modify, if_false, run_pure, Bool.false_eq_true]
    exact ⟨rfl, rfl, fun kept => by rw [kept, Bool.true_or], fun _ => rfl,
      fun sound => nonzero _ (Bool.or_eq_false_iff.mp sound).2⟩

theorem strtab_push_nil (tab : StrTab) (granted : Bool) : strtabPush tab [] granted = (tab, 0) := by
  simp [strtabPush, strtabRejects]

theorem push_string_grows {s : Bytes} (nulFree : 0 ∉ s) :
    Grows Refused Ready Later (pushString s) fun off state => ∀ len, Holds state.store.strtab ⟨off, len⟩ s where
  sticky state lost := by
    obtain ⟨granted, -, pushed⟩ := push_string_cases s state
    exact pushed.kept lost
  grows state ready sound := by
    obtain ⟨granted, result, pushed⟩ := push_string_cases s state
    rw [result]
    have unrefused := eq_false_of_ne_true sound
    obtain rfl := pushed.answered unrefused
    have few : ((pushString s).run state).2.store.extras.length ≤ uint32Max := by
      rw [pushed.extras]
      exact ready.few
    have same : state.store.extras <+: ((pushString s).run state).2.store.extras := pushed.extras ▸ prefix_refl _
    by_cases nonempty : s = []
    · subst nonempty
      have table := pushed.strtab
      rw [strtab_push_nil] at table ⊢
      have inside : 0 < state.store.strtab.buf.length := length_pos_of_mem (mem_of_getLast? ready.terminated)
      refine ⟨⟨ready, ⟨?_, few⟩, ?_, same⟩, fun len => ?_⟩
      · rw [table]
        exact ready.terminated
      · rw [table]
        exact extends_refl _
      · rw [table]
        exact ⟨inside, rfl⟩
    · have room : state.store.strtab.buf.length + s.length + 1 ≤ uint32Max := by
        have placed := pushed.placed unrefused nonempty
        by_contra full
        apply placed
        have rejected : strtabRejects state.store.strtab s := by
          simp only [strtabRejects, or_eq_true, decide_eq_true_eq]
          omega
        rw [strtabPush, if_pos rejected]
      rw [pushed.strtab]
      obtain ⟨terminated, longer, -, -, -⟩ := strtab_push_holds 0 ready.terminated nulFree room
      refine ⟨⟨ready, ⟨?_, few⟩, ?_, same⟩, fun len => ?_⟩
      · rwa [pushed.strtab]
      · rwa [pushed.strtab]
      · exact (strtab_push_holds len ready.terminated nulFree room).2.2.1

def texts (tab : StrTab) (entry : ProcEntry) : List Bytes := entry.refs.map fun ref => procStr tab ref.off

def plain (entry : ProcEntry) : ProcEntry :=
  { entry with name := {}, cmd := {}, user := {}, cwd := {}, container := {}, service := {}, extraIdx := uint32Max }

structure Carries (entry src : ProcEntry) (wanted : List Bytes) (store : ProcStore) : Prop where
  plain : plain entry = plain src
  strings : List.Forall₂ (Holds store.strtab) entry.refs wanted

def Placed (steam : Option SteamInfo) (entry : ProcEntry) (store : ProcStore) : Prop :=
  match steam with
  | none => entry.extraIdx = uint32Max
  | some info => store.extras[entry.extraIdx]? = some info

structure Copied (src : ProcEntry) (snap : ProcSnapshot) (entry : ProcEntry) (store : ProcStore) : Prop where
  carries : Carries entry src (texts snap.strtab src) store
  steam : Placed (snap.steam src) entry store

theorem holds_stable (ref : StrRef) (s : Bytes) : Stable Later fun state => Holds state.store.strtab ref s :=
  fun _ _ later holds => holds_extends later.begun.terminated later.strings holds

theorem carries_stable (entry src : ProcEntry) {wanted} :
    Stable Later fun state => Carries entry src wanted state.store := fun state after later carries =>
  ⟨carries.plain, carries.strings.imp fun ref s holds => holds_stable ref s state after later holds⟩

theorem placed_stable (steam : Option SteamInfo) (entry : ProcEntry) :
    Stable Later fun state => Placed steam entry state.store := by
  intro state after later placed
  cases steam with
  | none => exact placed
  | some info =>
    obtain ⟨more, grown⟩ := later.extras
    obtain ⟨inside, -⟩ := List.getElem?_eq_some_iff.mp placed
    simp only [Placed] at placed ⊢
    rw [← grown, List.getElem?_append_left inside, placed]

variable (src : ProcEntry)

theorem copied_stable (snap : ProcSnapshot) (entry : ProcEntry) :
    Stable Later fun state => Copied src snap entry state.store := fun state after later copied =>
  ⟨carries_stable _ _ state after later copied.carries, placed_stable _ _ state after later copied.steam⟩

theorem re_push_grows (tab : StrTab) :
    Grows Refused Ready Later (rePushEntryStrings src tab) fun entry state =>
      Carries entry src (texts tab src) state.store := by
  have each (off : Nat) := push_string_grows (proc_str_nul_free tab off)
  have stable (s : Bytes) (off : Nat) : Stable Later fun state => ∀ len, Holds state.store.strtab ⟨off, len⟩ s :=
    fun state after later holds len => holds_stable ⟨off, len⟩ s state after later (holds len)
  unfold rePushEntryStrings
  apply grows_bind later_growth (stable _) (each src.name.off)
  intro name
  apply grows_bind later_growth (stable _) (each src.cmd.off)
  intro cmd
  apply grows_bind later_growth (stable _) (each src.user.off)
  intro user
  apply grows_bind later_growth (stable _) (each src.cwd.off)
  intro cwd
  apply grows_bind later_growth (stable _) (each src.container.off)
  intro container
  apply grows_bind later_growth (stable _) (each src.service.off)
  intro service
  apply grows_inspect
  intro store
  apply grows_pure later_growth
  intro state _ atService atContainer atCwd atUser atCmd atName
  exact ⟨rfl, .cons (atName _) (.cons (atCmd _) (.cons (atUser _) (.cons (atCwd _) (.cons (atContainer _)
    (.cons (atService _) .nil)))))⟩

structure SameTables (state after : StoreState) : Prop where
  records : after.store.records = state.store.records
  strtab : after.store.strtab = state.store.strtab
  extras : after.store.extras = state.store.extras
  kept : state.refused = true → after.refused = true

theorem grow_extras_tables (state : StoreState) : SameTables state (growExtras.run state).2 := by
  by_cases full : state.store.extras.length ≥ state.store.extrasCap.toNat
  · by_cases granted : state.heap.grant state.heap.asked
    · constructor <;> simp [growExtras, current, alloc, changeStore, full, granted]
    · constructor <;> simp [growExtras, current, alloc, full, granted]
  · constructor <;> simp [growExtras, current, full]

variable (info : SteamInfo)

theorem copy_steam_cases (state : StoreState) :
    (state.refused → ((copySteam info).run state).2.refused) ∧ (((copySteam info).run state).2.refused = false →
    ((copySteam info).run state).1 = state.store.extras.length ∧ state.store.extras.length < uint32Max ∧
    ((copySteam info).run state).2.store.strtab = state.store.strtab ∧
    ((copySteam info).run state).2.store.extras = state.store.extras ++ [info]) := by
  have same := grow_extras_tables state
  simp only [copySteam, current, run_bind, run_inspect]
  generalize growExtras.run state = grown at same ⊢
  by_cases room : grown.2.store.extras.length < grown.2.store.extrasCap.toNat
  · by_cases granted : grown.2.heap.grant grown.2.heap.asked
    · simp only [room, if_true, alloc, run_bind, granted, changeStore, run_modify, run_pure]
      have few : state.store.extras.length < uint32Max := by
        have bound := grown.2.store.extrasCap.toNat_lt
        rw [same.extras] at room
        exact lt_of_lt_of_le room (Nat.le_of_lt_succ bound)
      refine ⟨fun lost => by rw [same.kept lost, Bool.true_or], fun _ => ⟨by rw [same.extras], few, same.strtab, ?_⟩⟩
      rw [same.extras]
    · simp [room, alloc, granted]
  · simp [room, noteRefused]

theorem copy_steam_grows :
    Grows Refused Ready Later (copySteam info) fun index state => state.store.extras[index]? = some info where
  sticky state lost := (copy_steam_cases info state).1 lost
  grows state ready sound := by
    obtain ⟨index, few, strtab, extras⟩ := (copy_steam_cases info state).2 (eq_false_of_ne_true sound)
    refine ⟨⟨ready, ⟨strtab ▸ ready.terminated, ?_⟩, strtab ▸ extends_refl _, extras ▸ prefix_append _ _⟩, ?_⟩
    · rw [extras, length_append]
      exact few
    · rw [index, extras, List.getElem?_concat_length]

theorem store_copy_grows (snap : ProcSnapshot) :
    Grows Refused Ready Later (storeCopyEntry src snap) fun entry state => Copied src snap entry state.store := by
  unfold storeCopyEntry
  apply grows_bind later_growth (fun entry => carries_stable entry src) (re_push_grows src snap.strtab)
  intro entry
  cases steam : snap.steam src with
  | none =>
    apply grows_pure later_growth
    intro state _ carries
    exact ⟨⟨carries.plain, carries.strings⟩, by rw [steam]; rfl⟩
  | some info =>
    apply grows_bind later_growth _ (copy_steam_grows info)
    · intro index
      apply grows_pure later_growth
      intro state _ placed carries
      exact ⟨⟨carries.plain, carries.strings⟩, by rw [steam]; exact placed⟩
    · exact fun index => placed_stable (some info) { entry with extraIdx := index }

end Evemon.Store
