import Evemon.Monitor

-- Which rows the Steam passes of a scan give a record to.
namespace Evemon.Monitor

open CText List
open ProbeTable (Table)

def Recorded (snap : ProcSnapshot) (index : Nat) : Prop :=
  ∃ row, snap.entries[index]? = some row ∧ (snap.steam row).isSome

-- A row is left without a record only where the first pass had no memory for one or
-- steam_detect found nothing.
def Filled (world : SteamWorld) (scanned built : ProcSnapshot) : Prop :=
  ∀ index row, scanned.entries[index]? = some row →
    Recorded built index ∨ world.slotGranted 0 index = false ∨
      ∃ parent, world.detect 0 row.pid (procStr scanned.strtab row.name.off) (procStr scanned.strtab row.cmd.off)
        parent = none

structure SteamStep (index : Nat) (pass next : SteamPass) : Prop where
  strtab : next.snap.strtab = pass.snap.strtab
  others : ∀ other, other ≠ index → next.snap.entries[other]? = pass.snap.entries[other]?
  recorded : ∀ other, Recorded pass.snap other → Recorded next.snap other

section

variable {extras : List (Option SteamInfo)} {slot : Nat} (held : (extras[slot]?).join.isSome)

include held

theorem held_inside : slot < extras.length := by
  by_contra outside
  rw [getElem?_eq_none (Nat.le_of_not_lt outside)] at held
  cases held

theorem held_append (more : List (Option SteamInfo)) : ((extras ++ more)[slot]?).join.isSome := by
  rwa [getElem?_append_left (held_inside held)]

theorem held_set (other : Nat) (info : SteamInfo) : ((extras.set other (some info))[slot]?).join.isSome := by
  by_cases same : other = slot
  · rw [same, getElem?_set_self (held_inside held)]
    rfl
  · rwa [getElem?_set_ne same]

end

variable {pass next : SteamPass} {index turn : Nat} {row : ProcEntry}

theorem attach_steam_step {info} {granted} (here : pass.snap.entries[index]? = some row)
    (attached : attachSteam pass index row info granted = some next) :
    SteamStep index pass next ∧ (row.extraIdx = uint32Max → Recorded next.snap index) := by
  unfold attachSteam at attached
  split at attached
  · split at attached
    · cases attached
    · obtain rfl := Option.some.inj attached
      obtain ⟨inside, -⟩ := List.getElem?_eq_some_iff.mp here
      have new : Recorded { pass.snap with
          entries := pass.snap.entries.set index { row with extraIdx := pass.snap.extras.length }
          extras := pass.snap.extras ++ [some info] } index :=
        ⟨_, getElem?_set_self inside, by simp [ProcSnapshot.steam]⟩
      refine ⟨⟨rfl, fun other away => getElem?_set_ne (Ne.symm away), fun other before => ?_⟩, fun _ => new⟩
      by_cases same : other = index
      · rw [same]
        exact new
      · obtain ⟨old, there, held⟩ := before
        exact ⟨old, (getElem?_set_ne (Ne.symm same)).trans there, held_append held _⟩
  · rename_i taken
    obtain rfl := Option.some.inj attached
    refine ⟨⟨rfl, fun _ _ => rfl, fun other before => ?_⟩, fun free => absurd free taken⟩
    obtain ⟨old, there, held⟩ := before
    exact ⟨old, there, held_set held _ info⟩

variable {world : SteamWorld} {table : Table cpuHtSize Int32 Nat}

theorem steam_row_attached (found : steamRow world table turn pass index = some next) :
    ∃ row info granted, pass.snap.entries[index]? = some row ∧ attachSteam pass index row info granted = some next := by
  unfold steamRow at found
  split at found
  · cases found
  · rename_i row here
    split at found
    · cases found
    · split at found
      · cases found
      · exact ⟨row, _, _, here, found⟩

section

-- What every attached record keeps, the passes keep.
variable (P : ProcSnapshot → Prop) (keeps : ∀ {pass next : SteamPass} {index row info granted},
  pass.snap.entries[index]? = some row → attachSteam pass index row info granted = some next → P pass.snap → P next.snap)

include keeps

theorem steam_rows_rule (indices : List Nat) (pass : SteamPass) (found : Nat) (held : P pass.snap) :
    P (steamRows world table turn indices pass found).1.snap := by
  induction indices generalizing pass found with
  | nil => exact held
  | cons index rest ih =>
    rw [steamRows]
    split
    · exact ih pass found held
    · rename_i next made
      obtain ⟨row, info, granted, here, attached⟩ := steam_row_attached made
      exact ih next (found + 1) (keeps here attached held)

theorem steam_passes_rule (left turn : Nat) (pass : SteamPass) (held : P pass.snap) :
    P (steamPasses world table left turn pass).snap := by
  induction left generalizing turn pass with
  | zero => exact held
  | succ left ih =>
    have first := @steam_rows_rule turn world table P keeps (List.range pass.snap.entries.length) pass 0 held
    rw [steamPasses]
    split
    · exact first
    · exact ih (turn + 1) _ first

end

theorem steam_row_settles (here : pass.snap.entries[index]? = some row) (free : row.extraIdx = uint32Max) :
    Recorded ((steamRow world table turn pass index).getD pass).snap index ∨ world.slotGranted turn index = false ∨
    ∃ parent, world.detect turn row.pid (procStr pass.snap.strtab row.name.off) (procStr pass.snap.strtab row.cmd.off)
    parent = none := by
  simp only [steamRow, here]
  split
  · rename_i held
    exact .inl ⟨row, here, held⟩
  · split
    · rename_i missed
      exact .inr (.inr ⟨_, missed⟩)
    · rename_i info _
      cases attached : attachSteam pass index row info (world.slotGranted turn index) with
      | some next => exact .inl ((attach_steam_step here attached).2 free)
      | none =>
        rw [attachSteam, if_pos free] at attached
        split at attached
        · rename_i refused
          exact .inr (.inl refused.2)
        · cases attached

theorem attach_recorded {pass next : SteamPass} {index other : Nat} {row} {info} {granted}
    (here : pass.snap.entries[index]? = some row) (attached : attachSteam pass index row info granted = some next)
    (held : Recorded pass.snap other) : Recorded next.snap other :=
  (attach_steam_step here attached).1.recorded other held

theorem steam_rows_fill (scanned : ProcSnapshot) (fresh : ∀ row ∈ scanned.entries, row.extraIdx = uint32Max)
    (indices : List Nat) (distinct : indices.Nodup) (pass : SteamPass) (strtab : pass.snap.strtab = scanned.strtab)
    (rows : ∀ index ∈ indices, pass.snap.entries[index]? = scanned.entries[index]?) (found index : Nat)
    (listed : index ∈ indices) (row : ProcEntry) (there : scanned.entries[index]? = some row) :
    Recorded (steamRows world table 0 indices pass found).1.snap index ∨ world.slotGranted 0 index = false ∨
    ∃ parent, world.detect 0 row.pid (procStr scanned.strtab row.name.off) (procStr scanned.strtab row.cmd.off)
    parent = none := by
  induction indices generalizing pass found with
  | nil => cases listed
  | cons first rest ih =>
    obtain ⟨away, distinct⟩ := nodup_cons.mp distinct
    have settles := @steam_row_settles pass index 0 row world table
    rw [steamRows]
    -- The row is visited now, or it still is as it was scanned when its turn comes.
    rcases mem_cons.mp listed with rfl | later
    · have now := settles ((rows index mem_cons_self).trans there) (fresh row (mem_of_getElem? there))
      rw [strtab] at now
      refine now.imp_left fun held => ?_
      split
      · rename_i none
        rw [none] at held
        exact steam_rows_rule (Recorded · index) attach_recorded rest pass found held
      · rename_i next made
        rw [made] at held
        exact steam_rows_rule (Recorded · index) attach_recorded rest next (found + 1) held
    · have others (index : Nat) (mem : index ∈ rest) := rows index (mem_cons_of_mem first mem)
      split
      · exact ih distinct pass strtab others found later
      · rename_i next made
        obtain ⟨_, _, _, here, attached⟩ := steam_row_attached made
        have step := (attach_steam_step here attached).1
        refine ih distinct next (step.strtab.trans strtab) (fun index mem => ?_) (found + 1) later
        exact (step.others index fun same => away (same ▸ mem)).trans (others index mem)

theorem enrich_fills (scanned : ProcSnapshot) (fresh : ∀ row ∈ scanned.entries, row.extraIdx = uint32Max)
    (available : world.available) (granted : world.tableGranted) : Filled world scanned (enrich world scanned) := by
  intro index row there
  rw [enrich, if_pos ⟨available, granted⟩, steamPasses]
  have listed : index ∈ List.range scanned.entries.length := by
    obtain ⟨inside, -⟩ := List.getElem?_eq_some_iff.mp there
    exact mem_range.mpr inside
  have filled := @steam_rows_fill world (indexRows scanned.entries) scanned fresh _ nodup_range ⟨scanned, 0⟩ rfl
    (fun _ _ => rfl) 0 index listed row there
  refine filled.imp_left fun held => ?_
  split
  · exact held
  · exact steam_passes_rule (Recorded · index) attach_recorded 3 1 _ held

theorem history_rows_extra (table rows) :
    (historyRows table rows).2.map ProcEntry.extraIdx = rows.map ProcEntry.extraIdx := by
  induction rows generalizing table with
  | nil => rfl
  | cons row rest ih =>
    have first : (historyRow table row).2.extraIdx = row.extraIdx := by
      unfold historyRow
      split <;> rfl
    rw [historyRows, map_cons, map_cons, ih, first]

theorem fill_rates_extra (statics sample) (snap : ProcSnapshot) :
    (fillRates statics sample snap).2.entries.map ProcEntry.extraIdx = snap.entries.map ProcEntry.extraIdx := by
  have net (row : ProcEntry) : (netRow sample.net row).extraIdx = row.extraIdx := by
    unfold netRow
    split <;> rfl
  have rated : (rateRows statics sample.now sample.numCpus sample.clkTck snap.entries).map ProcEntry.extraIdx =
      snap.entries.map ProcEntry.extraIdx := by
    unfold rateRows
    dsimp only
    split
    · exact map_map
    · rfl
  exact (map_map.trans (map_congr_left fun row _ => net row)).trans ((history_rows_extra _ _).trans rated)

theorem fill_rates_recorded (statics sample) {snap} (held : Recorded snap index) :
    Recorded (fillRates statics sample snap).2 index := by
  obtain ⟨row, here, some⟩ := held
  have column := congrArg (·[index]?) (fill_rates_extra statics sample snap)
  simp only [getElem?_map, here, Option.map_some] at column
  obtain ⟨filled, there, same⟩ := Option.map_eq_some_iff.mp column
  refine ⟨filled, there, ?_⟩
  rw [ProcSnapshot.steam, same]
  exact some

end Evemon.Monitor
