import Evemon.Lib.CText

-- JSON values as a C library hands them out: objects are lists of fields with one value for
-- each key, and a missing value may be asked like any other.
open CText List

inductive Json where
  | null
  | bool (value : Bool)
  | integer (value : Int)
  | real (bits : UInt64)
  | string (text : Text)
  | array (items : List Json)
  | object (fields : List (Text × Json))

namespace Json

def ascii (name : String) : Text := name.toList.map fun char => char.toNat.toUInt8

def objectGet (json : Option Json) (key : Text) : Option Json :=
  match json with
  | some (.object fields) => fields.lookup key
  | _ => none

def integerValue : Option Json → Option Int
  | some (.integer value) => some value
  | _ => none

def booleanValue : Option Json → Option Bool
  | some (.bool value) => some value
  | _ => none

def stringValue : Option Json → Option Text
  | some (.string text) => some text
  | _ => none

def arrayItems : Option Json → Option (List Json)
  | some (.array items) => some items
  | _ => none

def set (key : Text) (value : Json) : List (Text × Json) → List (Text × Json)
  | [] => [(key, value)]
  | (other, held) :: rest => if other = key then (key, value) :: rest else (other, held) :: set key value rest

-- A value that could not be built is not set.
def setAll (entries : List (Text × Option Json)) (fields : List (Text × Json)) : List (Text × Json) :=
  entries.foldl (fun held entry => entry.2.elim held fun value => set entry.1 value held) fields

section

def insertField (key : Text) (value : Json) : List (Text × Json) → List (Text × Json)
  | [] => [(key, value)]
  | (other, held) :: rest =>
    if key = other then (key, value) :: rest
    else if key < other then (key, value) :: (other, held) :: rest
    else (other, held) :: insertField key value rest

mutual

def sorted : Json → Json
  | .null => .null
  | .bool value => .bool value
  | .integer value => .integer value
  | .real bits => .real bits
  | .string text => .string text
  | .array items => .array (sortedItems items)
  | .object fields => .object (sortedFields fields)

def sortedItems : List Json → List Json
  | [] => []
  | item :: rest => sorted item :: sortedItems rest

def sortedFields : List (Text × Json) → List (Text × Json)
  | [] => []
  | (key, value) :: rest => insertField key (sorted value) (sortedFields rest)

end

theorem lookup_cons_eq {ν : Type} (key other : Text) (value : ν) (rest : List (Text × ν)) :
    ((other, value) :: rest).lookup key = if key = other then some value else rest.lookup key := by
  by_cases same : key = other
  · rw [if_pos same, same, lookup_cons_self]
  · rw [if_neg same, lookup_cons, beq_eq_false_iff_ne.mpr same]

theorem lookup_insert_field (key other : Text) (value : Json) (fields : List (Text × Json)) :
    (insertField key value fields).lookup other = if other = key then some value else fields.lookup other := by
  induction fields with
  | nil => rw [insertField, lookup_cons_eq]
  | cons field rest ih =>
    obtain ⟨name, held⟩ := field
    rw [insertField]
    split
    · rename_i same
      rw [lookup_cons_eq, lookup_cons_eq, ← same]
      split <;> rfl
    · split
      · rw [lookup_cons_eq]
      · rename_i different _
        rw [lookup_cons_eq, lookup_cons_eq, ih]
        by_cases here : other = name
        · rw [if_pos here, if_pos here, if_neg (fun same => different (same.symm.trans here))]
        · rw [if_neg here, if_neg here]

theorem lookup_sorted {key} {fields} : (sortedFields fields).lookup key = (fields.lookup key).map sorted := by
  induction fields with
  | nil => rfl
  | cons field rest ih =>
    obtain ⟨name, held⟩ := field
    rw [sortedFields, lookup_insert_field, lookup_cons_eq, ih]
    split <;> rfl

theorem sorted_items_map (items : List Json) : sortedItems items = items.map sorted := by
  induction items with
  | nil => rfl
  | cons item rest ih => rw [sortedItems, map_cons, ih]

variable (json : Option Json)

theorem object_get_sorted (key : Text) : objectGet (json.map sorted) key = (objectGet json key).map sorted := by
  cases json with
  | none => rfl
  | some value =>
    cases value with
    | object fields => exact lookup_sorted
    | null | bool value | integer value | real bits | string text | array items => rfl

theorem integer_value_sorted : integerValue (json.map sorted) = integerValue json := by
  rcases json with _ | value
  · rfl
  · cases value <;> rfl

theorem boolean_value_sorted : booleanValue (json.map sorted) = booleanValue json := by
  rcases json with _ | value
  · rfl
  · cases value <;> rfl

theorem string_value_sorted : stringValue (json.map sorted) = stringValue json := by
  rcases json with _ | value
  · rfl
  · cases value <;> rfl

theorem array_items_sorted : arrayItems (json.map sorted) = (arrayItems json).map (List.map sorted) := by
  rcases json with _ | value
  · rfl
  · cases value with
    | array items => exact congrArg some (sorted_items_map items)
    | null | bool value | integer value | real bits | string text | object fields => rfl

end

theorem lookup_set (key other : Text) (value : Json) (fields : List (Text × Json)) :
    (set key value fields).lookup other = if other = key then some value else fields.lookup other := by
  induction fields with
  | nil => rw [set, lookup_cons_eq]
  | cons field rest ih =>
    obtain ⟨name, held⟩ := field
    rw [set]
    split
    · rename_i same
      rw [lookup_cons_eq, lookup_cons_eq, same]
      split <;> rfl
    · rename_i different
      rw [lookup_cons_eq, lookup_cons_eq, ih]
      by_cases here : other = name
      · rw [if_pos here, if_pos here, if_neg (fun same => different (here.symm.trans same))]
      · rw [if_neg here, if_neg here]

theorem lookup_map_key {ν : Type} (keys : List Text) (value : Text → ν) (key : Text) (mem : key ∈ keys) :
    (keys.map fun name => (name, value name)).lookup key = some (value key) := by
  induction keys with
  | nil => cases mem
  | cons name rest ih =>
    rw [map_cons, lookup_cons_eq]
    by_cases here : key = name
    · rw [if_pos here, here]
    · rw [if_neg here]
      exact ih ((mem_cons.mp mem).resolve_left here)

theorem lookup_set_all {entries : List (Text × Option Json)} {fields} {key}
    (distinct : (entries.map Prod.fst).Nodup) :
    (setAll entries fields).lookup key = (entries.lookup key).join.or (fields.lookup key) := by
  induction entries generalizing fields with
  | nil => rfl
  | cons entry rest ih =>
    obtain ⟨name, value⟩ := entry
    rw [map_cons, nodup_cons] at distinct
    have later := @ih (value.elim fields fun value => set name value fields) distinct.2
    rw [setAll] at later ⊢
    rw [foldl_cons, later, lookup_cons_eq]
    by_cases here : key = name
    · have absent : rest.lookup key = none := by
        rw [lookup_eq_none_iff]
        intro other mem
        rw [bne_iff_ne, here]
        exact fun same => distinct.1 (mem_map.mpr ⟨other, mem, same.symm⟩)
      cases value with
      | none => simp [here ▸ absent, here]
      | some value => simp [here ▸ absent, here, lookup_set]
    · cases value with
      | none => simp [here]
      | some value => simp [here, lookup_set]

end Json
