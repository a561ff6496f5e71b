import Mathlib.Data.List.Basic

-- utf8_sanitize of the command line of a process.
namespace Evemon.Utf8

open List

def continuation (rest : List UInt8) (i : Nat) : Bool := rest.getD i 0 &&& 0xC0 == 0x80

def following (lead : UInt8) (rest : List UInt8) : Option Nat :=
  if lead < 0x80 then some 0
  else if lead &&& 0xE0 == 0xC0 then
    if continuation rest 0 && decide (lead &&& 0x1F ≥ 0x02) then some 1 else none
  else if lead &&& 0xF0 == 0xE0 then
    if continuation rest 0 && continuation rest 1 then some 2 else none
  else if lead &&& 0xF8 == 0xF0 then
    if continuation rest 0 && continuation rest 1 && continuation rest 2 then some 3 else none
  else none

-- `skip` bytes of an accepted sequence are still to be passed.
def sanitizeFrom : Nat → List UInt8 → List UInt8
  | _, [] => []
  | skip + 1, byte :: rest => byte :: sanitizeFrom skip rest
  | 0, byte :: rest =>
    match following byte rest with
    | some more => byte :: sanitizeFrom more rest
    | none => 63 :: sanitizeFrom 0 rest

def utf8Sanitize (s : List UInt8) : List UInt8 := sanitizeFrom 0 s

def Tail (byte : UInt8) : Prop := 0x80 ≤ byte ∧ byte ≤ 0xBF

def Second (lead byte : UInt8) : Prop :=
  (if lead = 0xE0 then 0xA0 else if lead = 0xF0 then 0x90 else 0x80) ≤ byte ∧
    byte ≤ (if lead = 0xED then 0x9F else if lead = 0xF4 then 0x8F else 0xBF)

inductive Char : List UInt8 → Prop where
  | one (a : UInt8) (low : a ≤ 0x7F) : Char [a]
  | two (a b : UInt8) (lead : 0xC2 ≤ a ∧ a ≤ 0xDF) (last : Tail b) : Char [a, b]
  | three (a b c : UInt8) (lead : 0xE0 ≤ a ∧ a ≤ 0xEF) (second : Second a b) (last : Tail c) : Char [a, b, c]
  | four (a b c d : UInt8) (lead : 0xF0 ≤ a ∧ a ≤ 0xF4) (second : Second a b) (third : Tail c) (last : Tail d) :
      Char [a, b, c, d]

inductive Valid : List UInt8 → Prop where
  | nil : Valid []
  | cons (char rest : List UInt8) (first : Char char) (others : Valid rest) : Valid (char ++ rest)

section

def trailing (lead : UInt8) : Option Nat :=
  if lead < 0x80 then some 0
  else if lead &&& 0xE0 == 0xC0 then if lead &&& 0x1F ≥ 0x02 then some 1 else none
  else if lead &&& 0xF0 == 0xE0 then some 2
  else if lead &&& 0xF8 == 0xF0 then some 3
  else none

structure Group (lead : UInt8) (tail : List UInt8) : Prop where
  size : trailing lead = some tail.length
  tails : ∀ byte ∈ tail, Tail byte

instance (byte : UInt8) : Decidable (Tail byte) := inferInstanceAs (Decidable (_ ∧ _))

instance (lead byte : UInt8) : Decidable (Second lead byte) := inferInstanceAs (Decidable (_ ∧ _))

theorem of_bytes (holds : UInt8 → Prop) (each : ∀ byte : Fin 256, holds (UInt8.ofFin byte)) (byte : UInt8) : holds byte :=
  each byte.toFin

theorem tail_bits (byte : UInt8) : (byte &&& 0xC0 == 0x80) ↔ Tail byte :=
  of_bytes (fun byte => (byte &&& 0xC0 == 0x80) ↔ Tail byte) (by decide +kernel) byte

theorem lead_not_tail (lead : UInt8) (known : (trailing lead).isSome) : ¬ Tail lead :=
  of_bytes (fun lead => (trailing lead).isSome → ¬ Tail lead) (by decide +kernel) lead known

theorem trailing_ranges (lead : UInt8) :
    (trailing lead = some 0 ↔ lead ≤ 0x7F) ∧ (trailing lead = some 1 ↔ 0xC2 ≤ lead ∧ lead ≤ 0xDF) ∧
    (trailing lead = some 2 ↔ 0xE0 ≤ lead ∧ lead ≤ 0xEF) ∧ (trailing lead = some 3 ↔ 0xF0 ≤ lead ∧ lead ≤ 0xF7) :=
  of_bytes (fun lead => (trailing lead = some 0 ↔ lead ≤ 0x7F) ∧ (trailing lead = some 1 ↔ 0xC2 ≤ lead ∧ lead ≤ 0xDF) ∧
    (trailing lead = some 2 ↔ 0xE0 ≤ lead ∧ lead ≤ 0xEF) ∧ (trailing lead = some 3 ↔ 0xF0 ≤ lead ∧ lead ≤ 0xF7))
    (by decide +kernel) lead

theorem second_tail {lead byte} (second : Second lead byte) : Tail byte := by
  obtain ⟨low, high⟩ := second
  constructor
  · refine UInt8.le_trans ?_ low
    split
    · decide
    · split <;> decide
  · refine UInt8.le_trans high ?_
    split
    · decide
    · split <;> decide

theorem char_group {char} (valid : Char char) : ∃ lead tail, char = lead :: tail ∧ Group lead tail := by
  cases valid with
  | one a low => exact ⟨a, [], rfl, (trailing_ranges a).1.mpr low, forall_mem_nil _⟩
  | two a b lead last => exact ⟨a, [b], rfl, (trailing_ranges a).2.1.mpr lead, by simpa using last⟩
  | three a b c lead second last =>
    exact ⟨a, [b, c], rfl, (trailing_ranges a).2.2.1.mpr lead, by simpa using ⟨second_tail second, last⟩⟩
  | four a b c d lead second third last =>
    have wide : a ≤ 0xF7 := UInt8.le_trans lead.2 (by decide)
    refine ⟨a, [b, c, d], rfl, (trailing_ranges a).2.2.2.mpr ⟨lead.1, wide⟩, ?_⟩
    simpa using ⟨second_tail second, third, last⟩

variable (rest : List UInt8)

theorem guarded (count more : Nat) (check : Bool) (checks : check = true ↔ ∀ i < count, continuation rest i = true) :
    (if check then some count else none) = some more ↔
    some count = some more ∧ ∀ i < more, continuation rest i = true := by
  cases check with
  | true =>
    simp only [if_true, Option.some_inj]
    exact ⟨fun same => ⟨same, same ▸ checks.mp rfl⟩, fun both => both.1⟩
  | false =>
    simp only [Bool.false_eq_true, if_false, false_iff, Option.some_inj, reduceCtorEq] at checks ⊢
    rintro ⟨rfl, all⟩
    exact checks all

theorem following_iff (lead : UInt8) (rest : List UInt8) (more : Nat) :
    following lead rest = some more ↔ trailing lead = some more ∧ ∀ i < more, continuation rest i := by
  unfold following trailing
  split
  · exact guarded rest 0 more true (by simp)
  split
  · by_cases long : lead &&& 0x1F ≥ 0x02
    · simp only [long, decide_true, Bool.and_true, if_true]
      exact guarded rest 1 more _ (by simp)
    · simp [long]
  split
  · refine guarded rest 2 more _ ?_
    simp only [Bool.and_eq_true, Nat.forall_lt_succ_right, Nat.not_lt_zero, false_imp_iff, forall_const, true_and]
  split
  · refine guarded rest 3 more _ ?_
    simp only [Bool.and_eq_true, Nat.forall_lt_succ_right, Nat.not_lt_zero, false_imp_iff, forall_const, true_and]
  · simp

theorem continuations_iff (count : Nat) : (∀ i < count, continuation rest i) ↔
    ∃ tail after, rest = tail ++ after ∧ tail.length = count ∧ ∀ byte ∈ tail, Tail byte := by
  induction count generalizing rest with
  | zero => simp
  | succ count ih =>
    cases rest with
    | nil =>
      refine iff_of_false (fun all => absurd (all 0 (Nat.succ_pos _)) (by decide)) ?_
      rintro ⟨tail, after, split, size, -⟩
      rw [(append_eq_nil_iff.mp split.symm).1] at size
      cases size
    | cons byte rest =>
      constructor
      · intro all
        obtain ⟨tail, after, rfl, size, tails⟩ := (ih rest).mp fun i small => all (i + 1) (by omega)
        refine ⟨byte :: tail, after, rfl, by rw [length_cons, size], ?_⟩
        exact forall_mem_cons.mpr ⟨(tail_bits byte).mp (all 0 (Nat.succ_pos _)), tails⟩
      · rintro ⟨tail, after, split, size, tails⟩
        cases tail with
        | nil => cases size
        | cons first tail =>
          rw [cons_append, List.cons.injEq] at split
          obtain ⟨atFirst, atRest⟩ := forall_mem_cons.mp tails
          have others := (ih rest).mpr ⟨tail, after, split.2, Nat.succ.inj size, atRest⟩
          intro i small
          cases i with
          | zero => exact (tail_bits byte).mpr (split.1 ▸ atFirst)
          | succ i => exact others i (by omega)

theorem pass_over (tail after : List UInt8) : sanitizeFrom tail.length (tail ++ after) = tail ++ sanitizeFrom 0 after := by
  induction tail with
  | nil => rfl
  | cons byte tail ih => rw [length_cons, cons_append, sanitizeFrom, ih, cons_append]

variable {lead : UInt8} {tail : List UInt8}

theorem sanitize_group (group : Group lead tail) (after : List UInt8) :
    utf8Sanitize (lead :: tail ++ after) = lead :: tail ++ utf8Sanitize after := by
  have more := (following_iff lead (tail ++ after) tail.length).mpr
    ⟨group.size, (continuations_iff _ _).mpr ⟨tail, after, rfl, rfl, group.tails⟩⟩
  rw [utf8Sanitize, cons_append, sanitizeFrom, more]
  simp only [pass_over]
  rfl

theorem sanitize_cases (byte : UInt8) (rest : List UInt8) : (∃ tail after, rest = tail ++ after ∧ Group byte tail) ∨
    utf8Sanitize (byte :: rest) = 63 :: utf8Sanitize rest := by
  cases more : following byte rest with
  | none =>
    right
    rw [utf8Sanitize, sanitizeFrom, more]
    rfl
  | some count =>
    left
    obtain ⟨size, all⟩ := (following_iff byte rest count).mp more
    obtain ⟨tail, after, split, length, tails⟩ := (continuations_iff rest count).mp all
    exact ⟨tail, after, split, length ▸ size, tails⟩

theorem group_aligned (group : Group lead tail) {after : List UInt8} {first} (known : ¬ Tail first)
    {before : List UInt8} (later : List UInt8) (split : lead :: tail ++ after = before ++ first :: later) (inside : before ≠ []) :
    ∃ middle, before = lead :: tail ++ middle ∧ after = middle ++ first :: later := by
  obtain ⟨middle, front, back⟩ | ⟨middle, front, back⟩ := append_eq_append_iff.mp split
  · exact ⟨middle, front, back⟩
  · cases middle with
    | nil =>
      rw [append_nil] at front
      exact ⟨[], by rw [front, append_nil], back.symm⟩
    | cons found middle =>
      obtain ⟨head, before, rfl⟩ := exists_cons_of_ne_nil inside
      rw [cons_append, List.cons.injEq] at front back
      have mem : first ∈ tail := by
        rw [front.2, back.1]
        exact mem_append_right _ mem_cons_self
      exact absurd (group.tails first mem) known

theorem group_lead (group : Group lead tail) : ¬ Tail lead := lead_not_tail lead (by rw [group.size]; rfl)

variable (s : List UInt8)

theorem scan_induction {motive : List UInt8 → Prop} (nil : motive [])
    (group : ∀ lead tail after, Group lead tail → motive after → motive (lead :: tail ++ after))
    (replaced : ∀ byte rest, utf8Sanitize (byte :: rest) = 63 :: utf8Sanitize rest → motive rest →
    motive (byte :: rest)) : motive s := by
  induction length : s.length using Nat.strongRecOn generalizing s with
  | ind n ih =>
    cases s with
    | nil => exact nil
    | cons byte rest =>
      rw [length_cons] at length
      obtain ⟨tail, after, rfl, found⟩ | one := sanitize_cases byte rest
      · rw [length_append] at length
        exact group byte tail after found (ih after.length (by omega) after rfl)
      · exact replaced byte rest one (ih rest.length (by omega) rest rfl)

theorem sanitize_keeps (group : Group lead tail) (before : List UInt8) {after : List UInt8} (s : List UInt8)
    (split : s = before ++ lead :: (tail ++ after)) :
    ∃ front, front.length = before.length ∧ utf8Sanitize s = front ++ lead :: (tail ++ utf8Sanitize after) := by
  induction s using scan_induction generalizing before with
  | nil => exact absurd split (by simp)
  | group first others rest found ih =>
    by_cases here : before = []
    · rw [split, here, nil_append]
      exact ⟨[], rfl, sanitize_group group after⟩
    · obtain ⟨middle, front, back⟩ := group_aligned found (group_lead group) _ split here
      obtain ⟨kept, length, same⟩ := ih middle back
      refine ⟨first :: others ++ kept, by rw [front, length_append, length_append, length], ?_⟩
      rw [sanitize_group found, same, append_assoc]
  | replaced byte rest one ih =>
    cases before with
    | nil =>
      rw [split, nil_append]
      exact ⟨[], rfl, sanitize_group group after⟩
    | cons head before =>
      rw [cons_append, List.cons.injEq] at split
      obtain ⟨kept, length, same⟩ := ih before split.2
      exact ⟨63 :: kept, by rw [length_cons, length_cons, length], by rw [one, same, cons_append]⟩

theorem sanitize_length : (utf8Sanitize s).length = s.length := by
  induction s using scan_induction with
  | nil => rfl
  | group lead tail after found ih => rw [sanitize_group found, length_append, length_append, ih]
  | replaced byte rest one ih => rw [one, length_cons, length_cons, ih]

theorem question_group : Group 63 [] := ⟨rfl, forall_mem_nil _⟩

theorem sanitize_idem : utf8Sanitize (utf8Sanitize s) = utf8Sanitize s := by
  induction s using scan_induction with
  | nil => rfl
  | group lead tail after found ih => rw [sanitize_group found, sanitize_group found, ih]
  | replaced byte rest one ih =>
    rw [one]
    exact (sanitize_group question_group _).trans (congrArg (63 :: ·) ih)

theorem valid_unchanged (valid : Valid s) : utf8Sanitize s = s := by
  induction valid with
  | nil => rfl
  | cons char rest first others ih =>
    obtain ⟨lead, tail, rfl, group⟩ := char_group first
    rw [sanitize_group group, ih]

theorem valid_group (group : Group lead tail) (before after s : List UInt8) (valid : Valid s)
    (split : s = before ++ lead :: (tail ++ after)) : Char (lead :: tail) := by
  induction valid generalizing before with
  | nil => exact absurd split (by simp)
  | cons char rest first others ih =>
    obtain ⟨head, more, rfl, found⟩ := char_group first
    by_cases here : before = []
    · rw [here, nil_append, cons_append, List.cons.injEq] at split
      have size : more.length = tail.length := by
        have same := found.size
        rw [split.1, group.size] at same
        exact (Option.some_inj.mp same).symm
      rw [← split.1, ← (append_inj split.2 size).1]
      exact first
    · obtain ⟨middle, -, back⟩ := group_aligned found (group_lead group) _ split here
      exact ih middle back

end

-- No sequence that is left in the string is a surrogate, above U+10FFFF or an overlong form of three or four
-- bytes. Overlong forms of two bytes have a lead that announces nothing.
def WellFormed (s : List UInt8) : Prop :=
  ∀ before lead tail after, s = before ++ lead :: (tail ++ after) → Group lead tail → Char (lead :: tail)

theorem repaired_valid (s : List UInt8) (formed : WellFormed s) : Valid (utf8Sanitize s) := by
  induction s using scan_induction with
  | nil => exact .nil
  | group lead tail after found ih =>
    rw [sanitize_group found]
    refine .cons _ _ (formed [] lead tail after rfl found) (ih fun before first others later split group => ?_)
    exact formed (lead :: tail ++ before) first others later (by rw [split, append_assoc]) group
  | replaced byte rest one ih =>
    rw [one]
    refine .cons [63] _ (.one 63 (by decide)) (ih fun before first others later split group => ?_)
    exact formed (byte :: before) first others later (by rw [split, cons_append]) group

structure Repaired (s repaired : List UInt8) : Prop where
  length : repaired.length = s.length
  same : Valid s → repaired = s
  kept : ∀ before char after, s = before ++ char ++ after → Char char →
    ∃ front back, front.length = before.length ∧ repaired = front ++ char ++ back
  twice : utf8Sanitize repaired = repaired

theorem sanitize_valid_iff (s : List UInt8) : Repaired s (utf8Sanitize s) ∧ (Valid (utf8Sanitize s) ↔ WellFormed s) := by
  refine ⟨⟨sanitize_length s, valid_unchanged s, fun before char after split valid => ?_, sanitize_idem s⟩,
    fun valid before lead tail after split group => ?_, repaired_valid s⟩
  · obtain ⟨lead, tail, rfl, group⟩ := char_group valid
    rw [append_assoc] at split
    obtain ⟨front, length, kept⟩ := sanitize_keeps group before s split
    refine ⟨front, utf8Sanitize after, length, ?_⟩
    rw [kept, append_assoc]
    rfl
  · obtain ⟨front, -, kept⟩ := sanitize_keeps group before s split
    exact valid_group group front _ _ valid kept

theorem surrogate_is_kept : utf8Sanitize [0xED, 0xA0, 0x80] = [0xED, 0xA0, 0x80] ∧ ¬ Valid [0xED, 0xA0, 0x80] := by
  refine ⟨by decide +kernel, fun valid => ?_⟩
  have group : Group 0xED [0xA0, 0x80] :=
    ⟨rfl, forall_mem_cons.mpr ⟨by decide, forall_mem_singleton.mpr (by decide)⟩⟩
  have char := valid_group group [] [] _ valid rfl
  cases char with
  | three a b c lead second last => exact absurd second (by decide)

end Evemon.Utf8
