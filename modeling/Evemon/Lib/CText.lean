import Mathlib.Data.List.TakeWhile
import Mathlib.Data.Nat.Digits.Lemmas

-- The C library on text: lines, the last occurrence of a character, fields between separators and
-- decimal numbers. A C string is the bytes before its NUL.
namespace CText

open List Nat UInt8

abbrev Text := List UInt8

def cString (buffer : Text) : Text := buffer.takeWhile (· ≠ 0)

def lineOf : Text → Text
  | [] => []
  | byte :: rest => if byte = 10 then [byte] else byte :: lineOf rest

def fgets (size : Nat) (file : Text) : Option Text :=
  match (lineOf file).take (size - 1) with
  | [] => none
  | line => some (cString line)

def afterLast (mark : UInt8) : Text → Option Text
  | [] => none
  | byte :: rest =>
    match afterLast mark rest with
    | some tail => some tail
    | none => if byte = mark then some rest else none

def strtok (separator : UInt8) (input : Text) : Option (Text × Text) :=
  match input.dropWhile (· = separator) with
  | [] => none
  | start => some (start.takeWhile (· ≠ separator), (start.dropWhile (· ≠ separator)).drop 1)

def token (separator : UInt8) : Nat → Text → Option Text
  | 0, input => (strtok separator input).map Prod.fst
  | index + 1, input =>
    match strtok separator input with
    | none => none
    | some (_, rest) => token separator index rest

def isSpace (byte : UInt8) : Bool := byte = 32 || (9 ≤ byte && byte ≤ 13)

def isDigit (byte : UInt8) : Bool := 48 ≤ byte && byte ≤ 57

def digitsValue (digits : Text) : Nat := digits.foldl (fun value digit => 10 * value + (digit.toNat - 48)) 0

-- A value that does not fit becomes ULLONG_MAX, whatever its sign.
def strtoull (text : Text) : UInt64 :=
  let start := text.dropWhile isSpace
  let unsigned := if start.head? = some 45 ∨ start.head? = some 43 then start.drop 1 else start
  let value := digitsValue (unsigned.takeWhile isDigit)
  if 2 ^ 64 ≤ value then UInt64.ofNat (2 ^ 64 - 1)
  else if start.head? = some 45 then 0 - UInt64.ofNat value
  else UInt64.ofNat value

-- strtol stops at the bounds of long; atoi keeps the low half of it.
def strtol (text : Text) : Int64 :=
  let start := text.dropWhile isSpace
  let unsigned := if start.head? = some 45 ∨ start.head? = some 43 then start.drop 1 else start
  let value : Int := digitsValue (unsigned.takeWhile isDigit)
  Int64.ofInt (max (-2 ^ 63) (min (2 ^ 63 - 1) (if start.head? = some 45 then -value else value)))

def atoi (text : Text) : Int32 := (strtol text).toInt32

-- What successive calls of fgets return: a line longer than the buffer comes in pieces.
def fgetsAll (size : Nat) : Nat → Text → List Text
  | 0, _ => []
  | fuel + 1, file =>
    match (lineOf file).take (size - 1) with
    | [] => []
    | line => cString line :: fgetsAll size fuel (file.drop line.length)

def fileLines (size : Nat) (file : Text) : List Text := fgetsAll size file.length file

def labelled (label : Text) (lines : List Text) : Option Text :=
  (lines.find? label.isPrefixOf).map (·.drop label.length)

def scanNumber (text : Text) : Option (Text × Text) :=
  let start := text.dropWhile isSpace
  let sign := if start.head? = some 45 ∨ start.head? = some 43 then 1 else 0
  let digits := (start.drop sign).takeWhile isDigit
  if digits = [] then none
  else some (start.take (sign + digits.length), start.drop (sign + digits.length))

inductive Conversion where
  | skipChar
  | skipNumber
  | unsignedLong

-- The values sscanf assigns before its first failure. Every conversion has a blank before it.
def sscanf : List Conversion → Text → List UInt64
  | [], _ => []
  | .skipChar :: rest, text =>
    match text.dropWhile isSpace with
    | [] => []
    | _ :: more => sscanf rest more
  | .skipNumber :: rest, text =>
    match scanNumber text with
    | none => []
    | some (_, more) => sscanf rest more
  | .unsignedLong :: rest, text =>
    match scanNumber text with
    | none => []
    | some (number, more) => strtoull number :: sscanf rest more

def decimal (value : Nat) : Text :=
  if value = 0 then [48] else (Nat.digits 10 value).reverse.map fun digit => UInt8.ofNat (48 + digit)

theorem c_string_of_clean {buffer : Text} (clean : 0 ∉ buffer) : cString buffer = buffer := by
  refine takeWhile_eq_self_iff.mpr fun byte mem => decide_eq_true ?_
  rintro rfl
  exact clean mem

theorem line_of_whole {text rest : Text} (clean : 10 ∉ text) : lineOf (text ++ 10 :: rest) = text ++ [10] := by
  induction text with
  | nil => rfl
  | cons byte tail ih =>
    have away : byte ≠ 10 := fun same => clean (by simp [same])
    have further : 10 ∉ tail := fun mem => clean (mem_cons_of_mem _ mem)
    rw [cons_append, lineOf, if_neg away, ih further, cons_append]

theorem fgets_line {size : Nat} (text rest : Text) (lines : 10 ∉ text) (nuls : 0 ∉ text)
    (fits : text.length + 1 ≤ size - 1) : fgets size (text ++ 10 :: rest) = some (text ++ [10]) := by
  have whole : (lineOf (text ++ 10 :: rest)).take (size - 1) = text ++ [10] := by
    rw [line_of_whole lines]
    exact take_of_length_le (by simpa using fits)
  have clean : 0 ∉ text ++ [10] := by simp [nuls]
  unfold fgets
  rw [whole]
  split
  · rename_i empty
    simp at empty
  · rw [c_string_of_clean clean]

section

variable (separator : UInt8)

theorem after_last_some {head tail : Text} (clean : separator ∉ tail) :
    afterLast separator (head ++ separator :: tail) = some tail := by
  have none_in (text : Text) (absent : separator ∉ text) : afterLast separator text = none := by
    induction text with
    | nil => rfl
    | cons byte rest ih =>
      have away : byte ≠ separator := fun same => absent (by simp [same])
      rw [afterLast, ih fun mem => absent (mem_cons_of_mem _ mem)]
      exact if_neg away
  induction head with
  | nil => simp [afterLast, none_in tail clean]
  | cons byte rest ih => rw [cons_append, afterLast, ih]

theorem after_last_append (head rest tail : Text) (clean : separator ∉ head)
    (found : afterLast separator (head ++ rest) = some tail) : afterLast separator rest = some tail := by
  induction head with
  | nil => exact found
  | cons byte more ih =>
    have further : separator ∉ more := fun mem => clean (mem_cons_of_mem _ mem)
    rw [cons_append, afterLast] at found
    cases inner : afterLast separator (more ++ rest) with
    | some shorter =>
      rw [inner] at found
      exact ih further (inner.trans found)
    | none =>
      rw [inner] at found
      simp only at found
      split at found
      · rename_i same
        exact absurd (by simp [same]) clean
      · cases found

theorem after_last_length (text tail : Text) (found : afterLast separator text = some tail) :
    tail.length < text.length := by
  induction text with
  | nil => cases found
  | cons byte rest ih =>
    rw [afterLast] at found
    cases inner : afterLast separator rest with
    | some shorter =>
      rw [inner] at found
      obtain rfl := Option.some.inj found
      have below := ih inner
      rw [length_cons]
      omega
    | none =>
      rw [inner] at found
      simp only at found
      split at found
      · obtain rfl := Option.some.inj found
        simp
      · cases found

theorem strtok_length {input field rest : Text} (cut : strtok separator input = some (field, rest)) :
    rest.length < input.length := by
  have dropped := length_dropWhile_le (fun byte => decide (byte = separator)) input
  unfold strtok at cut
  split at cut
  · cases cut
  · rename_i start some
    have pair := Option.some.inj cut
    have further := length_dropWhile_le (fun byte => decide (byte ≠ separator))
      (input.dropWhile fun byte => decide (byte = separator))
    rw [← (Prod.mk.inj pair).2, length_drop]
    have positive : 0 < (input.dropWhile fun byte => decide (byte = separator)).length :=
      length_pos_iff.mpr some
    omega

theorem token_length (index : Nat) (input field : Text) (found : token separator index input = some field) :
    index < input.length := by
  induction index generalizing input with
  | zero =>
    obtain ⟨⟨first, rest⟩, cut, _⟩ := Option.map_eq_some_iff.mp found
    exact lt_of_le_of_lt (zero_le _) (strtok_length separator cut)
  | succ index ih =>
    rw [token] at found
    cases cut : strtok separator input with
    | none =>
      rw [cut] at found
      cases found
    | some pair =>
      rw [cut] at found
      have shorter := strtok_length separator cut
      have inner := ih pair.2 found
      omega

theorem strtok_separator (input : Text) : strtok separator (separator :: input) = strtok separator input := by
  simp [strtok]

theorem token_separator (index : Nat) (input : Text) :
    token separator index (separator :: input) = token separator index input := by
  cases index with
  | zero | succ index => rw [token, token, strtok_separator]

theorem strtok_field {field : Text} (rest : Text) (some : field ≠ []) (clean : separator ∉ field) :
    strtok separator (field ++ separator :: rest) = Option.some (field, rest) := by
  have plain (byte : UInt8) (mem : byte ∈ field) : decide (byte ≠ separator) :=
    decide_eq_true fun same => clean (same ▸ mem)
  obtain ⟨first, more, shape⟩ := exists_cons_of_ne_nil some
  have kept : (field ++ separator :: rest).dropWhile (fun byte => decide (byte = separator)) =
      field ++ separator :: rest := by
    have away : first ≠ separator := of_decide_eq_true (plain first (by simp [shape]))
    simp [shape, away]
  unfold strtok
  rw [kept]
  split
  · rename_i empty
    simp at empty
  · rw [takeWhile_append_of_pos plain, dropWhile_append_of_pos plain]
    simp

def spaced (tokens : List Text) : Text := tokens.flatMap fun field => separator :: field

theorem spaced_cons (field : Text) (tokens : List Text) (rest : Text) :
    spaced separator (field :: tokens) ++ rest = separator :: (field ++ (spaced separator tokens ++ rest)) := by
  simp [spaced]

theorem token_spaced {tokens : List Text} {rest : Text} (plain : ∀ field ∈ tokens, field ≠ [] ∧ separator ∉ field)
    (index : Nat) (inside : index + 1 < tokens.length) :
    token separator index (spaced separator tokens ++ rest) = tokens[index]? := by
  induction tokens generalizing index with
  | nil => cases inside
  | cons field others ih =>
    obtain ⟨some, clean⟩ := plain field mem_cons_self
    cases others with
    | nil =>
      simp at inside
    | cons next more =>
      rw [spaced_cons, token_separator, spaced_cons]
      have cut := strtok_field separator (next ++ (spaced separator more ++ rest)) some clean
      cases index with
      | zero =>
        rw [token, cut]
        rfl
      | succ index =>
        rw [token, cut]
        have later := ih (fun other mem => plain other (mem_cons_of_mem _ mem)) index (lt_of_succ_lt_succ inside)
        rw [spaced_cons, token_separator] at later
        exact later

end

theorem decimal_digit {digit : Nat} (small : digit < 10) : isDigit (UInt8.ofNat (48 + digit)) ∧
    (UInt8.ofNat (48 + digit)).toNat - 48 = digit := by
  interval_cases digit <;> decide

variable (value : Nat)

theorem decimal_digits : ∀ byte ∈ decimal value, isDigit byte := by
  intro byte mem
  unfold decimal at mem
  split at mem
  · rw [mem_singleton] at mem
    subst mem
    decide
  · obtain ⟨digit, listed, rfl⟩ := mem_map.mp mem
    exact (decimal_digit (digits_lt_base (by decide) (mem_reverse.mp listed))).1

theorem decimal_ne_nil : decimal value ≠ [] := by
  unfold decimal
  split
  · simp
  · rename_i positive
    simpa [digits_eq_nil_iff_eq_zero] using positive

theorem digits_value_decimal : digitsValue (decimal value) = value := by
  unfold decimal
  split
  · rename_i zero
    rw [zero]
    decide
  · have folds (digits : List Nat) (small : ∀ digit ∈ digits, digit < 10) :
        digitsValue (digits.reverse.map fun digit => UInt8.ofNat (48 + digit)) = Nat.ofDigits 10 digits := by
      induction digits with
      | nil => rfl
      | cons digit rest ih =>
        have inner := ih fun other mem => small other (mem_cons_of_mem _ mem)
        simp only [digitsValue] at inner ⊢
        rw [reverse_cons, map_append, foldl_append, inner, ofDigits_cons]
        simp only [map_cons, map_nil, foldl_cons, foldl_nil, (decimal_digit (small digit mem_cons_self)).2]
        exact add_comm _ _
    rw [folds _ fun digit mem => digits_lt_base (by decide) mem, ofDigits_digits]

theorem decimal_length {count : Nat} (positive : 0 < count) (fits : value < 10 ^ count) :
    (decimal value).length ≤ count := by
  unfold decimal
  split
  · exact positive
  · rw [length_map, length_reverse]
    exact (digits_length_le_iff (by decide) value).mpr fits

theorem digit_plain {byte} (digit : isDigit byte) : isSpace byte = false ∧ byte ≠ 45 ∧ byte ≠ 43 := by
  have bounds : 48 ≤ byte.toNat ∧ byte.toNat ≤ 57 := by
    simpa [isDigit, UInt8.le_iff_toNat_le] using digit
  refine ⟨?_, ?_, ?_⟩
  · simp only [isSpace, Bool.or_eq_false_iff, decide_eq_false_iff_not, Bool.and_eq_false_iff, UInt8.le_iff_toNat_le,
      ← UInt8.toNat_inj]
    exact ⟨by simp; omega, .inr (by simp; omega)⟩
  · rintro rfl
    simp at bounds
  · rintro rfl
    simp at bounds

theorem strtoull_decimal (fits : value < 2 ^ 64) : strtoull (decimal value) = UInt64.ofNat value := by
  have digits := decimal_digits value
  obtain ⟨first, rest, shape⟩ := exists_cons_of_ne_nil (decimal_ne_nil value)
  obtain ⟨unspaced, noMinus, noPlus⟩ := digit_plain (digits first (by simp [shape]))
  have start : (decimal value).dropWhile isSpace = decimal value := by
    rw [shape, dropWhile_cons, if_neg (by simp [unspaced])]
  have head : (decimal value).head? = some first := by rw [shape, List.head?_cons]
  have unsigned : ¬ (some first = some (45 : UInt8) ∨ some first = some 43) := by
    simp [noMinus, noPlus]
  have all : (decimal value).takeWhile isDigit = decimal value := takeWhile_eq_self_iff.mpr digits
  simp only [strtoull, start, head, if_neg unsigned, all, digits_value_decimal]
  rw [if_neg (by omega), if_neg (by simpa using noMinus)]

end CText
