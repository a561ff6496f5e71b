import Evemon.Lib.FloatFormat

open Float.Model (Format UnpackedFloat totalExponent)
open Float.Model.UnpackedFloat

-- How large a result can be. Only the position of the leading bit is followed: rounding moves it up
-- by one at most, and not down where the format has room below.
namespace FloatFormat

variable {spec : Format}

section

variable (em : ExtendedMantissa)

theorem shift_mantissa (count : Nat) : (em >>> count).mantissa = em.mantissa / 2 ^ count := by
  change (Nat.repeat ExtendedMantissa.shiftRightOne count em).mantissa = _
  induction count with
  | zero => simp [Nat.repeat]
  | succ count ih =>
    rw [Nat.repeat, ExtendedMantissa.shiftRightOne, ih, Nat.div_div_eq_div_mul, Nat.pow_succ]

theorem rounded_mantissa_cases : em.roundedMantissa = em.mantissa ∨ em.roundedMantissa = em.mantissa + 1 := by
  obtain ⟨mantissa, roundBit, stickyBit⟩ := em
  have parity := Nat.mod_two_eq_zero_or_one mantissa
  cases roundBit with
  | false =>
    left
    cases stickyBit <;> rfl
  | true =>
    cases stickyBit with
    | false =>
      change mantissa + mantissa % 2 = mantissa ∨ mantissa + mantissa % 2 = mantissa + 1
      omega
    | true => exact .inr rfl

variable (mantissa : Nat) (exponent : Int) (accuracy : Accuracy)

theorem start_mantissa : (ExtendedMantissa.ofMantissaAndAccuracy mantissa accuracy).mantissa = mantissa := by
  unfold ExtendedMantissa.ofMantissaAndAccuracy
  split <;> rfl

theorem log2_quotient {mantissa shift : Nat} (inside : 2 ^ shift ≤ mantissa) :
    (mantissa / 2 ^ shift).log2 + shift = mantissa.log2 := by
  have positive : 0 < 2 ^ shift := by positivity
  have some : mantissa / 2 ^ shift ≠ 0 := (Nat.div_pos inside positive).ne'
  have whole : mantissa ≠ 0 := by omega
  obtain ⟨low, high⟩ := (Nat.log2_eq_iff some).mp rfl
  symm
  rw [Nat.log2_eq_iff whole]
  constructor
  · rw [Nat.pow_add]
    exact (Nat.le_div_iff_mul_le positive).mp low
  · rw [Nat.add_right_comm, Nat.pow_add]
    exact (Nat.div_lt_iff_lt_mul positive).mp high

theorem log2_near {count next : Nat} (positive : 0 < count) (near : next = count ∨ next = count + 1) :
    count.log2 ≤ next.log2 ∧ next.log2 ≤ count.log2 + 1 := by
  obtain ⟨low, high⟩ := (Nat.log2_eq_iff positive.ne').mp rfl
  have some : next ≠ 0 := by omega
  constructor
  · exact (Nat.le_log2 some).mpr (by omega)
  · have room : 2 ^ (count.log2 + 1) < 2 ^ (count.log2 + 2) := Nat.pow_lt_pow_right (by decide) (by omega)
    have bits := (Nat.log2_lt some).mpr (show next < 2 ^ (count.log2 + 2) by omega)
    omega

structure Shape (spec : Format) (mantissa : Nat) (exponent : Int) : Prop where
  positive : 0 < mantissa
  width : mantissa.log2 ≤ spec.mantissaBitsWithoutImplicit
  low : spec.minExponent ≤ exponent
  tight : mantissa.log2 = spec.mantissaBitsWithoutImplicit ∨ exponent = spec.minExponent

def Fine (spec : Format) (mantissa : Nat) (exponent : Int) : Prop :=
  spec.mantissaBitsWithoutImplicit ≤ mantissa.log2 ∧ 0 < mantissa ∨ exponent ≤ spec.minExponent

inductive Rounds (spec : Format) (sign : Sign) (mantissa : Nat) (exponent : Int) : UnpackedFloat → Prop where
  | zero (lost : mantissa = 0 ∨ mantissa.log2 + exponent < spec.minExponent) :
      Rounds spec sign mantissa exponent (.zero sign)
  | value (digits : Nat) (scale : Int) (shape : Shape spec digits scale)
      (below : digits.log2 + scale ≤ max (mantissa.log2 + exponent + 1) spec.minExponent)
      (above : 0 < mantissa → spec.minExponent ≤ mantissa.log2 + exponent →
        mantissa.log2 + exponent ≤ digits.log2 + scale) :
      Rounds spec sign mantissa exponent (.finite sign digits scale shape.positive)

theorem target_eq : spec.targetExponent (totalExponent mantissa exponent) =
    max (mantissa.log2 + exponent - spec.mantissaBitsWithoutImplicit) spec.minExponent := by
  have precision : spec.mantissaBits = 1 + spec.mantissaBitsWithoutImplicit := rfl
  unfold Format.targetExponent totalExponent
  rw [precision]
  push_cast
  congr 1
  ring

theorem carry_shift (low : spec.minExponent ≤ exponent) (width : mantissa ≤ 2 ^ (spec.mantissaBitsWithoutImplicit + 1)) :
    shiftToTargetExponent spec mantissa exponent .exact = if mantissa = 2 ^ (spec.mantissaBitsWithoutImplicit + 1) then
    (⟨2 ^ spec.mantissaBitsWithoutImplicit, false, false⟩, exponent + 1) else (⟨mantissa, false, false⟩, exponent) := by
  unfold shiftToTargetExponent shiftToExponent
  simp only [target_eq, ExtendedMantissa.ofMantissaAndAccuracy]
  split
  · rename_i carried
    subst carried
    rw [Nat.log2_two_pow]
    have one : (max (((spec.mantissaBitsWithoutImplicit + 1 : Nat) : Int) + exponent -
        spec.mantissaBitsWithoutImplicit) spec.minExponent - exponent).toNat = 1 := by
      push_cast
      omega
    have halved := @shift_out_zeros (2 ^ spec.mantissaBitsWithoutImplicit) 1
    rw [Nat.pow_one, ← Nat.pow_succ] at halved
    rw [one, halved]
    rfl
  · rename_i short
    have none : (max ((mantissa.log2 : Int) + exponent - spec.mantissaBitsWithoutImplicit) spec.minExponent -
        exponent).toNat = 0 := by
      have bits : mantissa.log2 ≤ spec.mantissaBitsWithoutImplicit := by
        by_cases zero : mantissa = 0
        · simp [zero]
        · have small := (Nat.log2_lt zero).mpr (Nat.lt_of_le_of_ne width short)
          omega
      omega
    rw [none]
    simp only [Nat.cast_zero, add_zero]
    rfl

theorem first_shift (fine : Fine spec mantissa exponent) : ∃ shift : Nat, exponent + shift =
    max (mantissa.log2 + exponent - spec.mantissaBitsWithoutImplicit) spec.minExponent ∧
    (shiftToTargetExponent spec mantissa exponent accuracy).1.mantissa = mantissa / 2 ^ shift ∧
    (shiftToTargetExponent spec mantissa exponent accuracy).2 = exponent + shift := by
  unfold shiftToTargetExponent shiftToExponent
  rw [target_eq]
  refine ⟨(max (mantissa.log2 + exponent - spec.mantissaBitsWithoutImplicit) spec.minExponent - exponent).toNat, ?_,
    ?_, rfl⟩
  · rcases fine with ⟨wide, -⟩ | deep <;> omega
  · simp only [shift_mantissa, start_mantissa]

variable {digits : Nat} {scale : Int}

theorem round_with_accuracy_eq (sign : Sign) {mantissa} {exponent} {accuracy}
    (low : spec.minExponent ≤ scale) (width : digits ≤ 2 ^ (spec.mantissaBitsWithoutImplicit + 1))
    (rounded : (shiftToTargetExponent spec mantissa exponent accuracy).1.roundedMantissa = digits)
    (shifted : (shiftToTargetExponent spec mantissa exponent accuracy).2 = scale) :
    roundWithAccuracy spec sign mantissa exponent accuracy = if digits = 2 ^ (spec.mantissaBitsWithoutImplicit + 1) then
    .finite sign (2 ^ spec.mantissaBitsWithoutImplicit) (scale + 1) (Nat.two_pow_pos _)
    else if zero : digits = 0 then .zero sign else .finite sign digits scale (Nat.pos_of_ne_zero zero) := by
  have carried := carry_shift digits scale low width
  unfold roundWithAccuracy
  simp only [rounded, shifted]
  split at carried
  · rename_i full
    rw [if_pos full]
    simp only [carried]
    rw [dif_neg (by positivity)]
  · rename_i short
    rw [if_neg short]
    simp only [carried]

section

variable (sign : Sign) {mantissa : Nat} {exponent : Int} {shift : Nat}
  (target : exponent + shift = max (mantissa.log2 + exponent - spec.mantissaBitsWithoutImplicit) spec.minExponent)
  (fine : Fine spec mantissa exponent)

include target

theorem quotient_width : mantissa / 2 ^ shift < 2 ^ (spec.mantissaBitsWithoutImplicit + 1) := by
  have size := Nat.lt_log2_self (n := mantissa)
  have room : 2 ^ (mantissa.log2 + 1) ≤ 2 ^ (spec.mantissaBitsWithoutImplicit + 1 + shift) :=
    Nat.pow_le_pow_right (by decide) (by omega)
  rw [Nat.div_lt_iff_lt_mul (by positivity), ← Nat.pow_add]
  exact Nat.lt_of_lt_of_le size room

theorem quotient_some (positive : 0 < mantissa) (above : spec.minExponent ≤ mantissa.log2 + exponent) :
    2 ^ shift ≤ mantissa := by
  have inside : shift ≤ mantissa.log2 := by omega
  exact Nat.le_trans (Nat.pow_le_pow_right (by decide) inside) (Nat.log2_self_le positive.ne')

include fine

theorem quotient_full (normal : spec.minExponent < exponent + shift) :
    2 ^ spec.mantissaBitsWithoutImplicit ≤ mantissa / 2 ^ shift := by
  have count : spec.mantissaBitsWithoutImplicit + shift = mantissa.log2 := by omega
  have some : mantissa ≠ 0 := by
    rintro rfl
    rw [Nat.log2_zero] at count
    rcases fine with ⟨-, positive⟩ | deep
    · exact absurd positive (Nat.lt_irrefl 0)
    · omega
  rw [Nat.le_div_iff_mul_le (by positivity), ← Nat.pow_add, count]
  exact Nat.log2_self_le some

theorem rounded_rounds (scaled : exponent + shift = scale)
    (near : digits = mantissa / 2 ^ shift ∨ digits = mantissa / 2 ^ shift + 1) : Rounds spec sign mantissa exponent
    (if digits = 2 ^ (spec.mantissaBitsWithoutImplicit + 1) then
    .finite sign (2 ^ spec.mantissaBitsWithoutImplicit) (scale + 1) (Nat.two_pow_pos _)
    else if zero : digits = 0 then .zero sign else .finite sign digits scale (Nat.pos_of_ne_zero zero)) := by
  have width := quotient_width target
  have present (positive : 0 < mantissa) (above : spec.minExponent ≤ mantissa.log2 + exponent) :
      0 < mantissa / 2 ^ shift :=
    Nat.div_pos (quotient_some target positive above) (by positivity)
  have full (normal : spec.minExponent < scale) : 2 ^ spec.mantissaBitsWithoutImplicit ≤ mantissa / 2 ^ shift :=
    quotient_full target fine (by omega)
  have least : 0 < 2 ^ spec.mantissaBitsWithoutImplicit := by positivity
  split
  · rename_i carried
    rw [Nat.pow_succ] at carried width
    have log : (mantissa / 2 ^ shift).log2 = spec.mantissaBitsWithoutImplicit := by
      rw [Nat.log2_eq_iff (by omega), Nat.pow_succ]
      omega
    have whole := @log2_quotient mantissa shift (Nat.div_ne_zero_iff.mp (by omega)).2
    have shape : Shape spec (2 ^ spec.mantissaBitsWithoutImplicit) (scale + 1) :=
      ⟨least, by rw [Nat.log2_two_pow], by omega, .inl Nat.log2_two_pow⟩
    refine .value _ _ shape ?_ fun _ _ => ?_
    · rw [Nat.log2_two_pow]
      omega
    · rw [Nat.log2_two_pow]
      omega
  · split
    · rename_i zero
      refine .zero ?_
      by_contra some
      rw [not_or, not_lt] at some
      have positive := present (Nat.pos_of_ne_zero some.1) some.2
      omega
    · rename_i short some
      have small : digits.log2 ≤ spec.mantissaBitsWithoutImplicit := by
        have bits := (Nat.log2_lt some).mpr (show digits < 2 ^ (spec.mantissaBitsWithoutImplicit + 1) by omega)
        omega
      have shape : Shape spec digits scale := by
        refine ⟨Nat.pos_of_ne_zero some, small, by omega, ?_⟩
        by_cases normal : spec.minExponent < scale
        · have bits := (Nat.le_log2 some).mpr (show 2 ^ spec.mantissaBitsWithoutImplicit ≤ digits by
            have large := full normal
            omega)
          exact .inl (by omega)
        · exact .inr (by omega)
      refine .value digits scale shape ?_ fun positive above => ?_
      · by_cases lost : mantissa / 2 ^ shift = 0
        · have one : digits = 1 := by omega
          have deep : ¬ spec.minExponent < scale := fun normal => by
            have large := full normal
            omega
          rw [one, show Nat.log2 1 = 0 by decide]
          push_cast
          omega
        · have whole := log2_quotient (Nat.div_ne_zero_iff.mp lost).2
          have up := (log2_near (Nat.pos_of_ne_zero lost) near).2
          omega
      · have some := present positive above
        have whole := log2_quotient (Nat.div_ne_zero_iff.mp some.ne').2
        have down := (log2_near some near).1
        omega

end

theorem round_with_accuracy_rounds (sign : Sign) (mantissa : Nat) (exponent : Int) (accuracy : Accuracy)
    (fine : Fine spec mantissa exponent) :
    Rounds spec sign mantissa exponent (roundWithAccuracy spec sign mantissa exponent accuracy) := by
  obtain ⟨shift, target, quotient, scale⟩ := first_shift mantissa exponent accuracy fine
  have near := rounded_mantissa_cases (shiftToTargetExponent spec mantissa exponent accuracy).1
  have width := quotient_width target
  rw [quotient] at near
  rw [round_with_accuracy_eq sign (by omega) (by omega) rfl scale]
  exact rounded_rounds sign target fine rfl near

end

section

inductive AtMost (spec : Format) (top : Int) : UnpackedFloat → Prop where
  | zero (sign : Sign) : AtMost spec top (.zero sign)
  | value (sign : Sign) (mantissa : Nat) (exponent : Int) (fits : Fits spec mantissa exponent)
      (bound : mantissa.log2 + exponent ≤ top) : AtMost spec top (.finite sign mantissa exponent fits.positive)

inductive AtLeast (spec : Format) (low : Int) : UnpackedFloat → Prop where
  | infinity (sign : Sign) : AtLeast spec low (.infinity sign)
  | value (sign : Sign) (mantissa : Nat) (exponent : Int) (fits : Fits spec mantissa exponent)
      (bound : low ≤ mantissa.log2 + exponent) : AtLeast spec low (.finite sign mantissa exponent fits.positive)

variable {value : UnpackedFloat}

theorem AtMost.finite {top : Int} (small : AtMost spec top value) : FiniteUnpacked spec value := by
  cases small with
  | zero sign => exact .zero sign
  | value sign mantissa exponent fits bound => exact .value sign mantissa exponent fits

variable (sign : Sign) (mantissa : Nat) (exponent : Int) {top : Int}

theorem packed_at_most {value} (small : AtMost spec top value) :
    AtMost spec top (unpack spec (pack spec value)) := by
  rw [unpack_pack_finite small.finite]
  exact small

theorem bias_positive (wide : 1 < spec.exponentBits) : 1 ≤ spec.exponentBias := by
  have room := exponent_room spec
  have four : 2 ^ 2 ≤ 2 ^ spec.exponentBits := Nat.pow_le_pow_right (by decide) wide
  omega

theorem shape_fits (wide : 1 < spec.exponentBits) (shape : Shape spec mantissa exponent)
    (room : mantissa.log2 + exponent ≤ spec.exponentBias) : Fits spec mantissa exponent := by
  have bias := bias_positive wide
  have span := exponent_room spec
  have least := min_exponent_eq spec
  obtain ⟨positive, width, low, tight⟩ := shape
  exact ⟨positive, width, low, tight, by rcases tight with full | deep <;> omega⟩

theorem rounds_at_most (wide : 1 < spec.exponentBits) (rounds : Rounds spec sign mantissa exponent value)
    (bound : mantissa.log2 + exponent + 1 ≤ top) (low : spec.minExponent ≤ top) (high : top ≤ spec.exponentBias) :
    AtMost spec top value := by
  cases rounds with
  | zero lost => exact .zero sign
  | value digits scale shape below above =>
    exact .value sign digits scale (shape_fits digits scale wide shape (by omega)) (by omega)

theorem unpack_infinity : unpack spec (packedInfinity spec sign) = .infinity sign := by
  unfold packedInfinity unpack
  simp only [unpackMantissa_packComponents, unpackExponent_packComponents, unpackSign_packComponents,
    Sign.ofBitVec_toBitVec]
  rw [if_pos True.intro]
  exact if_pos rfl

variable (top)

theorem rounds_at_least {exponent low : Int} (wide : 1 < spec.exponentBits)
    (rounds : Rounds spec sign mantissa exponent value) (positive : 0 < mantissa)
    (normal : spec.minExponent ≤ mantissa.log2 + exponent) (bound : low ≤ mantissa.log2 + exponent) :
    AtLeast spec low (unpack spec (pack spec value)) := by
  cases rounds with
  | zero lost => omega
  | value digits scale shape below above =>
    have higher := above positive normal
    by_cases room : digits.log2 + scale ≤ spec.exponentBias
    · have fits := shape_fits digits scale wide shape room
      rw [@unpack_pack _ sign digits scale fits]
      exact .value sign digits scale fits (by omega)
    · have span := exponent_room spec
      have least := min_exponent_eq spec
      have width := shape.width
      simp only [pack]
      rw [if_pos (by omega), unpack_infinity]
      exact .infinity sign

theorem decrease_log2 (exponent target : Int) (positive : 0 < mantissa) :
    0 < (decreaseExponent mantissa exponent target).1 ∧
    (decreaseExponent mantissa exponent target).1.log2 + (decreaseExponent mantissa exponent target).2 =
    mantissa.log2 + exponent ∧ (decreaseExponent mantissa exponent target).2 ≤ target := by
  unfold decreaseExponent
  simp only [Nat.shiftLeft_eq, log2_scaled _ positive]
  refine ⟨by positivity, by push_cast; ring, by omega⟩

theorem round_rounds (positive : 0 < mantissa) :
    ∃ (digits : Nat) (scale : Int), 0 < digits ∧ digits.log2 + scale = mantissa.log2 + exponent ∧
    Rounds spec sign digits scale (round spec sign mantissa exponent) := by
  obtain ⟨some, same, low⟩ := decrease_log2 mantissa exponent
    (spec.targetExponent (totalExponent mantissa exponent)) positive
  refine ⟨_, _, some, same, round_with_accuracy_rounds sign _ _ .exact ?_⟩
  rw [target_eq] at low same
  rw [target_eq, Fine]
  by_cases deep : (decreaseExponent mantissa exponent (max (mantissa.log2 + exponent -
      spec.mantissaBitsWithoutImplicit) spec.minExponent)).2 ≤ spec.minExponent
  · exact .inr deep
  · rw [target_eq] at some
    exact .inl ⟨by omega, some⟩

theorem round_at_most (wide : 1 < spec.exponentBits)
    (positive : 0 < mantissa) (bound : mantissa.log2 + exponent + 1 ≤ top) (low : spec.minExponent ≤ top)
    (high : top ≤ spec.exponentBias) : AtMost spec top (round spec sign mantissa exponent) := by
  obtain ⟨digits, scale, -, same, rounds⟩ := @round_rounds spec sign mantissa exponent positive
  exact rounds_at_most sign digits scale wide rounds (by omega) low high

end

variable {first second : Nat}

theorem log2_product (some : 0 < first) (other : 0 < second) :
    first.log2 + second.log2 ≤ (first * second).log2 ∧ (first * second).log2 ≤ first.log2 + second.log2 + 1 := by
  have firstBounds := (Nat.log2_eq_iff some.ne').mp rfl
  have secondBounds := (Nat.log2_eq_iff other.ne').mp rfl
  have product : first * second ≠ 0 := by positivity
  constructor
  · rw [Nat.le_log2 product, Nat.pow_add]
    exact Nat.mul_le_mul firstBounds.1 secondBounds.1
  · have upper : first * second < 2 ^ (first.log2 + 1 + (second.log2 + 1)) := by
      rw [Nat.pow_add]
      exact Nat.mul_lt_mul'' firstBounds.2 secondBounds.2
    have bits := (Nat.log2_lt product).mpr upper
    omega

theorem min_exponent_negative (wide : 1 < spec.exponentBits) : spec.minExponent ≤ 0 := by
  have bias := bias_positive wide
  have least := min_exponent_eq spec
  omega

theorem product_fine {firstScale secondScale} (wide : 1 < spec.exponentBits) (fits : Fits spec first firstScale)
    (others : Fits spec second secondScale) : Fine spec (first * second) (firstScale + secondScale) := by
  have least := min_exponent_negative wide
  have bits := (log2_product fits.positive others.positive).1
  have positive := Nat.mul_pos fits.positive others.positive
  rcases fits.tight with full | deep
  · exact .inl ⟨by omega, positive⟩
  · rcases others.tight with full | alsoDeep
    · exact .inl ⟨by omega, positive⟩
    · exact .inr (by omega)

theorem mul_at_most (wide : 1 < spec.exponentBits) {first second} (top higher : Int)
    (small : AtMost spec top first) (other : AtMost spec higher second) (low : spec.minExponent ≤ top + higher + 2)
    (high : top + higher + 2 ≤ spec.exponentBias) : AtMost spec (top + higher + 2) (mul spec first second) := by
  cases small with
  | zero sign => cases other <;> exact .zero _
  | value sign mantissa exponent fits bound =>
    cases other with
    | zero otherSign => exact .zero _
    | value otherSign otherMantissa otherExponent otherFits otherBound =>
      have bits := (log2_product fits.positive otherFits.positive).2
      exact rounds_at_most _ _ _ wide
        (round_with_accuracy_rounds _ _ _ _ (product_fine wide fits otherFits)) (by omega) low high

theorem mul_at_least (wide : 1 < spec.exponentBits) {first second} {low} (lower : Int)
    (large : AtLeast spec low first) (other : AtLeast spec lower second) (normal : spec.minExponent ≤ low + lower) :
    AtLeast spec (low + lower) (unpack spec (pack spec (mul spec first second))) := by
  cases large with
  | infinity sign =>
    cases other <;>
    · simp only [mul, pack, unpack_infinity]
      exact .infinity _
  | value sign mantissa exponent fits bound =>
    cases other with
    | infinity otherSign =>
      simp only [mul, pack, unpack_infinity]
      exact .infinity _
    | value otherSign otherMantissa otherExponent otherFits otherBound =>
      have bits := (log2_product fits.positive otherFits.positive).1
      exact rounds_at_least _ _ wide (round_with_accuracy_rounds _ _ _ _ (product_fine wide fits otherFits))
        (Nat.mul_pos fits.positive otherFits.positive) (by omega) (by omega)

theorem quotient_at_least (count divisor bits : Nat) (some : 0 < count) (other : 0 < divisor)
    (room : bits + divisor.log2 + 1 ≤ count.log2) : 2 ^ bits ≤ count / divisor := by
  have low := Nat.log2_self_le some.ne'
  have high := Nat.lt_log2_self (n := divisor)
  rw [Nat.le_div_iff_mul_le other]
  calc 2 ^ bits * divisor ≤ 2 ^ bits * 2 ^ (divisor.log2 + 1) := Nat.mul_le_mul_left _ high.le
    _ = 2 ^ (bits + divisor.log2 + 1) := by rw [← Nat.pow_add, Nat.add_assoc]
    _ ≤ 2 ^ count.log2 := Nat.pow_le_pow_right (by decide) room
    _ ≤ count := low

theorem quotient_at_most {count divisor : Nat} (some : count / divisor ≠ 0) :
    (count / divisor).log2 + divisor.log2 ≤ count.log2 := by
  obtain ⟨other, inside⟩ := Nat.div_ne_zero_iff.mp some
  have whole : count ≠ 0 := by omega
  have product := (log2_product (Nat.pos_of_ne_zero some) (Nat.pos_of_ne_zero other)).1
  have below : count / divisor * divisor ≤ count := Nat.div_mul_le_self count divisor
  have bits : (count / divisor * divisor).log2 ≤ count.log2 := by
    rw [Nat.le_log2 whole]
    exact (Nat.log2_self_le (Nat.mul_ne_zero some other)).trans below
  omega

theorem div_core_bounds (first second : Nat) (firstScale secondScale : Int) (some : 0 < first) (other : 0 < second) :
    Fine spec (divCore spec first firstScale second secondScale).1 (divCore spec first firstScale second secondScale).2.1 ∧
    (divCore spec first firstScale second secondScale).1.log2 + (divCore spec first firstScale second secondScale).2.1 ≤
    max (first.log2 + firstScale - (second.log2 + secondScale)) spec.minExponent := by
  have precision : spec.mantissaBits = 1 + spec.mantissaBitsWithoutImplicit := rfl
  unfold divCore
  simp only [Format.targetExponent, totalExponent, precision, Nat.shiftLeft_eq]
  generalize scale : min (firstScale - secondScale) (max ((first.log2 : Int) + 1 + firstScale -
    (second.log2 + 1 + secondScale) - ((1 + spec.mantissaBitsWithoutImplicit : Nat) : Int)) spec.minExponent) = target
  push_cast at scale
  have scaled := log2_scaled (firstScale - secondScale - target).toNat some
  have positive : 0 < first * 2 ^ (firstScale - secondScale - target).toNat := by positivity
  constructor
  · by_cases deep : target ≤ spec.minExponent
    · exact .inr deep
    · have full := quotient_at_least (first * 2 ^ (firstScale - secondScale - target).toNat) second
        spec.mantissaBitsWithoutImplicit positive other (by omega)
      have least : 0 < 2 ^ spec.mantissaBitsWithoutImplicit := by positivity
      exact .inl ⟨(Nat.le_log2 (by omega)).mpr full, by omega⟩
  · by_cases lost : first * 2 ^ (firstScale - secondScale - target).toNat / second = 0
    · rw [lost, Nat.log2_zero]
      push_cast
      omega
    · have bits := quotient_at_most lost
      omega

theorem div_at_most (wide : 1 < spec.exponentBits) {first second} (top low : Int)
    (small : AtMost spec top first) (large : AtLeast spec low second) (least : spec.minExponent + 1 ≤ top - low + 1)
    (high : top - low + 1 ≤ spec.exponentBias) : AtMost spec (top - low + 1) (div spec first second) := by
  cases small with
  | zero sign => cases large <;> exact .zero _
  | value sign mantissa exponent fits bound =>
    cases large with
    | infinity otherSign => exact .zero _
    | value otherSign otherMantissa otherExponent otherFits otherBound =>
      obtain ⟨fine, bits⟩ := @div_core_bounds spec mantissa otherMantissa exponent otherExponent fits.positive
        otherFits.positive
      generalize shape : divCore spec mantissa exponent otherMantissa otherExponent = quotient at fine bits
      have rounds := round_with_accuracy_rounds (sign / otherSign) quotient.1 quotient.2.1 quotient.2.2 fine
      have small := rounds_at_most _ _ _ wide rounds (by omega) (by omega) high
      rw [← shape] at small
      exact small

theorem shifted_small {mantissa : Nat} {exponent : Int} (scale : Int) {top : Int} (below : scale ≤ exponent)
    (bound : mantissa.log2 + exponent ≤ top) :
    (decreaseExponent mantissa exponent scale).1 < 2 ^ (top - scale + 1).toNat := by
  unfold decreaseExponent
  simp only [Nat.shiftLeft_eq]
  have size := Nat.lt_log2_self (n := mantissa)
  calc mantissa * 2 ^ (exponent - scale).toNat
      < 2 ^ (mantissa.log2 + 1) * 2 ^ (exponent - scale).toNat := Nat.mul_lt_mul_of_pos_right size (by positivity)
    _ = 2 ^ (mantissa.log2 + 1 + (exponent - scale).toNat) := (Nat.pow_add ..).symm
    _ ≤ 2 ^ (top - scale + 1).toNat := Nat.pow_le_pow_right (by decide) (by omega)

theorem normalize_at_most (wide : 1 < spec.exponentBits) (sum scale top : Int) (zeroSign : Sign)
    (small : sum.natAbs < 2 ^ (top - scale + 1).toNat) (inside : scale ≤ top + 1)
    (low : spec.minExponent ≤ top + 1) (high : top + 1 ≤ spec.exponentBias) :
    AtMost spec (top + 1) (normalize spec sum scale zeroSign) := by
  have bits (positive : sum ≠ 0) : (sum.natAbs.log2 : Int) + scale + 1 ≤ top + 1 := by
    have log := (Nat.log2_lt (Int.natAbs_ne_zero.mpr positive)).mpr small
    omega
  unfold UnpackedFloat.normalize
  split
  · rename_i negative
    rw [Int.compare_eq_lt] at negative
    have same : (-sum).toNat = sum.natAbs := by omega
    rw [same]
    exact round_at_most _ _ _ _ wide (by omega) (bits (by omega)) low high
  · exact .zero _
  · rename_i positive
    rw [Int.compare_eq_gt] at positive
    have same : sum.toNat = sum.natAbs := by omega
    rw [same]
    exact round_at_most _ _ _ _ wide (by omega) (bits (by omega)) low high

theorem add_at_most (wide : 1 < spec.exponentBits) {first second} (top : Int)
    (small : AtMost spec top first) (other : AtMost spec top second) (low : spec.minExponent ≤ top)
    (high : top + 2 ≤ spec.exponentBias) : AtMost spec (top + 2) (add spec first second) := by
  cases small with
  | zero sign =>
    cases other with
    | zero otherSign =>
      simp only [add]
      split <;> exact .zero _
    | value otherSign otherMantissa otherExponent otherFits otherBound =>
      exact .value _ _ _ otherFits (by omega)
  | value sign mantissa exponent fits bound =>
    cases other with
    | zero otherSign => exact .value _ _ _ fits (by omega)
    | value otherSign otherMantissa otherExponent otherFits otherBound =>
      have here := shifted_small (min exponent otherExponent) (by omega) bound
      have there := shifted_small (min exponent otherExponent) (by omega) otherBound
      have signed (which : Sign) (value : Nat) : (which.apply (value : Int)).natAbs = value := by
        cases which <;> simp [Sign.apply]
      have twice : 2 ^ (top - min exponent otherExponent + 1).toNat * 2 =
          2 ^ (top + 1 - min exponent otherExponent + 1).toNat := by
        rw [← Nat.pow_succ]
        congr 1
        have width := fits.width
        omega
      have sum := Int.natAbs_add_le (sign.apply (decreaseExponent mantissa exponent (min exponent otherExponent)).1)
        (otherSign.apply (decreaseExponent otherMantissa otherExponent (min exponent otherExponent)).1)
      rw [signed, signed] at sum
      have total := normalize_at_most wide _ (min exponent otherExponent) (top + 1) .positive
        (Nat.lt_of_le_of_lt sum (by omega)) (by omega) (by omega) (by omega)
      rw [show top + 2 = top + 1 + 1 by ring]
      exact total

theorem binary64_least : Format.binary64.minExponent = -1074 := by decide

theorem binary64_bias : Format.binary64.exponentBias = 1023 := by decide

theorem binary32_least : Format.binary32.minExponent = -149 := by decide

theorem binary32_bias : Format.binary32.exponentBias = 127 := by decide

theorem of_uint64_at_most (value : UInt64) : AtMost .binary64 64 value.toFloat.toModel.unpack := by
  have small : (value.toNat : Int).natAbs < 2 ^ ((63 : Int) - 0 + 1).toNat := value.toNat_lt
  have rounded := @normalize_at_most .binary64 (by decide) (value.toNat : Int) 0 63 .positive small (by decide)
    (by rw [binary64_least]; decide) (by rw [binary64_bias]; decide)
  exact packed_at_most rounded

theorem of_uint64_at_least {value : UInt64} (positive : 0 < value.toNat) :
    AtLeast .binary64 0 value.toFloat.toModel.unpack := by
  obtain ⟨digits, scale, some, same, rounds⟩ := @round_rounds .binary64 .positive value.toNat 0 positive
  have unpacked : value.toFloat.toModel.unpack =
      unpack .binary64 (pack .binary64 (round .binary64 .positive value.toNat 0)) := by
    have greater : compare (value.toNat : Int) 0 = .gt := by
      rw [Int.compare_eq_gt]
      omega
    change unpack .binary64 (pack .binary64 (normalize .binary64 (value.toNat : Int) 0 .positive)) = _
    simp only [UnpackedFloat.normalize, greater, Int.toNat_natCast]
  rw [unpacked]
  exact rounds_at_least _ _ (by decide) rounds some (by rw [binary64_least]; omega) (by omega)

theorem narrow_at_most {value : Float} {top} (small : AtMost .binary64 top value.toModel.unpack)
    (low : -149 ≤ top + 1) (high : top + 1 ≤ 127) : AtMost .binary32 (top + 1) (narrow value).toModel.unpack := by
  refine packed_at_most ?_
  generalize value.toModel.unpack = source at small
  cases small with
  | zero sign => exact .zero sign
  | value sign mantissa exponent fits bound =>
    exact round_at_most _ _ _ _ (by decide) fits.positive (by omega) (by rw [binary32_least]; exact low)
      (by rw [binary32_bias]; exact high)

theorem at_most_finite {value : Float32} (top : Int) (small : AtMost .binary32 top value.toModel.unpack) :
    value.isFinite := small.finite.finite

theorem above_at_least (bound : Float) {value : Float} {mantissa : Nat} {exponent} {positive}
    (shape : bound.toModel.unpack = .finite .positive mantissa exponent positive) (normal : -1074 < exponent)
    (above : bound < value) : AtLeast .binary64 (52 + exponent) value.toModel.unpack := by
  rw [float_lt_iff, shape] at above
  cases read : value.toModel.unpack with
  | notANumber | zero sign =>
    rw [read] at above
    simp [UnpackedFloat.lt, UnpackedFloat.compare] at above
  | infinity sign => exact .infinity sign
  | finite sign digits scale some =>
    have fits : Fits .binary64 digits scale := unpack_fits (by decide) read
    have tight := fits.tight
    rw [binary64_least] at tight
    rw [read] at above
    refine .value sign digits scale fits ?_
    cases sign with
    | negative => simp [UnpackedFloat.lt, UnpackedFloat.compare] at above
    | positive =>
      simp only [UnpackedFloat.lt, UnpackedFloat.compare, beq_iff_eq, Option.some_inj] at above
      have order : exponent ≤ scale := by
        rcases Ordering.then_eq_lt.mp above with less | ⟨same, -⟩
        · exact (Int.compare_eq_lt.mp less).le
        · exact (Int.compare_eq_eq.mp same).le
      simp only at tight
      omega

end FloatFormat
