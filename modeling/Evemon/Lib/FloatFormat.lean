import Mathlib

open Float.Model (Format UnpackedFloat totalExponent)
open Float.Model.UnpackedFloat Nat BitVec

namespace FloatFormat

variable {spec : Format}

-- The finite values of a format: the implicit bit is set or the exponent is the least one, and the
-- exponent is below the one that stands for infinity.
structure Fits (spec : Format) (mantissa : Nat) (exponent : Int) : Prop where
  positive : 0 < mantissa
  width : mantissa.log2 ≤ spec.mantissaBitsWithoutImplicit
  low : spec.minExponent ≤ exponent
  tight : mantissa.log2 = spec.mantissaBitsWithoutImplicit ∨ exponent = spec.minExponent
  high : exponent + spec.exponentBias + spec.mantissaBitsWithoutImplicit + 1 < (2 ^ spec.exponentBits : Nat)

theorem min_exponent_eq (spec : Format) :
    spec.minExponent = 1 - (spec.exponentBias : Int) - spec.mantissaBitsWithoutImplicit := by
  have one : 1 ≤ 2 ^ (spec.exponentBits - 1) := Nat.one_le_two_pow
  unfold Format.minExponent Format.exponentBias Format.mantissaBits
  rw [Nat.cast_sub one]
  push_cast
  ring

theorem exponent_room (spec : Format) : 2 ^ spec.exponentBits = 2 * spec.exponentBias + 2 := by
  have one : 1 ≤ 2 ^ (spec.exponentBits - 1) := Nat.one_le_two_pow
  have split : 2 ^ spec.exponentBits = 2 ^ (spec.exponentBits - 1) * 2 := by
    rw [← Nat.pow_succ, Nat.succ_eq_add_one, Nat.sub_add_cancel spec.he]
  unfold Format.exponentBias
  omega

theorem all_ones_iff (exponent : BitVec spec.exponentBits) :
    exponent = -1#_ ↔ exponent.toNat + 1 = 2 ^ spec.exponentBits := by
  have room := exponent_room spec
  rw [← toNat_inj, neg_one_eq_allOnes, toNat_allOnes]
  omega

theorem implicit_bit (mantissa : BitVec spec.mantissaBitsWithoutImplicit) :
    (1#1 ++ mantissa).toNat = 2 ^ spec.mantissaBitsWithoutImplicit + mantissa.toNat := by
  rw [BitVec.toNat_append, ← Nat.shiftLeft_add_eq_or_of_lt mantissa.isLt]
  simp [Nat.shiftLeft_eq]

theorem implicit_log {mantissa : BitVec spec.mantissaBitsWithoutImplicit} :
    (1#1 ++ mantissa).toNat.log2 = spec.mantissaBitsWithoutImplicit := by
  have small := mantissa.isLt
  rw [implicit_bit, log2_eq_iff (by positivity), pow_succ]
  omega

theorem unpack_fits {bits} {sign} {mantissa} {exponent} {positive}
    (wide : 1 < spec.exponentBits) (read : unpack spec bits = .finite sign mantissa exponent positive) :
    Fits spec mantissa exponent := by
  have room := exponent_room spec
  have least := min_exponent_eq spec
  have biased := (unpackExponent bits).isLt
  have four : 2 ^ 2 ≤ 2 ^ spec.exponentBits := Nat.pow_le_pow_right (by decide) wide
  unfold unpack at read
  dsimp only at read
  split at read
  · split at read <;> cases read
  · rename_i notAll
    rw [all_ones_iff] at notAll
    split at read
    · rename_i zero
      split at read
      · cases read
      · injection read with _ sameMantissa sameExponent
        have none : (unpackExponent bits).toNat = 0 := by rw [zero]; rfl
        have short : mantissa.log2 < spec.mantissaBitsWithoutImplicit := by
          rw [Nat.log2_lt positive.ne', ← sameMantissa]
          exact (unpackMantissa bits).isLt
        exact ⟨positive, by omega, by omega, .inr (by omega), by omega⟩
    · rename_i nonzero
      injection read with _ sameMantissa sameExponent
      have some : (unpackExponent bits).toNat ≠ 0 := by
        intro none
        exact nonzero (BitVec.toNat_inj.mp (by simpa using none))
      have full : mantissa.log2 = spec.mantissaBitsWithoutImplicit := by
        rw [← sameMantissa]
        exact implicit_log
      exact ⟨positive, by omega, by omega, .inl full, by omega⟩

theorem unpack_pack {sign} {mantissa} {exponent : Int} {fits : Fits spec mantissa exponent} :
    unpack spec (pack spec (.finite sign mantissa exponent fits.positive)) =
    .finite sign mantissa exponent fits.positive := by
  have room := exponent_room spec
  have least := min_exponent_eq spec
  have precision : spec.mantissaBits = 1 + spec.mantissaBitsWithoutImplicit := rfl
  obtain ⟨positive, width, low, tight, high⟩ := fits
  have highNat : (exponent + spec.exponentBias + spec.mantissaBitsWithoutImplicit).toNat + 1 < 2 ^ spec.exponentBits := by
    omega
  simp only [pack]
  rw [if_neg (by omega)]
  by_cases full : mantissa.log2 = spec.mantissaBitsWithoutImplicit
  · rw [if_pos (by omega)]
    have bounds := (log2_eq_iff positive.ne').mp full
    rw [pow_succ] at bounds
    have restored : (1#1 ++ BitVec.ofNat spec.mantissaBitsWithoutImplicit mantissa).toNat = mantissa := by
      rw [implicit_bit, toNat_ofNat, mod_eq_sub_mod bounds.1, mod_eq_of_lt (by omega)]
      omega
    have stored : (BitVec.ofNat spec.exponentBits
        (exponent + spec.exponentBias + spec.mantissaBitsWithoutImplicit).toNat).toNat =
          (exponent + spec.exponentBias + spec.mantissaBitsWithoutImplicit).toNat := by
      rw [toNat_ofNat, mod_eq_of_lt (by omega)]
    unfold unpack
    simp only [unpackMantissa_packComponents, unpackExponent_packComponents, unpackSign_packComponents,
      Sign.ofBitVec_toBitVec]
    rw [if_neg (by rw [all_ones_iff, stored]; omega)]
    rw [if_neg (by rw [← toNat_inj, stored, toNat_zero]; omega)]
    simp only [restored, stored]
    congr 1
    omega
  · rw [if_neg (by omega)]
    have short : mantissa < 2 ^ spec.mantissaBitsWithoutImplicit := by
      rw [← log2_lt positive.ne']
      omega
    have stored : (BitVec.ofNat spec.mantissaBitsWithoutImplicit mantissa).toNat = mantissa := by
      rw [toNat_ofNat, mod_eq_of_lt short]
    unfold unpack
    simp only [unpackMantissa_packComponents, unpackExponent_packComponents, unpackSign_packComponents,
      Sign.ofBitVec_toBitVec]
    rw [if_neg (by rw [all_ones_iff, toNat_zero]; omega), if_pos True.intro]
    rw [dif_neg (by rw [← toNat_inj, stored, toNat_zero]; omega)]
    simp only [stored, toNat_zero]
    congr 1
    omega

section

variable (sign : Sign) {mantissa : Nat} (exponent : Int) (shift : Nat)

theorem log2_scaled (positive : 0 < mantissa) : (mantissa * 2 ^ shift).log2 = mantissa.log2 + shift := by
  have bounds := (log2_eq_iff positive.ne').mp rfl
  rw [log2_eq_iff (by positivity)]
  constructor
  · rw [pow_add]
    exact mul_le_mul_right _ bounds.1
  · rw [show mantissa.log2 + shift + 1 = mantissa.log2 + 1 + shift by omega, pow_add]
    exact mul_lt_mul_of_pos_right bounds.2 (by positivity)

theorem target_of_fits (fits : Fits spec mantissa exponent) (shift : Nat) :
    spec.targetExponent (totalExponent (mantissa * 2 ^ shift) (exponent - shift)) = exponent := by
  obtain ⟨positive, width, low, tight, high⟩ := fits
  have precision : spec.mantissaBits = 1 + spec.mantissaBitsWithoutImplicit := rfl
  unfold totalExponent Format.targetExponent
  rw [log2_scaled _ positive]
  omega

theorem shift_out_zeros :
    (ExtendedMantissa.mk (mantissa * 2 ^ shift) false false) >>> shift = ⟨mantissa, false, false⟩ := by
  change Nat.repeat ExtendedMantissa.shiftRightOne shift _ = _
  induction shift generalizing mantissa with
  | zero => simp [Nat.repeat]
  | succ shift ih =>
    have regroup : mantissa * 2 ^ (shift + 1) = mantissa * 2 * 2 ^ shift := by ring
    rw [Nat.repeat, regroup, ih]
    simp [ExtendedMantissa.shiftRightOne]

theorem shift_to_target (fits : Fits spec mantissa exponent) (shift : Nat) :
    shiftToTargetExponent spec (mantissa * 2 ^ shift) (exponent - shift) .exact =
    (⟨mantissa, false, false⟩, exponent) := by
  unfold shiftToTargetExponent shiftToExponent
  simp only [target_of_fits exponent fits shift, ExtendedMantissa.ofMantissaAndAccuracy]
  rw [show (exponent - (exponent - (shift : Int))).toNat = shift by omega, shift_out_zeros]
  simp

variable (fits : Fits spec mantissa exponent)

variable (mantissa) in
theorem round_with_accuracy_exact (shift : Nat) :
    roundWithAccuracy spec sign (mantissa * 2 ^ shift) (exponent - shift) .exact =
    .finite sign mantissa exponent fits.positive := by
  have again := shift_to_target exponent fits 0
  simp only [pow_zero, mul_one, cast_zero, Int.sub_zero] at again
  unfold roundWithAccuracy
  simp only [shift_to_target exponent fits shift, ExtendedMantissa.roundedMantissa,
    ExtendedMantissa.accuracy, Accuracy.roundToNearestEven, again]
  rw [dif_neg fits.positive.ne']

variable (mantissa) in
theorem round_shrinks {shift : Nat} :
    round spec sign (mantissa * 2 ^ shift) (exponent - shift) = .finite sign mantissa exponent fits.positive := by
  unfold UnpackedFloat.round decreaseExponent
  simp only [target_of_fits exponent fits shift]
  rw [show (exponent - (shift : Int) - exponent).toNat = 0 by omega]
  simpa using round_with_accuracy_exact sign mantissa exponent fits shift

theorem round_grows {fits : Fits spec (mantissa * 2 ^ shift) (exponent - shift)} (positive : 0 < mantissa) :
    round spec sign mantissa exponent = .finite sign (mantissa * 2 ^ shift) (exponent - shift) fits.positive := by
  have target : spec.targetExponent (totalExponent mantissa exponent) = exponent - shift := by
    have scaled := target_of_fits _ fits 0
    unfold totalExponent at scaled ⊢
    rw [Nat.pow_zero, Nat.mul_one, log2_scaled _ positive] at scaled
    rw [← scaled]
    congr 1
    push_cast
    omega
  unfold UnpackedFloat.round decreaseExponent
  simp only [target]
  rw [show (exponent - (exponent - (shift : Int))).toNat = shift by omega, Nat.shiftLeft_eq]
  simpa using round_with_accuracy_exact sign _ _ fits 0

end

def convert (target : Format) : UnpackedFloat → UnpackedFloat
  | .finite sign mantissa exponent _ => round target sign mantissa exponent
  | .zero sign => .zero sign
  | .infinity sign => .infinity sign
  | .notANumber => .notANumber

def widen (value : Float32) : Float := .ofModel (.pack (convert .binary64 value.toModel.unpack))

def narrow (value : Float) : Float32 := .ofModel (.pack (convert .binary32 value.toModel.unpack))

theorem widened_fits {mantissa} {exponent} (fits : Fits .binary32 mantissa exponent) :
    Fits .binary64 (mantissa * 2 ^ (52 - mantissa.log2)) (exponent - (52 - mantissa.log2 : Nat)) := by
  obtain ⟨positive, width, low, tight, high⟩ := fits
  have least32 : Format.binary32.minExponent = -149 := by decide
  have least64 : Format.binary64.minExponent = -1074 := by decide
  have bias32 : Format.binary32.exponentBias = 127 := by decide
  have bias64 : Format.binary64.exponentBias = 1023 := by decide
  rw [least32] at low
  rw [bias32] at high
  simp only at width high
  have full : (mantissa * 2 ^ (52 - mantissa.log2)).log2 = 52 := by
    rw [log2_scaled _ positive]
    omega
  refine ⟨by positivity, by simp only [full]; omega, ?_, .inl full, ?_⟩
  · rw [least64]
    omega
  · rw [bias64]
    simp only
    norm_num
    omega

inductive FiniteUnpacked (spec : Format) : UnpackedFloat → Prop where
  | zero (sign : Sign) : FiniteUnpacked spec (.zero sign)
  | value (sign : Sign) (mantissa : Nat) (exponent : Int) (fits : Fits spec mantissa exponent) :
      FiniteUnpacked spec (.finite sign mantissa exponent fits.positive)

variable {value : UnpackedFloat}

theorem FiniteUnpacked.finite (shape : FiniteUnpacked spec value) : value.isFinite = true := by
  cases shape <;> rfl

theorem FiniteUnpacked.abs (shape : FiniteUnpacked spec value) : FiniteUnpacked spec value.abs := by
  cases shape with
  | zero sign => exact .zero .positive
  | value sign mantissa exponent fits => exact .value .positive mantissa exponent fits

theorem unpack_finite (bits : BitVec spec.numBits) (wide : 1 < spec.exponentBits)
    (finite : (unpack spec bits).isFinite) : FiniteUnpacked spec (unpack spec bits) := by
  cases read : unpack spec bits with
  | infinity sign | notANumber => simp [read, isFinite] at finite
  | zero sign => exact .zero sign
  | finite sign mantissa exponent positive => exact .value sign mantissa exponent (unpack_fits wide read)

theorem unpack_pack_finite {value} (finite : FiniteUnpacked spec value) :
    unpack spec (pack spec value) = value := by
  cases finite with
  | zero sign => exact unpack_packedZero
  | value sign mantissa exponent fits => exact @unpack_pack _ sign mantissa exponent fits

theorem convert_finite (finite : FiniteUnpacked .binary32 value) :
    FiniteUnpacked .binary64 (convert .binary64 value) ∧ convert .binary32 (convert .binary64 value) = value := by
  cases finite with
  | zero sign => exact ⟨.zero sign, rfl⟩
  | value sign mantissa exponent fits =>
    have wide := widened_fits fits
    rw [convert, @round_grows _ sign mantissa exponent _ wide fits.positive, convert]
    exact ⟨.value sign _ _ wide, round_shrinks sign mantissa exponent fits⟩

theorem float32_unpack_finite {value : Float32} (finite : value.isFinite) :
    FiniteUnpacked .binary32 value.toModel.unpack :=
  @unpack_finite .binary32 value.toModel.toBits.toBitVec (by decide) finite

theorem float_pack_finite {value} (finite : FiniteUnpacked .binary64 value) :
    (Float.Model.pack value).unpack = value := unpack_pack_finite finite

theorem widen_unpacked {value : Float32} (finite : value.isFinite) :
    (widen value).toModel.unpack = convert .binary64 value.toModel.unpack :=
  float_pack_finite (convert_finite (float32_unpack_finite finite)).1

theorem widen_finite {value : Float32} (finite : value.isFinite) : (widen value).isFinite := by
  have shape := (convert_finite (float32_unpack_finite finite)).1
  change (widen value).toModel.unpack.isFinite
  rw [widen_unpacked finite]
  exact shape.finite

theorem narrow_widen {value : Float32} (finite : value.isFinite) : narrow (widen value) = value := by
  have back := (convert_finite (float32_unpack_finite finite)).2
  unfold narrow
  rw [widen_unpacked finite, back]
  obtain ⟨bits, valid⟩ := value
  simp only [Float32.Model.pack, Float32.Model.unpack, pack_unpack_of_valid valid]

def fltMax : Float := Float.ofBits 0x47EFFFFFE0000000

-- (2^24 - 1) * 2^104 is the largest finite float, here with a 53-bit mantissa.
theorem flt_max_unpacked : fltMax.toModel.unpack = .finite .positive ((2 ^ 24 - 1) * 2 ^ 29) 75 (by decide) := by
  have fits : Fits .binary64 ((2 ^ 24 - 1) * 2 ^ 29) 75 := by
    constructor <;> decide
  have packed : fltMax.toModel = .pack (.finite .positive ((2 ^ 24 - 1) * 2 ^ 29) 75 (by decide)) := by
    decide +kernel
  rw [packed]
  exact float_pack_finite (.value _ _ _ fits)

theorem abs_unpacked {value : Float} (finite : FiniteUnpacked .binary64 value.toModel.unpack) :
    value.abs.toModel.unpack = value.toModel.unpack.abs := float_pack_finite finite.abs

theorem float_lt_iff (a b : Float) : a < b ↔ a.toModel.unpack.lt b.toModel.unpack := by
  change decide (a.toModel.unpack.lt b.toModel.unpack) ↔ _
  exact decide_eq_true_iff

theorem widen_le_flt_max {value : Float32} (finite : value.isFinite) : ¬ fltMax < (widen value).abs := by
  have unpacked := widen_unpacked finite
  have narrowShape := float32_unpack_finite finite
  have shape := (convert_finite narrowShape).1
  rw [float_lt_iff, abs_unpacked (by rwa [unpacked]), unpacked, flt_max_unpacked]
  generalize value.toModel.unpack = source at narrowShape
  cases narrowShape with
  | zero sign => simp [convert, UnpackedFloat.abs, UnpackedFloat.lt, UnpackedFloat.compare]
  | value sign mantissa exponent fits =>
    have wide := widened_fits fits
    rw [convert, @round_grows _ sign mantissa exponent _ wide fits.positive]
    have width := fits.width
    have high := fits.high
    have size := Nat.lt_log2_self (n := mantissa)
    have bias : Format.binary32.exponentBias = 127 := by decide
    rw [bias] at high
    norm_num at width high
    simp only [UnpackedFloat.abs, UnpackedFloat.lt, UnpackedFloat.compare]
    intro above
    rw [beq_iff_eq, Option.some_inj] at above
    rcases Ordering.then_eq_lt.mp above with exponentAbove | ⟨sameExponent, mantissaAbove⟩
    · rw [Int.compare_eq_lt] at exponentAbove
      omega
    · rw [Int.compare_eq_eq] at sameExponent
      rw [Nat.compare_eq_lt] at mantissaAbove
      have full : mantissa.log2 = 23 := by omega
      rw [full] at size mantissaAbove
      norm_num at size mantissaAbove
      omega

end FloatFormat
