import Mathlib.Data.List.Basic
import Mathlib.Tactic.IntervalCases

namespace BigEndian

open List BitVec

def encode32 (value : UInt32) : List UInt8 :=
  [(value >>> 24).toUInt8, (value >>> 16).toUInt8, (value >>> 8).toUInt8, value.toUInt8]

def decode32 (a b c d : UInt8) : UInt32 :=
  (a.toUInt32 <<< 24) ||| (b.toUInt32 <<< 16) ||| (c.toUInt32 <<< 8) ||| d.toUInt32

def encode64 (value : UInt64) : List UInt8 :=
  encode32 (value >>> 32).toUInt32 ++ encode32 value.toUInt32

def decode64 (high low : UInt32) : UInt64 := (high.toUInt64 <<< 32) ||| low.toUInt64

@[simp] theorem encode32_length (value : UInt32) : (encode32 value).length = 4 := rfl

@[simp] theorem encode64_length (value : UInt64) : (encode64 value).length = 8 := rfl

theorem decode32_encode32 {value : UInt32} :
    decode32 (value >>> 24).toUInt8 (value >>> 16).toUInt8 (value >>> 8).toUInt8 value.toUInt8 = value := by
  apply UInt32.toBitVec_inj.mp
  apply eq_of_getLsbD_eq
  intro i bound
  simp only [decode32, UInt32.toBitVec_or, UInt32.toBitVec_shiftLeft, UInt8.toBitVec_toUInt32,
    UInt32.toBitVec_toUInt8, UInt32.toBitVec_shiftRight, getLsbD_or]
  interval_cases i <;> simp

theorem decode64_halves (value : UInt64) : decode64 (value >>> 32).toUInt32 value.toUInt32 = value := by
  apply UInt64.toBitVec_inj.mp
  apply eq_of_getLsbD_eq
  intro i bound
  simp only [decode64, UInt64.toBitVec_or, UInt64.toBitVec_shiftLeft, UInt32.toBitVec_toUInt64,
    UInt64.toBitVec_toUInt32, UInt64.toBitVec_shiftRight, getLsbD_or]
  interval_cases i <;> simp

theorem encode32_decode32 (a b c d : UInt8) : encode32 (decode32 a b c d) = [a, b, c, d] := by
  have bytes : ((decode32 a b c d) >>> 24).toUInt8 = a ∧ ((decode32 a b c d) >>> 16).toUInt8 = b ∧
      ((decode32 a b c d) >>> 8).toUInt8 = c ∧ (decode32 a b c d).toUInt8 = d := by
    refine ⟨?_, ?_, ?_, ?_⟩ <;>
    · apply UInt8.toBitVec_inj.mp
      apply eq_of_getLsbD_eq
      intro i bound
      simp only [decode32, UInt32.toBitVec_or, UInt32.toBitVec_shiftLeft, UInt8.toBitVec_toUInt32,
        UInt32.toBitVec_toUInt8, UInt32.toBitVec_shiftRight]
      interval_cases i <;> simp
  rw [encode32, bytes.1, bytes.2.1, bytes.2.2.1, bytes.2.2.2]

theorem encode64_decode64 (high low : UInt32) : encode64 (decode64 high low) = encode32 high ++ encode32 low := by
  have words : ((decode64 high low) >>> 32).toUInt32 = high ∧ (decode64 high low).toUInt32 = low := by
    refine ⟨?_, ?_⟩ <;>
    · apply UInt32.toBitVec_inj.mp
      apply eq_of_getLsbD_eq
      intro i bound
      simp only [decode64, UInt64.toBitVec_or, UInt64.toBitVec_shiftLeft, UInt32.toBitVec_toUInt64,
        UInt64.toBitVec_toUInt32, UInt64.toBitVec_shiftRight]
      interval_cases i <;> simp
  rw [encode64, words.1, words.2]

variable (bytes : List UInt8)

theorem word_of_bytes (long : bytes.length = 4) : ∃ value, bytes = encode32 value := by
  obtain ⟨a, b, c, d, rfl⟩ := length_eq_four.mp long
  exact ⟨decode32 a b c d, (encode32_decode32 a b c d).symm⟩

theorem double_of_bytes (long : bytes.length = 8) : ∃ value, bytes = encode64 value := by
  obtain ⟨high, first⟩ := word_of_bytes (bytes.take 4) (by rw [length_take]; omega)
  obtain ⟨low, second⟩ := word_of_bytes (bytes.drop 4) (by rw [length_drop]; omega)
  refine ⟨decode64 high low, ?_⟩
  rw [encode64_decode64, ← first, ← second, take_append_drop]

end BigEndian
