import Expresso.Wbxml.Codec
import Mathlib.Data.Nat.Bitwise

/-! Multi-byte integers: base 128, most significant digit first, continuation bit
on every byte but the last. Reading what was written gives the value back for every
`u32`, with any bytes following it. -/

namespace Expresso.Wbxml

private theorem toNat_shiftRight_seven (v : UInt32) : (v >>> 7).toNat = v.toNat / 128 := by
  rw [UInt32.toNat_shiftRight]
  simp [Nat.shiftRight_eq_div_pow]

private theorem toNat_low (v : UInt32) : ((v &&& 0x7F).toUInt8).toNat = v.toNat % 128 := by
  rw [UInt32.toNat_toUInt8, UInt32.toNat_and]
  have mask : (0x7F : UInt32).toNat = 2 ^ 7 - 1 := rfl
  rw [mask, Nat.and_two_pow_sub_one_eq_mod]
  omega

/-! ### Bits of a byte -/

theorem and_two_pow_eq (n i : Nat) : n &&& 2 ^ i = n / 2 ^ i % 2 * 2 ^ i := by
  rw [Nat.and_two_pow, Nat.testBit_eq_decide_div_mod_eq]
  obtain zero | one := Nat.mod_two_eq_zero_or_one (n / 2 ^ i)
  · simp [zero]
  · simp [one]

/-- The low bits under a mask. -/
theorem toNat_and_mask (b : UInt8) {mask : UInt8} {i : Nat} (bits : mask.toNat = 2 ^ i - 1) :
    (b &&& mask).toNat = b.toNat % 2 ^ i := by
  rw [UInt8.toNat_and, bits, Nat.and_two_pow_sub_one_eq_mod]

theorem toNat_and_bit (b : UInt8) {bit : UInt8} {i : Nat} (place : bit.toNat = 2 ^ i) :
    (b &&& bit).toNat = b.toNat / 2 ^ i % 2 * 2 ^ i := by
  rw [UInt8.toNat_and, place, and_two_pow_eq]

/-- A bit above all others is added. -/
theorem toNat_or_bit {b bit : UInt8} {i : Nat} (place : bit.toNat = 2 ^ i)
    (small : b.toNat < 2 ^ i) : (b ||| bit).toNat = b.toNat + 2 ^ i := by
  have added := Nat.two_pow_add_eq_or_of_lt small 1
  rw [Nat.mul_one] at added
  rw [UInt8.toNat_or, place, Nat.or_comm, ← added, Nat.add_comm]

private theorem low_of_continued (b : UInt8) (small : b.toNat < 128) :
    (b ||| 0x80) &&& 0x7F = b ∧ (b ||| 0x80) &&& 0x80 ≠ 0 := by
  have continued := @toNat_or_bit b 0x80 7 rfl small
  have low := @toNat_and_mask (b ||| 0x80) 0x7F 7 rfl
  have high := @toNat_and_bit (b ||| 0x80) 0x80 7 rfl
  rw [← UInt8.toNat_inj, ne_eq, ← UInt8.toNat_inj, low, high, continued]
  constructor
  · omega
  · have zero : (0 : UInt8).toNat = 0 := rfl
    omega

private theorem low_of_last (b : UInt8) (small : b.toNat < 128) :
    b &&& 0x7F = b ∧ b &&& 0x80 = 0 := by
  have low := @toNat_and_mask b 0x7F 7 rfl
  have high := @toNat_and_bit b 0x80 7 rfl
  rw [← UInt8.toNat_inj, ← UInt8.toNat_inj, low, high]
  constructor
  · omega
  · have zero : (0 : UInt8).toNat = 0 := rfl
    omega

/-- Appending one base-128 digit to an accumulator that leaves room for it. -/
private theorem shift_digit (v : UInt32) :
    ((v >>> 7) <<< 7) ||| ((v &&& 0x7F).toUInt8).toUInt32 = v := by
  apply UInt32.toNat_inj.mp
  have high : ((v >>> 7) <<< 7).toNat = 2 ^ 7 * (v.toNat / 128) := by
    rw [UInt32.toNat_shiftLeft, toNat_shiftRight_seven]
    have bound := v.toNat_lt
    simp only [UInt32.reduceToNat, Nat.reduceMod, Nat.shiftLeft_eq]
    rw [Nat.mod_eq_of_lt (by omega)]
    omega
  rw [UInt32.toNat_or, UInt8.toNat_toUInt32, toNat_low, high,
    ← Nat.two_pow_add_eq_or_of_lt (Nat.mod_lt _ (by decide))]
  omega

/-- One continued byte: the reader's accumulator moves from `v >>> 7` to `v`. -/
private theorem readMbLoop_continued (left : Nat) (v : UInt32) (rest : Cursor) :
    readMbLoop (left + 1) (v >>> 7) (((v &&& 0x7F).toUInt8 ||| 0x80) :: rest) =
      readMbLoop left v rest := by
  have small : ((v &&& 0x7F).toUInt8).toNat < 128 := by
    rw [toNat_low]
    exact Nat.mod_lt _ (by decide)
  obtain ⟨payload, more⟩ := low_of_continued _ small
  simp only [readMbLoop, payload, shift_digit, if_neg more]

private theorem readMbLoop_last (left : Nat) (v : UInt32) (rest : Cursor) :
    readMbLoop (left + 1) (v >>> 7) ((v &&& 0x7F).toUInt8 :: rest) = .ok (v, rest) := by
  have small : ((v &&& 0x7F).toUInt8).toNat < 128 := by
    rw [toNat_low]
    exact Nat.mod_lt _ (by decide)
  obtain ⟨payload, done⟩ := low_of_last _ small
  simp only [readMbLoop, payload, shift_digit, if_pos done]

/-- The writer's loop is undone digit by digit. `buf` holds the digits below `v`;
with `slots` places in front of it, every `v < 128 ^ slots` fits, and the places not
filled stay `spare` for the reader. -/
private theorem readMbLoop_writeMbLoop (slots left : Nat) (v : UInt32) (buf : List UInt8)
    (fits : v.toNat < 128 ^ slots) :
    ∃ spare, readMbLoop (slots + left) 0 (writeMbLoop slots v buf) =
      readMbLoop (spare + left) v buf := by
  induction slots generalizing left v buf with
  | zero =>
    have zero : v = 0 := UInt32.toNat_inj.mp (by simpa using fits)
    exact ⟨0, by rw [zero]; rfl⟩
  | succ slots ih =>
    by_cases done : v = 0
    · exact ⟨slots + 1, by simp [writeMbLoop, done]⟩
    · have shorter : (v >>> 7).toNat < 128 ^ slots := by
        rw [toNat_shiftRight_seven, Nat.div_lt_iff_lt_mul (by decide)]
        simpa only [Nat.pow_succ] using fits
      simp only [writeMbLoop, ne_eq, done, not_false_eq_true, ↓reduceIte]
      obtain ⟨spare, same⟩ := ih (left + 1) (v >>> 7) _ shorter
      have arrange : slots + 1 + left = slots + (left + 1) := by omega
      rw [arrange, same, ← Nat.add_assoc, readMbLoop_continued]
      exact ⟨spare, rfl⟩

private theorem writeMbLoop_append (slots : Nat) (v : UInt32) (buf rest : List UInt8) :
    writeMbLoop slots v buf ++ rest = writeMbLoop slots v (buf ++ rest) := by
  induction slots generalizing v buf with
  | zero => rfl
  | succ slots ih =>
    by_cases done : v = 0
    · simp [writeMbLoop, done]
    · simp only [writeMbLoop, ne_eq, done, not_false_eq_true, ↓reduceIte]
      rw [ih]
      rfl

theorem readMbU32_writeMbU32 (v : UInt32) (rest : Cursor) :
    readMbU32 (writeMbU32 v ++ rest) = .ok (v, rest) := by
  have fits : (v >>> 7).toNat < 128 ^ 4 := by
    rw [toNat_shiftRight_seven]
    have bound := v.toNat_lt
    omega
  rw [readMbU32, writeMbU32, writeMbLoop_append]
  obtain ⟨spare, same⟩ :=
    readMbLoop_writeMbLoop 4 1 (v >>> 7) ([(v &&& 0x7F).toUInt8] ++ rest) fits
  rw [same]
  exact readMbLoop_last spare v rest

end Expresso.Wbxml
