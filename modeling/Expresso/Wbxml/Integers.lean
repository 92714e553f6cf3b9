import Expresso.Wbxml.MultiByte

/-! The number that a multi-byte integer stands for, of any length, and where the reader returns
it. -/

namespace Expresso.Wbxml

/-- The digits up to the first byte without a continuation bit, and what follows it. -/
def mbDigits : Cursor → Option (List Nat × Cursor)
  | [] => none
  | b :: rest =>
      if b.toNat < 128 then some ([b.toNat], rest)
      else (mbDigits rest).map fun found => ((b.toNat - 128) :: found.1, found.2)

/-- The digits in base 128 after those of a number. -/
def appendDigits (n : Nat) (digits : List Nat) : Nat :=
  digits.foldl (fun value digit => 128 * value + digit) n

def mbValue (digits : List Nat) : Nat := appendDigits 0 digits

def Refused (cursor : Cursor) : Prop :=
  readMbU32 cursor = .error .badMultiByte ∨ readMbU32 cursor = .error .unexpectedEof

/-- The number is returned if it fits; every other number, and an input that ends inside one, is
refused. -/
def ReadsExactly (cursor : Cursor) : Prop :=
  match mbDigits cursor with
  | none => Refused cursor
  | some (digits, rest) =>
      if mbValue digits < 2 ^ 32 then
        ∃ v, readMbU32 cursor = .ok (v, rest) ∧ v.toNat = mbValue digits
      else Refused cursor

/-- A number takes at most five bytes just when it fits in 32 bits. -/
def Canonical (cursor : Cursor) : Prop :=
  ∀ digits rest, mbDigits cursor = some (digits, rest) →
    (digits.length ≤ 5 ↔ mbValue digits < 2 ^ 32)

/-! ### The accumulator -/

theorem continued_iff (b : UInt8) : b &&& 0x80 = 0 ↔ b.toNat < 128 := by
  have high := @toNat_and_bit b 0x80 7 rfl
  have zero : (0 : UInt8).toNat = 0 := rfl
  have bound := b.toNat_lt
  rw [← UInt8.toNat_inj, high]
  omega

/-- One more digit, in arithmetic modulo `2 ^ 32`. -/
theorem shift_or (n : Nat) (b : UInt8) :
    (UInt32.ofNat n <<< 7) ||| (b &&& 0x7F).toUInt32 =
      UInt32.ofNat (128 * n + b.toNat % 128) := by
  apply UInt32.toNat_inj.mp
  have mask : (0x7F : UInt8).toNat = 2 ^ 7 - 1 := rfl
  have low : ((b &&& 0x7F).toUInt32).toNat = b.toNat % 128 := by
    rw [UInt8.toNat_toUInt32, UInt8.toNat_and, mask, Nat.and_two_pow_sub_one_eq_mod]
  have high : (UInt32.ofNat n <<< 7).toNat = 2 ^ 7 * (n % 2 ^ 25) := by
    rw [UInt32.toNat_shiftLeft, UInt32.toNat_ofNat']
    simp only [UInt32.reduceToNat, Nat.reduceMod, Nat.shiftLeft_eq]
    omega
  rw [UInt32.toNat_or, low, high, ← Nat.two_pow_add_eq_or_of_lt (Nat.mod_lt _ (by decide)),
    UInt32.toNat_ofNat']
  omega

/-- The loop reads the digits modulo `2 ^ 32`, if there are places for all of them. -/
theorem readMbLoop_eq (left n : Nat) (cursor : Cursor) :
    readMbLoop left (UInt32.ofNat n) cursor =
      match mbDigits cursor with
      | none => .error .badMultiByte
      | some (digits, rest) =>
          if digits.length ≤ left then .ok (UInt32.ofNat (appendDigits n digits), rest)
          else .error .badMultiByte := by
  induction cursor generalizing left n with
  | nil => cases left <;> rfl
  | cons b rest ih =>
    cases left with
    | zero =>
      rw [mbDigits, readMbLoop]
      by_cases last : b.toNat < 128
      · simp [last]
      · rw [if_neg last]
        cases mbDigits rest with
        | none => rfl
        | some found => simp
    | succ left =>
      have digit : b.toNat % 128 = if b.toNat < 128 then b.toNat else b.toNat - 128 := by
        have bound := b.toNat_lt
        split_ifs <;> omega
      rw [mbDigits, readMbLoop, shift_or, digit]
      by_cases last : b.toNat < 128
      · simp [last, (continued_iff b).mpr last, appendDigits]
      · have more : ¬b &&& 0x80 = 0 := fun ends => last ((continued_iff b).mp ends)
        simp only [if_neg more, if_neg last, ih]
        cases mbDigits rest with
        | none => rfl
        | some found => simp [appendDigits]

theorem readMbU32_eq (cursor : Cursor) :
    readMbU32 cursor = match mbDigits cursor with
      | none => .error .badMultiByte
      | some (digits, rest) =>
          if digits.length ≤ 5 then .ok (UInt32.ofNat (mbValue digits), rest)
          else .error .badMultiByte :=
  readMbLoop_eq 5 0 cursor

/-- The reader is exact just where the length of a number tells whether it fits, and it reads back
every number that is written. -/
theorem readsExactly_iff (cursor : Cursor) (n : UInt32) (rest : Cursor) :
    (ReadsExactly cursor ↔ Canonical cursor) ∧
      readMbU32 (writeMbU32 n ++ rest) = .ok (n, rest) := by
  refine ⟨?_, readMbU32_writeMbU32 n rest⟩
  have read := readMbU32_eq cursor
  unfold ReadsExactly Canonical Refused
  cases found : mbDigits cursor with
  | none => simp [found, read]
  | some pair =>
    obtain ⟨digits, after⟩ := pair
    simp only [found] at read
    simp only [Option.some.injEq, Prod.mk.injEq, and_imp]
    have size : (UInt32.ofNat (mbValue digits)).toNat = mbValue digits % 2 ^ 32 :=
      UInt32.toNat_ofNat'
    by_cases short : digits.length ≤ 5
    · rw [if_pos short] at read
      by_cases fits : mbValue digits < 2 ^ 32
      · simp [read, short, size]
      · simp [read, short]
    · rw [if_neg short] at read
      by_cases fits : mbValue digits < 2 ^ 32
      · simp [read, short]
      · simp [read, short]

/-- `2 ^ 32` is read as zero. -/
theorem reads_modulo :
    readMbU32 [0x90, 0x80, 0x80, 0x80, 0x00] = .ok (0, []) ∧
      ¬ReadsExactly [0x90, 0x80, 0x80, 0x80, 0x00] := by
  refine ⟨by decide, ?_⟩
  have value : mbDigits [0x90, 0x80, 0x80, 0x80, 0x00] = some ([16, 0, 0, 0, 0], []) ∧
      ¬mbValue [16, 0, 0, 0, 0] < 2 ^ 32 := by decide
  unfold ReadsExactly Refused
  rw [value.1]
  simp only [if_neg value.2]
  decide

end Expresso.Wbxml
