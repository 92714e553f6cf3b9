import Expresso.Text.Str

/-! Octets in percent-encoding: those a test lets through stand for themselves, the others for two
hexadecimal digits after a percent sign. -/

namespace Expresso.Text

def hexUpper (n : Nat) : Char := if n < 10 then Char.ofNat (48 + n) else Char.ofNat (55 + n)

/-- `format!("%{:02X}")` of an octet. -/
def percentTriplet (b : UInt8) : Str := ['%', hexUpper (b.toNat / 16), hexUpper (b.toNat % 16)]

def percentEncode (keep : UInt8 → Bool) (bytes : List UInt8) : Str :=
  bytes.flatMap fun b => if keep b then [Char.ofNat b.toNat] else percentTriplet b

/-- The value of a hexadecimal digit, in either case. -/
def hexDigitValue (c : Char) : Option Nat :=
  if c.isDigit then some (c.toNat - 48)
  else if 'A' ≤ c ∧ c ≤ 'F' then some (c.toNat - 55)
  else if 'a' ≤ c ∧ c ≤ 'f' then some (c.toNat - 87)
  else none

/-- A percent sign stands before two digits, and any other character is one octet. -/
def percentDecode : Str → Option (List UInt8)
  | [] => some []
  | '%' :: hi :: lo :: rest => do
      let high ← hexDigitValue hi
      let low ← hexDigitValue lo
      return UInt8.ofNat (16 * high + low) :: (← percentDecode rest)
  | c :: rest =>
      if c = '%' ∨ 128 ≤ c.toNat then none
      else (percentDecode rest).map (UInt8.ofNat c.toNat :: ·)

example : percentDecode "a%20".toList = some [97, 32] := by simp [percentDecode, hexDigitValue]

/-- Octets that are let through and triplets of a percent sign and two digits. -/
inductive Encoded (keep : UInt8 → Bool) : Str → Prop
  | nil : Encoded keep []
  | kept {b : UInt8} {rest : Str} : keep b = true → Encoded keep rest →
      Encoded keep (Char.ofNat b.toNat :: rest)
  | triplet {hi lo : Char} {rest : Str} : (hexDigitValue hi).isSome → (hexDigitValue lo).isSome →
      Encoded keep rest → Encoded keep ('%' :: hi :: lo :: rest)

theorem hexDigitValue_hexUpper {n : Nat} (digit : n < 16) :
    hexDigitValue (hexUpper n) = some n := by
  have all : ∀ n < 16, hexDigitValue (hexUpper n) = some n := by decide
  exact all n digit

theorem toNat_ofNat_ascii {n : Nat} (ascii : n < 128) : (Char.ofNat n).toNat = n := by
  have all : ∀ n < 128, (Char.ofNat n).toNat = n := by decide
  exact all n ascii

section
variable {keep : UInt8 → Bool} (ascii : ∀ b, keep b = true → b.toNat < 128 ∧ b ≠ 37)

theorem encoded_percentEncode (keep : UInt8 → Bool) (bytes : List UInt8) :
    Encoded keep (percentEncode keep bytes) := by
  induction bytes with
  | nil => exact .nil
  | cons b rest ih =>
    rw [percentEncode, List.flatMap_cons]
    by_cases kept : keep b = true
    · rw [if_pos kept]
      exact .kept kept ih
    · rw [if_neg kept]
      have range := b.toNat_lt
      have high := hexDigitValue_hexUpper (n := b.toNat / 16) (by omega)
      have low := hexDigitValue_hexUpper (n := b.toNat % 16) (by omega)
      exact .triplet (by rw [high]; rfl) (by rw [low]; rfl) ih

include ascii

theorem percentDecode_kept {b : UInt8} (kept : keep b = true) (rest : Str) :
    percentDecode (Char.ofNat b.toNat :: rest) = (percentDecode rest).map (b :: ·) := by
  obtain ⟨small, other⟩ := ascii b kept
  have value := toNat_ofNat_ascii small
  have noSign : Char.ofNat b.toNat ≠ '%' := by
    intro same
    rw [same] at value
    exact other (UInt8.toNat_inj.mp value.symm)
  have octet : UInt8.ofNat (Char.ofNat b.toNat).toNat = b := by
    rw [value]
    exact UInt8.ofNat_toNat
  rw [percentDecode]
  · rw [if_neg (by rw [value]; simp [noSign]; omega), octet]
  · intro _ _ _ sign
    exact absurd sign noSign

theorem percentDecode_percentEncode (bytes : List UInt8) :
    percentDecode (percentEncode keep bytes) = some bytes := by
  induction bytes with
  | nil => rfl
  | cons b rest ih =>
    have unfolded : percentEncode keep (b :: rest) =
        (if keep b then [Char.ofNat b.toNat] else percentTriplet b) ++ percentEncode keep rest :=
      List.flatMap_cons
    rw [unfolded]
    by_cases kept : keep b = true
    · rw [if_pos kept, List.singleton_append, percentDecode_kept ascii kept, ih]
      rfl
    · have range := b.toNat_lt
      have value : UInt8.ofNat (16 * (b.toNat / 16) + b.toNat % 16) = b := by
        rw [Nat.div_add_mod]
        exact UInt8.ofNat_toNat
      rw [if_neg kept]
      show percentDecode ('%' :: hexUpper (b.toNat / 16) :: hexUpper (b.toNat % 16) ::
        percentEncode keep rest) = _
      rw [percentDecode, hexDigitValue_hexUpper (by omega), hexDigitValue_hexUpper (by omega), ih]
      exact congrArg (fun c => some (c :: rest)) value

end

end Expresso.Text
