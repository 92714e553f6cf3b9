import Expresso.Text.Utf8
import Mathlib.Data.List.Count

/-! Lossy decoding of UTF-8. It reads an encoded text back, and it keeps the number of bytes and
characters below 128 in every input. -/

namespace Expresso.Text

/-! ### Encoded texts -/

theorem toNat_valid (c : Char) : c.toNat < 0xD800 ∨ (0xDFFF < c.toNat ∧ c.toNat < 0x110000) :=
  c.valid

theorem ofNat_toNat {n : Nat} (small : n < 256) : (UInt8.ofNat n).toNat = n := by
  rw [UInt8.toNat_ofNat']
  exact Nat.mod_eq_of_lt small

theorem isContinuation_ofNat {n : Nat} (small : n < 64) :
    isContinuation (UInt8.ofNat (n + 0x80)) = true := by
  simp only [isContinuation, Bool.and_eq_true, decide_eq_true_eq, UInt8.le_iff_toNat_le,
    ofNat_toNat (show n + 0x80 < 256 by omega)]
  exact ⟨by simp, by simp; omega⟩

theorem decodeFirst_two {n : Nat} (range : 0x80 ≤ n ∧ n ≤ 0x7ff) (rest : List UInt8) :
    decodeFirst (UInt8.ofNat (n / 64 % 0x20 + 0xc0)) (UInt8.ofNat (n % 0x40 + 0x80) :: rest) =
      (Char.ofNat n, rest) := by
  have lead := ofNat_toNat (show n / 64 % 0x20 + 0xc0 < 256 by omega)
  have next := ofNat_toNat (show n % 0x40 + 0x80 < 256 by omega)
  have second := isContinuation_ofNat (show n % 0x40 < 64 by omega)
  have ascii : ¬UInt8.ofNat (n / 64 % 0x20 + 0xc0) < 0x80 := by
    rw [UInt8.lt_iff_toNat_lt, lead]
    simp
  have two : (0xC2 ≤ UInt8.ofNat (n / 64 % 0x20 + 0xc0) &&
      UInt8.ofNat (n / 64 % 0x20 + 0xc0) ≤ 0xDF) = true := by
    simp only [Bool.and_eq_true, decide_eq_true_eq, UInt8.le_iff_toNat_le, lead]
    exact ⟨by simp; omega, by simp; omega⟩
  have value : (n / 64 % 32 + 192) % 32 * 64 + (n % 64 + 128) % 64 = n := by omega
  simp only [decodeFirst, if_neg ascii, if_pos two, second, if_true, scalar, List.foldl_cons,
    List.foldl_nil, lead, next, value]

theorem decodeFirst_three {n : Nat} (range : 0x7ff < n ∧ n ≤ 0xffff)
    (valid : n < 0xD800 ∨ 0xDFFF < n) (rest : List UInt8) :
    decodeFirst (UInt8.ofNat (n / 4096 % 0x10 + 0xe0))
        (UInt8.ofNat (n / 64 % 0x40 + 0x80) :: UInt8.ofNat (n % 0x40 + 0x80) :: rest) =
      (Char.ofNat n, rest) := by
  have lead := ofNat_toNat (show n / 4096 % 0x10 + 0xe0 < 256 by omega)
  have next := ofNat_toNat (show n / 64 % 0x40 + 0x80 < 256 by omega)
  have last := ofNat_toNat (show n % 0x40 + 0x80 < 256 by omega)
  have third := isContinuation_ofNat (show n % 0x40 < 64 by omega)
  have second : secondOfThree (UInt8.ofNat (n / 4096 % 0x10 + 0xe0))
      (UInt8.ofNat (n / 64 % 0x40 + 0x80)) = true := by
    simp only [secondOfThree, isContinuation, ← UInt8.toNat_inj, lead, UInt8.le_iff_toNat_le,
      next]
    simp
    split
    · omega
    · split
      · omega
      · omega
  have ascii : ¬UInt8.ofNat (n / 4096 % 0x10 + 0xe0) < 0x80 := by
    rw [UInt8.lt_iff_toNat_lt, lead]
    simp
  have two : ¬(0xC2 ≤ UInt8.ofNat (n / 4096 % 0x10 + 0xe0) &&
      UInt8.ofNat (n / 4096 % 0x10 + 0xe0) ≤ 0xDF) = true := by
    simp only [Bool.and_eq_true, decide_eq_true_eq, UInt8.le_iff_toNat_le, lead]
    simp
  have three : (0xE0 ≤ UInt8.ofNat (n / 4096 % 0x10 + 0xe0) &&
      UInt8.ofNat (n / 4096 % 0x10 + 0xe0) ≤ 0xEF) = true := by
    simp only [Bool.and_eq_true, decide_eq_true_eq, UInt8.le_iff_toNat_le, lead]
    exact ⟨by simp, by simp; omega⟩
  have value : ((n / 4096 % 16 + 224) % 16 * 64 + (n / 64 % 64 + 128) % 64) * 64 +
      (n % 64 + 128) % 64 = n := by omega
  simp only [decodeFirst, if_neg ascii, if_neg two, if_pos three, second, third, if_true, scalar,
    List.foldl_cons, List.foldl_nil, lead, next, last, value]

theorem decodeFirst_four {n : Nat} (range : 0xffff < n ∧ n < 0x110000) (rest : List UInt8) :
    decodeFirst (UInt8.ofNat (n / 262144 % 0x08 + 0xf0))
        (UInt8.ofNat (n / 4096 % 0x40 + 0x80) :: UInt8.ofNat (n / 64 % 0x40 + 0x80) ::
          UInt8.ofNat (n % 0x40 + 0x80) :: rest) =
      (Char.ofNat n, rest) := by
  have lead := ofNat_toNat (show n / 262144 % 0x08 + 0xf0 < 256 by omega)
  have next := ofNat_toNat (show n / 4096 % 0x40 + 0x80 < 256 by omega)
  have further := ofNat_toNat (show n / 64 % 0x40 + 0x80 < 256 by omega)
  have last := ofNat_toNat (show n % 0x40 + 0x80 < 256 by omega)
  have third := isContinuation_ofNat (show n / 64 % 0x40 < 64 by omega)
  have fourth := isContinuation_ofNat (show n % 0x40 < 64 by omega)
  have second : secondOfFour (UInt8.ofNat (n / 262144 % 0x08 + 0xf0))
      (UInt8.ofNat (n / 4096 % 0x40 + 0x80)) = true := by
    simp only [secondOfFour, isContinuation, ← UInt8.toNat_inj, lead, UInt8.le_iff_toNat_le,
      next]
    simp
    split
    · omega
    · split
      · omega
      · omega
  have ascii : ¬UInt8.ofNat (n / 262144 % 0x08 + 0xf0) < 0x80 := by
    rw [UInt8.lt_iff_toNat_lt, lead]
    simp
  have two : ¬(0xC2 ≤ UInt8.ofNat (n / 262144 % 0x08 + 0xf0) &&
      UInt8.ofNat (n / 262144 % 0x08 + 0xf0) ≤ 0xDF) = true := by
    simp only [Bool.and_eq_true, decide_eq_true_eq, UInt8.le_iff_toNat_le, lead]
    simp
  have three : ¬(0xE0 ≤ UInt8.ofNat (n / 262144 % 0x08 + 0xf0) &&
      UInt8.ofNat (n / 262144 % 0x08 + 0xf0) ≤ 0xEF) = true := by
    simp only [Bool.and_eq_true, decide_eq_true_eq, UInt8.le_iff_toNat_le, lead]
    simp
  have four : (0xF0 ≤ UInt8.ofNat (n / 262144 % 0x08 + 0xf0) &&
      UInt8.ofNat (n / 262144 % 0x08 + 0xf0) ≤ 0xF4) = true := by
    simp only [Bool.and_eq_true, decide_eq_true_eq, UInt8.le_iff_toNat_le, lead]
    exact ⟨by simp, by simp; omega⟩
  have value : (((n / 262144 % 8 + 240) % 8 * 64 + (n / 4096 % 64 + 128) % 64) * 64 +
      (n / 64 % 64 + 128) % 64) * 64 + (n % 64 + 128) % 64 = n := by omega
  simp only [decodeFirst, if_neg ascii, if_neg two, if_neg three, if_pos four, second, third,
    fourth, if_true, scalar, List.foldl_cons, List.foldl_nil, lead, next, further, last, value]

/-- The first character of an encoded text is the one that was encoded. -/
theorem decodeFirst_encode (c : Char) (rest : List UInt8) :
    ∃ lead more, String.utf8EncodeChar c = lead :: more ∧
      decodeFirst lead (more ++ rest) = (c, rest) := by
  have valid := toNat_valid c
  have same : Char.ofNat c.toNat = c := Char.ofNat_toNat c
  unfold String.utf8EncodeChar
  by_cases one : c.val.toNat ≤ 0x7f
  · have small : c.toNat ≤ 0x7f := one
    have lead := ofNat_toNat (show c.toNat < 256 by omega)
    have ascii : UInt8.ofNat c.toNat < 0x80 := by
      rw [UInt8.lt_iff_toNat_lt, lead]
      simp
      omega
    refine ⟨UInt8.ofNat c.toNat, [], if_pos one, ?_⟩
    simp only [decodeFirst, if_pos ascii, scalar, List.foldl_nil, lead, same, List.nil_append]
  by_cases two : c.val.toNat ≤ 0x7ff
  · refine ⟨_, _, (if_neg one).trans (if_pos two), ?_⟩
    have read := decodeFirst_two ⟨Nat.not_le.mp one, two⟩ rest
    exact read.trans (congrArg (·, rest) same)
  by_cases three : c.val.toNat ≤ 0xffff
  · refine ⟨_, _, (if_neg one).trans ((if_neg two).trans (if_pos three)), ?_⟩
    have read := decodeFirst_three ⟨Nat.not_le.mp two, three⟩ (valid.imp_right And.left) rest
    exact read.trans (congrArg (·, rest) same)
  · refine ⟨_, _, (if_neg one).trans ((if_neg two).trans (if_neg three)), ?_⟩
    have large : 0xffff < c.toNat := Nat.not_le.mp three
    have read := decodeFirst_four ⟨large, by omega⟩ rest
    exact read.trans (congrArg (·, rest) same)

theorem decodeLossy_asBytes (s : Str) {fuel : Nat} (enough : (asBytes s).length ≤ fuel) :
    decodeLossy fuel (asBytes s) = s := by
  induction s generalizing fuel with
  | nil => cases fuel <;> rfl
  | cons c rest ih =>
    obtain ⟨lead, more, encoded, first⟩ := decodeFirst_encode c (asBytes rest)
    have bytes : asBytes (c :: rest) = lead :: (more ++ asBytes rest) := by
      show String.utf8EncodeChar c ++ asBytes rest = _
      rw [encoded]
      rfl
    rw [bytes, List.length_cons, List.length_append] at enough
    cases fuel with
    | zero => omega
    | succ fuel =>
      rw [bytes, decodeLossy, first]
      exact congrArg (c :: ·) (ih (by omega))

/-- A text is read back from its bytes. -/
theorem fromUtf8Lossy_asBytes (s : Str) : fromUtf8Lossy (asBytes s) = s :=
  decodeLossy_asBytes s (Nat.le_refl _)

/-! ### Characters below 128 -/

def asciiBytes (bytes : List UInt8) : Nat := bytes.countP (· < 0x80)

def asciiChars (s : Str) : Nat := s.countP (·.toNat < 0x80)

theorem asciiBytes_cons (b : UInt8) (rest : List UInt8) :
    asciiBytes (b :: rest) = asciiBytes rest + if b < 0x80 then 1 else 0 := by
  simp [asciiBytes, List.countP_cons]

theorem asciiBytes_high {b : UInt8} (high : 0x80 ≤ b) (rest : List UInt8) :
    asciiBytes (b :: rest) = asciiBytes rest := by
  rw [asciiBytes_cons, if_neg (UInt8.not_lt.mpr high), Nat.add_zero]

/-- What is read first: a character below 128 takes its one byte, any other none below 128. -/
def KeepsAscii (bytes : List UInt8) (read : Char × List UInt8) : Prop :=
  asciiBytes read.2 + (if read.1.toNat < 0x80 then 1 else 0) = asciiBytes bytes

theorem keepsAscii_replacement {bytes rest : List UInt8}
    (same : asciiBytes rest = asciiBytes bytes) :
    KeepsAscii bytes (replacementCharacter, rest) := by
  have high : ¬replacementCharacter.toNat < 0x80 := by decide
  show asciiBytes rest + (if replacementCharacter.toNat < 0x80 then 1 else 0) = _
  rw [if_neg high, same]
  rfl

theorem keepsAscii_scalar {bytes rest : List UInt8} {lead : Nat} {more : List UInt8} {n : Nat}
    (value : more.foldl (fun v b => v * 64 + b.toNat % 64) lead = n) (high : 0x80 ≤ n)
    (valid : n < 0xD800 ∨ (0xDFFF < n ∧ n < 0x110000))
    (same : asciiBytes rest = asciiBytes bytes) : KeepsAscii bytes (scalar lead more, rest) := by
  have code : (Char.ofNat n).toNat = n := by
    rw [Char.ofNat, dif_pos valid]
    rfl
  have large : ¬(scalar lead more).toNat < 0x80 := by
    rw [scalar, value, code]
    omega
  show asciiBytes rest + (if (scalar lead more).toNat < 0x80 then 1 else 0) = _
  rw [if_neg large, same]
  rfl

theorem isContinuation_iff (b : UInt8) :
    isContinuation b = true ↔ 0x80 ≤ b.toNat ∧ b.toNat ≤ 0xBF := by
  simp [isContinuation, UInt8.le_iff_toNat_le]

theorem secondOfThree_iff (lead b : UInt8) : secondOfThree lead b = true ↔
    0x80 ≤ b.toNat ∧ b.toNat ≤ 0xBF ∧ (lead.toNat = 0xE0 → 0xA0 ≤ b.toNat) ∧
      (lead.toNat = 0xED → b.toNat ≤ 0x9F) := by
  simp only [secondOfThree, ← UInt8.toNat_inj]
  split
  · next first =>
    simp only [Bool.and_eq_true, decide_eq_true_eq, UInt8.le_iff_toNat_le]
    simp at first ⊢
    omega
  · next other =>
    split
    · next last =>
      simp only [Bool.and_eq_true, decide_eq_true_eq, UInt8.le_iff_toNat_le]
      simp at other last ⊢
      omega
    · next neither =>
      rw [isContinuation_iff]
      simp at other neither
      omega

theorem secondOfFour_iff (lead b : UInt8) : secondOfFour lead b = true ↔
    0x80 ≤ b.toNat ∧ b.toNat ≤ 0xBF ∧ (lead.toNat = 0xF0 → 0x90 ≤ b.toNat) ∧
      (lead.toNat = 0xF4 → b.toNat ≤ 0x8F) := by
  simp only [secondOfFour, ← UInt8.toNat_inj]
  split
  · next first =>
    simp only [Bool.and_eq_true, decide_eq_true_eq, UInt8.le_iff_toNat_le]
    simp at first ⊢
    omega
  · next other =>
    split
    · next last =>
      simp only [Bool.and_eq_true, decide_eq_true_eq, UInt8.le_iff_toNat_le]
      simp at other last ⊢
      omega
    · next neither =>
      rw [isContinuation_iff]
      simp at other neither
      omega

theorem decodeFirst_keepsAscii (lead : UInt8) (rest : List UInt8) :
    KeepsAscii (lead :: rest) (decodeFirst lead rest) := by
  have range := lead.toNat_lt
  by_cases ascii : lead < 0x80
  · have code : (Char.ofNat lead.toNat).toNat = lead.toNat := by
      rw [Char.ofNat, dif_pos (.inl (by omega))]
      rfl
    have small : (Char.ofNat lead.toNat).toNat < 0x80 := by
      rw [code]
      exact UInt8.lt_iff_toNat_lt.mp ascii
    unfold decodeFirst
    rw [if_pos ascii, KeepsAscii, asciiBytes_cons, if_pos ascii]
    exact congrArg (asciiBytes rest + ·) (if_pos small)
  have high : 0x80 ≤ lead := UInt8.not_lt.mp ascii
  have skipped := asciiBytes_high high rest
  have follows {b : UInt8} (continued : 0x80 ≤ b.toNat) (more : List UInt8) :
      asciiBytes (b :: more) = asciiBytes more :=
    asciiBytes_high (UInt8.le_iff_toNat_le.mpr (by simpa using continued)) more
  unfold decodeFirst
  rw [if_neg ascii]
  split
  · next two =>
    simp only [Bool.and_eq_true, decide_eq_true_eq, UInt8.le_iff_toNat_le] at two
    simp at two
    cases rest with
    | nil => exact keepsAscii_replacement skipped.symm
    | cons a more =>
      by_cases second : isContinuation a = true
      · obtain ⟨low, up⟩ := (isContinuation_iff a).mp second
        rw [follows low] at skipped
        simp only [second, if_true]
        exact keepsAscii_scalar rfl (by simp; omega) (by simp; omega) skipped.symm
      · simp only [second, Bool.false_eq_true, if_false]
        exact keepsAscii_replacement skipped.symm
  split
  · next three =>
    simp only [Bool.and_eq_true, decide_eq_true_eq, UInt8.le_iff_toNat_le] at three
    simp at three
    cases rest with
    | nil => exact keepsAscii_replacement skipped.symm
    | cons a more =>
      by_cases second : secondOfThree lead a = true
      · obtain ⟨low, up, first, last⟩ := (secondOfThree_iff lead a).mp second
        rw [follows low] at skipped
        simp only [second, if_true]
        cases more with
        | nil => exact keepsAscii_replacement skipped.symm
        | cons b later =>
          by_cases third : isContinuation b = true
          · obtain ⟨low', up'⟩ := (isContinuation_iff b).mp third
            rw [follows low'] at skipped
            simp only [third, if_true]
            exact keepsAscii_scalar rfl (by simp; omega) (by simp; omega) skipped.symm
          · simp only [third, Bool.false_eq_true, if_false]
            exact keepsAscii_replacement skipped.symm
      · simp only [second, Bool.false_eq_true, if_false]
        exact keepsAscii_replacement skipped.symm
  split
  · next four =>
    simp only [Bool.and_eq_true, decide_eq_true_eq, UInt8.le_iff_toNat_le] at four
    simp at four
    cases rest with
    | nil => exact keepsAscii_replacement skipped.symm
    | cons a more =>
      by_cases second : secondOfFour lead a = true
      · obtain ⟨low, up, first, last⟩ := (secondOfFour_iff lead a).mp second
        rw [follows low] at skipped
        simp only [second, if_true]
        cases more with
        | nil => exact keepsAscii_replacement skipped.symm
        | cons b later =>
          by_cases third : isContinuation b = true
          · obtain ⟨low', up'⟩ := (isContinuation_iff b).mp third
            rw [follows low'] at skipped
            simp only [third, if_true]
            cases later with
            | nil => exact keepsAscii_replacement skipped.symm
            | cons d others =>
              by_cases fourth : isContinuation d = true
              · obtain ⟨low'', up''⟩ := (isContinuation_iff d).mp fourth
                rw [follows low''] at skipped
                simp only [fourth, if_true]
                exact keepsAscii_scalar rfl (by simp; omega) (by simp; omega) skipped.symm
              · simp only [fourth, Bool.false_eq_true, if_false]
                exact keepsAscii_replacement skipped.symm
          · simp only [third, Bool.false_eq_true, if_false]
            exact keepsAscii_replacement skipped.symm
      · simp only [second, Bool.false_eq_true, if_false]
        exact keepsAscii_replacement skipped.symm
  · exact keepsAscii_replacement skipped.symm

theorem decodeFirst_length (lead : UInt8) (rest : List UInt8) :
    (decodeFirst lead rest).2.length ≤ rest.length := by
  unfold decodeFirst
  repeat' split
  all_goals simp only [List.length_cons, List.length_nil]
  all_goals omega

theorem asciiChars_decodeLossy (bytes : List UInt8) {fuel : Nat} (enough : bytes.length ≤ fuel) :
    asciiChars (decodeLossy fuel bytes) = asciiBytes bytes := by
  induction fuel generalizing bytes with
  | zero =>
    rw [List.length_eq_zero_iff.mp (Nat.le_zero.mp enough)]
    rfl
  | succ fuel ih =>
    cases bytes with
    | nil => rfl
    | cons lead rest =>
      have shorter := decodeFirst_length lead rest
      have kept := decodeFirst_keepsAscii lead rest
      rw [List.length_cons] at enough
      rw [KeepsAscii, ← ih (decodeFirst lead rest).2 (by omega)] at kept
      rw [decodeLossy, asciiChars, List.countP_cons]
      simpa [asciiChars] using kept

/-- Lossy decoding neither makes nor loses a character below 128. -/
theorem asciiChars_fromUtf8Lossy (bytes : List UInt8) :
    asciiChars (fromUtf8Lossy bytes) = asciiBytes bytes :=
  asciiChars_decodeLossy bytes (Nat.le_refl _)

theorem asciiBytes_asBytes (s : Str) : asciiBytes (asBytes s) = asciiChars s := by
  rw [← asciiChars_fromUtf8Lossy, fromUtf8Lossy_asBytes]

/-! ### Around a byte below 128 -/

/-- A byte below 128 continues no character: what is read before it does not depend on what
follows. -/
theorem decodeFirst_append {b : UInt8} (ascii : b < 0x80) (lead : UInt8) (before after : List UInt8) :
    decodeFirst lead (before ++ b :: after) =
      ((decodeFirst lead before).1, (decodeFirst lead before).2 ++ b :: after) := by
  have low : b.toNat < 0x80 := UInt8.lt_iff_toNat_lt.mp ascii
  have noContinuation : isContinuation b = false := by
    rw [← Bool.not_eq_true, isContinuation_iff]
    omega
  have noThree : secondOfThree lead b = false := by
    rw [← Bool.not_eq_true, secondOfThree_iff]
    omega
  have noFour : secondOfFour lead b = false := by
    rw [← Bool.not_eq_true, secondOfFour_iff]
    omega
  unfold decodeFirst
  split
  · rfl
  split
  · cases before with
    | nil => simp [noContinuation]
    | cons a more =>
      simp only [List.cons_append]
      split <;> rfl
  split
  · cases before with
    | nil => simp [noThree]
    | cons a more =>
      simp only [List.cons_append]
      split
      · cases more with
        | nil => simp [noContinuation]
        | cons a' more =>
          simp only [List.cons_append]
          split <;> rfl
      · rfl
  split
  · cases before with
    | nil => simp [noFour]
    | cons a more =>
      simp only [List.cons_append]
      split
      · cases more with
        | nil => simp [noContinuation]
        | cons a' more =>
          simp only [List.cons_append]
          split
          · cases more with
            | nil => simp [noContinuation]
            | cons a'' more =>
              simp only [List.cons_append]
              split <;> rfl
          · rfl
      · rfl
  · rfl

theorem decodeLossy_enough {fuel fuel' : Nat} {bytes : List UInt8} (enough : bytes.length ≤ fuel)
    (enough' : bytes.length ≤ fuel') : decodeLossy fuel bytes = decodeLossy fuel' bytes := by
  induction fuel generalizing fuel' bytes with
  | zero =>
    rw [List.eq_nil_of_length_eq_zero (Nat.le_zero.mp enough)]
    cases fuel' <;> rfl
  | succ fuel ih =>
    cases bytes with
    | nil => cases fuel' <;> rfl
    | cons lead rest =>
      rw [List.length_cons] at enough enough'
      have shorter := decodeFirst_length lead rest
      cases fuel' with
      | zero => omega
      | succ fuel' =>
        show (decodeFirst lead rest).1 :: decodeLossy fuel (decodeFirst lead rest).2 =
          (decodeFirst lead rest).1 :: decodeLossy fuel' (decodeFirst lead rest).2
        rw [@ih fuel' (decodeFirst lead rest).2 (by omega) (by omega)]

theorem fromUtf8Lossy_cons (lead : UInt8) (rest : List UInt8) :
    fromUtf8Lossy (lead :: rest) =
      (decodeFirst lead rest).1 :: fromUtf8Lossy (decodeFirst lead rest).2 := by
  show (decodeFirst lead rest).1 :: decodeLossy rest.length (decodeFirst lead rest).2 = _
  rw [decodeLossy_enough (decodeFirst_length lead rest) (Nat.le_refl _)]
  rfl

/-- A byte below 128 is decoded on its own, and so is what stands on each side of it. -/
theorem fromUtf8Lossy_append {b : UInt8} (ascii : b < 0x80) (before after : List UInt8) :
    fromUtf8Lossy (before ++ b :: after) =
      fromUtf8Lossy before ++ Char.ofNat b.toNat :: fromUtf8Lossy after := by
  induction size : before.length using Nat.strongRecOn generalizing before with
  | ind size' ih =>
    cases before with
    | nil =>
      have first : decodeFirst b after = (Char.ofNat b.toNat, after) := by
        unfold decodeFirst
        rw [if_pos ascii]
        rfl
      rw [List.nil_append, fromUtf8Lossy_cons, first]
      rfl
    | cons lead rest =>
      rw [List.cons_append, fromUtf8Lossy_cons, fromUtf8Lossy_cons, decodeFirst_append ascii]
      have shorter := decodeFirst_length lead rest
      rw [List.length_cons] at size
      rw [ih _ (by omega) _ rfl]
      rfl

/-- A character below 128 stands in the decoded text only where its byte does in the bytes. -/
theorem mem_of_mem_fromUtf8Lossy {c : Char} (ascii : c.toNat < 0x80) {bytes : List UInt8}
    (member : c ∈ fromUtf8Lossy bytes) : UInt8.ofNat c.toNat ∈ bytes := by
  induction size : bytes.length using Nat.strongRecOn generalizing bytes with
  | ind size' ih =>
    by_cases high : ∃ b ∈ bytes, b < 0x80
    · obtain ⟨b, inside, low⟩ := high
      obtain ⟨before, after, rfl⟩ := List.append_of_mem inside
      rw [fromUtf8Lossy_append low, List.mem_append, List.mem_cons] at member
      rw [List.mem_append, List.mem_cons]
      rw [List.length_append, List.length_cons] at size
      obtain first | rfl | last := member
      · exact .inl (ih before.length (by omega) first rfl)
      · have code : (Char.ofNat b.toNat).toNat = b.toNat := by
          have small : b.toNat < 0x80 := UInt8.lt_iff_toNat_lt.mp low
          rw [Char.ofNat, dif_pos (.inl (by omega))]
          rfl
        rw [code, UInt8.ofNat_toNat]
        exact .inr (.inl rfl)
      · exact .inr (.inr (ih after.length (by omega) last rfl))
    · have none : asciiBytes bytes = 0 := by
        rw [asciiBytes, List.countP_eq_zero]
        exact fun b inside low => high ⟨b, inside, by simpa using low⟩
      rw [← asciiChars_fromUtf8Lossy, asciiChars, List.countP_eq_zero] at none
      exact absurd (none c member) (by simpa using ascii)

end Expresso.Text
