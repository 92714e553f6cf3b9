import Expresso.Text.Utf8

/-! The operations of Rust's `str` that the modelled code uses. Positions and lengths
are in bytes of the UTF-8 encoding, as in Rust. -/

namespace Expresso

/-- Why a Rust function did not return. -/
inductive Panic where
  /-- a byte index inside a character -/
  | charBoundary
  /-- integer overflow, with overflow checks on -/
  | overflow
  /-- a date or date-time outside the representable range -/
  | dateRange
  deriving DecidableEq

namespace Text

/-- The Unicode `White_Space` property. -/
def isWhitespace (c : Char) : Bool :=
  let n := c.toNat
  (0x09 ≤ n && n ≤ 0x0D) || n = 0x20 || n = 0x85 || n = 0xA0 || n = 0x1680 ||
    (0x2000 ≤ n && n ≤ 0x200A) || n = 0x2028 || n = 0x2029 || n = 0x202F || n = 0x205F ||
    n = 0x3000

def trimStart (s : Str) : Str := s.dropWhile isWhitespace
def trimEnd (s : Str) : Str := (s.reverse.dropWhile isWhitespace).reverse
def trim (s : Str) : Str := trimEnd (trimStart s)

def toAsciiUppercase (s : Str) : Str := s.map Char.toUpper
def toAsciiLowercase (s : Str) : Str := s.map Char.toLower

/-- `str::len`, the number of bytes. -/
def len (s : Str) : Nat := (s.map Char.utf8Size).sum

/-- A text of lines that end in a line feed. -/
def textOf (lines : List String) : Str := lines.flatMap fun line => line.toList ++ ['\n']

/-- The pieces between separators: always at least one. -/
def split (separator : Char) : Str → List Str
  | [] => [[]]
  | c :: rest =>
      if c = separator then [] :: split separator rest
      else match split separator rest with
        | [] => [[c]]
        | piece :: pieces => (c :: piece) :: pieces

example : split ',' "a,b".toList = ["a".toList, "b".toList] := by simp [split]

def splitOnce (separator : Char) : Str → Option (Str × Str)
  | [] => none
  | c :: rest =>
      if c = separator then some ([], rest)
      else (splitOnce separator rest).map fun halves => (c :: halves.1, halves.2)

example : splitOnce ',' "a,b".toList = some (['a'], ['b']) := by simp [splitOnce]

def stripPrefix (text : Str) : Str → Option Str
  | s => if text.isPrefixOf s then some (s.drop text.length) else none

def stripSuffix (text : Str) : Str → Option Str
  | s => if text.isSuffixOf s then some (s.take (s.length - text.length)) else none

/-- `str::split_at`: a byte index that is not on a character boundary panics. -/
def splitAt (index : Nat) : Str → Except Panic (Str × Str)
  | [] => if index = 0 then .ok ([], []) else .error .charBoundary
  | c :: rest =>
      if index = 0 then .ok ([], c :: rest)
      else if c.utf8Size ≤ index then do
        let (before, after) ← splitAt (index - c.utf8Size) rest
        .ok (c :: before, after)
      else .error .charBoundary

def digitValue (c : Char) : Option Nat :=
  if '0' ≤ c ∧ c ≤ '9' then some (c.toNat - 48) else none

def digitsFrom : Nat → Str → Option Nat
  | value, [] => some value
  | value, c :: rest =>
      match digitValue c with
      | none => none
      | some digit => digitsFrom (10 * value + digit) rest

/-- A non-empty run of decimal digits. -/
def digits : Str → Option Nat
  | [] => none
  | s => digitsFrom 0 s

/-- `str::parse` for an unsigned integer type with the given greatest value. -/
def parseUnsigned (max : Nat) (s : Str) : Option Nat :=
  let value := match s with
    | '+' :: rest => digits rest
    | s => digits s
  value.bind fun n => if n ≤ max then some n else none

/-- `str::parse` for a signed integer type with the given range. -/
def parseSigned (min max : Int) (s : Str) : Option Int :=
  let value : Option Int := match s with
    | '+' :: rest => (digits rest).map Int.ofNat
    | '-' :: rest => (digits rest).map fun n => -(n : Int)
    | s => (digits s).map Int.ofNat
  value.bind fun n => if min ≤ n ∧ n ≤ max then some n else none

def parseU32 (s : Str) : Option UInt32 := (parseUnsigned (2 ^ 32 - 1) s).map UInt32.ofNat
def parseU8 (s : Str) : Option Nat := parseUnsigned (2 ^ 8 - 1) s
def parseI8 (s : Str) : Option Int := parseSigned (-2 ^ 7) (2 ^ 7 - 1) s
def parseI32 (s : Str) : Option Int := parseSigned (-2 ^ 31) (2 ^ 31 - 1) s
def parseI64 (s : Str) : Option Int := parseSigned (-2 ^ 63) (2 ^ 63 - 1) s

/-- The decimal form of an integer, as `format!` writes it. -/
def display : Int → Str
  | .ofNat n => Nat.toDigits 10 n
  | .negSucc n => '-' :: Nat.toDigits 10 (n + 1)

/-- `{:0width}`: zeros after the sign fill the width. -/
def padded (width : Nat) (n : Int) : Str :=
  let digits := Nat.toDigits 10 n.natAbs
  if n < 0 then '-' :: (List.replicate (width - 1 - digits.length) '0' ++ digits)
  else List.replicate (width - digits.length) '0' ++ digits

theorem splitAt_ok_iff (index : Nat) (s : Str) :
    (∃ halves, splitAt index s = .ok halves) ↔ ∃ before, before <+: s ∧ len before = index := by
  induction s generalizing index with
  | nil =>
    simp only [splitAt]
    split
    · next zero => simp [zero, len]
    · next positive =>
      simp only [reduceCtorEq, exists_false, List.prefix_nil, exists_eq_left, len, List.map_nil,
        List.sum_nil, false_iff]
      omega
  | cons c rest ih =>
    have wide : 0 < c.utf8Size := c.utf8Size_pos
    simp only [splitAt]
    split
    · next zero => exact ⟨fun _ => ⟨[], List.nil_prefix, by simp [len, zero]⟩, fun _ => ⟨_, rfl⟩⟩
    · next positive =>
      have cut : (∃ before, before <+: c :: rest ∧ len before = index) ↔
          c.utf8Size ≤ index ∧ ∃ before, before <+: rest ∧ len before = index - c.utf8Size := by
        constructor
        · rintro ⟨before, cutOff, size⟩
          cases before with
          | nil => exact absurd size.symm positive
          | cons c' before =>
            obtain ⟨rfl, inRest⟩ := List.cons_prefix_cons.mp cutOff
            simp only [len, List.map_cons, List.sum_cons] at size
            exact ⟨by omega, before, inRest, by simp only [len]; omega⟩
        · rintro ⟨fits, before, cutOff, size⟩
          refine ⟨c :: before, List.cons_prefix_cons.mpr ⟨rfl, cutOff⟩, ?_⟩
          simp only [len, List.map_cons, List.sum_cons] at size ⊢
          omega
      rw [cut, ← ih]
      split
      · next fits =>
        simp only [fits, true_and, bind, Except.bind]
        cases splitAt (index - c.utf8Size) rest <;> simp
      · next across => simp [across]

theorem splitAt_eq_ok {index : Nat} {s before after : Str}
    (cut : splitAt index s = .ok (before, after)) : before ++ after = s ∧ len before = index := by
  induction s generalizing index before with
  | nil =>
    rw [splitAt] at cut
    split at cut
    · next zero =>
      cases cut
      exact ⟨rfl, zero.symm⟩
    · cases cut
  | cons c rest ih =>
    rw [splitAt] at cut
    split at cut
    · next zero =>
      cases cut
      exact ⟨rfl, zero.symm⟩
    · split at cut
      · next fits =>
        cases inner : splitAt (index - c.utf8Size) rest with
        | error failure =>
          rw [inner] at cut
          cases cut
        | ok halves =>
          obtain ⟨first, second⟩ := halves
          rw [inner] at cut
          cases cut
          obtain ⟨joined, length⟩ := ih inner
          refine ⟨by rw [List.cons_append, joined], ?_⟩
          simp only [len, List.map_cons, List.sum_cons] at length ⊢
          omega
      · cases cut

theorem utf8Size_toUpper (c : Char) : c.toUpper.utf8Size = c.utf8Size := by
  simp only [Char.toUpper]
  split
  · next lower =>
    obtain ⟨low, high⟩ := lower
    have small : c.utf8Size = 1 := by
      simp only [Char.utf8Size, UInt32.le_iff_toNat_le] at high ⊢
      simp at high ⊢
      omega
    rw [small]
    simp only [Char.utf8Size, UInt32.le_iff_toNat_le, UInt32.toNat_add] at low high ⊢
    simp at low high ⊢
    omega
  · rfl

theorem len_toAsciiUppercase (s : Str) : len (toAsciiUppercase s) = len s := by
  simp only [len, toAsciiUppercase, List.map_map]
  congr 2
  funext c
  exact utf8Size_toUpper c

theorem digitsFrom_eq {s : Str} (decimal : ∀ c ∈ s, c.isDigit) (value : Nat) :
    digitsFrom value s = some (Nat.ofDigitChars 10 s value) := by
  induction s generalizing value with
  | nil => rfl
  | cons c rest ih =>
    have digit : digitValue c = some (c.toNat - 48) := by
      have range := decimal c List.mem_cons_self
      simp only [Char.isDigit, Bool.and_eq_true, decide_eq_true_eq] at range
      exact if_pos ⟨range.1, range.2⟩
    rw [digitsFrom, digit]
    exact ih (fun c' member => decimal c' (List.mem_cons_of_mem c member)) _

theorem digits_toDigits (n : Nat) : digits (Nat.toDigits 10 n) = some n := by
  have decimal : ∀ c ∈ Nat.toDigits 10 n, c.isDigit :=
    fun c => Nat.isDigit_of_mem_toDigits (by decide) (by decide)
  have value := digitsFrom_eq decimal 0
  rw [Nat.ofDigitChars_ten_toDigits] at value
  cases written : Nat.toDigits 10 n with
  | nil => exact absurd written Nat.toDigits_ne_nil
  | cons c rest =>
    rw [written] at value
    exact value

theorem parseSigned_display {min max n : Int} (lower : min ≤ n) (upper : n ≤ max) :
    parseSigned min max (display n) = some n := by
  cases n with
  | ofNat n =>
    have value := digits_toDigits n
    have decimal : ∀ c ∈ Nat.toDigits 10 n, c.isDigit :=
      fun c => Nat.isDigit_of_mem_toDigits (by decide) (by decide)
    simp only [display, parseSigned]
    split
    · next rest written =>
      exact absurd (decimal '+' (written ▸ List.mem_cons_self)) (by decide)
    · next rest written =>
      exact absurd (decimal '-' (written ▸ List.mem_cons_self)) (by decide)
    · rw [value]
      simp only [Option.map_some, Option.bind_some]
      exact if_pos ⟨lower, upper⟩
  | negSucc n =>
    simp only [display, parseSigned, digits_toDigits]
    exact if_pos ⟨lower, upper⟩

theorem parseI64_display {n : Int} (lower : -2 ^ 63 ≤ n) (upper : n < 2 ^ 63) :
    parseI64 (display n) = some n := by
  apply parseSigned_display lower
  omega

/-! ### Numbers of a fixed width -/

theorem padded_ofNat (width n : Nat) :
    padded width (n : Int) =
      List.replicate (width - (Nat.toDigits 10 n).length) '0' ++ Nat.toDigits 10 n := by
  have nonneg : ¬ (n : Int) < 0 := by omega
  simp only [padded, if_neg nonneg, Int.natAbs_natCast]

theorem padded_isDigit (width n : Nat) : ∀ c ∈ padded width (n : Int), c.isDigit := by
  intro c member
  rw [padded_ofNat] at member
  rcases List.mem_append.mp member with zero | digit
  · rw [List.eq_of_mem_replicate zero]
    decide
  · exact Nat.isDigit_of_mem_toDigits (by decide) (by decide) digit

theorem length_padded {width n : Nat} (positive : 0 < width) (small : n < 10 ^ width) :
    (padded width (n : Int)).length = width := by
  have short : (Nat.toDigits 10 n).length ≤ width :=
    (Nat.length_toDigits_le_iff (by decide) positive).mpr small
  rw [padded_ofNat, List.length_append, List.length_replicate]
  omega

theorem digitsFrom_zeros (count : Nat) (s : Str) :
    digitsFrom 0 (List.replicate count '0' ++ s) = digitsFrom 0 s := by
  induction count with
  | zero => rfl
  | succ count ih => exact ih

theorem digits_padded (width n : Nat) : digits (padded width (n : Int)) = some n := by
  have nonempty : ∀ s : Str, s ≠ [] → digits s = digitsFrom 0 s := by
    intro s notNil
    cases s with
    | nil => exact absurd rfl notNil
    | cons c rest => rfl
  have written := digits_toDigits n
  rw [nonempty _ Nat.toDigits_ne_nil] at written
  rw [padded_ofNat, nonempty _ (by simp [Nat.toDigits_ne_nil]), digitsFrom_zeros, written]

end Text
end Expresso
