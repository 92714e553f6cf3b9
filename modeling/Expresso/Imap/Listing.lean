import Expresso.Imap.Folders
import Expresso.Text.Glob
import Expresso.Text.Lossy
import Expresso.Text.Wire

/-! `LIST`: the pattern of a mailbox name. -/

namespace Expresso.Imap
open Text Glob

/-- `u8::to_ascii_lowercase`. -/
def lowerOctet (b : UInt8) : UInt8 := if 65 ≤ b && b ≤ 90 then b + 32 else b

/-- The hierarchy delimiter as the octet that `%` must not cross. -/
def delimiterOctet : UInt8 := 46

/-- `*` tries every rest of the name, `%` every rest up to the next delimiter. -/
def listMatchRecursive : Octets → Octets → Bool
  | name, [] => name.isEmpty
  | name, pc :: pat =>
      if pc = 42 then
        (List.range (name.length + 1)).any fun i => listMatchRecursive (name.drop i) pat
      else if pc = 37 then
        ((List.range (name.length + 1)).takeWhile
          fun i => !(name.take i).contains delimiterOctet).any
            fun i => listMatchRecursive (name.drop i) pat
      else match name with
        | [] => false
        | nc :: name => lowerOctet pc = lowerOctet nc && listMatchRecursive name pat

def listMatches (name pattern : Str) : Bool :=
  if pattern.isEmpty then name.isEmpty
  else listMatchRecursive (asBytes name) (asBytes pattern)

/-- What a character of a pattern stands for, up to what counts as the same character. -/
def Stands (same : Char → Char → Prop) (pc : Char) (piece : Str) : Prop :=
  if pc = '*' then True
  else if pc = '%' then '.' ∉ piece
  else ∃ nc, piece = [nc] ∧ same pc nc

/-- `eq_ignore_ascii_case` on characters. -/
def EqIgnoreAsciiCase (c d : Char) : Prop := c.toLower = d.toLower

/-! ### On octets -/

def StandsOctet (pc : UInt8) (piece : Octets) : Prop :=
  if pc = 42 then True
  else if pc = 37 then delimiterOctet ∉ piece
  else ∃ nc, piece = [nc] ∧ lowerOctet pc = lowerOctet nc

theorem listMatchRecursive_iff (name pat : Octets) :
    listMatchRecursive name pat = true ↔ Splits StandsOctet pat name := by
  induction pat generalizing name with
  | nil => simp [listMatchRecursive]
  | cons pc pat ih =>
    rw [listMatchRecursive.eq_def, splits_cons]
    dsimp only
    by_cases star : pc = 42
    · rw [if_pos star]
      apply (any_drop_iff (fun rest => listMatchRecursive rest pat) name).trans
      simp only [StandsOctet, if_pos star, ih, true_and]
    rw [if_neg star]
    by_cases percent : pc = 37
    · rw [if_pos percent]
      apply (any_drop_before_iff delimiterOctet
        (fun rest => listMatchRecursive rest pat) name).trans
      simp only [StandsOctet, if_neg star, if_pos percent, ih]
    simp only [if_neg percent, if_neg star, StandsOctet]
    cases name with
    | nil =>
      constructor
      · exact fun matched => absurd matched Bool.false_ne_true
      · rintro ⟨_, rest, ⟨nc, rfl, -⟩, -, same⟩
        cases same
    | cons nc name =>
      simp only [Bool.and_eq_true, decide_eq_true_eq, ih]
      constructor
      · rintro ⟨same, rest⟩
        exact ⟨[nc], name, ⟨nc, rfl, same⟩, rest, rfl⟩
      · rintro ⟨_, rest, ⟨nc', rfl, same⟩, matched, joined⟩
        obtain ⟨rfl, rfl⟩ := List.cons.inj joined
        exact ⟨same, matched⟩

/-! ### Characters and their octets -/

theorem utf8EncodeChar_of_ascii {c : Char} (ascii : c.toNat < 128) :
    String.utf8EncodeChar c = [UInt8.ofNat c.toNat] := by
  have value : c.val.toNat = c.toNat := rfl
  simp [String.utf8EncodeChar, value, Nat.le_of_lt_succ ascii]

/-- The octets of a character outside ASCII: a lead octet and continuations. -/
theorem utf8EncodeChar_of_high {c : Char} (high : 128 ≤ c.toNat) :
    ∃ lead more, String.utf8EncodeChar c = lead :: more ∧ 192 ≤ lead ∧
      ∀ b ∈ more, isContinuation b = true := by
  have lead {base n : Nat} (least : 192 ≤ base) (small : n + base < 256) :
      192 ≤ UInt8.ofNat (n + base) := by
    rw [UInt8.le_iff_toNat_le, ofNat_toNat small]
    exact Nat.le_trans least (Nat.le_add_left base n)
  have continued (n : Nat) : isContinuation (UInt8.ofNat (n % 0x40 + 0x80)) = true :=
    isContinuation_ofNat (Nat.mod_lt n (by decide))
  have one : ¬c.val.toNat ≤ 0x7f := Nat.not_le.mpr high
  have valid := toNat_valid c
  unfold String.utf8EncodeChar
  by_cases two : c.val.toNat ≤ 0x7ff
  · refine ⟨_, _, (if_neg one).trans (if_pos two), lead (by decide) (by omega), ?_⟩
    exact List.forall_mem_singleton.mpr (continued _)
  by_cases three : c.val.toNat ≤ 0xffff
  · refine ⟨_, _, (if_neg one).trans ((if_neg two).trans (if_pos three)),
      lead (by decide) (by omega), ?_⟩
    exact List.forall_mem_cons.mpr ⟨continued _, List.forall_mem_singleton.mpr (continued _)⟩
  · refine ⟨_, _, (if_neg one).trans ((if_neg two).trans (if_neg three)),
      lead (by decide) (by omega), ?_⟩
    exact List.forall_mem_cons.mpr ⟨continued _,
      List.forall_mem_cons.mpr ⟨continued _, List.forall_mem_singleton.mpr (continued _)⟩⟩

theorem isContinuation_bounds {b : UInt8} (continued : isContinuation b = true) :
    128 ≤ b ∧ b < 192 := by
  simp only [isContinuation, Bool.and_eq_true, decide_eq_true_eq,
    UInt8.le_iff_toNat_le] at continued
  rw [UInt8.le_iff_toNat_le, UInt8.lt_iff_toNat_lt]
  exact ⟨continued.1, Nat.lt_succ_of_le continued.2⟩

theorem octets_of_high {c : Char} (high : 128 ≤ c.toNat) :
    ∀ b ∈ String.utf8EncodeChar c, 128 ≤ b := by
  obtain ⟨lead, more, encoded, least, continued⟩ := utf8EncodeChar_of_high high
  rw [encoded]
  exact List.forall_mem_cons.mpr ⟨UInt8.le_trans (by decide) least,
    fun b member => (isContinuation_bounds (continued b member)).1⟩

/-- An encoded text is cut anywhere by taking some of the octets of one of its characters to the
left side. -/
theorem asBytes_cut {before after : Octets} {text : Str} (cut : before ++ after = asBytes text) :
    ∃ left right more, text = left ++ right ∧ asBytes left = before ++ more ∧
      after = more ++ asBytes right ∧ ∀ b ∈ more, isContinuation b = true := by
  induction text generalizing before with
  | nil =>
    obtain ⟨rfl, rfl⟩ := List.append_eq_nil_iff.mp cut
    exact ⟨[], [], [], rfl, rfl, rfl, by simp⟩
  | cons c text ih =>
    cases before with
    | nil => exact ⟨[], c :: text, [], rfl, rfl, cut, by simp⟩
    | cons b before =>
      rw [asBytes_cons, List.append_eq_append_iff] at cut
      obtain ⟨more, encoded, same⟩ | ⟨later, ended, same⟩ := cut
      · refine ⟨[c], text, more, rfl, by rw [asBytes_cons, encoded]; simp, same, ?_⟩
        by_cases ascii : c.toNat < 128
        · rw [utf8EncodeChar_of_ascii ascii] at encoded
          have none := (List.append_eq_nil_iff.mp (List.cons.inj encoded).2.symm).2
          simp [none]
        · obtain ⟨lead, others, octets, -, continued⟩ :=
            utf8EncodeChar_of_high (Nat.not_lt.mp ascii)
          rw [octets] at encoded
          rw [(List.cons.inj encoded).2] at continued
          exact fun b member => continued b (List.mem_append_right _ member)
      · obtain ⟨left, right, more, rfl, taken, kept, continued⟩ := ih same.symm
        exact ⟨c :: left, right, more, rfl, by rw [asBytes_cons, taken, ended, List.append_assoc],
          kept, continued⟩

theorem toNat_toLower (c : Char) :
    c.toLower.toNat = if 65 ≤ c.toNat ∧ c.toNat ≤ 90 then c.toNat + 32 else c.toNat := by
  have bounds : (c.val ≥ 'A'.val ∧ c.val ≤ 'Z'.val) ↔ 65 ≤ c.toNat ∧ c.toNat ≤ 90 := Iff.rfl
  unfold Char.toLower
  by_cases upper : c.val ≥ 'A'.val ∧ c.val ≤ 'Z'.val
  · rw [dif_pos upper, if_pos (bounds.mp upper)]
    show (c.val + ('a'.val - 'A'.val)).toNat = _
    have small := (bounds.mp upper).2
    have step : ('a'.val - 'A'.val).toNat = 32 := by decide
    rw [UInt32.toNat_add, step]
    exact Nat.mod_eq_of_lt (show c.toNat + 32 < 2 ^ 32 by omega)
  · rw [dif_neg upper, if_neg fun range => upper (bounds.mpr range)]

theorem toNat_lowerOctet (b : UInt8) :
    (lowerOctet b).toNat = if 65 ≤ b.toNat ∧ b.toNat ≤ 90 then b.toNat + 32 else b.toNat := by
  have bounds : (65 ≤ b && b ≤ 90) = true ↔ 65 ≤ b.toNat ∧ b.toNat ≤ 90 := by
    rw [Bool.and_eq_true, decide_eq_true_eq, decide_eq_true_eq]
    exact Iff.rfl
  unfold lowerOctet
  by_cases upper : (65 ≤ b && b ≤ 90) = true
  · rw [if_pos upper, if_pos (bounds.mp upper), UInt8.toNat_add]
    have small := (bounds.mp upper).2
    exact Nat.mod_eq_of_lt (show b.toNat + 32 < 2 ^ 8 by omega)
  · rw [if_neg upper, if_neg fun range => upper (bounds.mpr range)]

theorem lowerOctet_eq_iff {c : Char} (ascii : c.toNat < 128) (b : UInt8) :
    lowerOctet (UInt8.ofNat c.toNat) = lowerOctet b ↔
      ∃ d, EqIgnoreAsciiCase c d ∧ String.utf8EncodeChar d = [b] := by
  have value := ofNat_toNat (show c.toNat < 256 by omega)
  constructor
  · intro same
    have small : b.toNat < 128 := by
      have values := congrArg UInt8.toNat same
      rw [toNat_lowerOctet, toNat_lowerOctet, value] at values
      split_ifs at values <;> omega
    have code : (Char.ofNat b.toNat).toNat = b.toNat := by
      unfold Char.ofNat
      rw [dif_pos (Or.inl (by omega) : b.toNat.isValidChar)]
      rfl
    refine ⟨Char.ofNat b.toNat, ?_, ?_⟩
    · rw [EqIgnoreAsciiCase, ← Char.toNat_inj, toNat_toLower, toNat_toLower, code, ← value,
        ← toNat_lowerOctet, ← toNat_lowerOctet, same]
    · rw [utf8EncodeChar_of_ascii (by omega), code, UInt8.ofNat_toNat]
  · rintro ⟨d, same, encoded⟩
    rw [EqIgnoreAsciiCase, ← Char.toNat_inj, toNat_toLower, toNat_toLower] at same
    have small : d.toNat < 128 := by split_ifs at same <;> omega
    rw [utf8EncodeChar_of_ascii small] at encoded
    obtain rfl := (List.cons.inj encoded).1
    rw [← UInt8.toNat_inj, toNat_lowerOctet, toNat_lowerOctet, value,
      ofNat_toNat (show d.toNat < 256 by omega), same]

theorem lowerOctet_eq_iff_of_high {a : UInt8} (high : 128 ≤ a) (b : UInt8) :
    lowerOctet a = lowerOctet b ↔ a = b := by
  have least : 128 ≤ a.toNat := high
  rw [← UInt8.toNat_inj, toNat_lowerOctet, toNat_lowerOctet, ← UInt8.toNat_inj]
  constructor <;> intro same <;> split_ifs at same ⊢ <;> omega

theorem eqIgnoreAsciiCase_of_high {c d : Char} (high : 128 ≤ c.toNat) :
    EqIgnoreAsciiCase c d ↔ c = d := by
  rw [EqIgnoreAsciiCase, ← Char.toNat_inj, toNat_toLower, toNat_toLower, ← Char.toNat_inj]
  constructor <;> intro same <;> split_ifs at same ⊢ <;> omega

/-! ### The pattern on characters -/

theorem lead_not_continuation {c : Char} {lead : UInt8} {more : Octets}
    (encoded : String.utf8EncodeChar c = lead :: more) : isContinuation lead = false := by
  rw [← Bool.not_eq_true]
  intro continued
  obtain ⟨least, below⟩ := isContinuation_bounds continued
  by_cases ascii : c.toNat < 128
  · rw [utf8EncodeChar_of_ascii ascii] at encoded
    rw [← (List.cons.inj encoded).1, UInt8.le_iff_toNat_le, ofNat_toNat (by omega)] at least
    exact absurd least (Nat.not_le.mpr ascii)
  · obtain ⟨lead', _, octets, high, -⟩ := utf8EncodeChar_of_high (Nat.not_lt.mp ascii)
    rw [octets] at encoded
    rw [(List.cons.inj encoded).1] at high
    exact absurd below (UInt8.not_lt.mpr high)

/-- A character that is no wildcard stands for the same character, up to the case of a letter. -/
theorem splits_utf8EncodeChar {c : Char} (star : c ≠ '*') (percent : c ≠ '%') {piece : Octets} :
    Splits StandsOctet (String.utf8EncodeChar c) piece ↔
      ∃ d, EqIgnoreAsciiCase c d ∧ String.utf8EncodeChar d = piece := by
  have letters : ∀ octet ∈ String.utf8EncodeChar c, ∀ piece, StandsOctet octet piece ↔
      ∃ b, piece = [b] ∧ lowerOctet octet = lowerOctet b := by
    intro octet member piece
    have other : octet ≠ 42 ∧ octet ≠ 37 := by
      by_cases ascii : c.toNat < 128
      · rw [utf8EncodeChar_of_ascii ascii, List.mem_singleton] at member
        rw [member, ne_eq, ne_eq, ← UInt8.toNat_inj, ← UInt8.toNat_inj, ofNat_toNat (by omega)]
        exact ⟨fun same => star (Char.toNat_inj.mp same),
          fun same => percent (Char.toNat_inj.mp same)⟩
      · have high := octets_of_high (Nat.not_lt.mp ascii) octet member
        constructor <;> rintro rfl <;> exact absurd high (by decide)
    rw [StandsOctet, if_neg other.1, if_neg other.2]
  rw [splits_letters letters]
  by_cases ascii : c.toNat < 128
  · rw [utf8EncodeChar_of_ascii ascii]
    constructor
    · intro all
      cases all with
      | cons first none =>
        cases none
        exact (lowerOctet_eq_iff ascii _).mp first
    · rintro ⟨d, same, rfl⟩
      have low : d.toNat < 128 := by
        rw [EqIgnoreAsciiCase, ← Char.toNat_inj, toNat_toLower, toNat_toLower] at same
        split_ifs at same <;> omega
      rw [utf8EncodeChar_of_ascii low]
      exact .cons ((lowerOctet_eq_iff ascii _).mpr ⟨d, same, utf8EncodeChar_of_ascii low⟩) .nil
  · have high := octets_of_high (Nat.not_lt.mp ascii)
    have exactly : List.Forall₂ (fun octet b => lowerOctet octet = lowerOctet b)
        (String.utf8EncodeChar c) piece ↔ String.utf8EncodeChar c = piece := by
      rw [← List.forall₂_eq_eq_eq]
      exact ⟨fun all => ((List.forall₂_and_left _ _).mpr ⟨high, all⟩).imp fun a b both =>
          (lowerOctet_eq_iff_of_high both.1 b).mp both.2,
        fun all => all.imp fun a b same => congrArg lowerOctet same⟩
    simp only [exactly, eqIgnoreAsciiCase_of_high (Nat.not_lt.mp ascii), exists_eq_left']

theorem asBytes_eq_append {c : Char} {text : Str} {rest : Octets}
    (same : asBytes text = String.utf8EncodeChar c ++ rest) :
    ∃ others, text = c :: others ∧ rest = asBytes others := by
  obtain ⟨lead, more, encoded, read⟩ := decodeFirst_encode c rest
  rw [encoded, List.cons_append] at same
  cases text with
  | nil => cases same
  | cons d others =>
    obtain ⟨lead', more', encoded', read'⟩ := decodeFirst_encode d (asBytes others)
    rw [asBytes_cons, encoded', List.cons_append] at same
    obtain ⟨rfl, tail⟩ := List.cons.inj same
    rw [tail, read] at read'
    obtain ⟨rfl, rfl⟩ := Prod.mk.inj read'
    exact ⟨others, rfl, rfl⟩

/-- `asBytes_cut` where the octets begin inside a character. -/
theorem continued_cut {more before after : Octets} {text : Str}
    (continued : ∀ b ∈ more, isContinuation b = true)
    (cut : before ++ after = more ++ asBytes text) :
    ∃ left right more', text = left ++ right ∧ more ++ asBytes left = before ++ more' ∧
      after = more' ++ asBytes right ∧ ∀ b ∈ more', isContinuation b = true := by
  rw [List.append_eq_append_iff] at cut
  obtain ⟨later, rfl, rfl⟩ | ⟨first, rfl, same⟩ := cut
  · exact ⟨[], text, later, rfl, by simp, rfl,
      fun b member => continued b (List.mem_append_right _ member)⟩
  · obtain ⟨left, right, more', rfl, taken, rfl, continued'⟩ := asBytes_cut same.symm
    exact ⟨left, right, more', rfl, by rw [taken, List.append_assoc], rfl, continued'⟩

/-- The octets of a name are cut along the octets of a pattern only where the characters of the
name are cut along the pattern. Inside a character of the name only wildcards can begin. -/
theorem splits_of_octets {pattern name : Str} {more : Octets}
    (continued : ∀ b ∈ more, isContinuation b = true)
    (matched : Splits StandsOctet (asBytes pattern) (more ++ asBytes name)) :
    Splits (Stands EqIgnoreAsciiCase) pattern name := by
  induction pattern generalizing more name with
  | nil =>
    have none := (List.append_eq_nil_iff.mp (splits_nil.mp matched)).2
    exact splits_nil.mpr (asBytes_injective none)
  | cons c pattern ih =>
    rw [asBytes_cons] at matched
    obtain ⟨before, after, first, others, cut⟩ := splits_append.mp matched
    rw [splits_cons]
    by_cases wildcard : c = '*' ∨ c = '%'
    · obtain ⟨left, right, more', rfl, taken, rfl, continued'⟩ := continued_cut continued cut
      refine ⟨left, right, ?_, ih continued' others, rfl⟩
      obtain rfl | rfl := wildcard
      · exact trivial
      · obtain ⟨_, _, apart, none, rfl⟩ := splits_cons.mp first
        rw [splits_nil.mp none, List.append_nil] at taken
        intro member
        have inside : delimiterOctet ∈ more ++ asBytes left :=
          List.mem_append_right _ (List.mem_flatMap.mpr ⟨'.', member, by decide⟩)
        rw [taken] at inside
        obtain inPiece | inMore := List.mem_append.mp inside
        · exact apart inPiece
        · exact absurd (continued' _ inMore) (by decide)
    · obtain ⟨star, percent⟩ := not_or.mp wildcard
      obtain ⟨d, same, rfl⟩ := (splits_utf8EncodeChar star percent).mp first
      have aligned : more = [] := by
        cases more with
        | nil => rfl
        | cons b more =>
          obtain ⟨lead, others, encoded, -⟩ := decodeFirst_encode d []
          rw [encoded, List.cons_append, List.cons_append] at cut
          have plain := lead_not_continuation encoded
          rw [(List.cons.inj cut).1, continued b List.mem_cons_self] at plain
          exact absurd plain.symm Bool.false_ne_true
      subst aligned
      obtain ⟨rest, rfl, rfl⟩ := asBytes_eq_append cut.symm
      refine ⟨[d], rest, ?_, @ih rest [] continued others, rfl⟩
      rw [Stands, if_neg star, if_neg percent]
      exact ⟨d, rfl, same⟩

theorem splits_octets {pattern name : Str}
    (matched : Splits (Stands EqIgnoreAsciiCase) pattern name) :
    Splits StandsOctet (asBytes pattern) (asBytes name) := by
  induction pattern generalizing name with
  | nil => rw [splits_nil.mp matched]; exact splits_nil.mpr rfl
  | cons c pattern ih =>
    obtain ⟨piece, rest, stands, others, rfl⟩ := splits_cons.mp matched
    rw [asBytes_cons, asBytes_append]
    refine splits_append.mpr ⟨_, _, ?_, ih others, rfl⟩
    by_cases star : c = '*'
    · subst star
      exact splits_cons.mpr ⟨asBytes piece, [], trivial, splits_nil.mpr rfl, List.append_nil _⟩
    rw [Stands, if_neg star] at stands
    by_cases percent : c = '%'
    · subst percent
      have apart : delimiterOctet ∉ asBytes piece := fun member =>
        stands (ascii_mem_asBytes (by decide) rfl member)
      exact splits_cons.mpr ⟨asBytes piece, [], apart, splits_nil.mpr rfl, List.append_nil _⟩
    · rw [if_neg percent] at stands
      obtain ⟨d, rfl, same⟩ := stands
      exact (splits_utf8EncodeChar star percent).mpr ⟨d, same, by simp [asBytes]⟩

/-! ### Which names a pattern lists -/

/-- A name is listed if and only if it can be cut along the pattern: `*` takes any text, `%` any
text without the delimiter, and every other character itself or the same letter of ASCII in the
other case. -/
theorem listMatches_iff (name pattern : Str) :
    listMatches name pattern = true ↔ Splits (Stands EqIgnoreAsciiCase) pattern name := by
  unfold listMatches
  cases pattern with
  | nil => simp
  | cons c pattern =>
    rw [if_neg (by simp), listMatchRecursive_iff]
    exact ⟨fun matched => @splits_of_octets _ name [] (by simp) matched, splits_octets⟩

/-- The other case of a letter is not the letter itself. -/
theorem listMatches_other_case :
    listMatches "inbox".toList "INBOX".toList = true ∧
      ¬Splits (Stands (· = ·)) "INBOX".toList "inbox".toList := by
  refine ⟨by decide, fun matched => ?_⟩
  obtain ⟨piece, rest, stands, -, joined⟩ := splits_cons.mp matched
  obtain ⟨_, rfl, rfl⟩ := stands
  exact absurd (List.cons.inj joined).1 (by decide)

end Expresso.Imap
