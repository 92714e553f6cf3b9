import Expresso.Text.Str

/-! Lines of octets: how a reader takes them from a stream, and what of them a decoder keeps. -/

namespace Expresso.Text

abbrev Octets := List UInt8

def wireEnd : Octets := [13, 10]

def withoutReturn (line : Octets) : Octets :=
  if line.getLast? = some 13 then line.dropLast else line

/-- Lines end at a line feed, which is dropped with one carriage return before it. What stands
after the last line feed is a line too. -/
def linesFrom (seen : Octets) : Octets → List Octets
  | [] => if seen = [] then [] else [seen]
  | octet :: rest =>
      if octet = 10 then withoutReturn seen :: linesFrom [] rest
      else linesFrom (seen ++ [octet]) rest

def octetLines (stream : Octets) : List Octets := linesFrom [] stream

@[simp] theorem octetLines_nil : octetLines [] = [] := rfl

theorem withoutReturn_append (line : Octets) : withoutReturn (line ++ [13]) = line := by
  simp [withoutReturn]

theorem linesFrom_line (seen line rest : Octets) (inside : 10 ∉ line) :
    linesFrom seen (line ++ wireEnd ++ rest) = (seen ++ line) :: octetLines rest := by
  induction line generalizing seen with
  | nil => simp [linesFrom, wireEnd, withoutReturn_append, octetLines]
  | cons octet line ih =>
    have other : octet ≠ 10 := fun same => inside (same ▸ List.mem_cons_self)
    have later : 10 ∉ line := fun member => inside (List.mem_cons_of_mem _ member)
    rw [List.cons_append, List.cons_append, linesFrom, if_neg other, ih (seen ++ [octet]) later]
    simp

theorem octetLines_line (line rest : Octets) (inside : 10 ∉ line) :
    octetLines (line ++ wireEnd ++ rest) = line :: octetLines rest :=
  linesFrom_line [] line rest inside

theorem octetLines_lines (lines : List Octets) (rest : Octets) (inside : ∀ line ∈ lines, 10 ∉ line) :
    octetLines (lines.flatMap (· ++ wireEnd) ++ rest) = lines ++ octetLines rest := by
  induction lines with
  | nil => rfl
  | cons line lines ih =>
    rw [List.flatMap_cons, List.append_assoc,
      octetLines_line line _ (inside line List.mem_cons_self),
      ih fun other member => inside other (List.mem_cons_of_mem _ member), List.cons_append]

/-! ### Lines with their ends -/

/-- The stream cut after each line feed. -/
def wireLinesFrom (seen : Octets) : Octets → List Octets
  | [] => if seen = [] then [] else [seen]
  | octet :: rest =>
      if octet = 10 then (seen ++ [octet]) :: wireLinesFrom [] rest
      else wireLinesFrom (seen ++ [octet]) rest

def wireLines (stream : Octets) : List Octets := wireLinesFrom [] stream

/-- One line feed, at the end. -/
def Terminated (line : Octets) : Prop := ∃ inside : Octets, 10 ∉ inside ∧ line = inside ++ [10]

theorem flatten_wireLinesFrom (seen stream : Octets) :
    (wireLinesFrom seen stream).flatten = seen ++ stream := by
  induction stream generalizing seen with
  | nil =>
    unfold wireLinesFrom
    split
    · next none => simp [none]
    · simp
  | cons octet rest ih =>
    unfold wireLinesFrom
    split
    · rw [List.flatten_cons, ih, List.nil_append, List.append_assoc, List.singleton_append]
    · rw [ih, List.append_assoc, List.singleton_append]

theorem flatten_wireLines (stream : Octets) : (wireLines stream).flatten = stream :=
  flatten_wireLinesFrom [] stream

theorem wireLinesFrom_inside (seen inside rest : Octets) (single : 10 ∉ inside) :
    wireLinesFrom seen (inside ++ rest) = wireLinesFrom (seen ++ inside) rest := by
  induction inside generalizing seen with
  | nil => simp
  | cons octet inside ih =>
    have other : octet ≠ 10 := fun same => single (same ▸ List.mem_cons_self)
    have later : 10 ∉ inside := fun member => single (List.mem_cons_of_mem _ member)
    rw [List.cons_append, wireLinesFrom, if_neg other, ih _ later, List.append_assoc,
      List.singleton_append]

theorem wireLines_cons (line rest : Octets) (terminated : Terminated line) :
    wireLines (line ++ rest) = line :: wireLines rest := by
  obtain ⟨inside, single, rfl⟩ := terminated
  rw [wireLines, List.append_assoc, wireLinesFrom_inside [] inside _ single]
  simp [wireLinesFrom, wireLines]

theorem wireLines_append (lines : List Octets) (rest : Octets)
    (terminated : ∀ line ∈ lines, Terminated line) :
    wireLines (lines.flatten ++ rest) = lines ++ wireLines rest := by
  induction lines with
  | nil => rfl
  | cons line lines ih =>
    rw [List.flatten_cons, List.append_assoc,
      wireLines_cons line _ (terminated line List.mem_cons_self),
      ih fun other member => terminated other (List.mem_cons_of_mem _ member), List.cons_append]

/-- A stream is its terminated lines, and what stands after the last of them. -/
theorem exists_lines (stream : Octets) :
    ∃ (lines : List Octets) (left : Octets), (∀ line ∈ lines, Terminated line) ∧ 10 ∉ left ∧
      stream = lines.flatten ++ left := by
  induction stream with
  | nil => exact ⟨[], [], by simp, by simp, rfl⟩
  | cons octet rest ih =>
    obtain ⟨lines, left, terminated, single, same⟩ := ih
    by_cases feed : octet = 10
    · subst feed
      have empty : Terminated [10] := ⟨[], by simp, rfl⟩
      exact ⟨[10] :: lines, left, List.forall_mem_cons.mpr ⟨empty, terminated⟩, single,
        by rw [same]; rfl⟩
    · cases lines with
      | nil =>
        have longer : 10 ∉ octet :: left := List.not_mem_cons_of_ne_of_not_mem (Ne.symm feed) single
        exact ⟨[], octet :: left, by simp, longer, by rw [same]; rfl⟩
      | cons line lines =>
        obtain ⟨⟨inside, alone, rfl⟩, others⟩ := List.forall_mem_cons.mp terminated
        have first : Terminated (octet :: (inside ++ [10])) :=
          ⟨octet :: inside, List.not_mem_cons_of_ne_of_not_mem (Ne.symm feed) alone, rfl⟩
        exact ⟨(octet :: (inside ++ [10])) :: lines, left,
          List.forall_mem_cons.mpr ⟨first, others⟩, single, by rw [same]; rfl⟩

/-! ### Texts as octets -/

@[simp] theorem asBytes_nil : asBytes [] = [] := rfl

theorem asBytes_append (first second : Str) :
    asBytes (first ++ second) = asBytes first ++ asBytes second := by
  simp [asBytes]

theorem asBytes_cons (c : Char) (text : Str) :
    asBytes (c :: text) = String.utf8EncodeChar c ++ asBytes text := by
  simp [asBytes]

theorem length_asBytes (text : Str) : (asBytes text).length = len text := by
  simp [asBytes, len, List.length_flatMap]

theorem asBytes_injective {first second : Str} (same : asBytes first = asBytes second) :
    first = second := by
  have decoded := congrArg fromUtf8 same
  rw [fromUtf8_asBytes, fromUtf8_asBytes] at decoded
  exact Option.some.inj decoded

theorem fromUtf8_eq_some_iff {octets : Octets} {text : Str} :
    fromUtf8 octets = some text ↔ asBytes text = octets := by
  constructor
  · exact asBytes_of_fromUtf8
  · rintro rfl
    exact fromUtf8_asBytes text

theorem fromUtf8_eq_none_iff {octets : Octets} :
    fromUtf8 octets = none ↔ ∀ text, asBytes text ≠ octets := by
  rw [Option.eq_none_iff_forall_ne_some]
  exact forall_congr' fun text => not_congr fromUtf8_eq_some_iff

/-- An octet of ASCII at the head of an encoding is all of it. -/
theorem utf8EncodeChar_ascii {c : Char} {octet : UInt8} {rest : Octets}
    (encoded : String.utf8EncodeChar c = octet :: rest) (ascii : octet < 128) :
    rest = [] ∧ c.toNat = octet.toNat := by
  have small : octet.toNat < 128 := ascii
  have point : c.val.toNat = c.toNat := rfl
  simp only [String.utf8EncodeChar] at encoded
  split_ifs at encoded with one two three
  all_goals
    obtain ⟨rfl, rfl⟩ := List.cons.inj encoded
    simp only [UInt8.toNat_ofNat'] at small
  · exact ⟨rfl, by simp only [UInt8.toNat_ofNat']; omega⟩
  all_goals omega

/-- An octet of ASCII stands only for its own character. -/
theorem ascii_mem_asBytes {octet : UInt8} {c : Char} (ascii : octet < 128)
    (code : c.toNat = octet.toNat) {text : Str} (member : octet ∈ asBytes text) : c ∈ text := by
  obtain ⟨other, inside, encoded⟩ := List.mem_flatMap.mp member
  have small : octet.toNat < 128 := ascii
  suffices same : other.toNat = octet.toNat by
    rwa [Char.toNat_inj.mp (code.trans same.symm)]
  have point : other.val.toNat = other.toNat := rfl
  simp only [String.utf8EncodeChar] at encoded
  split_ifs at encoded with one two three
  all_goals
    simp only [List.mem_cons, List.not_mem_nil, or_false] at encoded
  · rw [encoded, UInt8.toNat_ofNat']
    omega
  · obtain rfl | rfl := encoded
    all_goals
      simp only [UInt8.toNat_ofNat'] at small
      omega
  · obtain rfl | rfl | rfl := encoded
    all_goals
      simp only [UInt8.toNat_ofNat'] at small
      omega
  · obtain rfl | rfl | rfl | rfl := encoded
    all_goals
      simp only [UInt8.toNat_ofNat'] at small
      omega

/-- A text is preceded by a character of ASCII if and only if its octets are by that octet. -/
theorem asBytes_ascii_cons {octet : UInt8} {c : Char} (ascii : octet < 128)
    (code : c.toNat = octet.toNat) (line : Octets) (text : Str) :
    asBytes text = octet :: line ↔ ∃ rest, text = c :: rest ∧ asBytes rest = line := by
  have single : String.utf8EncodeChar c = [octet] := by
    have value : c.val.toNat = octet.toNat := code
    have small : octet.toNat ≤ 127 := Nat.le_of_lt_succ ascii
    simp [String.utf8EncodeChar, value, Nat.not_lt.mpr small]
  constructor
  · intro encoded
    cases text with
    | nil => cases encoded
    | cons first rest =>
      rw [asBytes_cons] at encoded
      cases head : String.utf8EncodeChar first with
      | nil =>
        have size := congrArg List.length head
        rw [String.length_utf8EncodeChar] at size
        exact absurd size (Nat.ne_of_gt first.utf8Size_pos)
      | cons octet' more =>
        rw [head, List.cons_append] at encoded
        obtain ⟨rfl, tail⟩ := List.cons.inj encoded
        obtain ⟨rfl, same⟩ := utf8EncodeChar_ascii head ascii
        exact ⟨rest, by rw [Char.toNat_inj.mp (same.trans code.symm)], tail⟩
  · rintro ⟨rest, rfl, rfl⟩
    rw [asBytes_cons, single, List.singleton_append]

end Expresso.Text
