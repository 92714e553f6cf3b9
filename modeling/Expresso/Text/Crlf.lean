import Expresso.Text.Wire

/-! Lines that end in CRLF and in nothing else, and texts in which every line end is written so. -/

namespace Expresso.Text

/-! ### A strict reader -/

/-- The lines that are complete. A lone carriage return or line feed is part of its line. -/
def crlfLinesFrom (seen : Octets) : Octets → List Octets
  | 13 :: 10 :: rest => seen :: crlfLinesFrom [] rest
  | octet :: rest => crlfLinesFrom (seen ++ [octet]) rest
  | [] => []

def crlfLines (stream : Octets) : List Octets := crlfLinesFrom [] stream

example : crlfLines [97, 13, 10, 98] = [[97]] := by simp [crlfLines, crlfLinesFrom]

/-- A text that is one line to such a reader. -/
@[reducible]
def Unbroken (line : Octets) : Prop := ¬wireEnd <:+: line

theorem crlfLinesFrom_cons (seen : Octets) {octet : UInt8} {rest : Octets}
    (inside : octet = 13 → rest.head? ≠ some 10) :
    crlfLinesFrom seen (octet :: rest) = crlfLinesFrom (seen ++ [octet]) rest := by
  rw [crlfLinesFrom]
  rintro tail rfl rfl
  exact inside rfl rfl

theorem Unbroken.tail {octet : UInt8} {line : Octets} (unbroken : Unbroken (octet :: line)) :
    Unbroken line := fun broken => unbroken (broken.trans (List.suffix_cons octet line).isInfix)

theorem Unbroken.head {octet : UInt8} {line : Octets} (unbroken : Unbroken (octet :: line)) :
    octet = 13 → line.head? ≠ some 10 := by
  rintro rfl feed
  obtain ⟨rest, rfl⟩ := List.head?_eq_some_iff.mp feed
  exact unbroken ⟨[], rest, rfl⟩

theorem crlfLinesFrom_line (seen : Octets) {line : Octets} (unbroken : Unbroken line)
    (rest : Octets) :
    crlfLinesFrom seen (line ++ wireEnd ++ rest) = (seen ++ line) :: crlfLines rest := by
  induction line generalizing seen with
  | nil => simp [wireEnd, crlfLinesFrom, crlfLines]
  | cons octet line ih =>
    have inside : octet = 13 → (line ++ wireEnd ++ rest).head? ≠ some 10 := by
      intro return'
      cases line with
      | nil => exact fun feed => absurd (Option.some.inj feed) (by decide)
      | cons next line => exact unbroken.head return'
    rw [List.cons_append, List.cons_append, crlfLinesFrom_cons seen inside, ih _ unbroken.tail,
      List.append_assoc, List.singleton_append]

theorem crlfLines_line {line : Octets} (unbroken : Unbroken line) (rest : Octets) :
    crlfLines (line ++ wireEnd ++ rest) = line :: crlfLines rest :=
  crlfLinesFrom_line [] unbroken rest

theorem crlfLines_lines {lines : List Octets} (unbroken : ∀ line ∈ lines, Unbroken line)
    (rest : Octets) :
    crlfLines (lines.flatMap (· ++ wireEnd) ++ rest) = lines ++ crlfLines rest := by
  induction lines with
  | nil => rfl
  | cons line lines ih =>
    rw [List.flatMap_cons, List.append_assoc,
      crlfLines_line (unbroken line List.mem_cons_self),
      ih fun other member => unbroken other (List.mem_cons_of_mem _ member), List.cons_append]

/-- A text that is more than one line has a first one. -/
theorem exists_first {text : Octets} (broken : wireEnd <:+: text) :
    ∃ first rest, Unbroken first ∧ text = first ++ wireEnd ++ rest := by
  induction text with
  | nil => exact absurd broken (by decide)
  | cons octet text ih =>
    by_cases here : wireEnd <+: octet :: text
    · obtain ⟨rest, same⟩ := here
      exact ⟨[], rest, by decide, same.symm⟩
    · have later : wireEnd <:+: text := (List.infix_cons_iff.mp broken).resolve_left here
      obtain ⟨first, rest, unbroken, same⟩ := ih later
      refine ⟨octet :: first, rest, ?_, by rw [same]; rfl⟩
      intro inside
      rcases List.infix_cons_iff.mp inside with initial | within
      · apply here
        rw [same]
        exact initial.trans ⟨wireEnd ++ rest, by simp⟩
      · exact unbroken within

theorem unbroken_of_not_mem {line : Octets} (inside : 10 ∉ line) : Unbroken line := fun broken =>
  inside (broken.subset (by decide))

theorem pair_infix_append {first second : UInt8} {before : Octets} (absent : first ∉ before)
    (text : Octets) : [first, second] <:+: before ++ text ↔ [first, second] <:+: text := by
  induction before with
  | nil => rfl
  | cons octet before ih =>
    obtain ⟨other, later⟩ := List.ne_and_not_mem_of_not_mem_cons absent
    rw [List.cons_append, List.infix_cons_iff, ih later, or_iff_right]
    intro initial
    exact other (List.cons_prefix_cons.mp initial).1

/-- A line end that is not in what comes before is in the rest. -/
theorem unbroken_append {before : Octets} (absent : 13 ∉ before) (text : Octets) :
    Unbroken (before ++ text) ↔ Unbroken text :=
  not_congr (pair_infix_append absent text)

theorem unbroken_append_right {after : Octets} (absent : 10 ∉ after) (text : Octets) :
    Unbroken (text ++ after) ↔ Unbroken text := by
  apply not_congr
  have turned : wireEnd.reverse <:+: after.reverse ++ text.reverse ↔
      wireEnd.reverse <:+: text.reverse := pair_infix_append (by simpa using absent) text.reverse
  rwa [← List.reverse_append, List.reverse_infix, List.reverse_infix] at turned

/-! ### Line ends made alike -/

/-- Every LF and every CRLF is written as CRLF. -/
def withCrlf : Octets → Octets
  | 13 :: 10 :: rest => 13 :: 10 :: withCrlf rest
  | 10 :: rest => 13 :: 10 :: withCrlf rest
  | octet :: rest => octet :: withCrlf rest
  | [] => []

example : withCrlf [97, 10, 13, 10] = [97, 13, 10, 13, 10] := by simp [withCrlf]

/-- The pieces between the line feeds, without the carriage returns of CRLF. -/
def feedPiecesFrom (seen : Octets) : Octets → List Octets
  | [] => [withoutReturn seen]
  | octet :: rest =>
      if octet = 10 then withoutReturn seen :: feedPiecesFrom [] rest
      else feedPiecesFrom (seen ++ [octet]) rest

def feedPieces (stream : Octets) : List Octets := feedPiecesFrom [] stream

example : feedPieces [97, 10, 98] = [[97], [98]] := by
  simp [feedPieces, feedPiecesFrom, withoutReturn]

theorem feedPiecesFrom_line (seen : Octets) {line : Octets} (inside : 10 ∉ line) (rest : Octets) :
    feedPiecesFrom seen (line ++ 10 :: rest) = withoutReturn (seen ++ line) :: feedPieces rest := by
  induction line generalizing seen with
  | nil => simp [feedPiecesFrom, feedPieces]
  | cons octet line ih =>
    obtain ⟨other, later⟩ := List.ne_and_not_mem_of_not_mem_cons inside
    rw [List.cons_append, feedPiecesFrom, if_neg other.symm, ih _ later, List.append_assoc,
      List.singleton_append]

theorem feedPiecesFrom_last (seen : Octets) {line : Octets} (inside : 10 ∉ line) :
    feedPiecesFrom seen line = [withoutReturn (seen ++ line)] := by
  induction line generalizing seen with
  | nil => simp [feedPiecesFrom]
  | cons octet line ih =>
    obtain ⟨other, later⟩ := List.ne_and_not_mem_of_not_mem_cons inside
    rw [feedPiecesFrom, if_neg other.symm, ih _ later, List.append_assoc, List.singleton_append]

theorem withCrlf_cons {octet : UInt8} {rest : Octets} (other : octet ≠ 10)
    (inside : octet = 13 → rest.head? ≠ some 10) :
    withCrlf (octet :: rest) = octet :: withCrlf rest := by
  rw [withCrlf]
  · rintro tail rfl rfl
    exact inside rfl rfl
  · exact other

theorem withoutReturn_cons {octet : UInt8} {line : Octets} (more : line = [] → octet ≠ 13) :
    withoutReturn (octet :: line) = octet :: withoutReturn line := by
  unfold withoutReturn
  cases line with
  | nil => simp [more rfl]
  | cons next line => simp only [List.getLast?_cons_cons, List.dropLast_cons_cons]; split_ifs <;> rfl

theorem withCrlf_line {line : Octets} (inside : 10 ∉ line) (rest : Octets) :
    withCrlf (line ++ 10 :: rest) = withoutReturn line ++ wireEnd ++ withCrlf rest := by
  induction line with
  | nil => rfl
  | cons octet line ih =>
    obtain ⟨other, later⟩ := List.ne_and_not_mem_of_not_mem_cons inside
    by_cases last : octet = 13 ∧ line = []
    · obtain ⟨rfl, rfl⟩ := last
      rfl
    · have next : octet = 13 → (line ++ 10 :: rest).head? ≠ some 10 := by
        intro return'
        cases line with
        | nil => exact absurd ⟨return', rfl⟩ last
        | cons head line =>
          intro feed
          exact later (Option.some.inj feed ▸ List.mem_cons_self)
      rw [List.cons_append, withCrlf_cons other.symm next, ih later,
        withoutReturn_cons fun empty return' => last ⟨return', empty⟩]
      rfl

theorem withCrlf_last {line : Octets} (inside : 10 ∉ line) : withCrlf line = line := by
  induction line with
  | nil => rfl
  | cons octet line ih =>
    obtain ⟨other, later⟩ := List.ne_and_not_mem_of_not_mem_cons inside
    rw [withCrlf_cons other.symm, ih later]
    intro _ feed
    exact later (List.mem_of_mem_head? feed)

theorem lineFeed_not_mem_withoutReturn {line : Octets} (inside : 10 ∉ line) :
    10 ∉ withoutReturn line := by
  unfold withoutReturn
  split_ifs
  · exact fun member => inside (List.dropLast_subset _ member)
  · exact inside

theorem lineFeed_not_mem_feedPieces (stream : Octets) : ∀ piece ∈ feedPieces stream, 10 ∉ piece := by
  have general (seen : Octets) (before : 10 ∉ seen) :
      ∀ piece ∈ feedPiecesFrom seen stream, 10 ∉ piece := by
    induction stream generalizing seen with
    | nil =>
      intro piece member
      rw [List.mem_singleton.mp member]
      exact lineFeed_not_mem_withoutReturn before
    | cons octet rest ih =>
      rw [feedPiecesFrom]
      split_ifs with feed
      · intro piece member
        rcases List.mem_cons.mp member with rfl | later
        · exact lineFeed_not_mem_withoutReturn before
        · exact ih [] List.not_mem_nil piece later
      · apply ih
        simp [before, Ne.symm feed]
  exact general [] List.not_mem_nil

/-- The pieces written out have one line more where the text ended in a line feed, and lose a
carriage return at its end. -/
theorem feedPieces_written (lines : List Octets) (left : Octets)
    (terminated : ∀ line ∈ lines, Terminated line) (open' : 10 ∉ left) :
    (feedPieces (lines.flatten ++ left)).flatMap (· ++ wireEnd) =
        withCrlf lines.flatten ++ withoutReturn left ++ wireEnd ∧
      withCrlf (lines.flatten ++ left) = withCrlf lines.flatten ++ left := by
  induction lines with
  | nil =>
    have piece : feedPieces left = [withoutReturn left] := feedPiecesFrom_last [] open'
    simp [piece, withCrlf_last open', withCrlf]
  | cons line lines ih =>
    obtain ⟨⟨inside, single, rfl⟩, others⟩ := List.forall_mem_cons.mp terminated
    obtain ⟨written, whole⟩ := ih others
    have text (rest : Octets) : inside ++ [10] ++ rest = inside ++ 10 :: rest := by simp
    have pieces (rest : Octets) :
        feedPieces (inside ++ 10 :: rest) = withoutReturn inside :: feedPieces rest :=
      feedPiecesFrom_line [] single rest
    rw [List.flatten_cons, List.append_assoc, text, text, pieces, withCrlf_line single,
      withCrlf_line single, List.flatMap_cons, written, whole]
    simp only [List.append_assoc, and_self]

end Expresso.Text
