import Expresso.Imap.Mime
import Expresso.Text.Lossy
import Expresso.Text.Split
import Expresso.Text.Wire
import Mathlib.Data.List.SplitBy

/-! `BODY[HEADER.FIELDS (…)]` and `BODY[HEADER.FIELDS.NOT (…)]`: the lines of a header by the names
of its fields. -/

namespace Expresso.Imap
open Text

/-! ### The scan -/

/-- `str::split_inclusive`: every piece with the character that ends it. -/
def splitInclusive (terminator : Char) : Str → List Str
  | [] => []
  | c :: rest =>
      if c = terminator then [c] :: splitInclusive terminator rest
      else match splitInclusive terminator rest with
        | [] => [[c]]
        | piece :: pieces => (c :: piece) :: pieces

example : splitInclusive ',' "a,b".toList = ["a,".toList, "b".toList] := by
  simp [splitInclusive]

def isFold (line : Str) : Bool := line.head? = some ' ' || line.head? = some '\t'

structure FieldScan where
  out : Octets
  includeCurrent : Bool

/-- A continuation goes with its field; a line without a colon ends the field. -/
def filterLine (fields : List Str) (isNot : Bool) (scan : FieldScan) (line : Str) : FieldScan :=
  if isFold line then
    if scan.includeCurrent then { scan with out := scan.out ++ asBytes line } else scan
  else match splitOnce ':' line with
    | some (name, _) =>
        let included := fields.contains (toAsciiLowercase (trim name)) ^^ isNot
        ⟨if included then scan.out ++ asBytes line else scan.out, included⟩
    | none => { scan with includeCurrent := false }

def filterHeaderFields (raw : Octets) (fields : List Str) (isNot : Bool) : Octets :=
  let headerBytes := match position separator raw with
    | some p => raw.take p
    | none => raw
  ((splitInclusive '\n' (fromUtf8Lossy headerBytes)).foldl (filterLine fields isNot)
    ⟨[], false⟩).out ++ wireEnd

/-! ### Header blocks -/

/-- The lines of a header, without their ends. An empty line would end the header. -/
structure HeaderBlock where
  lines : List Octets
  oneLine : ∀ line ∈ lines, 10 ∉ line
  nonempty : ∀ line ∈ lines, line ≠ []

/-- The lines, each with its end. -/
def written (lines : List Octets) : Octets := lines.flatMap (· ++ wireEnd)

/-- The name of the field that a line begins, in lower case: none in a continuation and in a line
without a colon. -/
def fieldName (line : Octets) : Option Str :=
  if isFold (fromUtf8Lossy line) then none
  else (splitOnce ':' (fromUtf8Lossy line)).map fun halves => toAsciiLowercase (trim halves.1)

namespace HeaderBlock

/-- The block, with the blank line behind it or without. -/
def raw (b : HeaderBlock) (closed : Bool) : Octets :=
  written b.lines ++ if closed then wireEnd else []

/-- Every line that continues none, with the lines that continue it. -/
def logical (b : HeaderBlock) : List (List Octets) :=
  b.lines.splitBy fun _ next => isFold (fromUtf8Lossy next)

end HeaderBlock

/-- The name of a logical field. -/
def nameOf (field : List Octets) : Option Str := field.head?.bind fieldName

/-- Every logical field goes to one side, those with a requested name to the side of `FIELDS`, and
both answers are the lines of their side with one blank line. -/
def Partitions (b : HeaderBlock) (raw : Octets) (requested : List Str) : Prop :=
  ∃ side : List Octets → Bool,
    (∀ field ∈ b.logical, ∀ name ∈ nameOf field,
      side field = (requested.map toAsciiLowercase).contains name) ∧
    ∀ isNot, filterHeaderFields raw (requested.map toAsciiLowercase) isNot =
      written (b.logical.filter fun field => side field ^^ isNot).flatten ++ wireEnd

/-! ### Lines of the text -/

theorem splitInclusive_line {terminator : Char} {line : Str} (oneLine : terminator ∉ line)
    (rest : Str) : splitInclusive terminator (line ++ terminator :: rest) =
      (line ++ [terminator]) :: splitInclusive terminator rest := by
  induction line with
  | nil => simp [splitInclusive]
  | cons c line ih =>
    obtain ⟨other, later⟩ := not_or.mp (List.mem_cons.not.mp oneLine)
    rw [List.cons_append, splitInclusive, if_neg (Ne.symm other), ih later]
    rfl

theorem splitInclusive_last {terminator : Char} {line : Str} (oneLine : terminator ∉ line)
    (nonempty : line ≠ []) : splitInclusive terminator line = [line] := by
  induction line with
  | nil => exact absurd rfl nonempty
  | cons c line ih =>
    obtain ⟨other, later⟩ := not_or.mp (List.mem_cons.not.mp oneLine)
    rw [splitInclusive, if_neg (Ne.symm other)]
    cases line with
    | nil => rfl
    | cons d line => rw [ih later (List.cons_ne_nil d line)]

/-- The text of a line, as the scan takes it. -/
def shown (line : Octets) : Str := fromUtf8Lossy line ++ ['\r', '\n']

theorem oneLine_fromUtf8Lossy {line : Octets} (oneLine : 10 ∉ line) :
    '\n' ∉ fromUtf8Lossy line := fun member =>
  oneLine (mem_of_mem_fromUtf8Lossy (by decide) member)

theorem fromUtf8Lossy_line (line rest : Octets) :
    fromUtf8Lossy (line ++ 13 :: 10 :: rest) = shown line ++ fromUtf8Lossy rest := by
  have feed : fromUtf8Lossy (10 :: rest) = '\n' :: fromUtf8Lossy rest :=
    fromUtf8Lossy_append (b := 10) (by decide) [] rest
  rw [fromUtf8Lossy_append (by decide), feed, shown, List.append_assoc]
  rfl

theorem splitInclusive_written {lines : List Octets} (oneLine : ∀ line ∈ lines, 10 ∉ line)
    (rest : Octets) : splitInclusive '\n' (fromUtf8Lossy (written lines ++ rest)) =
      lines.map shown ++ splitInclusive '\n' (fromUtf8Lossy rest) := by
  induction lines with
  | nil => rfl
  | cons line lines ih =>
    have here : '\n' ∉ fromUtf8Lossy line ++ ['\r'] := by
      simpa using oneLine_fromUtf8Lossy (oneLine line List.mem_cons_self)
    have text : written (line :: lines) ++ rest = line ++ 13 :: 10 :: (written lines ++ rest) := by
      simp [written, wireEnd]
    have ended : shown line ++ fromUtf8Lossy (written lines ++ rest) =
        (fromUtf8Lossy line ++ ['\r']) ++ '\n' :: fromUtf8Lossy (written lines ++ rest) := by
      simp [shown]
    rw [text, fromUtf8Lossy_line, ended, splitInclusive_line here,
      ih fun other member => oneLine other (List.mem_cons_of_mem line member)]
    simp [shown]

theorem isFold_shown (line : Octets) : isFold (shown line) = isFold (fromUtf8Lossy line) := by
  unfold isFold shown
  cases fromUtf8Lossy line <;> rfl

/-- A line of a header as the scan reads it, with its end or without. -/
def ReadAs (line : Octets) (text : Str) : Prop := text = shown line ∨ text = fromUtf8Lossy line

theorem splitOnce_append_right {separator : Char} {back : Str} (absent : separator ∉ back)
    (front : Str) : splitOnce separator (front ++ back) =
      (splitOnce separator front).map fun halves => (halves.1, halves.2 ++ back) := by
  induction front with
  | nil =>
    cases found : splitOnce separator back with
    | none => simpa [splitOnce] using found
    | some halves =>
      have inside : separator ∈ back := by
        rw [(splitOnce_some found).1]
        simp
      exact absurd inside absent
  | cons c front ih =>
    rw [List.cons_append, splitOnce, splitOnce]
    by_cases here : c = separator
    · rw [if_pos here, if_pos here]
      rfl
    · rw [if_neg here, if_neg here, ih]
      cases splitOnce separator front <;> rfl

variable {line : Octets} {text : Str}

theorem ReadAs.isFold (read : ReadAs line text) :
    Imap.isFold text = Imap.isFold (fromUtf8Lossy line) := by
  obtain rfl | rfl := read
  · unfold Imap.isFold shown
    cases fromUtf8Lossy line <;> rfl
  · rfl

theorem ReadAs.name (read : ReadAs line text) :
    (splitOnce ':' text).map (fun halves => toAsciiLowercase (trim halves.1)) =
      (splitOnce ':' (fromUtf8Lossy line)).map fun halves => toAsciiLowercase (trim halves.1) := by
  obtain rfl | rfl := read
  · rw [shown, splitOnce_append_right (by decide), Option.map_map]
    rfl
  · rfl

/-! ### The scan of the fields -/

/-- Whether the scan takes a field. -/
def takes (fields : List Str) (isNot : Bool) (field : List Octets) : Bool :=
  (nameOf field).any fun name => fields.contains name ^^ isNot

/-- Whether the scan takes a line, from what it did with the line before. -/
def included (fields : List Str) (isNot current : Bool) (line : Octets) : Bool :=
  if isFold (fromUtf8Lossy line) then current else takes fields isNot [line]

variable {fields : List Str} {isNot : Bool}

theorem filterLine_eq (read : ReadAs line text) (scan : FieldScan) :
    filterLine fields isNot scan text =
      ⟨if included fields isNot scan.includeCurrent line then scan.out ++ asBytes text
        else scan.out, included fields isNot scan.includeCurrent line⟩ := by
  have name := read.name
  unfold filterLine included
  rw [read.isFold]
  by_cases fold : isFold (fromUtf8Lossy line) = true
  · rw [if_pos fold, if_pos fold]
    cases scan with
    | mk out current => cases current <;> rfl
  · rw [if_neg fold, if_neg fold, takes, nameOf, List.head?_cons, Option.bind_some, fieldName,
      if_neg fold, ← name]
    cases splitOnce ':' text with
    | none => rfl
    | some halves => rfl

/-- Every line of a field but the first continues it. -/
def IsField (field : List Octets) : Prop :=
  field ≠ [] ∧ ∀ line ∈ field.tail, isFold (fromUtf8Lossy line) = true

def bytesShown (lines : List Octets) : Octets := lines.flatMap fun line => asBytes (shown line)

theorem scan_continuations {lines : List Octets}
    (folds : ∀ line ∈ lines, isFold (fromUtf8Lossy line) = true) (scan : FieldScan) :
    (lines.map shown).foldl (filterLine fields isNot) scan =
      ⟨if scan.includeCurrent then scan.out ++ bytesShown lines else scan.out,
        scan.includeCurrent⟩ := by
  induction lines generalizing scan with
  | nil => simp [bytesShown]
  | cons line lines ih =>
    have kept : included fields isNot scan.includeCurrent line = scan.includeCurrent :=
      if_pos (folds line List.mem_cons_self)
    rw [List.map_cons, List.foldl_cons, filterLine_eq (.inl rfl), kept,
      ih fun other member => folds other (List.mem_cons_of_mem line member)]
    cases scan.includeCurrent <;> simp [bytesShown]

theorem scan_field {field : List Octets} (is : IsField field) {scan : FieldScan}
    (opens : ∀ line ∈ field.head?, isFold (fromUtf8Lossy line) = true →
      scan.includeCurrent = false) :
    (field.map shown).foldl (filterLine fields isNot) scan =
      ⟨if takes fields isNot field then scan.out ++ bytesShown field else scan.out,
        takes fields isNot field⟩ := by
  cases field with
  | nil => exact absurd rfl is.1
  | cons line lines =>
    have first : included fields isNot scan.includeCurrent line =
        takes fields isNot (line :: lines) := by
      unfold included
      split
      · next fold =>
        rw [opens line rfl fold, takes, nameOf, List.head?_cons, Option.bind_some, fieldName,
          if_pos fold]
        rfl
      · rfl
    have folds : ∀ other ∈ lines, isFold (fromUtf8Lossy other) = true := is.2
    rw [List.map_cons, List.foldl_cons, filterLine_eq (.inl rfl), first,
      scan_continuations folds]
    cases takes fields isNot (line :: lines) <;> simp [bytesShown]

/-- A run of fields: only the first may begin with a continuation, where nothing is taken. -/
structure Opens (current : Bool) (fs : List (List Octets)) : Prop where
  fields : ∀ field ∈ fs, IsField field
  first : ∀ field ∈ fs.head?, ∀ line ∈ field.head?, isFold (fromUtf8Lossy line) = true →
    current = false
  later : ∀ field ∈ fs.tail, ∀ line ∈ field.head?, isFold (fromUtf8Lossy line) = false

theorem scan_fields {fs : List (List Octets)} {scan : FieldScan}
    (opens : Opens scan.includeCurrent fs) :
    (fs.flatten.map shown).foldl (filterLine fields isNot) scan =
      ⟨scan.out ++ bytesShown (fs.filter (takes fields isNot)).flatten,
        (fs.getLast?.map (takes fields isNot)).getD scan.includeCurrent⟩ := by
  induction fs generalizing scan with
  | nil => simp [bytesShown]
  | cons field fs ih =>
    have here := @scan_field fields isNot field (opens.fields field List.mem_cons_self) scan
      (opens.first field rfl)
    have rest : ∀ current, Opens current fs := fun current =>
      { fields := fun other member => opens.fields other (List.mem_cons_of_mem field member)
        first := fun other head line leads fold =>
          absurd ((opens.later other (List.mem_of_mem_head? head) line leads).symm.trans fold)
            Bool.false_ne_true
        later := fun other member => opens.later other (List.mem_of_mem_tail member) }
    rw [List.flatten_cons, List.map_append, List.foldl_append, here, ih (rest _)]
    congr 1
    · cases took : takes fields isNot field <;> simp [took, bytesShown]
    · cases fs with
      | nil => rfl
      | cons next fs =>
        rw [List.getLast?_cons_cons, List.getLast?_eq_some_getLast (List.cons_ne_nil next fs)]
        rfl

theorem opens_logical (b : HeaderBlock) : Opens false b.logical := by
  have tails {α : Type} {P : α → Prop} {l : List α} (chain : l.IsChain fun _ next => P next) :
      ∀ next ∈ l.tail, P next := by
    induction l with
    | nil => simp
    | cons a l ih =>
      cases l with
      | nil => simp
      | cons next l =>
        obtain ⟨here, more⟩ := List.isChain_cons_cons.mp chain
        exact List.forall_mem_cons.mpr ⟨here, ih more⟩
  refine ⟨fun field member => ⟨List.ne_nil_of_mem_splitBy member, ?_⟩, fun _ _ _ _ _ => rfl,
    fun field member line head => ?_⟩
  · exact tails (List.isChain_of_mem_splitBy member)
  · have chain := List.isChain_getLast_head_splitBy
      (fun _ next => isFold (fromUtf8Lossy next)) b.lines
    have plain := tails (chain.imp fun {_ next} apart =>
      (show ∀ line ∈ next.head?, isFold (fromUtf8Lossy line) = false from by
        obtain ⟨_, some_, plain⟩ := apart
        intro line head
        rw [List.head?_eq_some_head some_] at head
        rw [← Option.some.inj head]
        exact plain)) field member
    exact plain line head

/-! ### Where the header ends -/

/-- A blank line begins at the end of a line. -/
theorem position_append {line : Octets} (oneLine : 10 ∉ line) (rest : Octets) :
    position separator (line ++ 13 :: rest) =
      (position separator (13 :: rest)).map (· + line.length) := by
  induction line with
  | nil => simp
  | cons octet line ih =>
    obtain ⟨-, later⟩ := not_or.mp (List.mem_cons.not.mp oneLine)
    have here : ¬separator.isPrefixOf (octet :: (line ++ 13 :: rest)) = true := by
      intro initial
      have next := (List.cons_prefix_cons.mp (List.isPrefixOf_iff_prefix.mp initial)).2
      cases line with
      | nil => exact absurd (List.cons_prefix_cons.mp next).1 (by decide)
      | cons second line =>
        exact later (List.mem_cons.mpr (.inl (List.cons_prefix_cons.mp next).1))
    rw [List.cons_append, position, if_neg here, ih later, Option.map_map]
    rfl

theorem position_goesOn {rest : Octets} (goesOn : ¬wireEnd <+: rest) :
    position separator (13 :: 10 :: rest) = (position separator rest).map (· + 2) := by
  have first : ¬separator.isPrefixOf (13 :: 10 :: rest) = true := by
    intro initial
    have next := (List.cons_prefix_cons.mp (List.isPrefixOf_iff_prefix.mp initial)).2
    exact goesOn (List.cons_prefix_cons.mp next).2
  have second : ¬separator.isPrefixOf (10 :: rest) = true := Bool.false_ne_true
  rw [position, if_neg first, position, if_neg second, Option.map_map]
  rfl

theorem not_wireEnd_initial {line : Octets} (oneLine : 10 ∉ line) (nonempty : line ≠ [])
    (rest : Octets) : ¬wireEnd <+: line ++ 13 :: rest := by
  intro initial
  cases line with
  | nil => exact nonempty rfl
  | cons octet line =>
    have next := (List.cons_prefix_cons.mp initial).2
    cases line with
    | nil => exact absurd (List.cons_prefix_cons.mp next).1 (by decide)
    | cons second line =>
      have feed := (List.cons_prefix_cons.mp next).1
      exact oneLine (by rw [← feed]; simp)

section
variable {lines : List Octets} (oneLine : ∀ line ∈ lines, 10 ∉ line)
  (nonempty : ∀ line ∈ lines, line ≠ [])
include oneLine nonempty

theorem not_wireEnd_written {rest : Octets} (goesOn : ¬wireEnd <+: rest) :
    ¬wireEnd <+: written lines ++ rest := by
  cases lines with
  | nil => exact goesOn
  | cons line lines =>
    have text : written (line :: lines) ++ rest = line ++ 13 :: 10 :: (written lines ++ rest) := by
      simp [written, wireEnd]
    rw [text]
    exact not_wireEnd_initial (oneLine line List.mem_cons_self)
      (nonempty line List.mem_cons_self) _

theorem position_written {rest : Octets} (goesOn : ¬wireEnd <+: rest) :
    position separator (written lines ++ rest) =
      (position separator rest).map (· + (written lines).length) := by
  induction lines with
  | nil => simp [written]
  | cons line lines ih =>
    have laterOne := fun other member => oneLine other (List.mem_cons_of_mem line member)
    have laterSome := fun other member => nonempty other (List.mem_cons_of_mem line member)
    have text : written (line :: lines) ++ rest = line ++ 13 :: 10 :: (written lines ++ rest) := by
      simp [written, wireEnd]
    rw [text, position_append (oneLine line List.mem_cons_self),
      position_goesOn (not_wireEnd_written laterOne laterSome goesOn), ih laterOne laterSome,
      Option.map_map, Option.map_map]
    congr 1
    funext place
    simp only [Function.comp_apply, written, List.flatMap_cons, List.length_append, wireEnd,
      List.length_cons, List.length_nil]
    omega

end

/-! ### The answers -/

namespace HeaderBlock
variable (b : HeaderBlock)

theorem flatten_logical : b.logical.flatten = b.lines := List.flatten_splitBy _ _

/-- Without the blank line, every line of a field that is taken is in the answer. -/
theorem filter_open : filterHeaderFields (b.raw false) fields isNot =
    bytesShown (b.logical.filter (takes fields isNot)).flatten ++ wireEnd := by
  have whole : b.raw false = written b.lines ++ [] := rfl
  have none : position separator (b.raw false) = none := by
    rw [whole, position_written b.oneLine b.nonempty (by decide)]
    rfl
  have lines := splitInclusive_written b.oneLine []
  have scan := @scan_fields fields isNot b.logical ⟨[], false⟩ (opens_logical b)
  rw [b.flatten_logical] at scan
  rw [filterHeaderFields, none, whole, lines, List.foldl_append, scan]
  rfl

/-- The blank line takes the end of the last line with it, where that line is taken. What stands
behind the blank line is not read. -/
theorem filter_closed {before : List Octets} {last : Octets} (lines : b.lines = before ++ [last])
    {field : List Octets} (final : b.logical.getLast? = some field) (body : Octets) : ∃ out,
      filterHeaderFields (b.raw true ++ body) fields isNot =
        (if takes fields isNot field then out ++ asBytes (fromUtf8Lossy last) else out) ++ wireEnd ∧
      filterHeaderFields (b.raw false) fields isNot =
        (if takes fields isNot field then out ++ asBytes (shown last) else out) ++ wireEnd := by
  have oneLine : 10 ∉ last := b.oneLine last (by simp [lines])
  have nonempty : last ≠ [] := b.nonempty last (by simp [lines])
  have beforeOne : ∀ line ∈ before, 10 ∉ line := fun line member =>
    b.oneLine line (by rw [lines]; exact List.mem_append_left _ member)
  have beforeSome : ∀ line ∈ before, line ≠ [] := fun line member =>
    b.nonempty line (by rw [lines]; exact List.mem_append_left _ member)
  have place : position separator (b.raw true ++ body) =
      some (written before ++ last).length := by
    have text : b.raw true ++ body =
        written before ++ (last ++ 13 :: 10 :: 13 :: 10 :: body) := by
      simp [raw, lines, written, wireEnd]
    have blank : position separator (13 :: 10 :: 13 :: 10 :: body) = some 0 := rfl
    rw [text, position_written beforeOne beforeSome (not_wireEnd_initial oneLine nonempty _),
      position_append oneLine, blank, List.length_append, Nat.add_comm]
    simp
  have header : (b.raw true ++ body).take (written before ++ last).length =
      written before ++ last := by
    have text : b.raw true ++ body =
        (written before ++ last) ++ 13 :: 10 :: 13 :: 10 :: body := by
      simp [raw, lines, written, wireEnd]
    rw [text, List.take_left]
  have lastText : splitInclusive '\n' (fromUtf8Lossy last) = [fromUtf8Lossy last] := by
    apply splitInclusive_last (oneLine_fromUtf8Lossy oneLine)
    obtain ⟨octet, rest, rfl⟩ := List.exists_cons_of_ne_nil nonempty
    rw [fromUtf8Lossy_cons]
    exact List.cons_ne_nil _ _
  obtain ⟨scan, first⟩ : ∃ scan, (before.map shown).foldl (filterLine fields isNot) ⟨[], false⟩ =
    scan := ⟨_, rfl⟩
  have whole := @scan_fields fields isNot b.logical ⟨[], false⟩ (opens_logical b)
  rw [b.flatten_logical, lines, List.map_append, List.foldl_append, first, final] at whole
  have current := congrArg FieldScan.includeCurrent whole
  rw [List.map_singleton, List.foldl_cons, List.foldl_nil, filterLine_eq (.inl rfl)] at current
  have taken : included fields isNot scan.includeCurrent last = takes fields isNot field := current
  refine ⟨scan.out, ?_, ?_⟩
  · rw [filterHeaderFields, place]
    dsimp only
    rw [header, splitInclusive_written beforeOne, lastText, List.foldl_append, first,
      List.foldl_cons, List.foldl_nil, filterLine_eq (.inr rfl), taken]
  · rw [b.filter_open]
    have out := congrArg FieldScan.out whole
    rw [List.map_singleton, List.foldl_cons, List.foldl_nil, filterLine_eq (.inl rfl), taken] at out
    rw [show bytesShown (b.logical.filter (takes fields isNot)).flatten = _ from out.symm]

/-! ### Counting the lines -/

theorem count_asBytes {line : Octets} (oneLine : 10 ∉ line) :
    (asBytes (fromUtf8Lossy line)).count 10 = 0 :=
  List.count_eq_zero.mpr fun member =>
    oneLine_fromUtf8Lossy oneLine (ascii_mem_asBytes (by decide) rfl member)

theorem count_shown {line : Octets} (oneLine : 10 ∉ line) :
    (asBytes (shown line)).count 10 = 1 := by
  rw [shown, asBytes_append, List.count_append, count_asBytes oneLine]
  rfl

theorem count_bytesShown {lines : List Octets} (oneLine : ∀ line ∈ lines, 10 ∉ line) :
    (bytesShown lines).count 10 = lines.length := by
  induction lines with
  | nil => rfl
  | cons line lines ih =>
    have later := ih fun other member => oneLine other (List.mem_cons_of_mem line member)
    rw [bytesShown, List.flatMap_cons, List.count_append, ← bytesShown, later,
      count_shown (oneLine line List.mem_cons_self), List.length_cons, Nat.add_comm]

theorem count_written {lines : List Octets} (oneLine : ∀ line ∈ lines, 10 ∉ line) :
    (written lines).count 10 = lines.length := by
  induction lines with
  | nil => rfl
  | cons line lines ih =>
    have later := ih fun other member => oneLine other (List.mem_cons_of_mem line member)
    have single : (line ++ wireEnd).count 10 = 1 := by
      rw [List.count_append, List.count_eq_zero.mpr (oneLine line List.mem_cons_self)]
      rfl
    rw [written, List.flatMap_cons, List.count_append, ← written, later, single,
      List.length_cons, Nat.add_comm]

/-- How many lines stand in the fields of one kind. -/
def linesOf (p : List Octets → Bool) (fs : List (List Octets)) : Nat := (fs.filter p).flatten.length

theorem linesOf_add {p q : List Octets → Bool} {fs : List (List Octets)}
    (apart : ∀ field ∈ fs, p field = true → q field = false) :
    linesOf p fs + linesOf q fs = linesOf (fun field => p field || q field) fs := by
  induction fs with
  | nil => rfl
  | cons field fs ih =>
    have later := ih fun other member => apart other (List.mem_cons_of_mem field member)
    have here := apart field List.mem_cons_self
    unfold linesOf at later ⊢
    cases first : p field <;> cases second : q field <;>
      simp_all [Nat.add_assoc, Nat.add_left_comm]

/-- Fields of one kind have as many lines as all fields only if all are of that kind. -/
theorem linesOf_eq_iff {p : List Octets → Bool} {fs : List (List Octets)}
    (nonempty : ∀ field ∈ fs, field ≠ []) :
    linesOf p fs ≤ fs.flatten.length ∧
      (linesOf p fs = fs.flatten.length ↔ ∀ field ∈ fs, p field = true) := by
  induction fs with
  | nil => simp [linesOf]
  | cons field fs ih =>
    obtain ⟨bound, equal⟩ := ih fun other member => nonempty other (List.mem_cons_of_mem field member)
    have some_ := List.length_pos_of_ne_nil (nonempty field List.mem_cons_self)
    unfold linesOf at bound equal ⊢
    rw [List.forall_mem_cons, ← equal, List.filter_cons, List.flatten_cons, List.length_append]
    cases here : p field
    · simp only [Bool.false_eq_true, if_false, false_and, iff_false]
      omega
    · simp only [if_true, List.flatten_cons, List.length_append, true_and]
      omega

variable {requested : List Str}

theorem takes_eq {field : List Octets} {name : Str} (named : nameOf field = some name) :
    takes fields isNot field = (fields.contains name ^^ isNot) := by
  rw [takes, named, Option.any_some]

/-- A named field is taken on one side, and a line without a name on none. -/
theorem linesOf_takes (fs : List (List Octets)) :
    linesOf (takes fields false) fs + linesOf (takes fields true) fs =
      linesOf (fun field => (nameOf field).isSome) fs := by
  rw [linesOf_add]
  · congr 1
    funext field
    unfold takes
    cases nameOf field with
    | none => rfl
    | some name => simp
  · intro field _
    unfold takes
    cases nameOf field with
    | none => exact fun took => absurd took Bool.false_ne_true
    | some name => simp

theorem linesOf_sides (side : List Octets → Bool) (fs : List (List Octets)) :
    linesOf (fun field => side field ^^ false) fs + linesOf (fun field => side field ^^ true) fs =
      fs.flatten.length := by
  rw [linesOf_add]
  · simp [linesOf]
  · intro field _
    cases side field <;> decide

theorem oneLine_filter (p : List Octets → Bool) :
    ∀ line ∈ (b.logical.filter p).flatten, 10 ∉ line := by
  intro line member
  obtain ⟨field, among, inside⟩ := List.mem_flatten.mp member
  apply b.oneLine line
  rw [← b.flatten_logical]
  exact List.mem_flatten.mpr ⟨field, List.mem_of_mem_filter among, inside⟩

theorem count_open : (filterHeaderFields (b.raw false) fields isNot).count 10 =
    linesOf (takes fields isNot) b.logical + 1 := by
  rw [b.filter_open, List.count_append, count_bytesShown (b.oneLine_filter _)]
  rfl

theorem count_side (side : List Octets → Bool) :
    (written (b.logical.filter side).flatten ++ wireEnd).count 10 = linesOf side b.logical + 1 := by
  rw [List.count_append, count_written (b.oneLine_filter _)]
  rfl

theorem logical_nonempty : ∀ field ∈ b.logical, field ≠ [] := fun _ member =>
  List.ne_nil_of_mem_splitBy member

/-- Behind a block that is not empty the blank line is missing from the answer with the last
line. -/
theorem lines_of_closed (partitions : Partitions b (b.raw true) requested) : b.lines = [] := by
  obtain ⟨side, -, answers⟩ := partitions
  obtain none | ⟨before, last, lines⟩ := b.lines.eq_nil_or_concat
  · exact none
  exfalso
  rw [List.concat_eq_append] at lines
  have some_ : b.logical ≠ [] := List.splitBy_ne_nil.mpr (by rw [lines]; simp)
  obtain ⟨field, final⟩ : ∃ field, b.logical.getLast? = some field :=
    ⟨_, List.getLast?_eq_some_getLast some_⟩
  have member : field ∈ b.logical := List.mem_of_getLast? final
  have oneLine : 10 ∉ last := b.oneLine last (by rw [lines]; simp)
  have counts (isNot : Bool) :
      linesOf (fun field => side field ^^ isNot) b.logical +
          (if takes (requested.map toAsciiLowercase) isNot field then 1 else 0) =
        linesOf (takes (requested.map toAsciiLowercase) isNot) b.logical := by
    obtain ⟨out, closed, open_⟩ := @filter_closed (requested.map toAsciiLowercase) isNot b before last
      lines field final []
    have same := answers isNot
    rw [List.append_nil] at closed
    rw [closed] at same
    have whole := @count_open (requested.map toAsciiLowercase) isNot b
    have cut := congrArg (List.count 10) same
    rw [open_] at whole
    rw [b.count_side] at cut
    split at whole
    · next took =>
      rw [if_pos took, List.append_assoc, List.count_append, List.count_append,
        count_asBytes oneLine] at cut
      rw [List.append_assoc, List.count_append, List.count_append, count_shown oneLine] at whole
      rw [if_pos took]
      omega
    · next left =>
      rw [if_neg left] at cut
      rw [if_neg left]
      omega
  have first := counts false
  have second := counts true
  have sides := linesOf_sides side b.logical
  have taken := @linesOf_takes (requested.map toAsciiLowercase) b.logical
  obtain ⟨bound, equal⟩ := linesOf_eq_iff (p := fun field => (nameOf field).isSome)
    b.logical_nonempty
  have all : ∀ field ∈ b.logical, (nameOf field).isSome = true := equal.mp (by omega)
  obtain ⟨name, named⟩ := Option.isSome_iff_exists.mp (all field member)
  rw [takes_eq named] at first second
  cases held : (requested.map toAsciiLowercase).contains name
  · rw [held, if_pos (by rfl)] at second
    omega
  · rw [held, if_pos (by rfl)] at first
    omega

/-- The lines of a side as the scan writes them are the lines themselves only if all are UTF-8. -/
theorem bytesShown_eq_written_iff {lines : List Octets} (oneLine : ∀ line ∈ lines, 10 ∉ line) :
    bytesShown lines = written lines ↔ ∀ line ∈ lines, fromUtf8 line ≠ none := by
  have decoded (line : Octets) : asBytes (fromUtf8Lossy line) = line ↔ fromUtf8 line ≠ none := by
    rw [Option.ne_none_iff_exists']
    constructor
    · exact fun same => ⟨_, fromUtf8_eq_some_iff.mpr same⟩
    · rintro ⟨text, found⟩
      rw [← asBytes_of_fromUtf8 found, fromUtf8Lossy_asBytes]
  have texts : bytesShown lines =
      (lines.map fun line => asBytes (fromUtf8Lossy line)).flatMap (· ++ wireEnd) := by
    rw [bytesShown, List.flatMap_map]
    congr 1
    funext line
    rw [shown, asBytes_append]
    rfl
  have oneLine' : ∀ line ∈ lines.map fun line => asBytes (fromUtf8Lossy line), 10 ∉ line := by
    intro line member
    obtain ⟨source, inside, rfl⟩ := List.mem_map.mp member
    exact List.count_eq_zero.mp (count_asBytes (oneLine source inside))
  constructor
  · intro same line member
    have read := octetLines_lines _ [] oneLine'
    rw [← texts, same, written, octetLines_lines _ [] oneLine, octetLines_nil, List.append_nil,
      List.append_nil] at read
    have fixed : (lines.map fun line => asBytes (fromUtf8Lossy line)) = lines.map id := by
      rw [List.map_id]
      exact read.symm
    exact (decoded line).mp (List.map_inj_left.mp fixed line member)
  · intro valid
    rw [texts, List.map_congr_left fun line member => (decoded line).mpr (valid line member),
      List.map_id']
    rfl

/-- Where all fields have names, the scan takes those on the side. -/
theorem filter_takes {side : List Octets → Bool}
    (named : ∀ field ∈ b.logical, ∀ name ∈ nameOf field, side field = fields.contains name)
    (all : ∀ field ∈ b.logical, (nameOf field).isSome = true) :
    b.logical.filter (takes fields isNot) = b.logical.filter fun field => side field ^^ isNot := by
  refine List.filter_congr fun field member => ?_
  obtain ⟨name, found⟩ := Option.isSome_iff_exists.mp (all field member)
  rw [takes_eq found, named field member name found]

/-- The two answers are the lines of the header, every field on its side, if and only if no blank
line stands behind a last line, every line belongs to a field with a name, and all lines are
UTF-8. -/
theorem partitions_iff (closed : Bool) :
    Partitions b (b.raw closed) requested ↔
      (closed = true → b.lines = []) ∧ (∀ field ∈ b.logical, nameOf field ≠ none) ∧
        ∀ line ∈ b.lines, fromUtf8 line ≠ none := by
  have empty (none : b.lines = []) : b.logical = [] := List.splitBy_eq_nil.mpr none
  constructor
  · intro partitions
    cases closed with
    | true =>
      have none := b.lines_of_closed partitions
      rw [empty none, none]
      exact ⟨fun _ => rfl, by simp, by simp⟩
    | false =>
      obtain ⟨side, named, answers⟩ := partitions
      have counts (isNot : Bool) : linesOf (takes (requested.map toAsciiLowercase) isNot) b.logical =
          linesOf (fun field => side field ^^ isNot) b.logical := by
        have same := congrArg (List.count 10) (answers isNot)
        rw [b.count_open, b.count_side] at same
        omega
      have sides := linesOf_sides side b.logical
      rw [← counts, ← counts, linesOf_takes] at sides
      have all := (linesOf_eq_iff b.logical_nonempty).2.mp sides
      refine ⟨fun absurd => (nomatch absurd), fun field member none => ?_, fun line member => ?_⟩
      · have some_ := all field member
        rw [none] at some_
        cases some_
      · rw [← b.flatten_logical] at member
        obtain ⟨field, among, inside⟩ := List.mem_flatten.mp member
        have answer := answers (!side field)
        rw [b.filter_open, ← b.filter_takes named all, List.append_left_inj] at answer
        refine (bytesShown_eq_written_iff (b.oneLine_filter _)).mp answer line ?_
        refine List.mem_flatten.mpr ⟨field, List.mem_filter.mpr ⟨among, ?_⟩, inside⟩
        obtain ⟨name, found⟩ := Option.isSome_iff_exists.mp (all field among)
        rw [takes_eq found, ← named field among name found]
        cases side field <;> rfl
  · rintro ⟨noBlank, allNamed, valid⟩
    have named : ∀ field ∈ b.logical, ∀ name ∈ nameOf field,
        takes (requested.map toAsciiLowercase) false field =
          (requested.map toAsciiLowercase).contains name := by
      intro field _ name found
      rw [takes_eq found, Bool.xor_false]
    refine ⟨takes (requested.map toAsciiLowercase) false, named, fun isNot => ?_⟩
    cases closed with
    | true =>
      have none := noBlank rfl
      rw [raw, none, empty none]
      rfl
    | false =>
      have all : ∀ field ∈ b.logical, (nameOf field).isSome = true := fun field member =>
        Option.isSome_iff_ne_none.mpr (allNamed field member)
      rw [b.filter_open, b.filter_takes named all,
        (bytesShown_eq_written_iff (b.oneLine_filter _)).mpr fun line member => ?_]
      obtain ⟨field, among, inside⟩ := List.mem_flatten.mp member
      apply valid line
      rw [← b.flatten_logical]
      exact List.mem_flatten.mpr ⟨field, List.mem_of_mem_filter among, inside⟩

/-! ### A header with one field -/

def subjectBlock : HeaderBlock where
  lines := [asBytes "Subject: Hi".toList]
  oneLine := by decide
  nonempty := by decide

/-- The answer that holds the last field ends without a blank line. -/
theorem last_field_without_blank :
    filterHeaderFields (subjectBlock.raw true) ["subject".toList] false =
        asBytes "Subject: Hi\r\n".toList ∧
      ¬Partitions subjectBlock (subjectBlock.raw true) ["Subject".toList] := by
  refine ⟨by decide, fun partitions => ?_⟩
  exact absurd (subjectBlock.lines_of_closed partitions) (by decide)

end HeaderBlock

end Expresso.Imap
