import Expresso.Partition.Chunks
import Expresso.Text.Str

/-! The physical lines of an invitation. -/

namespace Expresso.Imip
open Text Partition

def crlf : Str := ['\r', '\n']

/-- `str::char_indices`. -/
def charIndices (start : Nat) : Str → List (Nat × Char)
  | [] => []
  | c :: rest => (start, c) :: charIndices (start + c.utf8Size) rest

/-- How many bytes of the remaining line go on one physical line. -/
def takeLen (chunkLen : Nat) (remaining : Str) : Nat :=
  min ((((charIndices 0 remaining).takeWhile fun p => p.1 < chunkLen).map fun p =>
    p.1 + p.2.utf8Size).getLast?.getD (min (len remaining) chunkLen)) (len remaining)

/-- The loop over a long line. Every round takes at least one byte of it. -/
def foldLoop : Nat → Bool → Str → Except Panic Str
  | 0, _, _ => .ok []
  | fuel + 1, first, remaining =>
      if remaining = [] then .ok []
      else do
        let (chunk, rest) ← splitAt (takeLen (if first then 75 else 74) remaining) remaining
        let later ← foldLoop fuel false rest
        .ok ((if first then [] else [' ']) ++ chunk ++ crlf ++ later)

def foldLine (line : Str) : Except Panic Str :=
  if line = [] then .ok crlf
  else if len line ≤ 75 then .ok (line ++ crlf)
  else foldLoop (len line) true line

/-- `str::split` at CRLF. -/
def splitCrlf : Str → List Str
  | [] => [[]]
  | '\r' :: '\n' :: rest => [] :: splitCrlf rest
  | c :: rest =>
      match splitCrlf rest with
      | piece :: pieces => (c :: piece) :: pieces
      | [] => [[c]]

/-- The lines of a text, with or without a line end after the last one. -/
def contentLines (text : Str) : List Str := splitCrlf ((stripSuffix crlf text).getD text)

def foldLines (input : Str) : Except Panic Str :=
  (contentLines input).foldlM (fun out line => (foldLine line).map (out ++ ·)) []

/-- The line ends before a space are taken away, with the space. -/
def unfoldText : Str → Str
  | '\r' :: '\n' :: ' ' :: rest => unfoldText rest
  | c :: rest => c :: unfoldText rest
  | [] => []

example (s : Str) : (unfoldText s).length ≤ s.length := by
  induction s using unfoldText.induct <;> simp only [unfoldText, List.length_cons] <;> omega

/-! ### The chunks of a line -/

theorem len_eq_weight (s : Str) : len s = weight Char.utf8Size s := rfl

theorem splitAt_len (a b : Str) : splitAt (len a) (a ++ b) = .ok (a, b) := by
  induction a with
  | nil => cases b <;> rfl
  | cons c a ih =>
    have positive := c.utf8Size_pos
    have size : len (c :: a) = c.utf8Size + len a := weight_cons c a
    rw [List.cons_append, splitAt, if_neg (by omega), if_pos (by omega), size,
      Nat.add_sub_cancel_left, ih]
    rfl

theorem getLast_taken (start limit : Nat) (s : Str) (inside : start < limit) (nonempty : s ≠ []) :
    (((charIndices start s).takeWhile fun p => p.1 < limit).map fun p =>
      p.1 + p.2.utf8Size).getLast? =
      some (start + len (cut Char.utf8Size (limit - start) s).1) := by
  induction s generalizing start with
  | nil => exact absurd rfl nonempty
  | cons c rest ih =>
    have size (t : Str) : len (c :: t) = c.utf8Size + len t := weight_cons c t
    rw [charIndices, List.takeWhile_cons_of_pos (by simpa using inside), List.map_cons, cut,
      if_neg (by omega), size]
    by_cases later : start + c.utf8Size < limit ∧ rest ≠ []
    · have reached := ih (start + c.utf8Size) later.1 later.2
      rw [List.getLast?_cons, reached, Option.getD_some, Nat.sub_sub, Nat.add_assoc]
    · have none_ : (charIndices (start + c.utf8Size) rest).takeWhile (fun p => p.1 < limit) = [] := by
        cases rest with
        | nil => rfl
        | cons d rest =>
          rw [charIndices, List.takeWhile_cons_of_neg]
          simpa using later
      have taken : (cut Char.utf8Size (limit - start - c.utf8Size) rest).1 = [] := by
        cases rest with
        | nil => rfl
        | cons d rest =>
          have zero : limit - start - c.utf8Size = 0 := by
            have reached : ¬start + c.utf8Size < limit := by simpa using later
            omega
          rw [zero, cut, if_pos rfl]
      rw [none_, taken]
      rfl

/-- One chunk is taken, whole characters only. -/
theorem splitAt_takeLen {limit : Nat} (positive : 0 < limit) {s : Str} (nonempty : s ≠ []) :
    splitAt (takeLen limit s) s = .ok (cut Char.utf8Size limit s) := by
  have parts := cut_append (w := Char.utf8Size) limit s
  have within : len (cut Char.utf8Size limit s).1 ≤ len s := by
    have sizes := congrArg len parts
    have sum : len _ = _ := weight_append (w := Char.utf8Size) (cut Char.utf8Size limit s).1
      (cut Char.utf8Size limit s).2
    rw [sum] at sizes
    exact sizes ▸ Nat.le_add_right _ _
  have taken : takeLen limit s = len (cut Char.utf8Size limit s).1 := by
    rw [takeLen, getLast_taken 0 limit s positive nonempty, Option.getD_some, Nat.zero_add,
      Nat.sub_zero, Nat.min_eq_left within]
  have cutAt := splitAt_len (cut Char.utf8Size limit s).1 (cut Char.utf8Size limit s).2
  rwa [parts, ← taken] at cutAt

/-- The physical lines of a long line. -/
def physical : List Str → List Str
  | [] => []
  | first :: rest => first :: rest.map (' ' :: ·)

def terminate (lines : List Str) : Str := lines.flatMap (· ++ crlf)

theorem foldLoop_later {fuel : Nat} {s : Str} (enough : len s ≤ fuel) : foldLoop fuel false s =
    .ok (terminate ((chunks Char.utf8Size 74 fuel 74 s).map (' ' :: ·))) := by
  induction fuel generalizing s with
  | zero => rfl
  | succ fuel ih =>
    rw [foldLoop, chunks]
    by_cases empty : s = []
    · rw [if_pos empty, if_pos empty]
      rfl
    · have shorter : weight Char.utf8Size (cut Char.utf8Size 74 s).2 < weight Char.utf8Size s :=
        length_cut Char.utf8Size_pos (by decide) empty
      rw [if_neg empty, if_neg empty, if_neg (by decide), splitAt_takeLen (by decide) empty]
      have rest := ih (s := (cut Char.utf8Size 74 s).2) (by
        rw [len_eq_weight] at enough ⊢
        omega)
      simp only [bind, Except.bind, rest]
      simp [terminate]

theorem foldLoop_first {fuel : Nat} {s : Str} (enough : len s ≤ fuel) : foldLoop fuel true s =
    .ok (terminate (physical (chunks Char.utf8Size 74 fuel 75 s))) := by
  cases fuel with
  | zero => rfl
  | succ fuel =>
    rw [foldLoop, chunks]
    by_cases empty : s = []
    · rw [if_pos empty, if_pos empty]
      rfl
    · have shorter : weight Char.utf8Size (cut Char.utf8Size 75 s).2 < weight Char.utf8Size s :=
        length_cut Char.utf8Size_pos (by decide) empty
      rw [if_neg empty, if_neg empty, if_pos rfl, splitAt_takeLen (by decide) empty]
      have rest := @foldLoop_later fuel (cut Char.utf8Size 75 s).2 (by
        rw [len_eq_weight] at enough ⊢
        omega)
      simp only [bind, Except.bind, rest]
      simp [terminate, physical]

/-- The chunks of a line: the whole line where it is not too long. -/
def chunksOf (line : Str) : List Str :=
  if len line ≤ 75 then [line] else chunks Char.utf8Size 74 (len line) 75 line

theorem foldLine_eq (line : Str) : foldLine line = .ok (terminate (physical (chunksOf line))) := by
  rw [foldLine, chunksOf]
  by_cases empty : line = []
  · subst empty
    rfl
  rw [if_neg empty]
  split
  · simp [physical, terminate]
  · exact foldLoop_first (Nat.le_refl _)

theorem chunksOf_flatten (line : Str) : (chunksOf line).flatten = line := by
  rw [chunksOf]
  split
  · simp
  · exact chunks_flatten Char.utf8Size_pos (by decide) (by decide) (Nat.le_refl _)

/-- The physical lines of a line keep to 75 octets, just where a character of the line ends at
each place at which it is folded. -/
theorem physical_short_iff (line : Str) :
    (∀ l ∈ physical (chunksOf line), len l ≤ 75) ↔
      ∀ k, 75 + 74 * k < len line → Boundary Char.utf8Size (75 + 74 * k) line := by
  have continued (c : Str) : len (' ' :: c) = 1 + len c := weight_cons ' ' c
  have fits (pieces : List Str) :
      (∀ l ∈ physical pieces, len l ≤ 75) ↔ Fit Char.utf8Size 75 74 pieces := by
    cases pieces with
    | nil => exact iff_of_true (List.forall_mem_nil _) trivial
    | cons first rest =>
      unfold physical
      rw [List.forall_mem_cons, List.forall_mem_map, Fit]
      apply and_congr Iff.rfl
      apply forall₂_congr
      intro c _
      rw [continued]
      show 1 + len c ≤ 75 ↔ len c ≤ 74
      omega
  rw [fits, chunksOf]
  split
  · next short =>
    refine iff_of_true ⟨short, List.forall_mem_nil _⟩ fun k within => ?_
    omega
  · exact fit_chunks_iff Char.utf8Size_pos (by decide) (by decide) (Nat.le_refl _)

/-! ### Lines that end in CRLF -/

/-- A text without a CRLF in it. -/
def Unbroken (line : Str) : Prop := ¬crlf <:+: line

theorem crlf_front_iff (c : Char) (rest : Str) :
    crlf <+: c :: rest ↔ c = '\r' ∧ rest.head? = some '\n' := by
  rw [crlf, List.cons_prefix_cons, eq_comm]
  apply and_congr_right
  rintro -
  cases rest with
  | nil => simp
  | cons d rest => simp [List.cons_prefix_cons, eq_comm]

theorem unbroken_cons_iff (c : Char) (rest : Str) :
    Unbroken (c :: rest) ↔ ¬(c = '\r' ∧ rest.head? = some '\n') ∧ Unbroken rest := by
  rw [Unbroken, List.infix_cons_iff, crlf_front_iff, not_or]
  rfl

theorem Unbroken.of_infix {line part : Str} (unbroken : Unbroken line) (inside : part <:+: line) :
    Unbroken part := fun broken => unbroken (broken.trans inside)

theorem unbroken_blank {line : Str} (unbroken : Unbroken line) : Unbroken (' ' :: line) :=
  (unbroken_cons_iff ' ' line).mpr ⟨fun both => absurd both.1 (by decide), unbroken⟩

theorem splitCrlf_cons {c : Char} {rest : Str} (inside : ¬(c = '\r' ∧ rest.head? = some '\n')) :
    splitCrlf (c :: rest) = (c :: (splitCrlf rest).headD []) :: (splitCrlf rest).tail := by
  rw [splitCrlf]
  · cases splitCrlf rest with
    | nil => rfl
    | cons piece pieces => rfl
  · rintro tail rfl rfl
    exact inside ⟨rfl, rfl⟩

theorem splitCrlf_crlf (rest : Str) : splitCrlf (crlf ++ rest) = [] :: splitCrlf rest := rfl

/-- A text begins with a line end or with a character of its first line. -/
theorem crlf_cases (c : Char) (rest : Str) :
    (∃ later, c :: rest = crlf ++ later) ∨ ¬(c = '\r' ∧ rest.head? = some '\n') := by
  by_cases both : c = '\r' ∧ rest.head? = some '\n'
  · obtain ⟨rfl, feed⟩ := both
    obtain ⟨later, rfl⟩ := List.head?_eq_some_iff.mp feed
    exact .inl ⟨later, rfl⟩
  · exact .inr both

theorem splitCrlf_ne_nil (s : Str) : splitCrlf s ≠ [] := by
  cases s with
  | nil => exact List.cons_ne_nil _ _
  | cons c rest =>
    rcases crlf_cases c rest with ⟨later, shape⟩ | inside
    · rw [shape, splitCrlf_crlf]
      exact List.cons_ne_nil _ _
    · rw [splitCrlf_cons inside]
      exact List.cons_ne_nil _ _

/-- The lines with their line ends are the text and a line end. -/
theorem terminate_splitCrlf (s : Str) : terminate (splitCrlf s) = s ++ crlf := by
  induction s using splitCrlf.induct with
  | case1 => rfl
  | case2 rest ih =>
    show crlf ++ terminate (splitCrlf rest) = crlf ++ (rest ++ crlf)
    rw [ih]
  | case3 c rest other piece pieces found ih | case4 c rest other found ih =>
    have inside : ¬(c = '\r' ∧ rest.head? = some '\n') := by
      rintro ⟨rfl, feed⟩
      obtain ⟨later, rfl⟩ := List.head?_eq_some_iff.mp feed
      exact other later rfl rfl
    obtain ⟨first, lines, shape⟩ := List.exists_cons_of_ne_nil (splitCrlf_ne_nil rest)
    rw [shape] at ih
    rw [splitCrlf_cons inside, shape]
    exact congrArg (c :: ·) ih

theorem splitCrlf_injective {a b : Str} (same : splitCrlf a = splitCrlf b) : a = b := by
  have texts := congrArg terminate same
  rw [terminate_splitCrlf, terminate_splitCrlf] at texts
  exact List.append_cancel_right texts

theorem head_splitCrlf {s : Str} {d : Char} (first : ((splitCrlf s).headD []).head? = some d) :
    s.head? = some d := by
  cases s with
  | nil => cases first
  | cons c rest =>
    rcases crlf_cases c rest with ⟨later, shape⟩ | inside
    · rw [shape, splitCrlf_crlf] at first
      cases first
    · rwa [splitCrlf_cons inside] at first

theorem splitCrlf_unbroken (s : Str) : ∀ l ∈ splitCrlf s, Unbroken l := by
  induction s using splitCrlf.induct with
  | case1 =>
    intro l member
    rw [List.mem_singleton.mp member]
    exact fun broken => absurd (List.infix_nil.mp broken) (by decide)
  | case2 rest ih =>
    intro l member
    rcases List.mem_cons.mp member with rfl | later
    · exact fun broken => absurd (List.infix_nil.mp broken) (by decide)
    · exact ih l later
  | case3 c rest other piece pieces found ih | case4 c rest other found ih =>
    have inside : ¬(c = '\r' ∧ rest.head? = some '\n') := by
      rintro ⟨rfl, feed⟩
      obtain ⟨later, rfl⟩ := List.head?_eq_some_iff.mp feed
      exact other later rfl rfl
    obtain ⟨first, lines, shape⟩ := List.exists_cons_of_ne_nil (splitCrlf_ne_nil rest)
    have head := @head_splitCrlf rest '\n'
    rw [splitCrlf_cons inside]
    rw [shape] at ih head ⊢
    rw [List.forall_mem_cons] at ih
    exact List.forall_mem_cons.mpr ⟨(unbroken_cons_iff c first).mpr
      ⟨fun both => inside ⟨both.1, head both.2⟩, ih.1⟩, ih.2⟩

theorem splitCrlf_line {line : Str} (unbroken : Unbroken line) (rest : Str) :
    splitCrlf (line ++ (crlf ++ rest)) = line :: splitCrlf rest := by
  induction line with
  | nil => rfl
  | cons c line ih =>
    obtain ⟨inside, later⟩ := (unbroken_cons_iff c line).mp unbroken
    have apart : ¬(c = '\r' ∧ (line ++ (crlf ++ rest)).head? = some '\n') := by
      rintro ⟨return_, feed⟩
      cases line with
      | nil => exact absurd (Option.some.inj feed) (by decide)
      | cons d line => exact inside ⟨return_, feed⟩
    rw [List.cons_append, splitCrlf_cons apart, ih later]
    rfl

theorem terminate_cons (line : Str) (lines : List Str) :
    terminate (line :: lines) = line ++ (crlf ++ terminate lines) := by
  simp [terminate]

theorem terminate_append (a b : List Str) : terminate (a ++ b) = terminate a ++ terminate b := by
  simp [terminate]

theorem splitCrlf_terminate {lines : List Str} (unbroken : ∀ l ∈ lines, Unbroken l) :
    splitCrlf (terminate lines) = lines ++ [[]] := by
  induction lines with
  | nil => rfl
  | cons line lines ih =>
    rw [terminate_cons, splitCrlf_line (unbroken line List.mem_cons_self),
      ih fun l member => unbroken l (List.mem_cons_of_mem line member), List.cons_append]

theorem contentLines_append (x : Str) : contentLines (x ++ crlf) = splitCrlf x := by
  have stripped : stripSuffix crlf (x ++ crlf) = some x := by
    rw [stripSuffix, if_pos (List.isSuffixOf_iff_suffix.mpr (List.suffix_append x crlf)),
      List.length_append, Nat.add_sub_cancel, List.take_left]
  rw [contentLines, stripped]
  rfl

/-- Lines that are written with their line ends are read back. -/
theorem contentLines_terminate {lines : List Str} (nonempty : lines ≠ [])
    (unbroken : ∀ l ∈ lines, Unbroken l) : contentLines (terminate lines) = lines := by
  obtain ⟨front, last, rfl⟩ := (List.eq_nil_or_concat' lines).resolve_left nonempty
  have text : terminate (front ++ [last]) = terminate front ++ last ++ crlf := by
    simp [terminate]
  have whole := splitCrlf_terminate unbroken
  rw [text, ← terminate_splitCrlf, splitCrlf_terminate (splitCrlf_unbroken _)] at whole
  rw [text, contentLines_append]
  exact List.append_cancel_right whole

theorem contentLines_unbroken (text : Str) : ∀ l ∈ contentLines text, Unbroken l :=
  splitCrlf_unbroken _

theorem contentLines_ne_nil (text : Str) : contentLines text ≠ [] := splitCrlf_ne_nil _

/-! ### The folded text -/

/-- The physical lines of a text. -/
def physicalLines (input : Str) : List Str :=
  (contentLines input).flatMap fun line => physical (chunksOf line)

theorem foldlM_foldLine (lines : List Str) (out : Str) :
    lines.foldlM (fun out line => (foldLine line).map (out ++ ·)) out =
      .ok (out ++ terminate (lines.flatMap fun line => physical (chunksOf line))) := by
  induction lines generalizing out with
  | nil =>
    rw [List.flatMap_nil, terminate, List.flatMap_nil, List.append_nil]
    rfl
  | cons line lines ih =>
    rw [List.foldlM_cons, foldLine_eq, List.flatMap_cons, terminate_append, ← List.append_assoc]
    exact ih _

/-- No character is split. -/
theorem foldLines_eq (input : Str) : foldLines input = .ok (terminate (physicalLines input)) :=
  foldlM_foldLine _ []

theorem chunksOf_cons (line : Str) :
    ∃ first rest, chunksOf line = first :: rest ∧ (line ≠ [] → first ≠ []) := by
  rw [chunksOf]
  split
  · exact ⟨line, [], rfl, id⟩
  · next long =>
    have filled : line ≠ [] := by
      rintro rfl
      exact long (by decide)
    cases bytes : len line with
    | zero => omega
    | succ fuel =>
      rw [chunks, if_neg filled]
      exact ⟨_, _, rfl, fun _ => cut_ne_nil (by decide) filled⟩

theorem physicalLines_unbroken (input : Str) : ∀ l ∈ physicalLines input, Unbroken l := by
  intro l member
  obtain ⟨line, among, inside⟩ := List.mem_flatMap.mp member
  have unbroken := contentLines_unbroken input line among
  have piece (c : Str) (chunk : c ∈ chunksOf line) : Unbroken c := by
    apply unbroken.of_infix
    rw [← chunksOf_flatten line]
    exact List.infix_of_mem_flatten chunk
  cases pieces : chunksOf line with
  | nil =>
    rw [pieces] at inside
    cases inside
  | cons first rest =>
    rw [pieces] at inside piece
    rcases List.mem_cons.mp inside with rfl | later
    · exact piece l List.mem_cons_self
    · obtain ⟨c, chunk, rfl⟩ := List.mem_map.mp later
      exact unbroken_blank (piece c (List.mem_cons_of_mem first chunk))

theorem physicalLines_ne_nil (input : Str) : physicalLines input ≠ [] := by
  obtain ⟨line, lines, shape⟩ := List.exists_cons_of_ne_nil (contentLines_ne_nil input)
  obtain ⟨first, rest, pieces, -⟩ := chunksOf_cons line
  rw [physicalLines, shape, List.flatMap_cons, pieces]
  exact List.cons_ne_nil _ _

/-! ### The unfolded text -/

theorem unfoldText_cons {c : Char} {rest : Str} (other : ¬crlf ++ [' '] <+: c :: rest) :
    unfoldText (c :: rest) = c :: unfoldText rest := by
  rw [unfoldText]
  rintro tail rfl rfl
  exact other ⟨tail, rfl⟩

theorem unfoldText_append {a b : Str} (unbroken : Unbroken a) (apart : b.head? ≠ some '\n') :
    unfoldText (a ++ b) = a ++ unfoldText b := by
  induction a with
  | nil => rfl
  | cons c a ih =>
    obtain ⟨inside, later⟩ := (unbroken_cons_iff c a).mp unbroken
    have other : ¬crlf ++ [' '] <+: c :: (a ++ b) := by
      intro initial
      obtain ⟨return_, feed⟩ := (crlf_front_iff c (a ++ b)).mp
        ((List.prefix_append crlf [' ']).trans initial)
      cases a with
      | nil => exact apart feed
      | cons d a => exact inside ⟨return_, feed⟩
    rw [List.cons_append, unfoldText_cons other, ih later]
    rfl

theorem unfoldText_fold (rest : Str) : unfoldText (crlf ++ ' ' :: rest) = unfoldText rest := rfl

theorem unfoldText_crlf {rest : Str} (other : rest.head? ≠ some ' ') :
    unfoldText (crlf ++ rest) = crlf ++ unfoldText rest := by
  have blank : ¬crlf ++ [' '] <+: '\r' :: '\n' :: rest := by
    rintro ⟨tail, same⟩
    apply other
    have rests : ' ' :: tail = rest := by simpa [crlf] using same
    rw [← rests]
    rfl
  show unfoldText ('\r' :: '\n' :: rest) = _
  rw [unfoldText_cons blank, unfoldText_cons]
  · rfl
  · intro initial
    exact absurd (List.cons_prefix_cons.mp initial).1 (by decide)

theorem head_crlf (rest : Str) : (crlf ++ rest).head? ≠ some '\n' :=
  fun same => absurd (Option.some.inj same) (by decide)

theorem unfoldText_physical {first : Str} {chunks : List Str}
    (unbroken : Unbroken (first ++ chunks.flatten)) (rest : Str) :
    unfoldText (first ++ (crlf ++ (terminate (chunks.map (' ' :: ·)) ++ rest))) =
      first ++ chunks.flatten ++ unfoldText (crlf ++ rest) := by
  induction chunks generalizing first with
  | nil =>
    rw [List.flatten_nil, List.append_nil] at unbroken ⊢
    exact unfoldText_append unbroken (head_crlf _)
  | cons chunk chunks ih =>
    rw [List.flatten_cons] at unbroken ⊢
    have here := unbroken.of_infix (List.prefix_append first _).isInfix
    have later := unbroken.of_infix (List.suffix_append first _).isInfix
    rw [List.map_cons, terminate_cons, unfoldText_append here (head_crlf _)]
    have text : crlf ++ ((' ' :: chunk) ++ (crlf ++ terminate (chunks.map (' ' :: ·))) ++ rest) =
        crlf ++ ' ' :: (chunk ++ (crlf ++ (terminate (chunks.map (' ' :: ·)) ++ rest))) := by
      simp only [List.append_assoc, List.cons_append]
    rw [text, unfoldText_fold, ih later, List.append_assoc, List.append_assoc, List.append_assoc]

/-- Folding shows in no unfolded text. -/
theorem unfoldText_terminate {lines : List Str} (unbroken : ∀ l ∈ lines, Unbroken l) :
    unfoldText (terminate (lines.flatMap fun line => physical (chunksOf line))) =
        unfoldText (terminate lines) ∧
      ((terminate (lines.flatMap fun line => physical (chunksOf line))).head? = some ' ' ↔
        (terminate lines).head? = some ' ') := by
  induction lines with
  | nil => exact ⟨rfl, Iff.rfl⟩
  | cons line lines ih =>
    obtain ⟨same, heads⟩ := ih fun l member => unbroken l (List.mem_cons_of_mem line member)
    have here := unbroken line List.mem_cons_self
    obtain ⟨first, rest, pieces, filled⟩ := chunksOf_cons line
    have whole := chunksOf_flatten line
    rw [pieces, List.flatten_cons] at whole
    rw [List.flatMap_cons, terminate_append, terminate_cons line, pieces]
    generalize terminate (lines.flatMap fun line => physical (chunksOf line)) = folded at same heads
    generalize terminate lines = text at same heads
    have shape : terminate (physical (first :: rest)) ++ folded =
        first ++ (crlf ++ (terminate (rest.map (' ' :: ·)) ++ folded)) := by
      unfold physical
      rw [terminate_cons, List.append_assoc, List.append_assoc]
    have ended : unfoldText (crlf ++ folded) = unfoldText (crlf ++ text) := by
      by_cases blank : text.head? = some ' '
      · obtain ⟨later, rfl⟩ := List.head?_eq_some_iff.mp blank
        obtain ⟨later', rfl⟩ := List.head?_eq_some_iff.mp (heads.mpr blank)
        exact (List.cons.inj same).2
      · rw [unfoldText_crlf blank, unfoldText_crlf fun starts => blank (heads.mp starts), same]
    rw [shape]
    constructor
    · rw [unfoldText_physical (by rwa [whole]), whole, ended, unfoldText_append here (head_crlf _)]
    · cases first with
      | nil =>
        have empty : line = [] := by
          by_contra some_
          exact filled some_ rfl
        rw [empty]
        exact Iff.rfl
      | cons c first =>
        rw [← whole]
        exact Iff.rfl

theorem unfoldText_end (s : Str) : unfoldText (s ++ crlf) = unfoldText s ++ crlf := by
  induction s using unfoldText.induct with
  | case1 rest ih => exact ih
  | case2 c rest other ih =>
    have apart : ¬crlf ++ [' '] <+: c :: rest := by
      rintro ⟨tail, same⟩
      obtain ⟨rfl, shape⟩ := List.cons.inj same
      exact other tail rfl shape.symm
    have further : ¬crlf ++ [' '] <+: c :: (rest ++ crlf) := by
      intro initial
      have long : (crlf ++ [' ']).length ≤ (c :: rest).length ∨ rest = [] ∨ ∃ d, rest = [d] := by
        match rest with
        | [] => exact .inr (.inl rfl)
        | [d] => exact .inr (.inr ⟨d, rfl⟩)
        | d :: e :: rest =>
          left
          simp [crlf]
      rcases long with long | rfl | ⟨d, rfl⟩
      · exact apart (List.prefix_of_prefix_length_le initial (List.prefix_append (c :: rest) crlf) long)
      · have feed := ((crlf_front_iff c crlf).mp
          ((List.prefix_append crlf [' ']).trans initial)).2
        exact absurd (Option.some.inj feed) (by decide)
      · obtain ⟨tail, same⟩ := initial
        have third := congrArg (·[2]?) same
        exact absurd (Option.some.inj third) (by decide)
    rw [List.cons_append, unfoldText_cons further, unfoldText_cons apart, ih]
    rfl
  | case3 => rfl

theorem unfoldText_length (s : Str) : (unfoldText s).length ≤ s.length := by
  induction s using unfoldText.induct with
  | case1 rest ih =>
    rw [unfoldText]
    simp only [List.length_cons]
    omega
  | case2 c rest other ih =>
    rw [unfoldText]
    · simpa using ih
    · exact other
  | case3 => exact Nat.le_refl _

/-- A text is its own unfolding, just where no line end stands before a space. -/
theorem unfoldText_eq_iff (s : Str) : unfoldText s = s ↔ ¬crlf ++ [' '] <:+: s := by
  induction s using unfoldText.induct with
  | case1 rest ih =>
    apply iff_of_false
    · intro same
      have shorter := unfoldText_length rest
      have sizes := congrArg List.length same
      rw [unfoldText] at sizes
      simp only [List.length_cons] at sizes
      omega
    · exact fun none_ => none_ (List.prefix_append (crlf ++ [' ']) rest).isInfix
  | case2 c rest other ih =>
    have apart : ¬crlf ++ [' '] <+: c :: rest := by
      rintro ⟨tail, same⟩
      obtain ⟨rfl, shape⟩ := List.cons.inj same
      exact other tail rfl shape.symm
    rw [unfoldText_cons apart, List.cons.injEq, eq_self_iff_true, true_and, ih,
      List.infix_cons_iff, or_iff_right apart]
  | case3 => exact iff_of_true rfl fun inside => absurd (List.infix_nil.mp inside) (by decide)

/-! ### Folding -/

/-- What is asked of a folded text: short lines, and the content lines back. No character is
split where the folding ends without a panic. -/
def Folds (input : Str) : Prop :=
  ∃ out, foldLines input = .ok out ∧ (∀ l ∈ contentLines out, len l ≤ 75) ∧
    contentLines (unfoldText out) = contentLines input

/-- The text without its last line end. -/
theorem exists_trimmed (input : Str) : ∃ t, contentLines input = splitCrlf t ∧
    (input = t ∨ input = t ++ crlf) := by
  by_cases ended : crlf <:+ input
  · obtain ⟨t, rfl⟩ := ended
    exact ⟨t, contentLines_append t, .inr rfl⟩
  · have kept : stripSuffix crlf input = none :=
      if_neg fun suffix => ended (List.isSuffixOf_iff_suffix.mp suffix)
    refine ⟨input, ?_, .inl rfl⟩
    rw [contentLines, kept]
    rfl

/-- Folding does what is asked of it, just where a character ends at each place at which a line
is folded, and no line after the first begins with a space. -/
theorem folds_iff (input : Str) : Folds input ↔
    (∀ line ∈ contentLines input, ∀ k, 75 + 74 * k < len line →
      Boundary Char.utf8Size (75 + 74 * k) line) ∧ ¬crlf ++ [' '] <:+: input := by
  have read : contentLines (terminate (physicalLines input)) = physicalLines input :=
    contentLines_terminate (physicalLines_ne_nil input) (physicalLines_unbroken input)
  have short : (∀ l ∈ physicalLines input, len l ≤ 75) ↔
      ∀ line ∈ contentLines input, ∀ k, 75 + 74 * k < len line →
        Boundary Char.utf8Size (75 + 74 * k) line := by
    rw [physicalLines, List.forall_mem_flatMap]
    exact forall₂_congr fun line _ => physical_short_iff line
  obtain ⟨t, lines, shape⟩ := exists_trimmed input
  have unfolded : unfoldText (terminate (physicalLines input)) = unfoldText t ++ crlf := by
    have same := (unfoldText_terminate (contentLines_unbroken input)).1
    rw [lines, terminate_splitCrlf, unfoldText_end, ← lines] at same
    exact same
  have restored : contentLines (unfoldText (terminate (physicalLines input))) =
      contentLines input ↔ ¬crlf ++ [' '] <:+: input := by
    rw [unfolded, contentLines_append, lines, ← unfoldText_eq_iff]
    have trimmed : splitCrlf (unfoldText t) = splitCrlf t ↔ unfoldText t = t :=
      ⟨splitCrlf_injective, congrArg splitCrlf⟩
    rw [trimmed]
    rcases shape with rfl | rfl
    · rfl
    · rw [unfoldText_end, List.append_left_inj]
  rw [← short, ← restored, Folds]
  constructor
  · rintro ⟨out, folded, fits, back⟩
    rw [foldLines_eq] at folded
    cases folded
    rw [read] at fits
    exact ⟨fits, back⟩
  · intro ⟨fits, back⟩
    exact ⟨_, foldLines_eq input, by rwa [read], back⟩

/-- A character of two octets across the place at which the line is folded. -/
theorem accent_across_fold :
    ¬Folds (List.replicate 74 'x' ++ "é!".toList) ∧
      (foldLines (List.replicate 74 'x' ++ "é!".toList)).toOption.map
        (fun out => (contentLines out).map len) = some [76, 2] := by
  have read : (foldLines (List.replicate 74 'x' ++ "é!".toList)).toOption.map
      (fun out => (contentLines out).map len) = some [76, 2] := by decide +kernel
  refine ⟨?_, read⟩
  rintro ⟨out, folded, short, -⟩
  rw [folded] at read
  have lengths : (contentLines out).map len = [76, 2] := Option.some.inj read
  have long : 76 ∈ (contentLines out).map len := by
    rw [lengths]
    exact List.mem_cons_self
  obtain ⟨l, member, size⟩ := List.mem_map.mp long
  have bound := short l member
  omega

end Expresso.Imip
