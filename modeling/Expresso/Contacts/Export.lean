import Expresso.Contacts.VCard

/-! Many cards in one text: each card of a list is found again, with the fields that it had. -/

namespace Expresso.Contacts
open Text CalDav
open Imap (lines)

/-- The unfolded lines of a card, without their line ends. -/
def body (raw : Str) : List Str := (lines (unfold raw)).map trimReturns

/-- The lines from a `BEGIN:VCARD` to the `END:VCARD` that closes it. -/
def IsBlock (block : List Str) : Prop :=
  ∃ first middle last, block = first :: (middle ++ [last]) ∧
    beginsCard first = true ∧ endsCard last = true ∧
    ∀ line ∈ middle, beginsCard line = false ∧ endsCard line = false

/-- One card: no line is blank, and the unfolded lines are one block. -/
structure IsCard (raw : Str) : Prop where
  noBlank : ∀ line ∈ lines raw, line ≠ []
  block : IsBlock (body raw)

/-! ### Texts end to end -/

theorem leads_iff (line : Str) : Leads line ↔ continues line = false := by
  unfold Leads continues
  cases line with
  | nil => simp
  | cons c rest => simp

theorem continues_split {rest piece : Str} {pieces : List Str}
    (shape : split '\n' rest = piece :: pieces) :
    continues piece = true → continues rest = true := by
  cases rest with
  | nil =>
    rw [split] at shape
    rw [← (List.cons.inj shape).1]
    exact id
  | cons c rest =>
    obtain ⟨first, others, later⟩ := split_nonempty rest
    rw [split, later] at shape
    split_ifs at shape with ends
    · rw [← (List.cons.inj shape).1]
      intro begins
      cases begins
    · rw [← (List.cons.inj shape).1]
      exact id

theorem unfoldLine_concat (out : List Str) (acc next : Str) :
    unfoldLine (out ++ [acc]) next =
      if continues next then out ++ [acc ++ bare next.tail] else out ++ [acc] ++ [bare next] := by
  rw [unfoldLine_append out (List.cons_ne_nil acc []), unfoldLine_single]
  split_ifs with blank
  · rfl
  · rw [List.append_assoc]
    rfl

theorem unfoldLine_plain {out : List Str} {next : Str} (plain : continues next = false) :
    unfoldLine out next = out ++ [bare next] := by
  rcases out.eq_nil_or_concat' with rfl | ⟨front, last, rfl⟩
  · exact unfoldLine_first next
  · rw [unfoldLine_concat, plain, if_neg Bool.false_ne_true]

theorem unfoldLines_ne_nil (raw : Str) : unfoldLines raw ≠ [] := by
  unfold unfoldLines
  obtain ⟨front, last, shape⟩ := (List.eq_nil_or_concat' _).resolve_left (split_ne_nil '\n' raw)
  rw [shape, List.foldl_append]
  exact unfoldLine_ne_nil _ last

theorem unfoldLines_append (front : Str) {rest : Str} (plain : continues rest = false) :
    unfoldLines (front ++ '\n' :: rest) = unfoldLines front ++ unfoldLines rest := by
  obtain ⟨piece, pieces, shape⟩ := split_nonempty rest
  have first : continues piece = false := by
    by_contra blank
    rw [continues_split shape (by simpa using blank)] at plain
    cases plain
  calc unfoldLines (front ++ '\n' :: rest)
      = (piece :: pieces).foldl unfoldLine (unfoldLines front) := by
        rw [unfoldLines, split_append_sep, List.foldl_append, shape]
        rfl
    _ = pieces.foldl unfoldLine (unfoldLines front ++ [bare piece]) := by
        rw [List.foldl_cons, unfoldLine_plain first]
    _ = unfoldLines front ++ pieces.foldl unfoldLine [bare piece] :=
        foldl_unfoldLine_append _ (List.cons_ne_nil _ _) pieces
    _ = unfoldLines front ++ unfoldLines rest := by
        rw [unfoldLines.eq_1 rest, shape, List.foldl_cons, unfoldLine_first]

theorem cardLines_append (front : Str) {rest : Str} (plain : continues rest = false) :
    cardLines (front ++ '\n' :: rest) = cardLines front ++ cardLines rest := by
  unfold cardLines
  rw [unfoldLines_append front plain, List.map_append]

theorem cardLines_nil : cardLines [] = [[]] := rfl

/-! ### A card and its line end -/

theorem bare_front (piece : Str) : bare piece <+: piece := by
  unfold bare
  rw [stripSuffix]
  split
  · exact List.take_prefix _ piece
  · exact List.prefix_rfl

/-- A line that continues none and can be continued. -/
def Opens (line : Str) : Prop := line ≠ [] ∧ Leads line

/-- Without blank lines a continuation never starts a line. -/
theorem foldl_opens {pieces out : List Str} {last : Str} (noBlank : ∀ p ∈ pieces, bare p ≠ [])
    (opens : ∀ line ∈ out ++ [last], Opens line) :
    ∀ line ∈ pieces.foldl unfoldLine (out ++ [last]), Opens line := by
  induction pieces generalizing out last with
  | nil => exact opens
  | cons next rest ih =>
    have later : ∀ p ∈ rest, bare p ≠ [] := fun p member =>
      noBlank p (List.mem_cons_of_mem next member)
    rw [List.foldl_cons, unfoldLine_concat]
    split_ifs with blank
    · apply ih later
      intro line member
      rcases List.mem_append.mp member with old | new
      · exact opens line (List.mem_append_left _ old)
      · obtain ⟨some, leads⟩ := opens last (List.mem_append_right _ List.mem_cons_self)
        rw [List.mem_singleton.mp new]
        refine ⟨by simp [some], ?_⟩
        rw [leads_iff] at leads ⊢
        rwa [continues_append some]
    · apply ih later
      intro line member
      rcases List.mem_append.mp member with old | new
      · exact opens line old
      · have some := noBlank next List.mem_cons_self
        rw [List.mem_singleton.mp new]
        refine ⟨some, ?_⟩
        rw [leads_iff]
        exact continues_prefix (bare_front next) (by simpa using blank)

theorem unfoldLines_opens {text : Str} (noBlank : ∀ p ∈ split '\n' text, bare p ≠ [])
    (plain : continues text = false) : ∀ line ∈ unfoldLines text, Opens line := by
  obtain ⟨piece, pieces, shape⟩ := split_nonempty text
  rw [shape] at noBlank
  have first : continues piece = false := by
    by_contra blank
    rw [continues_split shape (by simpa using blank)] at plain
    cases plain
  have some := noBlank piece List.mem_cons_self
  rw [unfoldLines, shape, List.foldl_cons, unfoldLine_first]
  apply @foldl_opens pieces [] _ fun p member => noBlank p (List.mem_cons_of_mem piece member)
  intro line member
  rw [List.nil_append, List.mem_singleton] at member
  rw [member]
  refine ⟨some, ?_⟩
  rw [leads_iff]
  exact continues_prefix (bare_front piece) first

/-- The last line of a text. -/
theorem split_last (raw : Str) : ∃ before last, split '\n' raw = before ++ [last] ∧
    '\n' ∉ last ∧ (before = [] ∧ raw = last ∨
      ∃ front, raw = front ++ '\n' :: last ∧ before = split '\n' front) := by
  induction raw with
  | nil => exact ⟨[], [], rfl, List.not_mem_nil, Or.inl ⟨rfl, rfl⟩⟩
  | cons c rest ih =>
    obtain ⟨before, last, shape, oneLine, whole | ⟨front, text, front'⟩⟩ := ih
    · obtain ⟨rfl, rfl⟩ := whole
      by_cases ends : c = '\n'
      · refine ⟨[[]], rest, ?_, oneLine, Or.inr ⟨[], ?_, rfl⟩⟩
        · rw [split, if_pos ends, shape]
          rfl
        · rw [ends]
          rfl
      · have here : '\n' ∉ c :: rest := by simp [oneLine, Ne.symm ends]
        exact ⟨[], c :: rest, split_of_not_mem here, here, Or.inl ⟨rfl, rfl⟩⟩
    · refine ⟨split '\n' (c :: front), last, ?_, oneLine, Or.inr ⟨c :: front, ?_, rfl⟩⟩
      · rw [text, ← List.cons_append, split_append_sep, split_of_not_mem oneLine]
      · rw [text]
        rfl

theorem split_append_return {raw last : Str} {before : List Str}
    (shape : split '\n' raw = before ++ [last]) (oneLine : '\n' ∉ last) :
    split '\n' (raw ++ ['\r']) = before ++ [last ++ ['\r']] := by
  have absent : '\n' ∉ last ++ ['\r'] := by simpa using oneLine
  obtain ⟨before', last', shape', _, place⟩ := split_last raw
  obtain ⟨rfl, same⟩ := List.append_inj' (shape.symm.trans shape') rfl
  rw [List.singleton_inj] at same
  subst same
  rcases place with ⟨rfl, rfl⟩ | ⟨front, rfl, rfl⟩
  · exact split_of_not_mem absent
  · rw [List.append_assoc, List.cons_append, split_append_sep, split_of_not_mem absent]

/-- The text of a card up to its last line feed has the lines of the card. -/
theorem endCard_eq {raw : Str} (some : raw ≠ []) :
    ∃ text, endCard raw = text ++ ['\n'] ∧ (split '\n' text).map bare = lines raw ∧
      (raw = text ++ ['\n'] ∨ text = raw ++ ['\r']) := by
  unfold endCard
  by_cases ended : ['\n'].isSuffixOf raw = true
  · obtain ⟨text, rfl⟩ := List.isSuffixOf_iff_suffix.mp ended
    refine ⟨text, if_pos ended, ?_, Or.inl rfl⟩
    unfold lines
    rw [split_append_sep]
    simp [split, bare]
  · refine ⟨raw ++ ['\r'], ?_, ?_, Or.inr rfl⟩
    · rw [if_neg ended, List.append_assoc]
      rfl
    · obtain ⟨before, last, shape, oneLine, place⟩ := split_last raw
      have someLast : last ≠ [] := by
        rintro rfl
        rcases place with ⟨_, rfl⟩ | ⟨front, text, _⟩
        · exact some rfl
        · rw [text] at ended
          exact ended (List.isSuffixOf_iff_suffix.mpr (List.suffix_append front _))
      have final : bare (last ++ ['\r']) = last := by
        unfold bare
        rw [stripReturn_append]
        rfl
      unfold lines
      rw [split_append_return shape oneLine, shape, List.map_append]
      simp only [List.dropLast_concat, List.getLast?_concat, Option.toList_some, List.map_cons,
        final]
      rw [List.filter_cons_of_pos (by simp [someLast])]
      rfl

/-- The lines that delimit a card, in lower case. -/
theorem delimiter_facts : toAsciiLowercase "BEGIN:VCARD".toList = "begin:vcard".toList ∧
    toAsciiLowercase "BEGIN:VCARD".toList ≠ toAsciiLowercase "END:VCARD".toList := by
  decide

theorem begins_leads {line : Str} (begins : beginsCard line = true) : continues line = false := by
  cases line with
  | nil => rfl
  | cons c rest =>
    have same : toAsciiLowercase (c :: rest) = "begin:vcard".toList :=
      (of_decide_eq_true begins).trans delimiter_facts.1
    unfold continues
    simp only [Bool.or_eq_false_iff, decide_eq_false_iff_not]
    refine ⟨?_, ?_⟩
    · rintro rfl
      exact absurd (List.cons.inj same).1 (by decide)
    · rintro rfl
      exact absurd (List.cons.inj same).1 (by decide)

theorem lines_head {text piece first : Str} {pieces rest : List Str}
    (shape : split '\n' text = piece :: pieces) (found : lines text = first :: rest) :
    first <+: piece := by
  unfold lines at found
  rw [shape] at found
  cases pieces with
  | nil =>
    cases piece with
    | nil => cases found
    | cons c tail =>
      rw [← (List.cons.inj found).1]
      exact List.prefix_rfl
  | cons next others =>
    rw [← (List.cons.inj found).1]
    exact bare_front piece

/-- A text whose first line begins a card does not continue the text before it. -/
theorem continues_of_begins {raw first : Str} {rest : List Str} (shape : body raw = first :: rest)
    (begins : beginsCard first = true) : continues raw = false := by
  by_contra blank
  rw [Bool.not_eq_false] at blank
  obtain ⟨c, text, kind⟩ := continues_tail blank
  have other : c ≠ '\n' ∧ c ≠ '\r' := by
    rcases kind with rfl | rfl <;> decide
  have unfolded : unfold raw = c :: unfold raw.tail := by
    rw [text]
    exact unfold_cons other.1 fun same => absurd same other.2
  obtain ⟨piece, pieces, later⟩ := split_nonempty (unfold raw.tail)
  have pieces' : split '\n' (unfold raw) = (c :: piece) :: pieces := by
    rw [unfolded, split, if_neg other.1, later]
  obtain ⟨line, others, found, trimmed, -⟩ := List.map_eq_cons_iff.mp shape
  have initial : first <+: c :: piece := by
    rw [← trimmed]
    exact (trimEndMatches_initial '\r' line).trans (lines_head pieces' found)
  have leads := begins_leads begins
  cases first with
  | nil => exact absurd begins (by decide)
  | cons d tail =>
    rw [(List.cons_prefix_cons.mp initial).1] at leads
    unfold continues at leads
    rcases kind with rfl | rfl <;> cases leads

theorem body_plain (raw : Str) : ∀ line ∈ body raw, Plain line := by
  intro line member
  have among : line ∈ (split '\n' (unfold raw)).map trimReturns := by
    rcases lines_trimmed (unfold raw) with same | more
    · exact same ▸ member
    · exact more ▸ List.mem_append_left _ member
  obtain ⟨piece, inText, rfl⟩ := List.mem_map.mp among
  exact plain_trimEndMatches (not_mem_of_mem_split inText)

theorem unfoldLine_carriage (out : List Str) (line : Str) :
    (unfoldLine out (line ++ ['\r'])).map trimReturns = (unfoldLine out line).map trimReturns := by
  have same (acc rest : Str) :
      trimReturns (acc ++ bare (rest ++ ['\r'])) = trimReturns (acc ++ bare rest) := by
    rw [trim_append_bare, trim_append_bare, ← List.append_assoc]
    exact trimEndMatches_append '\r' (acc ++ rest)
  rcases out.eq_nil_or_concat' with rfl | ⟨front, last, rfl⟩
  · rw [unfoldLine_first, unfoldLine_first]
    exact congrArg (fun l => [l]) (same [] line)
  · rw [unfoldLine_concat, unfoldLine_concat]
    cases line with
    | nil => rfl
    | cons c rest =>
      rw [continues_append (List.cons_ne_nil c rest)]
      split_ifs
      · rw [List.map_append, List.map_append]
        exact congrArg (fun l => front.map trimReturns ++ [l]) (same last rest)
      · have other := congrArg (fun l => (front ++ [last]).map trimReturns ++ [l])
          (same [] (c :: rest))
        simpa only [List.map_append, List.map_cons, List.map_nil, List.nil_append] using other

theorem cardLines_return (raw : Str) : cardLines (raw ++ ['\r']) = cardLines raw := by
  obtain ⟨before, last, shape, oneLine, -⟩ := split_last raw
  unfold cardLines unfoldLines
  rw [split_append_return shape oneLine, shape, List.foldl_append, List.foldl_append]
  exact unfoldLine_carriage _ last

/-- The text of a card has its lines, none of them a continuation. -/
theorem card_text {raw : Str} (card : IsCard raw) :
    ∃ text, endCard raw = text ++ ['\n'] ∧ continues text = false ∧
      (cardLines text = body raw ∨ cardLines text = body raw ++ [[]]) ∧
      ∀ line ∈ body raw, line.getLast? ≠ some '\r' ∧ Leads line := by
  obtain ⟨first, middle, last, shape, begins, ends, -⟩ := card.block
  have plain := continues_of_begins shape begins
  have some : raw ≠ [] := by
    rintro rfl
    cases shape
  obtain ⟨text, whole, pieces, ended⟩ := endCard_eq some
  have cardLines_raw : cardLines raw = body raw ∨ cardLines raw = body raw ++ [[]] := by
    unfold cardLines body
    rw [← unfold_split]
    exact (lines_trimmed (unfold raw)).imp Eq.symm Eq.symm
  have sameLines : cardLines text = body raw ∨ cardLines text = body raw ++ [[]] := by
    rcases ended with rfl | rfl
    · rw [cardLines_append text rfl, cardLines_nil] at cardLines_raw
      rcases cardLines_raw with same | more
      · -- the last line would be empty
        rw [shape] at same
        have final := congrArg List.getLast? same
        rw [List.getLast?_concat, ← List.cons_append, List.getLast?_concat] at final
        rw [← Option.some.inj final] at ends
        exact absurd ends (by decide)
      · exact Or.inl (List.append_cancel_right more)
    · rwa [cardLines_return]
  have noBlank : ∀ p ∈ split '\n' text, bare p ≠ [] := fun p member =>
    card.noBlank (bare p) (pieces ▸ List.mem_map_of_mem member)
  have plainText : continues text = false := by
    rcases ended with rfl | rfl
    · exact continues_prefix (List.prefix_append text _) plain
    · rwa [continues_append some]
  refine ⟨text, whole, plainText, sameLines, fun line member => ?_⟩
  have among : line ∈ cardLines text := by
    rcases sameLines with same | more
    · exact same ▸ member
    · exact more ▸ List.mem_append_left _ member
  obtain ⟨open_, inText, rfl⟩ := List.mem_map.mp among
  have leads := (unfoldLines_opens noBlank plainText open_ inText).2
  refine ⟨getLast_trimEndMatches '\r' open_, ?_⟩
  rw [leads_iff] at leads ⊢
  exact continues_prefix (trimEndMatches_initial '\r' open_) leads

/-! ### The cards of a concatenation -/

theorem ends_of_begins {line : Str} (begins : beginsCard line = true)
    (ends : endsCard line = true) : False := by
  have first : toAsciiLowercase line = toAsciiLowercase "BEGIN:VCARD".toList :=
    of_decide_eq_true begins
  have second : toAsciiLowercase line = toAsciiLowercase "END:VCARD".toList :=
    of_decide_eq_true ends
  exact delimiter_facts.2 (first.symm.trans second)

/-- The scan takes a block out whole, whatever follows it. -/
theorem splitCards_block {block : List Str} (is : IsBlock block)
    (plain : ∀ line ∈ block, Plain line) (rest out : List Str) :
    splitCards (block ++ rest) none out = splitCards rest none (out ++ [terminated block]) := by
  obtain ⟨first, middle, last, rfl, begins, ends, inside⟩ := is
  have trimmed : ∀ line ∈ first :: (middle ++ [last]), trimEndMatches '\r' line = line :=
    fun line member => trimEndMatches_of_getLast (plain line member).noReturn
  have collect : ∀ buf : List Str, splitCards (middle ++ [last] ++ rest) (some buf) out =
      splitCards rest none (out ++ [joinLines (buf ++ middle ++ [last]) ++ ['\r', '\n']]) := by
    have kept : ∀ line ∈ middle ++ [last], trimEndMatches '\r' line = line := fun line member =>
      trimmed line (List.mem_cons_of_mem first member)
    clear trimmed plain
    induction middle with
    | nil =>
      intro buf
      have here := kept last List.mem_cons_self
      have other : beginsCard last = false := by
        by_contra both
        rw [Bool.not_eq_false] at both
        exact ends_of_begins both ends
      simp only [List.nil_append, List.singleton_append, splitCards, here, other, ends, if_true,
        Bool.false_eq_true, if_false, List.append_nil]
    | cons line middle ih =>
      intro buf
      have here := kept line List.mem_cons_self
      obtain ⟨other, open_⟩ := inside line List.mem_cons_self
      have later := ih (fun l member => inside l (List.mem_cons_of_mem line member))
        (fun l member => kept l (List.mem_cons_of_mem line member)) (buf ++ [line])
      simp only [List.cons_append, splitCards, here, other, open_, Bool.false_eq_true, if_false,
        Option.map_some]
      rw [later, List.append_assoc buf [line] middle, List.singleton_append]
  have here := trimmed first List.mem_cons_self
  rw [List.cons_append, splitCards, here, if_pos begins, collect [first],
    List.append_assoc [first] middle [last], List.singleton_append,
    joinLines_terminated (List.cons_ne_nil _ _)]

theorem splitCards_blank (rest out : List Str) :
    splitCards ([] :: rest) none out = splitCards rest none out := rfl

/-- The scan of the cards that are written one after the other. -/
theorem splitCards_concat {cards : List Str} (each : ∀ c ∈ cards, IsCard c) (out : List Str) :
    continues (concatVcards cards) = false ∧
      splitCards (cardLines (concatVcards cards)) none out =
        out ++ cards.map fun c => terminated (body c) := by
  induction cards generalizing out with
  | nil =>
    refine ⟨rfl, ?_⟩
    rw [List.map_nil, List.append_nil]
    rfl
  | cons card rest ih =>
    have here := each card List.mem_cons_self
    obtain ⟨plain, later⟩ := ih (fun c member => each c (List.mem_cons_of_mem card member))
      (out ++ [terminated (body card)])
    obtain ⟨text, ended, leads, sameLines, -⟩ := card_text here
    have whole : concatVcards (card :: rest) = text ++ '\n' :: concatVcards rest := by
      unfold concatVcards
      rw [List.flatMap_cons, ended, List.append_assoc]
      rfl
    refine ⟨?_, ?_⟩
    · rw [whole]
      cases text with
      | nil => rfl
      | cons c tail => exact leads
    · rw [whole, cardLines_append text plain]
      have block := splitCards_block here.block (body_plain card)
      calc splitCards (cardLines text ++ cardLines (concatVcards rest)) none out
          = splitCards (cardLines (concatVcards rest)) none (out ++ [terminated (body card)]) := by
            rcases sameLines with same | more
            · rw [same, block]
            · rw [more, List.append_assoc, block]
              exact splitCards_blank _ _
        _ = out ++ (card :: rest).map fun c => terminated (body c) := by
            rw [later, List.append_assoc]
            rfl

/-- Lines that end in CRLF and lead unfold to themselves, before what continues none. -/
theorem unfold_terminated {ls : List Str} (plain : ∀ line ∈ ls, Plain line)
    (leads : ∀ line ∈ ls, Leads line) {rest : Str} (opens : continues rest = false) :
    continues (terminated ls ++ rest) = false ∧
      unfold (terminated ls ++ rest) = ls.flatMap (· ++ ['\n']) ++ unfold rest := by
  induction ls with
  | nil => exact ⟨opens, rfl⟩
  | cons line others ih =>
    have here := plain line List.mem_cons_self
    obtain ⟨next, later⟩ := ih (fun l member => plain l (List.mem_cons_of_mem line member))
      fun l member => leads l (List.mem_cons_of_mem line member)
    have text : terminated (line :: others) ++ rest =
        (line ++ ['\r']) ++ '\n' :: (terminated others ++ rest) := by
      simp [terminated]
    have oneLine : '\n' ∉ line ++ ['\r'] := by simpa using here.oneLine
    constructor
    · have lead := (leads_iff line).mp (leads line List.mem_cons_self)
      rw [text]
      cases line with
      | nil => rfl
      | cons c tail => exact lead
    · have stripped : bare (line ++ ['\r']) = line := by
        unfold bare
        rw [stripReturn_append]
        rfl
      rw [text, unfold_line oneLine, stripped, afterEnd, next, if_neg Bool.false_ne_true, later,
        List.flatMap_cons, List.append_assoc, List.append_assoc]
      rfl

theorem lines_ended {ls : List Str} (oneLine : ∀ line ∈ ls, '\n' ∉ line) (rest : Str) :
    lines (ls.flatMap (· ++ ['\n']) ++ rest) = ls.map bare ++ lines rest := by
  have pieces : split '\n' (ls.flatMap (· ++ ['\n']) ++ rest) = ls ++ split '\n' rest := by
    induction ls with
    | nil => rfl
    | cons line others ih =>
      rw [List.flatMap_cons, List.append_assoc, List.append_assoc, List.singleton_append,
        split_append_cons (oneLine line List.mem_cons_self),
        ih fun l member => oneLine l (List.mem_cons_of_mem line member)]
      rfl
  have some := split_ne_nil '\n' rest
  unfold lines
  rw [pieces]
  simp only [List.dropLast_append_of_ne_nil some, List.getLast?_append_of_ne_nil _ some,
    List.map_append, List.append_assoc]
  rfl

/-- The lines of a text that begins line by line. -/
theorem body_terminated {ls : List Str} (plain : ∀ line ∈ ls, Plain line)
    (leads : ∀ line ∈ ls, Leads line) {rest : Str} (opens : continues rest = false) :
    body (terminated ls ++ rest) = ls ++ body rest := by
  unfold body
  rw [(unfold_terminated plain leads opens).2,
    lines_ended fun line member => (plain line member).oneLine, List.map_append, List.map_map]
  congr 1
  conv_rhs => rw [← List.map_id ls]
  apply List.map_congr_left
  intro line member
  rw [Function.comp_apply, trim_bare]
  exact trimEndMatches_of_getLast (plain line member).noReturn

/-- The lines of a text written line by line. -/
theorem body_lines {ls : List Str} (plain : ∀ line ∈ ls, Plain line)
    (leads : ∀ line ∈ ls, Leads line) : body (terminated ls) = ls := by
  have whole := body_terminated plain leads (show continues [] = false from rfl)
  rw [List.append_nil] at whole
  rw [whole]
  exact List.append_nil ls

theorem parse_body (raw : Str) : parse raw = finish (parseLoop (body raw) false {}) :=
  congrArg finish (parseLoop_trimmed (lines (unfold raw)) false {}).symm

/-- A card is read back from the lines that the scan wrote. -/
theorem parse_terminated {raw : Str} (card : IsCard raw) :
    parse (terminated (body raw)) = parse raw := by
  obtain ⟨_, _, _, _, leads⟩ := card_text card
  have lines' : body (terminated (body raw)) = body raw :=
    body_lines (body_plain raw) fun line member => (leads line member).2
  rw [parse_body, lines', ← parse_body]

/-- An exported list of cards is imported card by card, each with its fields. -/
theorem split_concat (cards : List Str) (each : ∀ c ∈ cards, IsCard c) :
    (splitVcards (concatVcards cards)).map parse = cards.map parse := by
  have items := (splitCards_concat each []).2
  rw [List.nil_append] at items
  rw [splitVcards_eq, items, List.map_map]
  apply List.map_congr_left
  intro c member
  rw [Function.comp_apply, parse_terminated (each c member)]

/-- LF and CRLF, a fold inside a name, no line end after the last line. -/
def foldedCard : Str := "begin:vcard\nU\r\n ID:1\nFN:Ana\r\n  Lima\r\nEND:VCA\n\tRD".toList

def plainCard : Str := "BEGIN:VCARD\r\nUID:2\r\nEMAIL;TYPE=WORK:b@x\r\nEND:VCARD\r\n".toList

theorem sample_isCard : IsCard foldedCard ∧ IsCard plainCard := by
  have folded : body foldedCard = "begin:vcard".toList ::
      (["UID:1".toList, "FN:Ana Lima".toList] ++ ["END:VCARD".toList]) := by decide
  have plain : body plainCard = "BEGIN:VCARD".toList ::
      (["UID:2".toList, "EMAIL;TYPE=WORK:b@x".toList] ++ ["END:VCARD".toList]) := by
    decide
  refine ⟨⟨by decide, ?_⟩, by decide, ?_⟩
  · rw [folded]
    exact ⟨_, _, _, rfl, by decide, by decide, by decide⟩
  · rw [plain]
    exact ⟨_, _, _, rfl, by decide, by decide, by decide⟩

theorem split_concat_two :
    (splitVcards (concatVcards [foldedCard, plainCard])).map parse =
      [foldedCard, plainCard].map parse :=
  split_concat [foldedCard, plainCard] (List.forall_mem_cons.mpr
    ⟨sample_isCard.1, List.forall_mem_singleton.mpr sample_isCard.2⟩)

end Expresso.Contacts
