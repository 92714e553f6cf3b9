import Expresso.CalDav.Ical

/-! Texts written line by line. Lines without line ends, joined by CRLF, unfold to themselves
except that those with a leading blank continue the line before. -/

namespace Expresso.CalDav
open Text

/-- `lines.join("\r\n")`. -/
def joinLines (lines : List Str) : Str := List.intercalate ['\r', '\n'] lines

/-- A line as the scanners keep it: no line feed inside, no carriage return at its end. -/
structure Plain (line : Str) : Prop where
  oneLine : '\n' ∉ line
  noReturn : line.getLast? ≠ some '\r'

/-- The lines with every continuation appended to the line before it. -/
def refold (lines : List Str) : List Str := lines.foldl unfoldLine []

/-! ### Line ends -/

theorem joinLines_cons (line next : Str) (rest : List Str) :
    joinLines (line :: next :: rest) = line ++ '\r' :: '\n' :: joinLines (next :: rest) := by
  simp [joinLines, List.intercalate]

theorem trimEndMatches_append (c : Char) (s : Str) :
    trimEndMatches c (s ++ [c]) = trimEndMatches c s := by
  simp [trimEndMatches]

theorem trimEndMatches_of_getLast {c : Char} {s : Str} (other : s.getLast? ≠ some c) :
    trimEndMatches c s = s := by
  rw [← List.head?_reverse] at other
  have kept : s.reverse.dropWhile (· = c) = s.reverse := by
    cases reversed : s.reverse with
    | nil => rfl
    | cons last rest =>
      rw [reversed] at other
      rw [List.dropWhile_cons_of_neg (by simpa using other)]
  rw [trimEndMatches, kept, List.reverse_reverse]

theorem getLast_trimEndMatches (c : Char) (s : Str) : (trimEndMatches c s).getLast? ≠ some c := by
  rw [trimEndMatches, List.getLast?_reverse]
  intro last
  have stays := List.head?_dropWhile_not (fun x => decide (x = c)) s.reverse
  rw [last] at stays
  simp at stays

theorem trimEndMatches_initial (c : Char) (s : Str) : trimEndMatches c s <+: s := by
  rw [trimEndMatches, ← List.reverse_suffix, List.reverse_reverse]
  exact List.dropWhile_suffix _

theorem stripReturn_append (s : Str) : stripSuffix ['\r'] (s ++ ['\r']) = some s := by
  have suffix : ['\r'].isSuffixOf (s ++ ['\r']) = true :=
    List.isSuffixOf_iff_suffix.mpr (List.suffix_append s ['\r'])
  rw [stripSuffix, if_pos suffix]
  simp

theorem stripReturn_of_plain {s : Str} (plain : s.getLast? ≠ some '\r') :
    stripSuffix ['\r'] s = none := by
  have noSuffix : ¬ ['\r'].isSuffixOf s = true := by
    intro suffix
    obtain ⟨front, rfl⟩ := List.isSuffixOf_iff_suffix.mp suffix
    exact plain (by simp)
  rw [stripSuffix, if_neg noSuffix]

theorem unfoldLine_return {line : Str} (plain : Plain line) (out : List Str) :
    unfoldLine out (line ++ ['\r']) = unfoldLine out line := by
  simp only [unfoldLine, stripReturn_append, stripReturn_of_plain plain.noReturn, Option.getD_some,
    Option.getD_none]

/-! ### Unfolding joined lines -/

theorem foldl_unfoldLine_join (out : List Str) (line : Str) (rest : List Str)
    (plain : ∀ l ∈ line :: rest, Plain l) :
    (split '\n' (joinLines (line :: rest))).foldl unfoldLine out =
      (line :: rest).foldl unfoldLine out := by
  induction rest generalizing out line with
  | nil =>
    have here := plain line List.mem_cons_self
    have single : joinLines [line] = line := by simp [joinLines]
    rw [single, split_of_not_mem here.oneLine]
  | cons next rest ih =>
    have here := plain line List.mem_cons_self
    have absent : '\n' ∉ line ++ ['\r'] := by simpa using here.oneLine
    have text : joinLines (line :: next :: rest) =
        (line ++ ['\r']) ++ '\n' :: joinLines (next :: rest) := by
      rw [joinLines_cons, List.append_assoc]
      rfl
    rw [text, split_append_cons absent, List.foldl_cons, unfoldLine_return here,
      ih _ next fun l member => plain l (List.mem_cons_of_mem line member)]
    rfl

theorem unfoldLines_joinLines {lines : List Str} (nonempty : lines ≠ [])
    (plain : ∀ l ∈ lines, Plain l) : unfoldLines (joinLines lines) = refold lines := by
  obtain ⟨line, rest, rfl⟩ := List.exists_cons_of_ne_nil nonempty
  exact foldl_unfoldLine_join [] line rest plain

/-! ### Where folding stops -/

/-- A line that the one before it does not take in. -/
def Leads (line : Str) : Prop := line.head? ≠ some ' ' ∧ line.head? ≠ some '\t'

theorem unfoldLine_leads {line : Str} (noReturn : line.getLast? ≠ some '\r') (leads : Leads line)
    (out : List Str) : unfoldLine out line = out ++ [line] := by
  simp only [unfoldLine, stripReturn_of_plain noReturn, Option.getD_none]
  cases line with
  | nil => rfl
  | cons first rest =>
    cases out.getLast? with
    | none => rfl
    | some previous =>
      have other : ¬ (first = ' ' ∨ first = '\t') := by simpa [Leads] using leads
      simp only [if_neg other]

theorem unfoldLine_ne_nil (out : List Str) (line : Str) : unfoldLine out line ≠ [] := by
  simp only [unfoldLine]
  split
  · split <;> simp
  · simp

/-- Only the last line so far can grow. -/
theorem unfoldLine_append (out : List Str) {acc : List Str} (nonempty : acc ≠ []) (line : Str) :
    unfoldLine (out ++ acc) line = out ++ unfoldLine acc line := by
  have last : (out ++ acc).getLast? = acc.getLast? := by
    rw [List.getLast?_append]
    cases found : acc.getLast? with
    | none => exact absurd (List.getLast?_eq_none_iff.mp found) nonempty
    | some previous => rfl
  simp only [unfoldLine, last]
  split
  · split
    · rw [List.dropLast_append_of_ne_nil nonempty, List.append_assoc]
    · rw [List.append_assoc]
  · rw [List.append_assoc]

theorem foldl_unfoldLine_append (out : List Str) {acc : List Str} (nonempty : acc ≠ [])
    (lines : List Str) :
    lines.foldl unfoldLine (out ++ acc) = out ++ lines.foldl unfoldLine acc := by
  induction lines generalizing acc with
  | nil => rfl
  | cons line rest ih =>
    rw [List.foldl_cons, unfoldLine_append out nonempty, ih (unfoldLine_ne_nil acc line),
      List.foldl_cons]

theorem refold_append (before : List Str) {line : Str} (rest : List Str)
    (noReturn : line.getLast? ≠ some '\r') (leads : Leads line) :
    refold (before ++ line :: rest) = refold before ++ refold (line :: rest) := by
  have single : unfoldLine [] line = [line] := unfoldLine_leads noReturn leads []
  rw [refold, List.foldl_append, List.foldl_cons, unfoldLine_leads noReturn leads,
    foldl_unfoldLine_append _ (List.cons_ne_nil line []), refold, refold, List.foldl_cons, single]

theorem refold_append_of_head (before : List Str) {after : List Str}
    (head : ∀ l ∈ after.head?, l.getLast? ≠ some '\r' ∧ Leads l) :
    refold (before ++ after) = refold before ++ refold after := by
  cases after with
  | nil => simp [refold]
  | cons line rest =>
    obtain ⟨noReturn, leads⟩ := head line rfl
    exact refold_append before rest noReturn leads

/-! ### Lines keep their shape -/

theorem unfoldLine_forall {holds : Str → Prop} {out : List Str} {line : Str}
    (before : ∀ l ∈ out, holds l)
    (pushed : holds ((stripSuffix ['\r'] line).getD line))
    (joined : ∀ previous first rest, previous ∈ out →
      (stripSuffix ['\r'] line).getD line = first :: rest → holds (previous ++ rest)) :
    ∀ l ∈ unfoldLine out line, holds l := by
  intro l member
  simp only [unfoldLine] at member
  split at member
  · next first rest previous stripped last =>
    split at member
    · rcases List.mem_append.mp member with old | new
      · exact before l ((List.dropLast_sublist out).subset old)
      · rw [List.mem_singleton.mp new]
        exact joined previous first rest (List.mem_of_getLast? last) stripped
    · rcases List.mem_append.mp member with old | new
      · exact before l old
      · rw [List.mem_singleton.mp new]
        exact pushed
  · rcases List.mem_append.mp member with old | new
    · exact before l old
    · rw [List.mem_singleton.mp new]
      exact pushed

theorem stripReturn_subset (line : Str) : (stripSuffix ['\r'] line).getD line ⊆ line := by
  rw [stripSuffix]
  split
  · exact List.take_subset _ line
  · exact fun _ member => member

theorem unfoldLines_oneLine (raw : Str) : ∀ l ∈ unfoldLines raw, '\n' ∉ l := by
  have pieces : ∀ piece ∈ split '\n' raw, '\n' ∉ piece := fun _ => not_mem_of_mem_split
  rw [unfoldLines]
  generalize split '\n' raw = lines at pieces
  have start : ∀ l ∈ ([] : List Str), '\n' ∉ l := by simp
  generalize [] = out at start
  induction lines generalizing out with
  | nil => exact start
  | cons line rest ih =>
    have absent : '\n' ∉ (stripSuffix ['\r'] line).getD line := fun member =>
      pieces line List.mem_cons_self (stripReturn_subset line member)
    refine ih (fun piece later => pieces piece (List.mem_cons_of_mem line later)) _ ?_
    refine unfoldLine_forall start absent ?_
    intro previous first rest' old stripped
    rw [stripped] at absent
    simp only [List.mem_append, not_or]
    exact ⟨start previous old, fun member => absent (List.mem_cons_of_mem first member)⟩

theorem plain_trimEndMatches {line : Str} (oneLine : '\n' ∉ line) :
    Plain (trimEndMatches '\r' line) where
  oneLine member := oneLine ((trimEndMatches_initial '\r' line).subset member)
  noReturn := getLast_trimEndMatches '\r' line

theorem refold_plain {lines : List Str} (plain : ∀ l ∈ lines, Plain l) :
    ∀ l ∈ refold lines, Plain l := by
  rw [refold]
  have start : ∀ l ∈ ([] : List Str), Plain l := by simp
  generalize [] = out at start
  induction lines generalizing out with
  | nil => exact start
  | cons line rest ih =>
    have here := plain line List.mem_cons_self
    refine ih (fun l later => plain l (List.mem_cons_of_mem line later)) _ ?_
    refine unfoldLine_forall start ?_ ?_
    · rwa [stripReturn_of_plain here.noReturn]
    · intro previous first rest' old stripped
      rw [stripReturn_of_plain here.noReturn, Option.getD_none] at stripped
      have before := start previous old
      rw [stripped] at here
      refine ⟨?_, ?_⟩
      · simp only [List.mem_append, not_or]
        exact ⟨before.oneLine, fun member => here.oneLine (List.mem_cons_of_mem first member)⟩
      · cases rest' with
        | nil => simpa using before.noReturn
        | cons next others =>
          have last := here.noReturn
          simpa [List.getLast?_append, List.getLast?_cons] using last

end Expresso.CalDav
