import Expresso.CalDav.Lines
import Expresso.Imap.Mime

/-! The lines of a text that is written line by line. -/

namespace Expresso.Imap
open Text

variable {line : Str}

theorem lines_crlf (oneLine : '\n' ∉ line) (rest : Str) :
    lines (line ++ '\r' :: '\n' :: rest) = line :: lines rest := by
  have text : line ++ '\r' :: '\n' :: rest = (line ++ ['\r']) ++ '\n' :: rest := by simp
  have bare : (stripSuffix ['\r'] (line ++ ['\r'])).getD (line ++ ['\r']) = line := by
    simp [stripSuffix]
  have some := split_ne_nil '\n' rest
  unfold lines
  rw [text, split_append_cons (by simpa using oneLine)]
  simp only [List.dropLast_cons_of_ne_nil some, List.getLast?_cons_of_ne_nil some, List.map_cons,
    bare, List.cons_append]

theorem lines_single (oneLine : '\n' ∉ line) (nonempty : line ≠ []) : lines line = [line] := by
  unfold lines
  rw [split_of_not_mem oneLine]
  simp [nonempty]

/-- Every line ended by CRLF. -/
theorem lines_flatMap {ls : List Str} (oneLine : ∀ l ∈ ls, '\n' ∉ l) :
    lines (ls.flatMap (· ++ ['\r', '\n'])) = ls := by
  induction ls with
  | nil => rfl
  | cons l others ih =>
    have text : (l :: others).flatMap (· ++ ['\r', '\n']) =
        l ++ '\r' :: '\n' :: others.flatMap (· ++ ['\r', '\n']) := by
      simp
    rw [text, lines_crlf (oneLine l List.mem_cons_self),
      ih fun later member => oneLine later (List.mem_cons_of_mem l member)]

end Expresso.Imap
