import Expresso.Text.Utf8

/-! `LIKE` patterns. -/

namespace Expresso.Sql
open Text

/-- `%` stands for any text, `_` for any character, and a backslash takes the next character as it
is. -/
def like : Str → Str → Bool
  | [], text => text.isEmpty
  | '%' :: pattern, text => text.tails.any (like pattern)
  | '_' :: pattern, text => match text with
      | [] => false
      | _ :: rest => like pattern rest
  | '\\' :: c :: pattern, text => match text with
      | [] => false
      | x :: rest => x = c && like pattern rest
  | c :: pattern, text => match text with
      | [] => false
      | x :: rest => x = c && like pattern rest

end Expresso.Sql
