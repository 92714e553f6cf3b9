import Expresso.Text.Str

/-! Searches in byte strings. -/

namespace Expresso.Text

/-- `windows(n).position(|w| w == needle)`, the needle being of length n > 0. -/
def position {α : Type} [DecidableEq α] (needle : List α) : List α → Option Nat
  | [] => if needle.isPrefixOf [] then some 0 else none
  | x :: rest =>
      if needle.isPrefixOf (x :: rest) then some 0 else (position needle rest).map (· + 1)

/-- The blank line between the headers and the body. -/
def separator : List UInt8 := [13, 10, 13, 10]

/-- `str::contains`. -/
def contains (needle text : Str) : Bool := (position needle text).isSome

end Expresso.Text
