import Expresso.Text.Str

/-! `str::replace` and `[&str]::join`. -/

namespace Expresso.Text

/-- `str::replace` of one character. -/
def replaceChar (c : Char) (text v : Str) : Str := v.flatMap fun d => if d = c then text else [d]

/-- `str::replace` of two characters. -/
def replacePair (a b : Char) (text : Str) : Str → Str
  | c :: d :: rest =>
      if c = a ∧ d = b then text ++ replacePair a b text rest
      else c :: replacePair a b text (d :: rest)
  | rest => rest

example : replacePair 'a' 'b' "c".toList "aab".toList = "ac".toList := by simp [replacePair]

theorem replacePair_cons_of_ne {a b c : Char} {text : Str} (other : c ≠ a) (rest : Str) :
    replacePair a b text (c :: rest) = c :: replacePair a b text rest := by
  cases rest with
  | nil => rfl
  | cons d later => rw [replacePair, if_neg fun same => other same.1]

theorem replacePair_pair (a b : Char) (text rest : Str) :
    replacePair a b text (a :: b :: rest) = text ++ replacePair a b text rest := by
  rw [replacePair, if_pos ⟨rfl, rfl⟩]

theorem replacePair_of_not_mem {a b : Char} {text v : Str} (absent : b ∉ v) :
    replacePair a b text v = v := by
  induction v using replacePair.induct (a := a) (b := b) with
  | case1 c d rest pair => exact absurd (by simp [pair.2]) absent
  | case2 c d rest other ih =>
    rw [replacePair, if_neg other, ih fun member => absent (List.mem_cons_of_mem c member)]
  | case3 rest short =>
    cases rest with
    | nil => rfl
    | cons c later =>
      cases later with
      | nil => rfl
      | cons d others => exact (short c d others rfl).elim

/-! ### Joined pieces -/

section
variable {p : Char → Bool} {c : Char} (separates : p c = true)
include separates

theorem splitOnP_join {pieces : List Str} (nonempty : pieces ≠ [])
    (inside : ∀ piece ∈ pieces, ∀ d ∈ piece, p d = false) :
    (List.intercalate [c] pieces).splitOnP p = pieces := by
  induction pieces with
  | nil => exact absurd rfl nonempty
  | cons piece rest ih =>
    have here := inside piece List.mem_cons_self
    cases rest with
    | nil => simpa [List.intercalate] using List.splitOnP_eq_singleton here
    | cons next others =>
      have text : List.intercalate [c] (piece :: next :: others) =
          piece ++ c :: List.intercalate [c] (next :: others) := by
        simp [List.intercalate]
      rw [text, List.splitOnP_append_cons_of_forall_mem here c separates,
        ih (by simp) fun later member => inside later (List.mem_cons_of_mem piece member)]

end

end Expresso.Text
