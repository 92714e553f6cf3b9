import Expresso.Text.Str
import Mathlib.Data.List.TakeWhile

/-! Texts without blanks around them. -/

namespace Expresso.Text

theorem trimEnd_initial (s : Str) : trimEnd s <+: s := by
  rw [trimEnd, ← List.reverse_suffix, List.reverse_reverse]
  exact List.dropWhile_suffix _

theorem trimEnd_last (s : Str) : ∀ c ∈ (trimEnd s).getLast?, isWhitespace c = false := by
  intro c last
  rw [trimEnd, List.getLast?_reverse] at last
  have stays := List.head?_dropWhile_not isWhitespace s.reverse
  rw [Option.mem_def.mp last] at stays
  simpa using stays

theorem trimStart_of_head {s : Str} (head : ∀ c ∈ s.head?, isWhitespace c = false) :
    trimStart s = s := by
  unfold trimStart
  cases s with
  | nil => rfl
  | cons c rest => rw [List.dropWhile_cons_of_neg (by simpa using head c rfl)]

theorem trimEnd_of_last {s : Str} (last : ∀ c ∈ s.getLast?, isWhitespace c = false) :
    trimEnd s = s := by
  have start : trimStart s.reverse = s.reverse :=
    trimStart_of_head (by rwa [List.head?_reverse])
  rw [trimEnd, ← trimStart, start, List.reverse_reverse]

theorem trim_head (s : Str) : ∀ c ∈ (trim s).head?, isWhitespace c = false := by
  intro c head
  have stays := List.head?_dropWhile_not isWhitespace s
  obtain ⟨tail, whole⟩ := trimEnd_initial (trimStart s)
  cases kept : trimEnd (trimStart s) with
  | nil =>
    rw [trim, kept] at head
    cases head
  | cons d rest =>
    rw [trim, kept] at head
    cases head
    rw [kept, trimStart, List.cons_append] at whole
    rw [← whole] at stays
    simpa using stays

theorem trim_eq_self_iff {s : Str} : trim s = s ↔
    (∀ c ∈ s.head?, isWhitespace c = false) ∧ ∀ c ∈ s.getLast?, isWhitespace c = false := by
  constructor
  · intro same
    rw [← same]
    exact ⟨trim_head s, trimEnd_last (trimStart s)⟩
  · intro ⟨head, last⟩
    rw [trim, trimStart_of_head head, trimEnd_of_last last]

theorem trim_trim (s : Str) : trim (trim s) = trim s :=
  trim_eq_self_iff.2 ⟨trim_head s, trimEnd_last (trimStart s)⟩

theorem trim_subset (s : Str) : trim s ⊆ s := fun _ member =>
  (List.dropWhile_suffix _).subset ((trimEnd_initial (trimStart s)).subset member)

/-! ### Blanks around a text -/

theorem trim_blank_append {blank : Str} (blanks : ∀ c ∈ blank, isWhitespace c = true) (s : Str) :
    trim (blank ++ s) = trim s := by
  have start : trimStart (blank ++ s) = trimStart s :=
    List.dropWhile_append_of_pos blanks
  rw [trim, trim, start]

theorem trimEnd_append_blank {blank : Str} (blanks : ∀ c ∈ blank, isWhitespace c = true) (s : Str) :
    trimEnd (s ++ blank) = trimEnd s := by
  have back : ∀ c ∈ blank.reverse, isWhitespace c = true := by simpa using blanks
  rw [trimEnd, List.reverse_append, List.dropWhile_append_of_pos back]
  rfl

theorem trim_append_blank {blank : Str} (blanks : ∀ c ∈ blank, isWhitespace c = true) (s : Str) :
    trim (s ++ blank) = trim s := by
  unfold trim
  rw [trimStart, List.dropWhile_append]
  split
  · next none =>
    have all : blank.dropWhile isWhitespace = [] := List.dropWhile_eq_nil_iff.mpr fun c => blanks c
    rw [all, trimStart, List.isEmpty_iff.mp none]
  · exact trimEnd_append_blank blanks _

end Expresso.Text
