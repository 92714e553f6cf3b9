import Mathlib

/-! The first two intervals of two lists that meet. -/

namespace Expresso.Interval

section
variable {α β : Type} [LinearOrder α] (start stop : β → α)

/-- Each begins before the other ends. -/
def Meets (a b : β) : Prop := start a < stop b ∧ start b < stop a

instance (a b : β) : Decidable (Meets start stop a b) := inferInstanceAs (Decidable (_ ∧ _))

/-- The first interval of a list that meets one of another list, with the first that it meets. -/
def firstMeeting (left right : List β) : Option (β × β) :=
  left.findSome? fun a => (right.find? fun b => Meets start stop a b).map fun b => (a, b)

variable {start stop} {left right : List β} {a b : β}

theorem Meets.symm (meets : Meets start stop a b) : Meets start stop b a := ⟨meets.2, meets.1⟩

/-- Of intervals that last, those meet that share a point. -/
theorem meets_iff (first : start a < stop a) (second : start b < stop b) :
    Meets start stop a b ↔ ∃ x, (start a ≤ x ∧ x < stop a) ∧ start b ≤ x ∧ x < stop b := by
  constructor
  · intro ⟨before, after⟩
    exact ⟨max (start a) (start b), ⟨le_max_left _ _, max_lt first after⟩, le_max_right _ _,
      max_lt before second⟩
  · intro ⟨x, inFirst, inSecond⟩
    exact ⟨inFirst.1.trans_lt inSecond.2, inSecond.1.trans_lt inFirst.2⟩

theorem firstMeeting_eq_some_iff : firstMeeting start stop left right = some (a, b) ↔
    (∃ before after, left = before ++ a :: after ∧
      ∀ x ∈ before, ∀ y ∈ right, ¬Meets start stop x y) ∧
    (∃ before after, right = before ++ b :: after ∧ ∀ y ∈ before, ¬Meets start stop a y) ∧
      Meets start stop a b := by
  unfold firstMeeting
  rw [List.findSome?_eq_some_iff]
  constructor
  · intro ⟨before, c, after, whole, found, misses⟩
    obtain ⟨d, found, same⟩ := Option.map_eq_some_iff.mp found
    cases same
    obtain ⟨meets, front, back, split, earlier⟩ := List.find?_eq_some_iff_append.mp found
    refine ⟨⟨before, after, whole, fun x member y among => ?_⟩, ⟨front, back, split, ?_⟩,
      of_decide_eq_true meets⟩
    · have nothing := Option.map_eq_none_iff.mp (misses x member)
      exact of_decide_eq_false (by simpa using List.find?_eq_none.mp nothing y among)
    · intro y member
      exact of_decide_eq_false (by simpa using earlier y member)
  · intro ⟨⟨before, after, whole, misses⟩, ⟨front, back, split, earlier⟩, meets⟩
    refine ⟨before, a, after, whole, ?_, fun x member => ?_⟩
    · have found : right.find? (fun b => Meets start stop a b) = some b :=
        List.find?_eq_some_iff_append.mpr ⟨by simpa using meets, front, back, split,
          fun y member => by simpa using earlier y member⟩
      rw [found]
      rfl
    · rw [Option.map_eq_none_iff, List.find?_eq_none]
      intro y among
      simpa using misses x member y among

theorem firstMeeting_eq_none_iff : firstMeeting start stop left right = none ↔
    ∀ a ∈ left, ∀ b ∈ right, ¬Meets start stop a b := by
  simp only [firstMeeting, List.findSome?_eq_none_iff, Option.map_eq_none_iff, List.find?_eq_none,
    decide_eq_true_eq]

section Sorted
variable (leftSorted : left.Pairwise fun a b => start a ≤ start b)
  (rightSorted : right.Pairwise fun a b => start a ≤ start b)
include leftSorted rightSorted

/-- An earlier interval that a misses, each later one misses. -/
theorem firstMeeting_earliest (found : firstMeeting start stop left right = some (a, b)) {c d : β}
    (inLeft : c ∈ left) (inRight : d ∈ right) (meets : Meets start stop c d) :
    max (start a) (start b) ≤ max (start c) (start d) := by
  obtain ⟨⟨before, after, whole, misses⟩, ⟨front, back, split, earlier⟩, here⟩ :=
    firstMeeting_eq_some_iff.1 found
  subst whole split
  have first : start a ≤ start c := by
    rw [List.mem_append, List.mem_cons] at inLeft
    rcases inLeft with missed | rfl | later
    · exact absurd meets (misses c missed d inRight)
    · exact le_rfl
    · exact (List.pairwise_cons.mp (List.pairwise_append.mp leftSorted).2.1).1 c later
  have second : start b ≤ max (start c) (start d) := by
    obtain ⟨-, fromHere, across⟩ := List.pairwise_append.mp rightSorted
    rw [List.mem_append, List.mem_cons] at inRight
    rcases inRight with missed | rfl | later
    · -- it ends before the first begins, so it does not meet what begins later
      have ends : stop d ≤ start a := by
        by_contra reaches
        exact earlier d missed
          ⟨not_le.mp reaches, (across d missed b List.mem_cons_self).trans_lt here.2⟩
      exact absurd meets.1 (not_lt.mpr (ends.trans first))
    · exact le_max_right _ _
    · exact ((List.pairwise_cons.mp fromHere).1 d later).trans (le_max_right _ _)
  exact max_le (first.trans (le_max_left _ _)) second

theorem firstMeeting_swap_of_some (found : firstMeeting start stop left right = some (a, b)) :
    firstMeeting start stop right left = some (b, a) := by
  obtain ⟨⟨before, after, whole, misses⟩, ⟨front, back, split, earlier⟩, here⟩ :=
    firstMeeting_eq_some_iff.1 found
  refine firstMeeting_eq_some_iff.2 ⟨⟨front, back, split, ?_⟩, ⟨before, after, whole, ?_⟩,
    here.symm⟩
  · subst whole split
    intro y missed x inLeft meets
    have first := ((List.pairwise_append.mp rightSorted).2.2 y missed b List.mem_cons_self).trans_lt
      here.2
    have ends : stop y ≤ start a := not_lt.mp fun reaches => earlier y missed ⟨reaches, first⟩
    rw [List.mem_append, List.mem_cons] at inLeft
    rcases inLeft with skipped | rfl | later
    · exact misses x skipped y (List.mem_append_left _ missed) meets.symm
    · exact earlier y missed meets.symm
    · have begins := (List.pairwise_cons.mp (List.pairwise_append.mp leftSorted).2.1).1 x later
      exact absurd meets.2 (not_lt.mpr (ends.trans begins))
  · intro x skipped meets
    exact misses x skipped b (split ▸ List.mem_append_right _ List.mem_cons_self) meets.symm

/-- Which list is read first does not matter. -/
theorem firstMeeting_swap :
    firstMeeting start stop right left = (firstMeeting start stop left right).map Prod.swap := by
  cases found : firstMeeting start stop left right with
  | some pair => exact firstMeeting_swap_of_some leftSorted rightSorted found
  | none =>
    rw [Option.map_none, firstMeeting_eq_none_iff]
    intro b inRight a inLeft meets
    exact firstMeeting_eq_none_iff.1 found a inLeft b inRight meets.symm

end Sorted

end

end Expresso.Interval
