import Expresso.Text.Bytes
import Mathlib.Data.List.Infix

/-! Where a search finds its needle. -/

namespace Expresso.Text

variable {α : Type} [DecidableEq α] {needle front : List α}

theorem position_of_prefix {text : List α} (begins : needle <+: text) :
    position needle text = some 0 := by
  have here := List.isPrefixOf_iff_prefix.mpr begins
  cases text with
  | nil => rw [position, if_pos here]
  | cons c text => rw [position, if_pos here]

/-- A needle inside the front of a text is found there. -/
theorem position_append_of_infix (inside : needle <:+: front) (rest : List α) :
    ∃ pos, position needle (front ++ rest) = some pos ∧ pos + needle.length ≤ front.length := by
  induction front with
  | nil =>
    have empty := List.infix_nil.mp inside
    subst empty
    exact ⟨0, position_of_prefix List.nil_prefix, Nat.le_refl 0⟩
  | cons c front ih =>
    by_cases begins : needle <+: c :: (front ++ rest)
    · exact ⟨0, position_of_prefix begins, by simpa using inside.length_le⟩
    · have later : needle <:+: front := by
        cases List.infix_cons_iff.mp inside with
        | inl here => exact absurd (here.trans (List.prefix_append _ rest)) begins
        | inr later => exact later
      obtain ⟨pos, found, within⟩ := ih later
      have step : position needle (c :: (front ++ rest)) = some (pos + 1) := by
        rw [position, if_neg fun here => begins (List.isPrefixOf_iff_prefix.mp here), found]
        rfl
      refine ⟨pos + 1, step, ?_⟩
      rw [List.length_cons]
      omega

/-- A needle that does not begin in the front of a text is found behind it. -/
theorem position_append_of_not_infix (fresh : ¬needle <:+: front ++ needle.dropLast)
    (rest : List α) : position needle (front ++ (needle ++ rest)) = some front.length := by
  induction front with
  | nil => exact position_of_prefix (List.prefix_append needle rest)
  | cons c front ih =>
    have later : ¬needle <:+: front ++ needle.dropLast :=
      fun inside => fresh (inside.trans (List.suffix_cons c _).isInfix)
    have notHere : ¬needle <+: c :: (front ++ (needle ++ rest)) := by
      intro begins
      apply fresh
      have split : c :: (front ++ (needle ++ rest)) =
          (c :: front ++ needle.dropLast) ++ (needle.drop (needle.length - 1) ++ rest) := by
        simp only [List.cons_append, List.append_assoc]
        rw [← List.append_assoc needle.dropLast, List.dropLast_eq_take, List.take_append_drop]
      rw [split] at begins
      have short : needle.length ≤ (c :: front ++ needle.dropLast).length := by
        rw [List.length_append, List.length_cons, List.length_dropLast]
        omega
      exact (List.prefix_of_prefix_length_le begins (List.prefix_append _ _) short).isInfix
    rw [List.cons_append, position,
      if_neg fun here => notHere (List.isPrefixOf_iff_prefix.mp here), ih later]
    rfl

omit [DecidableEq α] in
/-- A needle without a character does not reach over that character. -/
theorem infix_append_cons_iff {c : α} (absent : c ∉ needle) (rest : List α) :
    needle <:+: front ++ c :: rest ↔ needle <:+: front ∨ needle <:+: rest := by
  have stops {part : List α} (isPart : part ⊆ needle) (begins : part <+: c :: rest) :
      part = [] := by
    cases part with
    | nil => rfl
    | cons d part =>
      obtain ⟨same, -⟩ := List.cons_prefix_cons.mp begins
      exact absurd (isPart (same ▸ List.mem_cons_self)) absent
  rw [List.infix_append_iff, List.infix_cons_iff]
  constructor
  · intro inside
    rcases inside with inFront | (begins | inRest) | ⟨first, second, whole, ends, begins⟩
    · exact .inl inFront
    · rw [stops (List.Subset.refl needle) begins]
      exact .inl List.nil_infix
    · exact .inr inRest
    · have none := stops (whole ▸ List.subset_append_right first second) begins
      rw [none, List.append_nil] at whole
      exact .inl (whole ▸ ends.isInfix)
  · intro either
    exact either.imp_right fun inRest => .inl (.inr inRest)

end Expresso.Text
