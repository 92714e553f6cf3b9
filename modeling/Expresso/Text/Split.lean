import Expresso.Text.Str
import Mathlib.Data.List.Basic

/-! Texts cut at a separator, and at a text that begins or ends them. -/

namespace Expresso.Text

theorem split_ne_nil (separator : Char) (s : Str) : split separator s ≠ [] := by
  cases s with
  | nil => simp [split]
  | cons c rest =>
    rw [split]
    split
    · simp
    · split <;> simp

theorem split_append_cons {separator : Char} {s : Str} (absent : separator ∉ s) (rest : Str) :
    split separator (s ++ separator :: rest) = s :: split separator rest := by
  induction s with
  | nil => simp [split]
  | cons c s ih =>
    obtain ⟨other, later⟩ := not_or.mp (List.mem_cons.not.mp absent)
    rw [List.cons_append, split, if_neg (Ne.symm other), ih later]

theorem split_append_sep (separator : Char) (front rest : Str) :
    split separator (front ++ separator :: rest) =
      split separator front ++ split separator rest := by
  induction front with
  | nil => simp [split]
  | cons c front ih =>
    rw [List.cons_append, split, split, ih]
    obtain ⟨piece, pieces, shape⟩ :=
      List.exists_cons_of_ne_nil (split_ne_nil separator front)
    rw [shape]
    split_ifs <;> rfl

theorem split_of_not_mem {separator : Char} {s : Str} (absent : separator ∉ s) :
    split separator s = [s] := by
  induction s with
  | nil => rfl
  | cons c rest ih =>
    obtain ⟨other, later⟩ := not_or.mp (List.mem_cons.not.mp absent)
    rw [split, if_neg (Ne.symm other), ih later]

theorem split_length (separator : Char) (s : Str) :
    (split separator s).length = s.count separator + 1 := by
  induction s with
  | nil => rfl
  | cons c rest ih =>
    rw [split]
    by_cases same : c = separator
    · subst same
      rw [if_pos rfl, List.length_cons, ih, List.count_cons_self]
    · rw [if_neg same, List.count_cons_of_ne same]
      cases pieces : split separator rest with
      | nil => exact absurd pieces (split_ne_nil separator rest)
      | cons first others =>
        rw [pieces] at ih
        simpa using ih

theorem subset_of_mem_split {separator : Char} {s piece : Str}
    (member : piece ∈ split separator s) : piece ⊆ s := by
  induction s generalizing piece with
  | nil =>
    rw [split, List.mem_singleton] at member
    simp [member]
  | cons c rest ih =>
    rw [split] at member
    split at member
    · cases List.mem_cons.mp member with
      | inl empty => exact empty ▸ List.nil_subset _
      | inr later => exact List.subset_cons_of_subset c (ih later)
    · cases pieces : split separator rest with
      | nil =>
        rw [pieces, List.mem_singleton] at member
        exact member ▸ List.cons_subset_cons c (List.nil_subset rest)
      | cons first others =>
        rw [pieces] at member
        cases List.mem_cons.mp member with
        | inl here => exact here ▸ List.cons_subset_cons c (ih (pieces ▸ List.mem_cons_self))
        | inr later =>
          exact List.subset_cons_of_subset c (ih (pieces ▸ List.mem_cons_of_mem first later))

theorem not_mem_of_mem_split {separator : Char} {s piece : Str}
    (member : piece ∈ split separator s) : separator ∉ piece := by
  induction s generalizing piece with
  | nil =>
    rw [split, List.mem_singleton] at member
    simp [member]
  | cons c rest ih =>
    rw [split] at member
    split at member
    · rcases List.mem_cons.mp member with rfl | later
      · simp
      · exact ih later
    · next other =>
      cases pieces : split separator rest with
      | nil =>
        rw [pieces, List.mem_singleton] at member
        simp [member, Ne.symm other]
      | cons first others =>
        rw [pieces] at member
        rcases List.mem_cons.mp member with rfl | later
        · have inFirst := ih (pieces ▸ List.mem_cons_self)
          simp [inFirst, Ne.symm other]
        · exact ih (pieces ▸ List.mem_cons_of_mem first later)

theorem splitOnce_append {separator : Char} {a : Str} (absent : separator ∉ a) (b : Str) :
    splitOnce separator (a ++ separator :: b) = some (a, b) := by
  induction a with
  | nil => simp [splitOnce]
  | cons c rest ih =>
    obtain ⟨other, later⟩ := not_or.mp (List.mem_cons.not.mp absent)
    rw [List.cons_append, splitOnce, if_neg (Ne.symm other), ih later]
    rfl

theorem splitOnce_some {separator : Char} {s a b : Str}
    (found : splitOnce separator s = some (a, b)) : s = a ++ separator :: b ∧ separator ∉ a := by
  induction s generalizing a with
  | nil => cases found
  | cons c rest ih =>
    rw [splitOnce] at found
    split at found
    · next here =>
      cases found
      exact ⟨by simp [here], by simp⟩
    · next other =>
      obtain ⟨⟨a', b'⟩, later, pair⟩ := Option.map_eq_some_iff.mp found
      cases pair
      obtain ⟨whole, absent⟩ := ih later
      exact ⟨by rw [whole]; rfl, by simp [absent, Ne.symm other]⟩

theorem splitOnce_none {separator : Char} {s : Str} (missing : splitOnce separator s = none) :
    separator ∉ s := by
  induction s with
  | nil => simp
  | cons c rest ih =>
    rw [splitOnce] at missing
    split at missing
    · cases missing
    · next other =>
      have later := ih (by simpa using missing)
      simp [later, Ne.symm other]

theorem splitOnce_of_not_mem {separator : Char} {s : Str} (absent : separator ∉ s) :
    splitOnce separator s = none := by
  induction s with
  | nil => rfl
  | cons c rest ih =>
    obtain ⟨other, later⟩ := not_or.mp (List.mem_cons.not.mp absent)
    rw [splitOnce, if_neg (Ne.symm other), ih later]
    rfl

theorem stripPrefix_eq_some {text s rest : Str} (found : stripPrefix text s = some rest) :
    s = text ++ rest := by
  rw [stripPrefix, Option.ite_none_right_eq_some] at found
  obtain ⟨tail, rfl⟩ := List.isPrefixOf_iff_prefix.mp found.1
  rw [List.drop_left, Option.some.injEq] at found
  rw [found.2]

theorem stripPrefix_append (front s : Str) : stripPrefix front (front ++ s) = some s := by
  rw [stripPrefix, if_pos (List.isPrefixOf_iff_prefix.mpr (List.prefix_append front s)),
    List.drop_left]

theorem stripSuffix_append (s back : Str) : stripSuffix back (s ++ back) = some s := by
  rw [stripSuffix, if_pos (List.isSuffixOf_iff_suffix.mpr (List.suffix_append s back)),
    List.length_append, Nat.add_sub_cancel, List.take_left]

end Expresso.Text
