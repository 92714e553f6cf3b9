import Mathlib

/-! A list that is sorted and then rid of its repetitions, as a set that is cut off at a length. -/

namespace Expresso.Query

variable {α : Type} [LinearOrder α]

def sortUnique (l : List α) : List α := (l.insertionSort (· ≤ ·)).destutter (· ≠ ·)

abbrev Increasing (l : List α) : Prop := l.Pairwise (· < ·)

variable {l l' : List α}

theorem mem_destutter' (first : α) {a : α} (member : a ∈ first :: l) :
    a ∈ l.destutter' (· ≠ ·) first := by
  induction l generalizing first with
  | nil => exact member
  | cons second rest ih =>
    by_cases apart : first ≠ second
    · rw [List.destutter'_cons_pos _ apart]
      rcases List.mem_cons.mp member with rfl | later
      · exact List.mem_cons_self
      · exact List.mem_cons_of_mem _ (ih second later)
    · rw [List.destutter'_cons_neg _ apart]
      rcases List.mem_cons.mp member with rfl | later
      · exact ih a List.mem_cons_self
      · rcases List.mem_cons.mp later with rfl | inRest
        · rw [not_not.mp apart]
          exact ih a List.mem_cons_self
        · exact ih first (List.mem_cons_of_mem _ inRest)

theorem mem_sortUnique {a : α} : a ∈ sortUnique l ↔ a ∈ l := by
  unfold sortUnique
  constructor
  · intro member
    exact (List.mem_insertionSort _).mp ((List.destutter_sublist _ _).subset member)
  · intro member
    have sorted : a ∈ l.insertionSort (· ≤ ·) := (List.mem_insertionSort _).mpr member
    cases order : l.insertionSort (· ≤ ·) with
    | nil =>
      rw [order] at sorted
      cases sorted
    | cons first rest =>
      rw [order] at sorted
      exact mem_destutter' first sorted

theorem sortUnique_increasing (l : List α) : Increasing (sortUnique l) := by
  have sorted : (sortUnique l).Pairwise (· ≤ ·) :=
    (List.pairwise_insertionSort _ l).sublist (List.destutter_sublist _ _)
  have apart : (sortUnique l).IsChain (· ≠ ·) := List.isChain_destutter _ _
  have strict : (sortUnique l).IsChain (· < ·) := by
    rw [List.isChain_iff_getElem]
    intro i inside
    exact lt_of_le_of_ne (List.isChain_iff_getElem.mp sorted.isChain i inside)
      (List.isChain_iff_getElem.mp apart i inside)
  exact strict.pairwise

/-- Two increasing lists with the same elements are equal. -/
theorem increasing_ext (ordered : Increasing l) (ordered' : Increasing l')
    (same : ∀ a, a ∈ l ↔ a ∈ l') : l = l' := by
  have perm := (List.perm_ext_iff_of_nodup (ordered.imp fun below => ne_of_lt below)
    (ordered'.imp fun below => ne_of_lt below)).mpr same
  apply perm.eq_of_pairwise _ ordered ordered'
  intro a b _ _ below above
  exact absurd (below.trans above) (lt_irrefl a)

theorem sortUnique_of_increasing (ordered : Increasing l) : sortUnique l = l :=
  increasing_ext (sortUnique_increasing l) ordered fun _ => mem_sortUnique

/-- The first elements of a set are a given list, just where the rest of the set does not reach
into them. -/
theorem take_sortUnique_iff (ordered : Increasing l) {n : Nat} (short : l.length ≤ n) :
    (sortUnique l').take n = l ↔
      (∀ a ∈ l, a ∈ l') ∧ ∀ a ∈ l', a ∈ l ∨ l.length = n ∧ ∀ b ∈ l, b < a := by
  constructor
  · intro same
    constructor
    · intro a member
      rw [← same] at member
      exact mem_sortUnique.1 (List.mem_of_mem_take member)
    · intro a member
      have sorted : a ∈ (sortUnique l').take n ++ (sortUnique l').drop n := by
        rw [List.take_append_drop]
        exact mem_sortUnique.2 member
      rcases List.mem_append.mp sorted with front | back
      · exact .inl (same ▸ front)
      · have whole : Increasing ((sortUnique l').take n ++ (sortUnique l').drop n) := by
          rw [List.take_append_drop]
          exact sortUnique_increasing l'
        have below := (List.pairwise_append.mp whole).2.2
        have long : n < (sortUnique l').length := by
          by_contra bound
          rw [List.drop_eq_nil_of_le (by omega)] at back
          cases back
        have size : l.length = n := by
          rw [← same, List.length_take]
          omega
        exact .inr ⟨size, fun b inside => below b (same ▸ inside) a back⟩
  · intro ⟨among, beyond⟩
    have apart : Increasing (l ++ sortUnique (l'.filter (· ∉ l))) := by
      apply List.pairwise_append.mpr
      refine ⟨ordered, sortUnique_increasing _, ?_⟩
      intro b inside a later
      have outside := List.mem_filter.mp (mem_sortUnique.1 later)
      rcases beyond a outside.1 with kept | above
      · exact absurd kept (by simpa using outside.2)
      · exact above.2 b inside
    have whole : sortUnique l' = l ++ sortUnique (l'.filter (· ∉ l)) := by
      apply increasing_ext (sortUnique_increasing l') apart
      intro a
      rw [mem_sortUnique, List.mem_append, mem_sortUnique, List.mem_filter, decide_eq_true_eq]
      constructor
      · intro member
        by_cases kept : a ∈ l
        · exact .inl kept
        · exact .inr ⟨member, kept⟩
      · rintro (kept | ⟨member, _⟩)
        · exact among a kept
        · exact member
    rw [whole]
    by_cases full : l.length = n
    · rw [← full, List.take_left]
    · have none_ : l'.filter (· ∉ l) = [] := by
        apply List.filter_eq_nil_iff.mpr
        intro a member outside
        rcases beyond a member with kept | above
        · exact absurd kept (by simpa using outside)
        · exact full above.1
      rw [none_]
      show (l ++ []).take n = l
      rw [List.append_nil, List.take_of_length_le short]

end Expresso.Query
