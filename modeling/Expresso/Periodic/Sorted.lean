import Expresso.Periodic.Walk

/-! Lists that increase by a key: what sorting leaves of a list, and the part from a bound on. -/

namespace Expresso.Periodic

variable {α : Type} {key : α → Int}

/-- Of neighbours with one key the first is kept. -/
theorem exists_mem_destutter' (items : List α) (first : α) :
    ∀ a ∈ first :: items,
      ∃ b ∈ items.destutter' (fun a b => key a ≠ key b) first, key b = key a := by
  induction items generalizing first with
  | nil =>
    intro a member
    rw [List.mem_singleton.mp member]
    exact ⟨first, List.mem_destutter' _ _ first, rfl⟩
  | cons second rest ih =>
    intro a member
    by_cases apart : key first ≠ key second
    · rw [List.destutter'_cons, if_pos apart]
      rcases List.mem_cons.mp member with rfl | later
      · exact ⟨a, List.mem_cons_self, rfl⟩
      · obtain ⟨b, kept, same⟩ := ih second a later
        exact ⟨b, List.mem_cons_of_mem _ kept, same⟩
    · rw [List.destutter'_cons, if_neg apart]
      rcases List.mem_cons.mp member with rfl | later
      · exact ih a a List.mem_cons_self
      · rcases List.mem_cons.mp later with rfl | inRest
        · obtain ⟨b, kept, same⟩ := ih first first List.mem_cons_self
          exact ⟨b, kept, same.trans (not_not.mp apart)⟩
        · exact ih first a (List.mem_cons_of_mem _ inRest)

/-- Where the keys tell the elements apart, sorting loses none. -/
theorem mem_sortDedup_iff {items : List α}
    (apart : ∀ a ∈ items, ∀ b ∈ items, key a = key b → a = b) {a : α} :
    a ∈ sortDedup key items ↔ a ∈ items := by
  refine ⟨mem_of_mem_sortDedup, fun member => ?_⟩
  have sorted : a ∈ items.insertionSort fun a b => key a ≤ key b :=
    (List.mem_insertionSort _).mpr member
  unfold sortDedup
  cases order : items.insertionSort fun a b => key a ≤ key b with
  | nil =>
    rw [order] at sorted
    cases sorted
  | cons first rest =>
    rw [order] at sorted
    obtain ⟨b, kept, same⟩ := exists_mem_destutter' rest first a sorted
    have whole : b ∈ sortDedup key items := by
      unfold sortDedup
      rw [order]
      exact kept
    rw [apart a member b (mem_of_mem_sortDedup whole) same.symm]
    exact kept

/-- Two increasing lists with the same elements are equal. -/
theorem increasing_ext {first second : List α}
    (ordered : first.Pairwise fun a b => key a < key b)
    (ordered' : second.Pairwise fun a b => key a < key b) (same : ∀ a, a ∈ first ↔ a ∈ second) :
    first = second := by
  have distinct {l : List α} (increasing : l.Pairwise fun a b => key a < key b) : l.Nodup :=
    increasing.imp fun below equal => by
      rw [equal] at below
      exact lt_irrefl _ below
  have perm := (List.perm_ext_iff_of_nodup (distinct ordered) (distinct ordered')).mpr same
  apply perm.eq_of_pairwise _ ordered ordered'
  intro a b _ _ below above
  omega

/-- What lies from a bound on is the end of an increasing list. -/
theorem filter_eq_drop {items : List α} (increasing : items.Pairwise fun a b => key a < key b)
    (bound : Int) :
    items.filter (fun a => bound ≤ key a) =
      items.drop (items.length - (items.filter fun a => bound ≤ key a).length) := by
  induction items with
  | nil => rfl
  | cons a rest ih =>
    obtain ⟨below, later⟩ := List.pairwise_cons.mp increasing
    by_cases inside : bound ≤ key a
    · have all : (a :: rest).filter (fun a => bound ≤ key a) = a :: rest := by
        apply List.filter_eq_self.mpr
        intro b member
        rcases List.mem_cons.mp member with rfl | after
        · exact decide_eq_true inside
        · exact decide_eq_true (inside.trans (below b after).le)
      rw [all, Nat.sub_self]
      rfl
    · have short := List.length_filter_le (fun a => decide (bound ≤ key a)) rest
      rw [List.filter_cons_of_neg (by simpa using inside), List.length_cons,
        Nat.succ_sub short, List.drop_succ_cons]
      exact ih later

end Expresso.Periodic
