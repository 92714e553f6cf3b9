import Mathlib

/-! A list of weighted items cut into chunks from the front. A chunk takes items until their
weight reaches its limit, so it is over the limit where an item lies across it. -/

namespace Expresso.Partition

variable {α : Type} (w : α → Nat)

def weight (s : List α) : Nat := (s.map w).sum

/-- A place between two items. -/
def Boundary (n : Nat) (s : List α) : Prop := ∃ front, front <+: s ∧ weight w front = n

/-- The items that begin before the limit, and the rest. -/
def cut : Nat → List α → List α × List α
  | _, [] => ([], [])
  | limit, x :: rest =>
      if limit = 0 then ([], x :: rest)
      else (x :: (cut (limit - w x) rest).1, (cut (limit - w x) rest).2)

example : cut id 3 [2, 2, 1] = ([2, 2], [1]) := by simp [cut]

/-- The first chunk has a limit of its own, every later one the same. -/
def chunks (later : Nat) : Nat → Nat → List α → List (List α)
  | 0, _, _ => []
  | fuel + 1, limit, s =>
      if s = [] then [] else (cut w limit s).1 :: chunks later fuel later (cut w limit s).2
termination_by structural fuel => fuel

example : chunks id 2 5 3 [2, 2, 1] = [[2, 2], [1]] := by simp [chunks, cut]

/-- No chunk is over its limit. -/
def Fit (limit later : Nat) : List (List α) → Prop
  | [] => True
  | chunk :: rest => weight w chunk ≤ limit ∧ ∀ c ∈ rest, weight w c ≤ later

variable {w}

theorem weight_cons (x : α) (rest : List α) : weight w (x :: rest) = w x + weight w rest := by
  simp [weight]

theorem weight_append (s t : List α) : weight w (s ++ t) = weight w s + weight w t := by
  simp [weight]

theorem cut_append (limit : Nat) (s : List α) : (cut w limit s).1 ++ (cut w limit s).2 = s := by
  induction s generalizing limit with
  | nil => rfl
  | cons x rest ih =>
    rw [cut]
    split
    · rfl
    · exact congrArg (x :: ·) (ih _)

theorem cut_ne_nil {limit : Nat} (positive : 0 < limit) {s : List α} (nonempty : s ≠ []) :
    (cut w limit s).1 ≠ [] := by
  cases s with
  | nil => exact absurd rfl nonempty
  | cons x rest =>
    rw [cut, if_neg (Nat.ne_of_gt positive)]
    exact List.cons_ne_nil _ _

theorem boundary_zero (s : List α) : Boundary w 0 s := ⟨[], List.nil_prefix, rfl⟩

theorem boundary_append_iff {front : List α} (n : Nat) (rest : List α)
    (positive : ∀ x, 0 < w x) :
    Boundary w (weight w front + n) (front ++ rest) ↔ Boundary w n rest := by
  induction front with
  | nil => simp [weight]
  | cons x front ih =>
    rw [← ih]
    constructor
    · rintro ⟨whole, initial, size⟩
      cases whole with
      | nil =>
        have some_ := positive x
        rw [weight_cons] at size
        simp only [weight, List.map_nil, List.sum_nil] at size
        omega
      | cons y whole =>
        obtain ⟨rfl, inside⟩ := List.cons_prefix_cons.mp initial
        rw [weight_cons, weight_cons] at size
        exact ⟨whole, inside, by omega⟩
    · rintro ⟨whole, initial, size⟩
      refine ⟨x :: whole, List.cons_prefix_cons.mpr ⟨rfl, initial⟩, ?_⟩
      rw [weight_cons, weight_cons]
      omega

/-- What is left over begins at the limit or after it. -/
theorem le_weight_cut {limit : Nat} {s : List α} (more : (cut w limit s).2 ≠ []) :
    limit ≤ weight w (cut w limit s).1 := by
  induction s generalizing limit with
  | nil => exact absurd rfl more
  | cons x rest ih =>
    rw [cut] at more ⊢
    split
    · next zero =>
      rw [zero]
      exact Nat.zero_le _
    · next positive =>
      rw [if_neg positive] at more
      have later := ih more
      rw [weight_cons]
      omega

theorem cut_of_le (positive : ∀ x, 0 < w x) {limit : Nat} {s : List α}
    (short : weight w s ≤ limit) : cut w limit s = (s, []) := by
  induction s generalizing limit with
  | nil => rfl
  | cons x rest ih =>
    have some_ := positive x
    rw [weight_cons] at short
    rw [cut, if_neg (by omega), ih (by omega)]

/-- The first chunk keeps to its limit, just where an item ends there. -/
theorem weight_cut_le_iff (positive : ∀ x, 0 < w x) {limit : Nat} {s : List α}
    (long : limit ≤ weight w s) : weight w (cut w limit s).1 ≤ limit ↔ Boundary w limit s := by
  induction s generalizing limit with
  | nil =>
    have zero : limit = 0 := Nat.le_zero.mp long
    subst zero
    exact ⟨fun _ => boundary_zero [], fun _ => Nat.le_refl 0⟩
  | cons x rest ih =>
    rw [cut]
    by_cases zero : limit = 0
    · subst zero
      rw [if_pos rfl]
      exact ⟨fun _ => boundary_zero _, fun _ => Nat.le_refl 0⟩
    rw [if_neg zero, weight_cons]
    rw [weight_cons] at long
    have single : weight w [x] = w x := by simp [weight]
    by_cases fits : w x ≤ limit
    · have after : Boundary w (weight w [x] + (limit - w x)) ([x] ++ rest) ↔
          Boundary w (limit - w x) rest := boundary_append_iff _ rest positive
      rw [single, Nat.add_sub_cancel' fits] at after
      rw [List.singleton_append] at after
      rw [after, ← ih (by omega)]
      omega
    · apply iff_of_false
      · omega
      · rintro ⟨front, initial, size⟩
        cases front with
        | nil => exact zero size.symm
        | cons y front =>
          obtain ⟨rfl, -⟩ := List.cons_prefix_cons.mp initial
          rw [weight_cons] at size
          omega

theorem length_cut (positive : ∀ x, 0 < w x) {limit : Nat} (some_ : 0 < limit) {s : List α}
    (nonempty : s ≠ []) : weight w (cut w limit s).2 < weight w s := by
  have whole := congrArg (weight w) (cut_append (w := w) limit s)
  rw [weight_append] at whole
  obtain ⟨x, rest, shape⟩ := List.exists_cons_of_ne_nil (cut_ne_nil (w := w) some_ nonempty)
  have here := positive x
  rw [shape, weight_cons] at whole
  omega

section
variable (positive : ∀ x, 0 < w x) {later : Nat} (some_ : 0 < later)
include positive some_

theorem chunks_flatten {fuel limit : Nat} (start : 0 < limit) {s : List α}
    (enough : weight w s ≤ fuel) : (chunks w later fuel limit s).flatten = s := by
  induction fuel generalizing limit s with
  | zero =>
    cases s with
    | nil => rfl
    | cons x rest =>
      have here := positive x
      rw [weight_cons] at enough
      omega
  | succ fuel ih =>
    rw [chunks]
    split
    · next empty =>
      rw [empty]
      rfl
    · next nonempty =>
      have shorter := length_cut positive start nonempty
      rw [List.flatten_cons, ih some_ (by omega), cut_append]

/-- Every chunk keeps to its limit, just where an item ends at every limit inside the list. -/
theorem fit_chunks_iff {fuel limit : Nat} (start : 0 < limit) {s : List α}
    (enough : weight w s ≤ fuel) : Fit w limit later (chunks w later fuel limit s) ↔
      ∀ k, limit + later * k < weight w s → Boundary w (limit + later * k) s := by
  induction fuel generalizing limit s with
  | zero => exact iff_of_true trivial fun k within => by omega
  | succ fuel ih =>
    rw [chunks]
    split
    · next empty =>
      rw [empty]
      exact iff_of_true trivial fun k within => absurd within (Nat.not_lt_zero _)
    next nonempty =>
    have shorter := length_cut positive start nonempty
    have uniform (l : List (List α)) : (∀ c ∈ l, weight w c ≤ later) ↔ Fit w later later l := by
      cases l with
      | nil => exact iff_of_true (List.forall_mem_nil _) trivial
      | cons chunk rest => exact List.forall_mem_cons
    rw [Fit, uniform, ih some_ (by omega)]
    by_cases whole : weight w s ≤ limit
    · rw [cut_of_le positive whole]
      refine iff_of_true ⟨whole, ?_⟩ ?_
      · exact fun k within => absurd within (Nat.not_lt_zero _)
      · intro k within
        omega
    have reached : weight w (cut w limit s).1 ≤ limit ↔ Boundary w limit s :=
      weight_cut_le_iff positive (by omega)
    rw [reached]
    by_cases first : Boundary w limit s
    · have parts := cut_append (w := w) limit s
      have sizes := congrArg (weight w) parts
      rw [weight_append] at sizes
      have exact_ : weight w (cut w limit s).1 = limit := by
        apply Nat.le_antisymm (reached.mpr first)
        apply le_weight_cut
        intro none_
        have small := reached.mpr first
        have rest : weight w (cut w limit s).2 = 0 := by rw [none_]; rfl
        omega
      have shift (k : Nat) : Boundary w (limit + later * (k + 1)) s ↔
          Boundary w (later + later * k) (cut w limit s).2 := by
        have moved := @boundary_append_iff _ w (cut w limit s).1 (later + later * k)
          (cut w limit s).2 positive
        have place : limit + later * (k + 1) = limit + (later + later * k) := by
          rw [Nat.mul_succ]
          omega
        rwa [parts, exact_, ← place] at moved
      constructor
      · rintro ⟨-, rest⟩ k within
        cases k with
        | zero => simpa using first
        | succ k =>
          rw [Nat.mul_succ] at within
          exact (shift k).mpr (rest k (by omega))
      · intro each
        refine ⟨first, fun k within => (shift k).mp (each (k + 1) ?_)⟩
        rw [Nat.mul_succ]
        omega
    · refine iff_of_false (fun both => first both.1) fun each => first ?_
      simpa using each 0 (by omega)

end

end Expresso.Partition
