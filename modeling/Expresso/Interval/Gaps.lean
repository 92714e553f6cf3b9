import Mathlib

/-! Half-open intervals on a line, what is left between them, and what of them lies in a window. -/

namespace Expresso.Interval

section
variable {α : Type} [LinearOrder α]

/-- Some interval of the list holds the point. -/
def Covers (intervals : List (α × α)) (x : α) : Prop := ∃ i ∈ intervals, i.1 ≤ x ∧ x < i.2

/-- Each interval ends where the next one begins, or before. -/
def Apart (intervals : List (α × α)) : Prop := intervals.Pairwise fun i j => i.2 ≤ j.1

theorem covers_nil (x : α) : ¬Covers [] x := fun ⟨_, member, _⟩ => nomatch member

theorem covers_append (front back : List (α × α)) (x : α) :
    Covers (front ++ back) x ↔ Covers front x ∨ Covers back x := by
  simp only [Covers, List.mem_append, or_and_right, exists_or]

theorem covers_cons (i : α × α) (rest : List (α × α)) (x : α) :
    Covers (i :: rest) x ↔ (i.1 ≤ x ∧ x < i.2) ∨ Covers rest x := by
  simp only [Covers, List.mem_cons, or_and_right, exists_or, exists_eq_left]

theorem covers_flatMap {β : Type} (f : β → List (α × α)) (bs : List β) (x : α) :
    Covers (bs.flatMap f) x ↔ ∃ b ∈ bs, Covers (f b) x := by
  constructor
  · rintro ⟨i, member, inside⟩
    obtain ⟨b, among, member⟩ := List.mem_flatMap.mp member
    exact ⟨b, among, i, member, inside⟩
  · rintro ⟨b, among, i, member, inside⟩
    exact ⟨i, List.mem_flatMap.mpr ⟨b, among, member⟩, inside⟩

/-- Two intervals that hold one point are one. -/
theorem Apart.disjoint {intervals : List (α × α)} (apart : Apart intervals) :
    intervals.Pairwise fun i j => ∀ x, ¬((i.1 ≤ x ∧ x < i.2) ∧ j.1 ≤ x ∧ x < j.2) :=
  apart.imp fun before _ inside =>
    absurd (inside.1.2.trans_le (before.trans inside.2.1)) (lt_irrefl _)

/-! ### Gaps -/

/-- What the windows, read from left to right, leave between a cursor and a last point. -/
def gaps (stop : α) : α → List (α × α) → List (α × α)
  | cursor, [] => if cursor < stop then [(cursor, stop)] else []
  | cursor, w :: rest =>
      (if cursor < w.1 then [(cursor, w.1)] else []) ++ gaps stop (max cursor w.2) rest

example : gaps 9 0 [(1, 3), (2, 5)] = [(0, 1), (5, 9)] := by simp [gaps]

variable {stop : α} {windows : List (α × α)}

theorem covers_single {p : Prop} [Decidable p] (i : α × α) (x : α) :
    Covers (if p then [i] else []) x ↔ p ∧ i.1 ≤ x ∧ x < i.2 := by
  by_cases h : p
  · rw [if_pos h, covers_cons]
    simp [h, covers_nil]
  · rw [if_neg h]
    exact iff_of_false (covers_nil x) fun both => h both.1

/-- A point before the last one is left, just where no window holds it. -/
theorem covers_gaps_iff (sorted : windows.Pairwise fun v w => v.1 ≤ w.1) {cursor x : α}
    (inside : x < stop) : Covers (gaps stop cursor windows) x ↔ cursor ≤ x ∧ ¬Covers windows x := by
  induction windows generalizing cursor with
  | nil =>
    rw [gaps, covers_single]
    exact ⟨fun gap => ⟨gap.2.1, covers_nil x⟩, fun before => ⟨before.1.trans_lt inside, before.1,
      inside⟩⟩
  | cons w rest ih =>
    obtain ⟨first, sorted⟩ := List.pairwise_cons.mp sorted
    rw [gaps, covers_append, covers_single, ih sorted, covers_cons, not_or, max_le_iff]
    constructor
    · rintro (⟨-, from_, before⟩ | ⟨⟨from_, after⟩, free⟩)
      · refine ⟨from_, fun within => absurd before (not_lt.mpr within.1), ?_⟩
        rintro ⟨v, member, within⟩
        exact absurd before (not_lt.mpr ((first v member).trans within.1))
      · exact ⟨from_, fun within => absurd within.2 (not_lt.mpr after), free⟩
    · rintro ⟨from_, outside, free⟩
      by_cases before : x < w.1
      · exact .inl ⟨from_.trans_lt before, from_, before⟩
      · have after := not_lt.mp fun within => outside ⟨not_lt.mp before, within⟩
        exact .inr ⟨⟨from_, after⟩, free⟩

theorem le_of_mem_gaps {cursor : α} {gap : α × α} (member : gap ∈ gaps stop cursor windows) :
    cursor ≤ gap.1 ∧ gap.1 < gap.2 := by
  induction windows generalizing cursor with
  | nil =>
    rw [gaps] at member
    split at member
    · rename_i before
      rw [List.mem_singleton.mp member]
      exact ⟨le_refl _, before⟩
    · cases member
  | cons w rest ih =>
    rw [gaps] at member
    rcases List.mem_append.mp member with here | later
    · split at here
      · rename_i before
        rw [List.mem_singleton.mp here]
        exact ⟨le_refl _, before⟩
      · cases here
    · exact ⟨(le_max_left _ _).trans (ih later).1, (ih later).2⟩

/-- The gaps between windows none of which ends before it begins follow one another. -/
theorem apart_gaps (proper : ∀ w ∈ windows, w.1 ≤ w.2) (cursor : α) :
    Apart (gaps stop cursor windows) := by
  induction windows generalizing cursor with
  | nil =>
    rw [gaps]
    split
    · exact List.pairwise_singleton _ _
    · exact .nil
  | cons w rest ih =>
    rw [gaps]
    have later := ih (fun v member => proper v (List.mem_cons_of_mem w member)) (max cursor w.2)
    split
    · refine List.pairwise_cons.mpr ⟨fun gap member => ?_, later⟩
      calc w.1 ≤ w.2 := proper w List.mem_cons_self
        _ ≤ max cursor w.2 := le_max_right _ _
        _ ≤ gap.1 := (le_of_mem_gaps member).1
    · exact later

/-! ### A window -/

/-- What of an interval lies in a window, where anything does. -/
def clip (first last : α) (i : α × α) : Option (α × α) :=
  if max i.1 first < min i.2 last then some (max i.1 first, min i.2 last) else none

theorem clip_eq_some {first last : α} {i j : α × α} (clipped : clip first last i = some j) :
    j = (max i.1 first, min i.2 last) ∧ j.1 < j.2 := by
  unfold clip at clipped
  split at clipped
  · rename_i nonempty
    cases clipped
    exact ⟨rfl, nonempty⟩
  · cases clipped

theorem covers_clip_iff {first last x : α} (from_ : first ≤ x) (before : x < last)
    (intervals : List (α × α)) :
    Covers (intervals.filterMap (clip first last)) x ↔ Covers intervals x := by
  constructor
  · rintro ⟨j, member, inside⟩
    obtain ⟨i, among, clipped⟩ := List.mem_filterMap.mp member
    obtain ⟨rfl, -⟩ := clip_eq_some clipped
    exact ⟨i, among, (le_max_left _ _).trans inside.1, inside.2.trans_le (min_le_left _ _)⟩
  · rintro ⟨i, among, starts, ends⟩
    have lower : max i.1 first ≤ x := max_le starts from_
    have upper : x < min i.2 last := lt_min ends before
    have clipped : clip first last i = some (max i.1 first, min i.2 last) :=
      if_pos (lower.trans_lt upper)
    exact ⟨_, List.mem_filterMap.mpr ⟨i, among, clipped⟩, lower, upper⟩

theorem apart_clip {intervals : List (α × α)} (apart : Apart intervals) (first last : α) :
    Apart (intervals.filterMap (clip first last)) := by
  apply List.Pairwise.filterMap (clip first last) _ apart
  intro i j before k clipped l clipped'
  obtain ⟨rfl, -⟩ := clip_eq_some clipped
  obtain ⟨rfl, -⟩ := clip_eq_some clipped'
  exact (min_le_left _ _).trans (before.trans (le_max_left _ _))

/-- Every part lies in the window and is not empty. -/
theorem within_clip {first last : α} {intervals : List (α × α)} {j : α × α}
    (member : j ∈ intervals.filterMap (clip first last)) :
    first ≤ j.1 ∧ j.1 < j.2 ∧ j.2 ≤ last := by
  obtain ⟨i, -, clipped⟩ := List.mem_filterMap.mp member
  obtain ⟨rfl, nonempty⟩ := clip_eq_some clipped
  exact ⟨le_max_right _ _, nonempty, min_le_right _ _⟩

end

/-! ### Days -/

section
variable {α β : Type} [LinearOrder α] [LinearOrder β]

/-- A function that keeps the order carries intervals that follow one another to such. -/
theorem apart_map {intervals : List (α × α)} (apart : Apart intervals) {f : α → β}
    (mono : Monotone f) : Apart (intervals.map fun i => (f i.1, f i.2)) :=
  List.pairwise_map.mpr (apart.imp fun before => mono before)

/-- Lists of intervals, each in a stretch of its own, follow one another. -/
theorem apart_flatMap {γ : Type} {cs : List γ} {f : γ → List (α × α)} {low high : γ → α}
    (each : ∀ c ∈ cs, Apart (f c)) (within : ∀ c ∈ cs, ∀ i ∈ f c, low c ≤ i.1 ∧ i.2 ≤ high c)
    (ordered : cs.Pairwise fun c d => high c ≤ low d) : Apart (cs.flatMap f) := by
  induction cs with
  | nil => exact .nil
  | cons c rest ih =>
    obtain ⟨first, ordered⟩ := List.pairwise_cons.mp ordered
    rw [List.flatMap_cons, Apart, List.pairwise_append]
    refine ⟨each c List.mem_cons_self, ih (fun d member => each d (List.mem_cons_of_mem c member))
      (fun d member => within d (List.mem_cons_of_mem c member)) ordered, ?_⟩
    intro i here j later
    obtain ⟨d, among, there⟩ := List.mem_flatMap.mp later
    calc i.2 ≤ high c := (within c List.mem_cons_self i here).2
      _ ≤ low d := first d among
      _ ≤ j.1 := (within d (List.mem_cons_of_mem c among) j there).1

end

end Expresso.Interval
