import Mathlib

/-! Stable sorting: what it keeps, and how sorts by one criterion after the other make a sort by
all of them. -/

namespace Expresso.Query

variable {α : Type}

/-- A stable sort keeps the rows of a kind that are in order already. -/
theorem filter_insertionSort {order : α → α → Prop} [DecidableRel order] {kind : α → Bool}
    {rows : List α} (sorted : (rows.filter kind).Pairwise order) :
    (rows.insertionSort order).filter kind = rows.filter kind := by
  have kept := (List.sublist_insertionSort sorted List.filter_sublist).filter kind
  rw [List.filter_filter] at kept
  simp only [Bool.and_self] at kept
  have lengths := ((List.perm_insertionSort order rows).filter kind).length_eq
  exact (kept.eq_of_length lengths.symm).symm

/-! ### Several criteria -/

/-- Two rows compared by the first criterion that tells them apart. -/
def lexOrder (criteria : List (α → α → Ordering)) (a b : α) : Ordering :=
  criteria.foldr (fun order rest => (order a b).then rest) .eq

/-- One stable sort for each criterion, the last one first. -/
def sortBy (criteria : List (α → α → Ordering)) (rows : List α) : List α :=
  criteria.foldr (fun order rows => rows.insertionSort fun a b => order a b ≠ .gt) rows

/-- Smaller, or equal and before the other one already. -/
def Precedes (order : α → α → Ordering) (before : α → α → Prop) (a b : α) : Prop :=
  order a b = .lt ∨ (order a b = .eq ∧ before a b)

section
variable {order : α → α → Ordering} {before : α → α → Prop}

theorem Precedes.isLE {a b : α} (precedes : Precedes order before a b) : (order a b).isLE := by
  cases precedes with
  | inl less => rw [less]; rfl
  | inr same => rw [same.1]; rfl

theorem precedes_of_not_gt {a b : α} (notAfter : order a b ≠ .gt) (here : before a b) :
    Precedes order before a b := by
  cases compared : order a b with
  | lt => exact .inl compared
  | eq => exact .inr ⟨compared, here⟩
  | gt => exact absurd compared notAfter

/-- A row that comes before all others goes before those that are not smaller. -/
theorem orderedInsert_precedes [Std.TransCmp order] {a : α} {rows : List α}
    (sorted : rows.Pairwise (Precedes order before)) (first : ∀ b ∈ rows, before a b) :
    (rows.orderedInsert (fun a b => order a b ≠ .gt) a).Pairwise (Precedes order before) := by
  induction rows with
  | nil => exact List.pairwise_singleton _ a
  | cons b rest ih =>
    obtain ⟨below, later⟩ := List.pairwise_cons.mp sorted
    obtain ⟨here, others⟩ := List.forall_mem_cons.mp first
    rw [List.orderedInsert_cons]
    split
    next notAfter =>
      have least : ∀ c ∈ b :: rest, Precedes order before a c := by
        rw [List.forall_mem_cons]
        refine ⟨precedes_of_not_gt notAfter here, fun c member => ?_⟩
        refine precedes_of_not_gt ?_ (others c member)
        exact Ordering.isLE_iff_ne_gt.mp (Std.TransCmp.isLE_trans
          (Ordering.isLE_iff_ne_gt.mpr notAfter) (below c member).isLE)
      exact List.pairwise_cons.mpr ⟨least, sorted⟩
    next after =>
      have greater : order a b = .gt := Decidable.not_not.mp after
      have less : order b a = .lt := Std.OrientedCmp.lt_of_gt greater
      refine List.pairwise_cons.mpr ⟨fun c member => ?_, ih later others⟩
      rw [List.mem_orderedInsert] at member
      cases member with
      | inl same => exact .inl (same ▸ less)
      | inr inRest => exact below c inRest

/-- A stable sort orders the rows, and equal ones as they were. -/
theorem insertionSort_precedes [Std.TransCmp order] {rows : List α}
    (sorted : rows.Pairwise before) :
    (rows.insertionSort fun a b => order a b ≠ .gt).Pairwise (Precedes order before) := by
  induction rows with
  | nil => exact .nil
  | cons a rest ih =>
    obtain ⟨first, later⟩ := List.pairwise_cons.mp sorted
    rw [List.insertionSort_cons]
    apply orderedInsert_precedes (ih later)
    intro b member
    exact first b ((List.mem_insertionSort _).mp member)

end

theorem precedes_cons {order : α → α → Ordering} {criteria : List (α → α → Ordering)}
    {before : α → α → Prop} {a b : α} :
    Precedes (lexOrder (order :: criteria)) before a b ↔
      Precedes order (Precedes (lexOrder criteria) before) a b := by
  have unfolded : lexOrder (order :: criteria) a b = (order a b).then (lexOrder criteria a b) := rfl
  unfold Precedes
  rw [unfolded]
  cases order a b <;> simp

theorem sortBy_perm (criteria : List (α → α → Ordering)) (rows : List α) :
    (sortBy criteria rows).Perm rows := by
  induction criteria with
  | nil => exact .refl rows
  | cons order rest ih => exact (List.perm_insertionSort _ _).trans ih

/-- The sorts together order the rows by the first criterion that tells two of them apart, and
rows that none tells apart as they were. -/
theorem sortBy_precedes {criteria : List (α → α → Ordering)}
    (lawful : ∀ order ∈ criteria, Std.TransCmp order) {before : α → α → Prop} {rows : List α}
    (sorted : rows.Pairwise before) :
    (sortBy criteria rows).Pairwise (Precedes (lexOrder criteria) before) := by
  induction criteria with
  | nil => exact sorted.imp fun here => .inr ⟨rfl, here⟩
  | cons order rest ih =>
    obtain ⟨first, later⟩ := List.forall_mem_cons.mp lawful
    have step : (sortBy (order :: rest) rows).Pairwise
        (Precedes order (Precedes (lexOrder rest) before)) := insertionSort_precedes (ih later)
    exact step.imp precedes_cons.2

end Expresso.Query
