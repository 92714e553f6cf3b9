import Mathlib

/-! `ORDER BY` and `ROW_NUMBER()` over lists of rows. Rows of equal key keep the order of
the table. -/

namespace Expresso.Sql

variable {α : Type}

def orderBy (key : α → Int) (rows : List α) : List α :=
  rows.insertionSort fun a b => key a ≤ key b

/-- Every row with its `ROW_NUMBER()`. -/
def rowNumbered (rows : List α) : List (α × Nat) := rows.zipIdx 1

theorem mem_orderBy {key : α → Int} {rows : List α} {row : α} :
    row ∈ orderBy key rows ↔ row ∈ rows := by
  rw [orderBy]
  exact List.mem_insertionSort _

theorem orderBy_sorted (key : α → Int) (rows : List α) :
    (orderBy key rows).Pairwise fun a b => key a ≤ key b := by
  have total : Std.Total fun a b : α => key a ≤ key b := ⟨fun a b => le_total (key a) (key b)⟩
  have transitive : IsTrans α fun a b => key a ≤ key b := ⟨fun _ _ _ => le_trans⟩
  exact List.pairwise_insertionSort _ rows

private theorem filter_orderedInsert {key : α → Int} (p : α → Bool) (row : α) {rows : List α}
    (sorted : rows.Pairwise fun a b => key a ≤ key b) :
    (rows.orderedInsert (fun a b => key a ≤ key b) row).filter p =
      if p row then (rows.filter p).orderedInsert (fun a b => key a ≤ key b) row
      else rows.filter p := by
  induction rows with
  | nil => simp [List.filter_cons]
  | cons head rest ih =>
    obtain ⟨above, later⟩ := List.pairwise_cons.mp sorted
    rw [List.orderedInsert_cons]
    by_cases first : key row ≤ key head
    · rw [if_pos first, List.filter_cons]
      cases kept : p row with
      | false => simp
      | true =>
        -- what is left of the rows starts at or above the key of `row`
        simp only [if_true]
        cases remaining : (head :: rest).filter p with
        | nil => rfl
        | cons next others =>
          have member : next ∈ head :: rest :=
            (List.mem_filter.mp (remaining ▸ List.mem_cons_self)).1
          have order : key row ≤ key next := by
            rcases List.mem_cons.mp member with rfl | inRest
            · exact first
            · exact first.trans (above next inRest)
          rw [List.orderedInsert_cons, if_pos order]
    · rw [if_neg first, List.filter_cons, ih later]
      cases kept : p row with
      | false => simp [List.filter_cons]
      | true =>
        cases here : p head with
        | false => simp [here]
        | true => simp [here, List.orderedInsert_cons, first]

/-- Selecting rows and ordering them commute. -/
theorem filter_orderBy (key : α → Int) (p : α → Bool) (rows : List α) :
    (orderBy key rows).filter p = orderBy key (rows.filter p) := by
  induction rows with
  | nil => rfl
  | cons row rest ih =>
    change ((orderBy key rest).orderedInsert _ row).filter p = _
    rw [filter_orderedInsert p row (orderBy_sorted key rest), ih]
    cases kept : p row with
    | false => simp [kept]
    | true =>
      simp only [if_true, List.filter_cons, kept]
      rfl

/-- A function that carries the key can be applied before or after ordering. -/
theorem map_orderBy {β : Type} (f : α → β) (key : β → Int) (rows : List α) :
    (orderBy (fun row => key (f row)) rows).map f = orderBy key (rows.map f) :=
  List.map_insertionSort _ _ f rows fun _ _ _ _ => Iff.rfl

theorem sorted_split {key : α → Int} {rows : List α} (bound : Int)
    (sorted : rows.Pairwise fun a b => key a ≤ key b) :
    rows = (rows.filter fun row => key row ≤ bound) ++
      rows.filter fun row => bound < key row := by
  induction rows with
  | nil => rfl
  | cons row rest ih =>
    obtain ⟨least, later⟩ := List.pairwise_cons.mp sorted
    by_cases low : key row ≤ bound
    · rw [List.filter_cons_of_pos (by simpa using low), List.filter_cons_of_neg (by simpa using low),
        List.cons_append, ← ih later]
    · have high : ∀ x ∈ row :: rest, bound < key x := by
        intro x member
        rcases List.mem_cons.mp member with rfl | after
        · omega
        · have above := least x after
          omega
      have all : (row :: rest).filter (fun x => bound < key x) = row :: rest :=
        List.filter_eq_self.mpr fun x member => by simpa using high x member
      have none : (row :: rest).filter (fun x => key x ≤ bound) = [] := by
        apply List.filter_eq_nil_iff.mpr
        intro x member
        have above := high x member
        simp only [decide_eq_true_eq]
        omega
      rw [all, none, List.nil_append]

private theorem orderBy_append_last {key : α → Int} {rows : List α} {row : α}
    (last : ∀ x ∈ rows, key x ≤ key row) :
    orderBy key (rows ++ [row]) = orderBy key rows ++ [row] := by
  have inserted : ∀ (x : α) (sorted : List α), key x ≤ key row →
      (sorted ++ [row]).orderedInsert (fun a b => key a ≤ key b) x =
        sorted.orderedInsert (fun a b => key a ≤ key b) x ++ [row] := by
    intro x sorted low
    induction sorted with
    | nil => simp [List.orderedInsert, low]
    | cons y rest ih =>
      simp only [List.cons_append, List.orderedInsert]
      split
      · rfl
      · rw [ih, List.cons_append]
  induction rows with
  | nil => rfl
  | cons x rest ih =>
    have rest_last : ∀ y ∈ rest, key y ≤ key row :=
      fun y member => last y (List.mem_cons_of_mem x member)
    calc
      orderBy key (x :: rest ++ [row])
      _ = (orderBy key (rest ++ [row])).orderedInsert (fun a b => key a ≤ key b) x := rfl
      _ = (orderBy key rest ++ [row]).orderedInsert (fun a b => key a ≤ key b) x := by
        rw [ih rest_last]
      _ = orderBy key (x :: rest) ++ [row] := inserted x _ (last x List.mem_cons_self)

/-- A row at the end of the table comes after the rows up to its key. -/
theorem orderBy_append (key : α → Int) (rows : List α) (row : α) :
    orderBy key (rows ++ [row]) = ((orderBy key rows).filter fun x => key x ≤ key row) ++
      row :: (orderBy key rows).filter fun x => key row < key x := by
  calc
    orderBy key (rows ++ [row])
    _ = ((orderBy key (rows ++ [row])).filter fun x => key x ≤ key row) ++
          (orderBy key (rows ++ [row])).filter fun x => key row < key x :=
      sorted_split (key row) (orderBy_sorted key _)
    _ = orderBy key ((rows.filter fun x => key x ≤ key row) ++ [row]) ++
          orderBy key (rows.filter fun x => key row < key x) := by
      simp [filter_orderBy, List.filter_append]
    _ = (orderBy key (rows.filter fun x => key x ≤ key row) ++ [row]) ++
          orderBy key (rows.filter fun x => key row < key x) := by
      rw [orderBy_append_last]
      intro x member
      simpa using (List.mem_filter.mp member).2
    _ = _ := by
      rw [filter_orderBy, filter_orderBy, List.append_assoc, List.singleton_append]

theorem mem_rowNumbered {rows : List α} {row : α} {n : Nat} :
    (row, n) ∈ rowNumbered rows ↔ 1 ≤ n ∧ rows[n - 1]? = some row := by
  rw [rowNumbered, List.mk_mem_zipIdx_iff_le_and_getElem?_sub]

theorem rowNumbered_map_snd (rows : List α) :
    (rowNumbered rows).map (·.2) = List.range' 1 rows.length := by
  rw [rowNumbered]
  exact List.zipIdx_map_snd 1 rows

theorem rowNumbered_map_fst (rows : List α) : (rowNumbered rows).map (·.1) = rows := by
  rw [rowNumbered]
  exact List.zipIdx_map_fst 1 rows

theorem filter_rowNumbered_fst (p : α → Bool) (rows : List α) :
    ((rowNumbered rows).filter fun row => p row.1).map (·.1) = rows.filter p := by
  conv_rhs => rw [← rowNumbered_map_fst rows, List.filter_map]
  rfl

/-! ### Selected rows that are the first rows -/

/-- As many rows from the start as are selected, are selected. -/
def FirstSelected (rows : List α) (p : α → Bool) : Prop :=
  ∀ row ∈ rows.take (rows.filter p).length, p row = true

theorem firstSelected_map {β : Type} (f : α → β) (rows : List α) (p : β → Bool) :
    FirstSelected (rows.map f) p ↔ FirstSelected rows fun row => p (f row) := by
  simp only [FirstSelected, List.filter_map, List.length_map, ← List.map_take, List.mem_map,
    forall_exists_index, and_imp, forall_apply_eq_imp_iff₂]
  rfl

/-- In a list without repetitions, a selection has its i-th row in the place of the i-th row
of all exactly when all rows up to there are selected. -/
theorem filter_position_iff {rows : List α} (distinct : rows.Nodup) {p : α → Bool} {i : Nat}
    (inside : i < (rows.filter p).length) :
    (rows.filter p)[i]? = rows[i]? ↔ ∀ row ∈ rows.take (i + 1), p row = true := by
  have bound : i < rows.length := inside.trans_le (List.length_filter_le p rows)
  constructor
  · intro same
    have row : rows[i]? = some rows[i] := List.getElem?_eq_getElem bound
    have chosen : p rows[i] = true := by
      have listed := List.mem_of_getElem? (same.trans row)
      exact (List.mem_filter.mp listed).2
    -- the place of that row in the selection is the number of selected rows before it
    have split : rows.filter p =
        (rows.take i).filter p ++ rows[i] :: (rows.drop (i + 1)).filter p := by
      conv_lhs => rw [← List.take_append_drop i rows, List.drop_eq_getElem_cons bound]
      rw [List.filter_append, List.filter_cons, if_pos chosen]
    have place : (rows.filter p)[((rows.take i).filter p).length]? = some rows[i] := by
      rw [split, List.getElem?_append_right (le_refl _), Nat.sub_self, List.getElem?_cons_zero]
    have count : i = ((rows.take i).filter p).length :=
      (List.getElem?_inj inside (distinct.filter p)).mp (same.trans (row.trans place.symm))
    have before : ∀ x ∈ rows.take i, p x = true := by
      apply List.length_filter_eq_length_iff.mp
      rw [← count, List.length_take]
      omega
    intro x member
    rw [List.take_succ_eq_append_getElem bound] at member
    rcases List.mem_append.mp member with earlier | last
    · exact before x earlier
    · rw [List.mem_singleton.mp last]
      exact chosen
  · intro all
    have split : rows.filter p = rows.take (i + 1) ++ (rows.drop (i + 1)).filter p := by
      conv_lhs => rw [← List.take_append_drop (i + 1) rows]
      rw [List.filter_append, List.filter_eq_self.mpr all]
    rw [split, List.getElem?_append_left (by rw [List.length_take]; omega),
      List.getElem?_take_of_lt (Nat.lt_succ_self i)]

/-- Dropping as many rows as are selected leaves the others exactly when the selected rows are
the first. -/
theorem drop_eq_filter_not_iff {rows : List α} {p : α → Bool} :
    rows.drop (rows.filter p).length = (rows.filter fun row => !p row) ↔
      FirstSelected rows p := by
  have counts : (rows.filter p).length = ((rows.take (rows.filter p).length).filter p).length +
      ((rows.drop (rows.filter p).length).filter p).length := by
    rw [← List.length_append, ← List.filter_append, List.take_append_drop]
  have bound := List.length_filter_le p rows
  have taken : (rows.take (rows.filter p).length).length = (rows.filter p).length := by
    rw [List.length_take]
    omega
  constructor
  · intro same
    apply List.length_filter_eq_length_iff.mp
    have noneLeft : (rows.drop (rows.filter p).length).filter p = [] := by
      rw [same, List.filter_filter]
      apply List.filter_eq_nil_iff.mpr
      simp
    rw [noneLeft] at counts
    simp only [List.length_nil] at counts
    omega
  · intro all
    have whole := List.filter_eq_self.mpr all
    have noneLeft : (rows.drop (rows.filter p).length).filter p = [] := by
      apply List.length_eq_zero_iff.mp
      rw [whole] at counts
      omega
    have others : (rows.drop (rows.filter p).length).filter (fun row => !p row) =
        rows.drop (rows.filter p).length := by
      apply List.filter_eq_self.mpr
      intro row member
      simpa using List.filter_eq_nil_iff.mp noneLeft row member
    have first : (rows.take (rows.filter p).length).filter (fun row => !p row) = [] := by
      apply List.filter_eq_nil_iff.mpr
      intro row member
      simp [all row member]
    conv_rhs => rw [← List.take_append_drop (rows.filter p).length rows]
    rw [List.filter_append, first, others, List.nil_append]

end Expresso.Sql
