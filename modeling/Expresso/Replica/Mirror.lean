import Expresso.Sql.RowNumber

/-! A list that mirrors another one position by position, as far as it knows what stands there. -/

namespace Expresso.Replica
open Sql

section
variable {α β : Type} (f : β → α)

/-- What is known of a position is what the row there shows. -/
def Mirrors (view : List (Option α)) (rows : List β) : Prop :=
  ∀ (i : Nat) (a : α), view[i]? = some (some a) → rows[i]?.map f = some a

variable {f} {view : List (Option α)} {rows : List β}

theorem mirrors_congr {rows' : List β} (same : rows'.map f = rows.map f) :
    Mirrors f view rows' ↔ Mirrors f view rows := by
  simp only [Mirrors, ← List.getElem?_map, same]

theorem mirrors_replicate (n : Nat) (rows : List β) :
    Mirrors f (List.replicate n none) rows := by
  intro i a known
  obtain ⟨_, none⟩ := List.getElem?_eq_some_iff.mp known
  simp at none

theorem Mirrors.exists_row (mirrors : Mirrors f view rows) {i : Nat} {a : α}
    (known : view[i]? = some (some a)) : ∃ row, rows[i]? = some row ∧ f row = a :=
  Option.map_eq_some_iff.mp (mirrors i a known)

/-! ### Changes of the view -/

/-- A view of another length: the end is cut, or nothing is known of what is new. -/
def resize (n : Nat) (view : List (Option α)) : List (Option α) :=
  (view ++ List.replicate (n - view.length) none).take n

theorem length_resize (n : Nat) (view : List (Option α)) : (resize n view).length = n := by
  simp only [resize, List.length_take, List.length_append, List.length_replicate]
  omega

theorem resize_length (view : List (Option α)) : resize view.length view = view := by
  simp [resize]

theorem Mirrors.resize (mirrors : Mirrors f view rows) (n : Nat) :
    Mirrors f (resize n view) rows := by
  intro i a known
  apply mirrors i a
  simp only [Replica.resize, List.getElem?_take, List.getElem?_append] at known
  split at known
  · split at known
    · exact known
    · obtain ⟨_, none⟩ := List.getElem?_eq_some_iff.mp known
      simp at none
  · cases known

/-- The view after it has been told what stands at some positions; others it has not. -/
def fill (view : List (Option α)) (told : List (Nat × α)) : List (Option α) :=
  told.foldl (fun view entry => view.set entry.1 (some entry.2)) view

theorem length_fill (view : List (Option α)) (told : List (Nat × α)) :
    (fill view told).length = view.length := by
  unfold fill
  induction told generalizing view with
  | nil => rfl
  | cons entry rest ih => rw [List.foldl_cons, ih, List.length_set]

theorem getElem?_fill_of_not_mem {told : List (Nat × α)} {i : Nat}
    (untold : i ∉ told.map (·.1)) : (fill view told)[i]? = view[i]? := by
  unfold fill
  induction told generalizing view with
  | nil => rfl
  | cons entry rest ih =>
    obtain ⟨other, later⟩ := List.ne_and_not_mem_of_not_mem_cons untold
    rw [List.foldl_cons, ih later, List.getElem?_set_ne other.symm]

theorem getElem?_fill {told : List (Nat × α)} (distinct : (told.map (·.1)).Nodup) {i : Nat} {a : α}
    (entry : (i, a) ∈ told) (inside : i < view.length) :
    (fill view told)[i]? = some (some a) := by
  induction told generalizing view with
  | nil => cases entry
  | cons first rest ih =>
    obtain ⟨fresh, later⟩ := List.nodup_cons.mp distinct
    change (fill (view.set first.1 (some first.2)) rest)[i]? = _
    cases List.mem_cons.mp entry with
    | inl here =>
      subst here
      rw [getElem?_fill_of_not_mem fresh, List.getElem?_set_self inside]
    | inr after => exact ih later after (by rwa [List.length_set])

theorem mirrors_fill_iff (mirrors : Mirrors f view rows) {told : List (Nat × α)}
    (distinct : (told.map (·.1)).Nodup) :
    Mirrors f (fill view told) rows ↔
      ∀ entry ∈ told, entry.1 < view.length → rows[entry.1]?.map f = some entry.2 := by
  constructor
  · intro after entry listed inside
    exact after entry.1 entry.2 (getElem?_fill distinct listed inside)
  · intro right i a known
    by_cases isTold : i ∈ told.map (·.1)
    · obtain ⟨⟨j, b⟩, listed, rfl⟩ := List.mem_map.mp isTold
      have inside : j < view.length := by
        rw [← length_fill view told]
        exact (List.getElem?_eq_some_iff.mp known).1
      rw [getElem?_fill distinct listed inside] at known
      cases known
      exact right _ listed inside
    · rw [getElem?_fill_of_not_mem isTold] at known
      exact mirrors i a known

/-! ### Changes of the rows -/

/-- Rows may go exactly where nothing known comes after them. -/
theorem mirrors_filter_iff (mirrors : Mirrors f view rows) (distinct : (rows.map f).Nodup)
    {p : β → Bool} :
    Mirrors f view (rows.filter p) ↔
      ∀ (i : Nat) (a : α), view[i]? = some (some a) → ∀ row ∈ rows.take (i + 1), p row = true := by
  constructor
  · intro after i a known
    obtain ⟨row, here, shows⟩ := mirrors.exists_row known
    obtain ⟨row', here', shows'⟩ := after.exists_row known
    have kept := (List.mem_filter.mp (List.mem_of_getElem? here')).1
    have same : row' = row :=
      List.inj_on_of_nodup_map distinct kept (List.mem_of_getElem? here) (shows'.trans shows.symm)
    have inside := (List.getElem?_eq_some_iff.mp here').1
    rw [← filter_position_iff (distinct.of_map _) inside, here, here', same]
  · intro stays i a known
    obtain ⟨row, here, shows⟩ := mirrors.exists_row known
    have bound := (List.getElem?_eq_some_iff.mp here).1
    have before := List.filter_eq_self.mpr (stays i a known)
    have inside : i < (rows.filter p).length := by
      rw [← List.take_append_drop (i + 1) rows, List.filter_append, before, List.length_append,
        List.length_take]
      omega
    rw [(filter_position_iff (distinct.of_map _) inside).mpr (stays i a known), here]
    exact congrArg some shows

/-- A row may come in exactly after everything known. -/
theorem mirrors_insert_iff {before after : List β} {row : β}
    (mirrors : Mirrors f view (before ++ after))
    (distinct : ((before ++ row :: after).map f).Nodup) :
    Mirrors f view (before ++ row :: after) ↔
      ∀ (i : Nat) (a : α), view[i]? = some (some a) → i < before.length := by
  constructor
  · intro inserted i a known
    by_contra beyond
    obtain ⟨x, here, shows⟩ := mirrors.exists_row known
    rw [List.getElem?_append_right (by omega)] at here
    have next : (before ++ row :: after)[i + 1]? = some x := by
      rw [List.getElem?_append_right (by omega), Nat.sub_add_comm (by omega),
        List.getElem?_cons_succ, here]
    have shown : ((before ++ row :: after).map f)[i + 1]? = some a := by
      rw [List.getElem?_map, next, Option.map_some, shows]
    have shown' : ((before ++ row :: after).map f)[i]? = some a := by
      rw [List.getElem?_map, inserted i a known]
    have bound := (List.getElem?_eq_some_iff.mp shown').1
    have same := (List.getElem?_inj bound distinct).mp (shown'.trans shown.symm)
    omega
  · intro inside i a known
    have shown := mirrors i a known
    rw [List.getElem?_append_left (inside i a known)] at shown ⊢
    exact shown

/-- Where the rows are in the order of a key, the ones up to the last known have to be up to the
key of the new row. -/
theorem mirrors_insert_sorted_iff {key : β → Int} {row : β} (mirrors : Mirrors f view rows)
    (sorted : rows.Pairwise fun a b => key a ≤ key b)
    (distinct : (((rows.filter fun x => key x ≤ key row) ++
      row :: rows.filter fun x => key row < key x).map f).Nodup) :
    Mirrors f view ((rows.filter fun x => key x ≤ key row) ++
        row :: rows.filter fun x => key row < key x) ↔
      ∀ (i : Nat) (a : α), view[i]? = some (some a) →
        ∀ x ∈ rows.take (i + 1), key x ≤ key row := by
  have split := sorted_split (key row) sorted
  have parts : Mirrors f view ((rows.filter fun x => key x ≤ key row) ++
      rows.filter fun x => key row < key x) := by rwa [← split]
  rw [mirrors_insert_iff parts distinct]
  apply forall_congr'
  intro i
  apply forall_congr'
  intro a
  apply imp_congr_right
  intro known
  constructor
  · intro inside x member
    rw [split, List.take_append_of_le_length inside] at member
    simpa using (List.mem_filter.mp (List.mem_of_mem_take member)).2
  · intro low
    by_contra beyond
    obtain ⟨x, here, _⟩ := mirrors.exists_row known
    have bound := (List.getElem?_eq_some_iff.mp here).1
    have under := low x (List.mem_take_iff_getElem.mpr
      ⟨i, by omega, (List.getElem?_eq_some_iff.mp here).2⟩)
    rw [split, List.getElem?_append_right (by omega)] at here
    have finished := (List.mem_filter.mp (List.mem_of_getElem? here)).2
    simp only [decide_eq_true_eq] at finished
    omega

end

end Expresso.Replica
