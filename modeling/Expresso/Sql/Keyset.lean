import Expresso.Sql.RowNumber

/-! Pages of a table in the order of a key, each from the last key of the page before. -/

namespace Expresso.Sql

section
variable {α : Type} (key : α → Int)

/-- `WHERE key > last ORDER BY key LIMIT limit` -/
def pageAfter (limit : Nat) (last : Int) (rows : List α) : List α :=
  (orderBy key (rows.filter fun row => last < key row)).take limit

/-- The highest key of a page, or where it starts if it is empty. -/
def lastKey (last : Int) (page : List α) : Int := ((page.map key).max?).getD last

variable {key} {limit : Nat} {last : Int} {rows : List α} {row : α}

theorem mem_pageAfter (member : row ∈ pageAfter key limit last rows) :
    row ∈ rows ∧ last < key row := by
  have listed := mem_orderBy.mp (List.mem_of_mem_take member)
  simpa using List.mem_filter.mp listed

theorem pageAfter_eq_nil_iff (positive : 0 < limit) :
    pageAfter key limit last rows = [] ↔ ∀ row ∈ rows, key row ≤ last := by
  unfold pageAfter
  rw [List.take_eq_nil_iff, or_iff_right (by omega), List.eq_nil_iff_forall_not_mem]
  simp [mem_orderBy]

theorem lastKey_nil : lastKey key last [] = last := rfl

theorem key_le_lastKey {page : List α} (member : row ∈ page) : key row ≤ lastKey key last page := by
  have listed : key row ∈ page.map key := List.mem_map_of_mem member
  unfold lastKey
  cases top : (page.map key).max? with
  | none => simp [List.max?_eq_none_iff.mp top] at listed
  | some high => exact (List.max?_eq_some_iff.mp top).2 _ listed

theorem exists_key_eq_lastKey {page : List α} (rising : last < lastKey key last page) :
    ∃ row ∈ page, key row = lastKey key last page := by
  unfold lastKey at rising ⊢
  cases top : (page.map key).max? with
  | none =>
    rw [top] at rising
    exact absurd rising (lt_irrefl _)
  | some high => exact List.mem_map.mp (List.max?_eq_some_iff.mp top).1

/-- A page leaves out no row up to its last key. -/
theorem mem_pageAfter_of_le (distinct : ∀ a ∈ rows, ∀ b ∈ rows, key a = key b → a = b)
    (member : row ∈ rows) (above : last < key row)
    (reached : key row ≤ lastKey key last (pageAfter key limit last rows)) :
    row ∈ pageAfter key limit last rows := by
  obtain ⟨top, inPage, highest⟩ := exists_key_eq_lastKey (lt_of_lt_of_le above reached)
  have sorted := orderBy_sorted key (rows.filter fun row => last < key row)
  have listed : row ∈ orderBy key (rows.filter fun row => last < key row) := by
    rw [mem_orderBy]
    exact List.mem_filter.mpr ⟨member, by simpa using above⟩
  rw [← List.take_append_drop limit (orderBy _ _)] at sorted listed
  cases List.mem_append.mp listed with
  | inl here => exact here
  | inr beyond =>
    have before : key top ≤ key row := (List.pairwise_append.mp sorted).2.2 top inPage row beyond
    have same : row = top :=
      distinct row member top (mem_pageAfter inPage).1 (by omega)
    rwa [same]

theorem lastKey_map {β : Type} (f : β → α) (page : List β) :
    lastKey key last (page.map f) = lastKey (fun row => key (f row)) last page := by
  simp only [lastKey, List.map_map]
  rfl

/-! ### A reader that goes from page to page -/

/-- Every row up to a key has been read. -/
def ReadUpTo (key : α → Int) (last : Int) (rows : List α) (isRead : α → Prop) : Prop :=
  ∀ row ∈ rows, key row ≤ last → isRead row

theorem ReadUpTo.mono {rows' : List α} {last' : Int} {isRead isRead' : α → Prop}
    (before : ReadUpTo key last rows isRead) (lower : last' ≤ last)
    (origin : ∀ row' ∈ rows', key row' ≤ last' →
      ∃ row ∈ rows, key row = key row' ∧ (isRead row → isRead' row')) :
    ReadUpTo key last' rows' isRead' := by
  intro row' member reached
  obtain ⟨row, among, same, carries⟩ := origin row' member reached
  apply carries
  apply before row among
  omega

theorem ReadUpTo.next {isRead : α → Prop} (before : ReadUpTo key last rows isRead)
    (distinct : ∀ a ∈ rows, ∀ b ∈ rows, key a = key b → a = b)
    (page : ∀ row ∈ pageAfter key limit last rows, isRead row) :
    ReadUpTo key (lastKey key last (pageAfter key limit last rows)) rows isRead := by
  intro row member reached
  by_cases above : last < key row
  · exact page row (mem_pageAfter_of_le distinct member above reached)
  · exact before row member (by omega)

/-- At an empty page every row has been read. -/
theorem ReadUpTo.complete {isRead : α → Prop} (before : ReadUpTo key last rows isRead)
    (positive : 0 < limit) (ended : pageAfter key limit last rows = []) :
    ∀ row ∈ rows, isRead row := by
  intro row member
  exact before row member ((pageAfter_eq_nil_iff positive).mp ended row member)

end

end Expresso.Sql
