import Mathlib

/-! A list without its repetitions: of the elements with one key, the first is kept. -/

namespace Expresso.Query

variable {α κ : Type}

/-- An element with no element of its key before it. -/
def Leads (key : α → κ) (l : List α) (a : α) : Prop :=
  ∃ before after, l = before ++ a :: after ∧ ∀ b ∈ before, key b ≠ key a

structure Distinct (α κ : Type) where
  kept : List α
  seen : List κ

variable {key : α → κ} {l : List α} {a x : α}

theorem Leads.mem (leads : Leads key l a) : a ∈ l := by
  obtain ⟨before, after, rfl, _⟩ := leads
  simp

@[simp]
theorem leads_nil : ¬Leads key [] a := fun leads => by simpa using leads.mem

theorem leads_snoc :
    Leads key (l ++ [x]) a ↔ Leads key l a ∨ (a = x ∧ ∀ b ∈ l, key b ≠ key x) := by
  constructor
  · intro ⟨before, after, split, first⟩
    rcases List.eq_nil_or_concat after with rfl | ⟨front, last, rfl⟩
    · obtain ⟨rfl, same⟩ := List.append_inj' split rfl
      cases same
      exact .inr ⟨rfl, first⟩
    · have regroup : before ++ a :: (front ++ [last]) = (before ++ a :: front) ++ [last] := by
        simp
      rw [List.concat_eq_append, regroup] at split
      obtain ⟨rfl, _⟩ := List.append_inj' split rfl
      exact .inl ⟨before, front, rfl, first⟩
  · rintro (⟨before, after, rfl, first⟩ | ⟨rfl, first⟩)
    · exact ⟨before, after ++ [x], by simp, first⟩
    · exact ⟨l, [], rfl, first⟩

theorem exists_leads (present : l ≠ []) : ∃ a, Leads key l a := by
  cases l with
  | nil => exact absurd rfl present
  | cons a rest => exact ⟨a, [], rest, rfl, by simp⟩

def Distinct.push [DecidableEq κ] (key : α → κ) (d : Distinct α κ) (a : α) : Distinct α κ :=
  if key a ∈ d.seen then d else ⟨d.kept ++ [a], key a :: d.seen⟩

/-- What is kept of a list and what is seen in it. -/
structure Distinct.Of (key : α → κ) (l : List α) (d : Distinct α κ) : Prop where
  kept : ∀ a, a ∈ d.kept ↔ Leads key l a
  seen : ∀ k, k ∈ d.seen ↔ ∃ b ∈ l, key b = k

theorem Distinct.of_nil : Distinct.Of key [] ⟨[], []⟩ := ⟨by simp, by simp⟩

variable {d : Distinct α κ} [DecidableEq κ]

theorem Distinct.Of.push (of : Distinct.Of key l d) (x : α) :
    Distinct.Of key (l ++ [x]) (d.push key x) := by
  unfold Distinct.push
  have seen (k : κ) : (∃ b ∈ l ++ [x], key b = k) ↔ (∃ b ∈ l, key b = k) ∨ key x = k := by
    simp [or_and_right, exists_or]
  split_ifs with known
  · have before := (of.seen _).mp known
    constructor
    · intro a
      rw [of.kept, leads_snoc]
      refine (or_iff_left fun ⟨_, new⟩ => ?_).symm
      obtain ⟨b, inside, same⟩ := before
      exact new b inside same
    · intro k
      rw [of.seen, seen]
      refine (or_iff_left_of_imp ?_).symm
      rintro rfl
      exact before
  · have new : ∀ b ∈ l, key b ≠ key x := fun b inside same =>
      known ((of.seen _).mpr ⟨b, inside, same⟩)
    constructor
    · intro a
      rw [leads_snoc, List.mem_append, List.mem_singleton, of.kept]
      exact or_congr_right (and_iff_left new).symm
    · intro k
      rw [List.mem_cons, of.seen, seen, or_comm, eq_comm]

theorem Distinct.Of.pushAll (of : Distinct.Of key l d) (more : List α) :
    Distinct.Of key (l ++ more) (more.foldl (Distinct.push key) d) := by
  induction more generalizing l d with
  | nil => rwa [List.append_nil]
  | cons x rest ih =>
    have next := ih (of.push x)
    rwa [List.append_assoc, List.singleton_append] at next

end Expresso.Query
