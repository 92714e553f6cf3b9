import Mathlib

/-! Edit scripts that turn one list into another, and the longest common subsequences that the
shortest of them keep. -/

namespace Expresso.Diff

variable {α : Type} {a b : α} {s t c : List α} {m n : Nat}

/-! ### Longest common subsequences -/

def IsLongest (n : Nat) (s t : List α) : Prop :=
  (∃ c : List α, c.Sublist s ∧ c.Sublist t ∧ c.length = n) ∧
  ∀ c : List α, c.Sublist s → c.Sublist t → c.length ≤ n

theorem IsLongest.unique (first : IsLongest m s t) (second : IsLongest n s t) : m = n := by
  obtain ⟨⟨c, inS, inT, rfl⟩, mostM⟩ := first
  obtain ⟨⟨d, inS', inT', rfl⟩, mostN⟩ := second
  exact Nat.le_antisymm (mostN c inS inT) (mostM d inS' inT')

theorem isLongest_nil_left (t : List α) : IsLongest 0 [] t :=
  ⟨⟨[], List.Sublist.slnil, List.nil_sublist t, rfl⟩,
    fun c inside _ => by rw [List.sublist_nil.mp inside]; exact Nat.le_refl 0⟩

theorem isLongest_nil_right (s : List α) : IsLongest 0 s [] :=
  ⟨⟨[], List.nil_sublist s, List.Sublist.slnil, rfl⟩,
    fun c _ inside => by rw [List.sublist_nil.mp inside]; exact Nat.le_refl 0⟩

/-- An equal first element belongs to a longest one. -/
theorem IsLongest.same (longest : IsLongest n s t) (a : α) :
    IsLongest (n + 1) (a :: s) (a :: t) := by
  obtain ⟨⟨c, inS, inT, rfl⟩, most⟩ := longest
  refine ⟨⟨a :: c, inS.cons_cons a, inT.cons_cons a, rfl⟩, ?_⟩
  intro d left right
  have shorter : d.tail.length ≤ c.length := by
    apply most
    · exact left.tail
    · exact right.tail
  rw [List.length_tail] at shorter
  omega

/-- Of two different first elements one is dropped. -/
theorem IsLongest.other (dropFirst : IsLongest m s (b :: t)) (dropSecond : IsLongest n (a :: s) t)
    (differ : a ≠ b) : IsLongest (max m n) (a :: s) (b :: t) := by
  constructor
  · obtain ⟨⟨c, inS, inT, rfl⟩, -⟩ := dropFirst
    obtain ⟨⟨d, inS', inT', rfl⟩, -⟩ := dropSecond
    rcases Nat.le_total c.length d.length with less | more
    · exact ⟨d, inS', inT'.cons b, (Nat.max_eq_right less).symm⟩
    · exact ⟨c, inS.cons a, inT, (Nat.max_eq_left more).symm⟩
  · intro d left right
    cases left with
    | cons _ left => exact Nat.le_trans (dropFirst.2 d left right) (Nat.le_max_left m n)
    | cons_cons _ left =>
      cases right with
      | cons _ right =>
        exact Nat.le_trans (dropSecond.2 _ (left.cons_cons a) right) (Nat.le_max_right m n)
      | cons_cons _ _ => exact absurd rfl differ

theorem IsLongest.mono_left (shorter : IsLongest m s t) (longer : IsLongest n (a :: s) t) :
    m ≤ n := by
  obtain ⟨⟨c, inS, inT, rfl⟩, -⟩ := shorter
  exact longer.2 c (inS.cons a) inT

theorem IsLongest.mono_right (shorter : IsLongest m s t) (longer : IsLongest n s (b :: t)) :
    m ≤ n := by
  obtain ⟨⟨c, inS, inT, rfl⟩, -⟩ := shorter
  exact longer.2 c inS (inT.cons b)

section
variable [DecidableEq α]

/-- One row of the table of lengths, from the row for the list without its first element. -/
def longestRow (a : α) (rest : List α → Nat) : List α → Nat
  | [] => 0
  | b :: t => if a = b then rest t + 1 else max (rest (b :: t)) (longestRow a rest t)

/-- The length of a longest common subsequence. -/
def longest : List α → List α → Nat
  | [] => fun _ => 0
  | a :: s => longestRow a (longest s)

example : longest [1, 2, 3] [2, 3, 4] = 2 := by simp [longest, longestRow]

theorem longest_isLongest (s t : List α) : IsLongest (longest s t) s t := by
  induction s generalizing t with
  | nil => exact isLongest_nil_left t
  | cons a s ihS =>
    induction t with
    | nil => exact isLongest_nil_right (a :: s)
    | cons b t ihT =>
      show IsLongest (if a = b then _ else _) _ _
      split_ifs with same
      · rw [← same]
        exact (ihS t).same a
      · exact (ihS (b :: t)).other ihT same

end

/-! ### Scripts -/

inductive Edit (α : Type) where
  | keep (a : α)
  | insert (a : α)
  | delete (a : α)
  deriving DecidableEq

namespace Edit

/-- What is kept goes before what is inserted, and this before what is deleted. -/
def rank : Edit α → Nat
  | keep _ => 0
  | insert _ => 1
  | delete _ => 2

def changes : Edit α → Bool
  | keep _ => false
  | _ => true

end Edit

/-- The list that a script starts from. -/
def before : List (Edit α) → List α
  | [] => []
  | .keep a :: script => a :: before script
  | .insert _ :: script => before script
  | .delete a :: script => a :: before script

/-- The list that a script makes of it. -/
def after : List (Edit α) → List α
  | [] => []
  | .keep a :: script => a :: after script
  | .insert a :: script => a :: after script
  | .delete _ :: script => after script

def kept : List (Edit α) → List α
  | [] => []
  | .keep a :: script => a :: kept script
  | _ :: script => kept script

def inserted : List (Edit α) → List α
  | [] => []
  | .insert a :: script => a :: inserted script
  | _ :: script => inserted script

def deleted : List (Edit α) → List α
  | [] => []
  | .delete a :: script => a :: deleted script
  | _ :: script => deleted script

example : let script := [Edit.keep 1, .delete 2, .insert 3]
    before script = [1, 2] ∧ after script = [1, 3] ∧ kept script = [1] ∧
      inserted script = [3] ∧ deleted script = [2] := by
  simp [before, after, kept, inserted, deleted]

section
variable {script other : List (Edit α)} {old new : List α}

theorem before_append (script other : List (Edit α)) :
    before (script ++ other) = before script ++ before other := by
  induction script with
  | nil => rfl
  | cons e script ih => cases e <;> simp [before, ih]

theorem after_append (script other : List (Edit α)) :
    after (script ++ other) = after script ++ after other := by
  induction script with
  | nil => rfl
  | cons e script ih => cases e <;> simp [after, ih]

theorem kept_append (script other : List (Edit α)) :
    kept (script ++ other) = kept script ++ kept other := by
  induction script with
  | nil => rfl
  | cons e script ih => cases e <;> simp [kept, ih]

theorem kept_before (script : List (Edit α)) : (kept script).Sublist (before script) := by
  induction script with
  | nil => exact .slnil
  | cons e script ih =>
    cases e with
    | keep a => exact ih.cons_cons a
    | insert a => exact ih
    | delete a => exact ih.cons a

theorem kept_after (script : List (Edit α)) : (kept script).Sublist (after script) := by
  induction script with
  | nil => exact .slnil
  | cons e script ih =>
    cases e with
    | keep a => exact ih.cons_cons a
    | insert a => exact ih.cons a
    | delete a => exact ih

theorem length_before (script : List (Edit α)) :
    (before script).length = (kept script).length + (deleted script).length := by
  induction script with
  | nil => rfl
  | cons e script ih => cases e <;> simp [before, kept, deleted, ih] <;> omega

theorem length_after (script : List (Edit α)) :
    (after script).length = (kept script).length + (inserted script).length := by
  induction script with
  | nil => rfl
  | cons e script ih => cases e <;> simp [after, kept, inserted, ih] <;> omega

/-- The script turns the one list into the other. -/
structure Turns (script : List (Edit α)) (old new : List α) : Prop where
  before : before script = old
  after : after script = new

/-- The number of insertions and deletions. -/
def cost (script : List (Edit α)) : Nat := (inserted script).length + (deleted script).length

theorem Turns.cost (turns : Turns script old new) :
    cost script + 2 * (kept script).length = old.length + new.length := by
  have left := length_before script
  have right := length_after script
  rw [turns.before] at left
  rw [turns.after] at right
  unfold Diff.cost
  omega

theorem Turns.append {old' new' : List α} (first : Turns script old new)
    (second : Turns other old' new') : Turns (script ++ other) (old ++ old') (new ++ new') :=
  ⟨by rw [before_append, first.before, second.before],
    by rw [after_append, first.after, second.after]⟩

theorem turns_delete (s : List α) : Turns (s.map .delete) s [] := by
  induction s with
  | nil => exact ⟨rfl, rfl⟩
  | cons a s ih => exact ⟨congrArg (a :: ·) ih.before, ih.after⟩

theorem turns_insert (s : List α) : Turns (s.map .insert) [] s := by
  induction s with
  | nil => exact ⟨rfl, rfl⟩
  | cons a s ih => exact ⟨ih.before, congrArg (a :: ·) ih.after⟩

theorem turns_keep (a : α) : Turns [.keep a] [a] [a] := ⟨rfl, rfl⟩

theorem kept_delete (s : List α) : kept (s.map .delete) = [] := by
  induction s with
  | nil => rfl
  | cons a s ih => exact ih

theorem kept_insert (s : List α) : kept (s.map .insert) = [] := by
  induction s with
  | nil => rfl
  | cons a s ih => exact ih

theorem sublist_split (inside : (a :: c).Sublist s) :
    ∃ u v, s = u ++ a :: v ∧ c.Sublist v := by
  obtain ⟨first, rest, rfl, member, later⟩ := List.cons_sublist_iff.mp inside
  obtain ⟨u, v, rfl⟩ := List.append_of_mem member
  exact ⟨u, v ++ rest, by simp, later.trans (List.sublist_append_right v rest)⟩

/-- Every common subsequence is kept by some script. -/
theorem exists_keeping (left : c.Sublist old) (right : c.Sublist new) :
    ∃ script, Turns script old new ∧ kept script = c := by
  induction c generalizing old new with
  | nil =>
    refine ⟨old.map .delete ++ new.map .insert, ?_, ?_⟩
    · simpa using (turns_delete old).append (turns_insert new)
    · rw [kept_append, kept_delete, kept_insert]
      rfl
  | cons a c ih =>
    obtain ⟨u, old', rfl, inOld⟩ := sublist_split left
    obtain ⟨v, new', rfl, inNew⟩ := sublist_split right
    obtain ⟨script, turns, keeps⟩ := ih inOld inNew
    refine ⟨u.map .delete ++ v.map .insert ++ [.keep a] ++ script, ?_, ?_⟩
    · simpa using (((turns_delete u).append (turns_insert v)).append (turns_keep a)).append turns
    · rw [kept_append, kept_append, kept_append, kept_delete, kept_insert, keeps]
      rfl

/-! ### The shortest scripts, and the first one of them -/

def Shortest (script : List (Edit α)) (old new : List α) : Prop :=
  Turns script old new ∧ ∀ other, Turns other old new → cost script ≤ cost other

/-- The shortest scripts keep a longest common subsequence. -/
theorem shortest_iff :
    Shortest script old new ↔
      Turns script old new ∧ IsLongest (kept script).length old new := by
  unfold Shortest
  apply and_congr_right
  intro turns
  have total := turns.cost
  constructor
  · intro least
    refine ⟨⟨kept script, turns.before ▸ kept_before script, turns.after ▸ kept_after script, rfl⟩,
      ?_⟩
    intro c left right
    obtain ⟨other, turns', rfl⟩ := exists_keeping left right
    have more := least other turns'
    have total' := turns'.cost
    omega
  · intro most other turns'
    have more := most.2 (kept other) (turns'.before ▸ kept_before other)
      (turns'.after ▸ kept_after other)
    have total' := turns'.cost
    omega

/-- The lexicographic order of scripts. -/
def Precedes : List (Edit α) → List (Edit α) → Prop
  | [], _ => True
  | _ :: _, [] => False
  | e :: script, f :: other => e.rank < f.rank ∨ e.rank = f.rank ∧ Precedes script other

theorem Precedes.antisymm (first : Precedes script other) (second : Precedes other script) :
    script.map Edit.rank = other.map Edit.rank := by
  induction script generalizing other with
  | nil =>
    cases other with
    | nil => rfl
    | cons f other => exact second.elim
  | cons e script ih =>
    cases other with
    | nil => exact first.elim
    | cons f other =>
      rcases first with less | ⟨same, first⟩
      · rcases second with more | ⟨same, second⟩
        · exact absurd more (Nat.lt_asymm less)
        · exact absurd same.symm (Nat.ne_of_lt less)
      · rcases second with more | ⟨same, second⟩
        · exact absurd same.symm (Nat.ne_of_lt more)
        · rw [List.map_cons, List.map_cons, ih first second, same]

/-- The first of the shortest scripts: an element is kept as soon as it can be, and otherwise
inserted rather than deleted. -/
def First (script : List (Edit α)) (old new : List α) : Prop :=
  Shortest script old new ∧ ∀ other, Shortest other old new → Precedes script other

theorem Turns.eq_of_rank (turns : Turns script old new) (turns' : Turns other old new)
    (same : script.map Edit.rank = other.map Edit.rank) : script = other := by
  induction script generalizing other old new with
  | nil =>
    rw [List.map_nil] at same
    exact (List.map_eq_nil_iff.mp same.symm).symm
  | cons e script ih =>
    cases other with
    | nil => cases same
    | cons f other =>
      obtain ⟨head, tail⟩ := List.cons.inj same
      obtain ⟨left, right⟩ := turns
      obtain ⟨left', right'⟩ := turns'
      cases e with
      | keep a =>
        cases f with
        | keep b =>
          obtain ⟨rfl, sameOld⟩ := List.cons.inj (left.trans left'.symm)
          obtain ⟨-, sameNew⟩ := List.cons.inj (right.trans right'.symm)
          rw [ih ⟨rfl, rfl⟩ ⟨sameOld.symm, sameNew.symm⟩ tail]
        | insert b => cases head
        | delete b => cases head
      | insert a =>
        cases f with
        | insert b =>
          have sameOld : Diff.before script = Diff.before other := left.trans left'.symm
          obtain ⟨rfl, sameNew⟩ := List.cons.inj (right.trans right'.symm)
          rw [ih ⟨rfl, rfl⟩ ⟨sameOld.symm, sameNew.symm⟩ tail]
        | keep b => cases head
        | delete b => cases head
      | delete a =>
        cases f with
        | delete b =>
          obtain ⟨rfl, sameOld⟩ := List.cons.inj (left.trans left'.symm)
          have sameNew : Diff.after script = Diff.after other := right.trans right'.symm
          rw [ih ⟨rfl, rfl⟩ ⟨sameOld.symm, sameNew.symm⟩ tail]
        | keep b => cases head
        | insert b => cases head

theorem First.unique (first : First script old new) (second : First other old new) :
    script = other :=
  first.1.1.eq_of_rank second.1.1 ((first.2 other second.1).antisymm (second.2 script first.1))

theorem first_nil : First ([] : List (Edit α)) [] [] := by
  refine ⟨shortest_iff.2 ⟨⟨rfl, rfl⟩, isLongest_nil_left []⟩, ?_⟩
  exact fun other _ => trivial

theorem First.keep (first : First script old new) (a : α) :
    First (.keep a :: script) (a :: old) (a :: new) := by
  obtain ⟨shortest, least⟩ := first
  obtain ⟨turns, longest⟩ := shortest_iff.1 shortest
  have longer := longest.same a
  refine ⟨shortest_iff.2 ⟨⟨congrArg (a :: ·) turns.before, congrArg (a :: ·) turns.after⟩,
    longer⟩, ?_⟩
  intro other shortest'
  obtain ⟨⟨left, right⟩, longest'⟩ := shortest_iff.1 shortest'
  cases other with
  | nil => cases left
  | cons e other =>
    cases e with
    | keep b =>
      refine .inr ⟨rfl, least other (shortest_iff.2 ⟨⟨?_, ?_⟩, ?_⟩)⟩
      · exact (List.cons.inj left).2
      · exact (List.cons.inj right).2
      · have same : (kept other).length + 1 = (kept script).length + 1 := longest'.unique longer
        rw [Nat.succ.inj same]
        exact longest
    | insert b => exact .inl Nat.zero_lt_one
    | delete b => exact .inl Nat.zero_lt_two

/-- An insertion that loses nothing goes first where nothing can be kept. -/
theorem First.insert (first : First script old new) (differ : ∀ a ∈ old.head?, a ≠ b)
    (most : IsLongest n old (b :: new)) (enough : IsLongest n old new) :
    First (.insert b :: script) old (b :: new) := by
  obtain ⟨shortest, least⟩ := first
  obtain ⟨turns, longest⟩ := shortest_iff.1 shortest
  have same : (kept script).length = n := longest.unique enough
  refine ⟨shortest_iff.2 ⟨⟨turns.before, congrArg (b :: ·) turns.after⟩,
    (show (kept script).length = n from same) ▸ most⟩, ?_⟩
  intro other shortest'
  obtain ⟨⟨left, right⟩, longest'⟩ := shortest_iff.1 shortest'
  cases other with
  | nil => cases right
  | cons e other =>
    cases e with
    | keep a =>
      have first : old.head? = some a := left ▸ rfl
      exact absurd (List.cons.inj right).1 (differ a first)
    | insert a =>
      refine .inr ⟨rfl, least other (shortest_iff.2 ⟨⟨left, ?_⟩, ?_⟩)⟩
      · exact (List.cons.inj right).2
      · have kept' : (kept other).length = n := longest'.unique most
        rw [kept']
        exact enough
    | delete a => exact .inl Nat.one_lt_two

/-- A deletion goes first where nothing can be kept and an insertion would lose something. -/
theorem First.delete (first : First script old new) (differ : ∀ b ∈ new.head?, a ≠ b)
    (most : IsLongest n (a :: old) new) (enough : IsLongest n old new)
    (loses : ∀ b rest, new = b :: rest → ¬IsLongest n (a :: old) rest) :
    First (.delete a :: script) (a :: old) new := by
  obtain ⟨shortest, least⟩ := first
  obtain ⟨turns, longest⟩ := shortest_iff.1 shortest
  have same : (kept script).length = n := longest.unique enough
  refine ⟨shortest_iff.2 ⟨⟨congrArg (a :: ·) turns.before, turns.after⟩,
    (show (kept script).length = n from same) ▸ most⟩, ?_⟩
  intro other shortest'
  obtain ⟨⟨left, right⟩, longest'⟩ := shortest_iff.1 shortest'
  cases other with
  | nil => cases left
  | cons e other =>
    cases e with
    | keep b =>
      have first : new.head? = some b := right ▸ rfl
      exact absurd (List.cons.inj left).1.symm (differ b first)
    | insert b =>
      have kept' : (kept other).length = n := longest'.unique most
      have fewer : IsLongest n (a :: old) (after other) := by
        refine ⟨⟨kept other, ?_, kept_after other, kept'⟩, ?_⟩
        · have inside := kept_before other
          rwa [show before other = a :: old from left] at inside
        · intro c inOld inNew
          exact most.2 c inOld (right ▸ inNew.cons b)
      exact absurd fewer (loses b _ right.symm)
    | delete b =>
      refine .inr ⟨rfl, least other (shortest_iff.2 ⟨⟨?_, right⟩, ?_⟩)⟩
      · exact (List.cons.inj left).2
      · have kept' : (kept other).length = n := longest'.unique most
        rw [kept']
        exact enough

theorem not_precedes_swapped (x y z : List (Edit α)) (a b : α) :
    ¬Precedes (x ++ .delete a :: .insert b :: y) (x ++ .insert b :: .delete a :: z) := by
  induction x with
  | nil =>
    rintro (less | ⟨same, -⟩)
    · exact absurd less (by simp [Edit.rank])
    · cases same
  | cons e x ih =>
    rintro (less | ⟨-, rest⟩)
    · exact Nat.lt_irrefl _ less
    · exact ih rest

/-- Nothing is inserted right after a deletion: the other order is as short and comes first. -/
theorem First.delete_insert {x y : List (Edit α)}
    (first : First (x ++ .delete a :: .insert b :: y) old new) : False := by
  obtain ⟨⟨turns, least⟩, earliest⟩ := first
  have swapped : Turns (x ++ .insert b :: .delete a :: y) old new := by
    constructor
    · rw [← turns.before, before_append, before_append]
      rfl
    · rw [← turns.after, after_append, after_append]
      rfl
  have keeps : kept (x ++ .insert b :: .delete a :: y) =
      kept (x ++ .delete a :: .insert b :: y) := by
    rw [kept_append, kept_append]
    rfl
  have same : cost (x ++ .insert b :: .delete a :: y) =
      cost (x ++ .delete a :: .insert b :: y) := by
    have total := turns.cost
    have total' := swapped.cost
    rw [keeps] at total'
    omega
  have order := earliest _ ⟨swapped, fun other turns' => same ▸ least other turns'⟩
  exact not_precedes_swapped x y y a b order

end

end Expresso.Diff
