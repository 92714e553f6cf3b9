import Mathlib

/-! Texts cut along a pattern: every symbol of the pattern stands for one piece of the text. -/

namespace Expresso.Glob
variable {σ α : Type*} {stands : σ → List α → Prop}

/-- The text is cut into as many pieces as the pattern has symbols, each of which its symbol may
stand for. -/
def Splits (stands : σ → List α → Prop) (pattern : List σ) (text : List α) : Prop :=
  ∃ pieces, List.Forall₂ stands pattern pieces ∧ pieces.flatten = text

@[simp] theorem splits_nil {text : List α} : Splits stands [] text ↔ text = [] := by
  simp [Splits, eq_comm]

theorem splits_cons {symbol : σ} {pattern : List σ} {text : List α} :
    Splits stands (symbol :: pattern) text ↔
      ∃ piece rest, stands symbol piece ∧ Splits stands pattern rest ∧ piece ++ rest = text := by
  constructor
  · rintro ⟨_, all, same⟩
    cases all with
    | cons first others => exact ⟨_, _, first, ⟨_, others, rfl⟩, same⟩
  · rintro ⟨piece, _, first, ⟨pieces, others, rfl⟩, same⟩
    exact ⟨piece :: pieces, .cons first others, same⟩

theorem splits_append {left right : List σ} {text : List α} :
    Splits stands (left ++ right) text ↔
      ∃ before after, Splits stands left before ∧ Splits stands right after ∧
        before ++ after = text := by
  induction left generalizing text with
  | nil => simp
  | cons symbol left ih =>
    simp only [List.cons_append, splits_cons, ih]
    constructor
    · rintro ⟨piece, _, first, ⟨before, after, inLeft, inRight, rfl⟩, same⟩
      exact ⟨piece ++ before, after, ⟨piece, before, first, inLeft, rfl⟩, inRight,
        (List.append_assoc piece before after).trans same⟩
    · rintro ⟨_, after, ⟨piece, before, first, inLeft, rfl⟩, inRight, same⟩
      exact ⟨piece, before ++ after, first, ⟨before, after, inLeft, inRight, rfl⟩,
        (List.append_assoc piece before after).symm.trans same⟩

/-- Symbols that stand for one letter each read the text letter by letter. -/
theorem splits_letters {same : σ → α → Prop} {pattern : List σ} {text : List α}
    (letters : ∀ symbol ∈ pattern, ∀ piece,
      stands symbol piece ↔ ∃ a, piece = [a] ∧ same symbol a) :
    Splits stands pattern text ↔ List.Forall₂ same pattern text := by
  induction pattern generalizing text with
  | nil => simp
  | cons symbol pattern ih =>
    have others := fun text => @ih text fun s member => letters s (List.mem_cons_of_mem _ member)
    simp only [splits_cons, letters symbol List.mem_cons_self, others]
    constructor
    · rintro ⟨_, rest, ⟨a, rfl, first⟩, all, rfl⟩
      exact .cons first all
    · intro all
      cases all with
      | cons first all => exact ⟨[_], _, ⟨_, rfl, first⟩, all, rfl⟩

/-! ### Backtracking -/

/-- A wildcard that tries every rest of the text. -/
theorem any_drop_iff (test : List α → Bool) (text : List α) :
    ((List.range (text.length + 1)).any fun i => test (text.drop i)) = true ↔
      ∃ piece rest, test rest = true ∧ piece ++ rest = text := by
  simp only [List.any_eq_true, List.mem_range]
  constructor
  · rintro ⟨i, -, found⟩
    exact ⟨text.take i, text.drop i, found, List.take_append_drop i text⟩
  · rintro ⟨piece, rest, found, rfl⟩
    refine ⟨piece.length, ?_, by rwa [List.drop_left]⟩
    rw [List.length_append]
    omega

/-- Taking while a test holds filters a list on which the test, once failed, stays so. -/
theorem takeWhile_eq_filter {ι : Type*} {test : ι → Bool} {l : List ι}
    (falling : l.Pairwise fun a b => test b = true → test a = true) :
    l.takeWhile test = l.filter test := by
  induction falling with
  | nil => rfl
  | @cons a l later _ ih =>
    by_cases holds : test a = true
    · rw [List.takeWhile_cons_of_pos holds, List.filter_cons_of_pos holds, ih]
    · rw [List.takeWhile_cons_of_neg holds, List.filter_cons_of_neg holds, eq_comm,
        List.filter_eq_nil_iff]
      exact fun b member passed => holds (later b member passed)

/-- A wildcard that stops at the first occurrence of a letter. -/
theorem any_drop_before_iff [DecidableEq α] (letter : α) (test : List α → Bool) (text : List α) :
    (((List.range (text.length + 1)).takeWhile fun i => !(text.take i).contains letter).any
      fun i => test (text.drop i)) = true ↔
      ∃ piece rest, letter ∉ piece ∧ test rest = true ∧ piece ++ rest = text := by
  have falling : (List.range (text.length + 1)).Pairwise fun i j =>
      (!(text.take j).contains letter) = true → (!(text.take i).contains letter) = true := by
    refine List.pairwise_lt_range.imp fun {i j} before absent => ?_
    simp only [Bool.not_eq_true', List.contains_eq_mem, decide_eq_false_iff_not] at absent ⊢
    exact fun member => absent ((List.take_sublist_take_left (Nat.le_of_lt before)).subset member)
  rw [takeWhile_eq_filter falling]
  simp only [List.any_eq_true, List.mem_filter, List.mem_range, Bool.not_eq_true',
    List.contains_eq_mem, decide_eq_false_iff_not]
  constructor
  · rintro ⟨i, ⟨-, absent⟩, found⟩
    exact ⟨text.take i, text.drop i, absent, found, List.take_append_drop i text⟩
  · rintro ⟨piece, rest, absent, found, rfl⟩
    refine ⟨piece.length, ⟨?_, by rwa [List.take_left]⟩, by rwa [List.drop_left]⟩
    rw [List.length_append]
    omega

end Expresso.Glob
