import Mathlib

/-! Conditions built from tests with NOT, OR and AND. A test that is taken to hold when it is not
known is safe where it stands under an even number of negations. -/

namespace Expresso.Query

inductive Formula (α : Type) where
  | test (a : α)
  | not (inner : Formula α)
  | or (left right : Formula α)
  | and (parts : List (Formula α))

namespace Formula

variable {α : Type}

mutual

def eval (v : α → Bool) : Formula α → Bool
  | test a => v a
  | not inner => !inner.eval v
  | or left right => left.eval v || right.eval v
  | and parts => evalAll v parts

def evalAll (v : α → Bool) : List (Formula α) → Bool
  | [] => true
  | part :: rest => part.eval v && evalAll v rest

end

mutual

/-- Whether one of the tests has the property. -/
def mentions (p : α → Bool) : Formula α → Bool
  | test a => p a
  | not inner => inner.mentions p
  | or left right => left.mentions p || right.mentions p
  | and parts => mentionsAny p parts

def mentionsAny (p : α → Bool) : List (Formula α) → Bool
  | [] => false
  | part :: rest => part.mentions p || mentionsAny p rest

end

mutual

/-- Whether a test with the property stands under an odd number of negations, or an even one. -/
def occurs (p : α → Bool) (odd : Bool) : Formula α → Bool
  | test a => !odd && p a
  | not inner => inner.occurs p (!odd)
  | or left right => left.occurs p odd || right.occurs p odd
  | and parts => occursAny p odd parts

def occursAny (p : α → Bool) (odd : Bool) : List (Formula α) → Bool
  | [] => false
  | part :: rest => part.occurs p odd || occursAny p odd rest

end

theorem evalAll_eq (v : α → Bool) (parts : List (Formula α)) :
    evalAll v parts = parts.all fun part => part.eval v := by
  induction parts with
  | nil => rfl
  | cons part rest ih => rw [evalAll, ih, List.all_cons]

theorem mentionsAny_eq (p : α → Bool) (parts : List (Formula α)) :
    mentionsAny p parts = parts.any fun part => part.mentions p := by
  induction parts with
  | nil => rfl
  | cons part rest ih => rw [mentionsAny, ih, List.any_cons]

section
variable {v w : α → Bool} {p : α → Bool}

mutual

/-- The tests that are not mentioned do not matter. -/
theorem eval_congr (same : ∀ a, p a = false → v a = w a) :
    ∀ f : Formula α, f.mentions p = false → f.eval v = f.eval w
  | test a, unmentioned => same a unmentioned
  | not inner, unmentioned => congrArg (!·) (eval_congr same inner unmentioned)
  | or left right, unmentioned => by
    obtain ⟨first, second⟩ := Bool.or_eq_false_iff.mp unmentioned
    rw [eval, eval, eval_congr same left first, eval_congr same right second]
  | and parts, unmentioned => evalAll_congr same parts unmentioned

theorem evalAll_congr (same : ∀ a, p a = false → v a = w a) :
    ∀ parts : List (Formula α), mentionsAny p parts = false → evalAll v parts = evalAll w parts
  | [], _ => rfl
  | part :: rest, unmentioned => by
    obtain ⟨first, second⟩ := Bool.or_eq_false_iff.mp unmentioned
    rw [evalAll, evalAll, eval_congr same part first, evalAll_congr same rest second]

end

mutual

/-- Tests that turn true keep the condition true, or false, unless they stand at the other
polarity. -/
theorem eval_mono (same : ∀ a, p a = false → v a = w a) (more : ∀ a, v a = true → w a = true) :
    ∀ f : Formula α,
      (f.occurs p true = false → f.eval v = true → f.eval w = true) ∧
        (f.occurs p false = false → f.eval w = true → f.eval v = true)
  | test a => by
    constructor
    · intro _
      exact more a
    · intro unmentioned holds
      exact (same a unmentioned).trans holds
  | not inner => by
    obtain ⟨up, down⟩ := eval_mono same more inner
    simp only [occurs, eval, Bool.not_true, Bool.not_false, Bool.not_eq_true']
    constructor
    · intro unmentioned fails
      rw [← Bool.not_eq_true] at fails ⊢
      exact fun holds => fails (down unmentioned holds)
    · intro unmentioned fails
      rw [← Bool.not_eq_true] at fails ⊢
      exact fun holds => fails (up unmentioned holds)
  | or left right => by
    obtain ⟨up, down⟩ := eval_mono same more left
    obtain ⟨up', down'⟩ := eval_mono same more right
    simp only [occurs, eval, Bool.or_eq_false_iff, Bool.or_eq_true]
    exact ⟨fun unmentioned => Or.imp (up unmentioned.1) (up' unmentioned.2),
      fun unmentioned => Or.imp (down unmentioned.1) (down' unmentioned.2)⟩
  | and parts => evalAll_mono same more parts

theorem evalAll_mono (same : ∀ a, p a = false → v a = w a)
    (more : ∀ a, v a = true → w a = true) :
    ∀ parts : List (Formula α),
      (occursAny p true parts = false → evalAll v parts = true → evalAll w parts = true) ∧
        (occursAny p false parts = false → evalAll w parts = true → evalAll v parts = true)
  | [] => ⟨fun _ _ => rfl, fun _ _ => rfl⟩
  | part :: rest => by
    obtain ⟨up, down⟩ := eval_mono same more part
    obtain ⟨up', down'⟩ := evalAll_mono same more rest
    simp only [occursAny, evalAll, Bool.or_eq_false_iff, Bool.and_eq_true]
    exact ⟨fun unmentioned => And.imp (up unmentioned.1) (up' unmentioned.2),
      fun unmentioned => And.imp (down unmentioned.1) (down' unmentioned.2)⟩

end

end

end Formula

end Expresso.Query
