import Mathlib

/-! Programs that read and write a state and may fail, with the state as it is then: what holds
of every outcome, step by step. -/

namespace Expresso.Transition

variable {σ ε α β : Type}

/-- A failure keeps the state that was reached. -/
abbrev Action (σ ε α : Type) := ExceptT ε (StateM σ) α

/-- The outcome of a program and the state after it. -/
def Action.outcome (m : Action σ ε α) (s : σ) : Except ε α × σ := m.run.run s

/-- What is to hold after a program of its value and of the state, or of its error and of the
state. -/
def After (m : Action σ ε α) (s : σ) (right : Except ε α → σ → Prop) : Prop :=
  right (m.outcome s).1 (m.outcome s).2

/-- The outcome of a program, as a value. -/
def Action.attempt (m : Action σ ε α) : Action σ ε (Except ε α) :=
  ExceptT.mk fun s => ((.ok (m.outcome s).1, (m.outcome s).2) : Except ε (Except ε α) × σ)

variable {right : Except ε β → σ → Prop} {s : σ}

@[simp] theorem after_attempt (m : Action σ ε α) {right : Except ε (Except ε α) → σ → Prop} :
    After m.attempt s right ↔ After m s fun result => right (.ok result) := Iff.rfl

@[simp] theorem after_pure (b : β) : After (pure b) s right ↔ right (.ok b) s := Iff.rfl

@[simp] theorem after_throw (e : ε) : After (throw e) s right ↔ right (.error e) s := Iff.rfl

@[simp] theorem after_get {right : Except ε σ → σ → Prop} :
    After (get : Action σ ε σ) s right ↔ right (.ok s) s := Iff.rfl

@[simp] theorem after_set {right : Except ε PUnit → σ → Prop} (s' : σ) :
    After (set s' : Action σ ε PUnit) s right ↔ right (.ok ⟨⟩) s' := Iff.rfl

@[simp] theorem after_modify {right : Except ε PUnit → σ → Prop} (f : σ → σ) :
    After (modify f : Action σ ε PUnit) s right ↔ right (.ok ⟨⟩) (f s) := Iff.rfl

/-- A program goes on with the value of its first part, and stops with its error. -/
@[simp] theorem after_bind (m : Action σ ε α) (f : α → Action σ ε β) :
    After (m >>= f) s right ↔ After m s fun result s' =>
      match result with
      | .ok a => After (f a) s' right
      | .error e => right (.error e) s' := by
  have split : (m >>= f).outcome s = match m.outcome s with
      | (.ok a, s') => (f a).outcome s'
      | (.error e, s') => (.error e, s') := by
    show ExceptT.bindCont f (m.outcome s).1 (m.outcome s).2 = _
    rcases m.outcome s with ⟨result, s'⟩
    cases result <;> rfl
  unfold After
  rw [split]
  rcases m.outcome s with ⟨result, s'⟩
  cases result <;> rfl

theorem After.imp {m : Action σ ε β} {right' : Except ε β → σ → Prop} (holds : After m s right)
    (weakens : ∀ result s', right result s' → right' result s') : After m s right' :=
  weakens _ _ holds

/-- A value that is dropped does not change what holds of the state. -/
theorem after_discard (m : Action σ ε α) (f : α → β) {property : σ → Prop} :
    After (m >>= fun a => pure (f a)) s (fun _ => property) ↔ After m s fun _ => property := by
  rw [after_bind]
  unfold After
  cases (m.outcome s).1 <;> rfl

/-- A check passes, and what comes after it. -/
theorem check_bind_ok_iff {x : Except ε Unit} {y : Unit → Except ε β} {b : β} :
    (x >>= y) = .ok b ↔ x = .ok () ∧ y () = .ok b := by
  cases x with
  | error e => exact ⟨fun done => (nomatch done), fun both => (nomatch both.1)⟩
  | ok _ => exact (and_iff_right rfl).symm

/-! ### Invariants -/

/-- An invariant that survives a program, whether it fails or not. -/
def Keeps (invariant : σ → Prop) (m : Action σ ε α) : Prop :=
  ∀ s, invariant s → After m s fun _ => invariant

variable {invariant : σ → Prop}

theorem Keeps.pure (a : α) : Keeps invariant (Pure.pure a : Action σ ε α) := fun _ holds => holds

theorem Keeps.throw (e : ε) : Keeps invariant (MonadExcept.throw e : Action σ ε α) :=
  fun _ holds => holds

theorem Keeps.bind {m : Action σ ε α} {f : α → Action σ ε β} (first : Keeps invariant m)
    (rest : ∀ a, Keeps invariant (f a)) : Keeps invariant (m >>= f) := by
  intro s holds
  rw [after_bind]
  have middle := first s holds
  unfold After at middle ⊢
  revert middle
  rcases m.outcome s with ⟨result, s'⟩
  cases result with
  | ok a => exact rest a s'
  | error e => exact fun holds' => holds'

theorem Keeps.attempt {m : Action σ ε α} (keeps : Keeps invariant m) :
    Keeps invariant m.attempt := keeps

end Expresso.Transition
