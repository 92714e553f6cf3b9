import Expresso.Transition.Runs

/-! Programs over a shared state that write down what their statements do, and rules for two
things to say of them: that every statement is permitted, and that the state changes only where
a statement says so. -/

namespace Expresso.Transition

/-- The state a program leaves, its result, and the trace of its statements. -/
structure Outcome (σ ε κ α : Type) where
  state : σ
  result : Except ε α
  trace : List κ

def Traced (σ ε κ α : Type) : Type := σ → Outcome σ ε κ α

namespace Traced

variable {σ ε κ α β : Type}

/-- A result without a statement. -/
def value (result : Except ε α) : Traced σ ε κ α := fun s => ⟨s, result, []⟩

/-- An error ends the program; what was written before it stays. -/
def andThen (x : Traced σ ε κ α) (next : α → Traced σ ε κ β) : Traced σ ε κ β := fun s =>
  match (x s).result with
  | .error e => ⟨(x s).state, .error e, (x s).trace⟩
  | .ok a =>
      let after := next a (x s).state
      ⟨after.state, after.result, (x s).trace ++ after.trace⟩

instance : Monad (Traced σ ε κ) where
  pure a := value (.ok a)
  bind := andThen

/-- A statement is one transaction: when it fails, the state stays. -/
def statement (does : List κ) (method : σ → Except ε (σ × α)) : Traced σ ε κ α := fun s =>
  match method s with
  | .ok (s', a) => ⟨s', .ok a, does⟩
  | .error e => ⟨s, .error e, does⟩

/-- A statement that leaves the state as it is. -/
def query (does : List κ) (method : σ → Except ε α) : Traced σ ε κ α :=
  statement does fun s => (method s).map fun a => (s, a)

/-- The result is looked at, an error included. -/
def attempt (x : Traced σ ε κ α) : Traced σ ε κ (Except ε α) := fun s =>
  ⟨(x s).state, .ok (x s).result, (x s).trace⟩

@[simp] theorem query_state (does : List κ) (method : σ → Except ε α) (s : σ) :
    (query does method s).state = s := by
  simp only [query, statement]
  cases method s <;> rfl

@[simp] theorem query_result (does : List κ) (method : σ → Except ε α) (s : σ) :
    (query does method s).result = method s := by
  simp only [query, statement]
  cases method s <;> rfl

/-! ### Permitted statements -/

def Within (permits : κ → Prop) (x : Traced σ ε κ α) (s : σ) : Prop :=
  ∀ k ∈ (x s).trace, permits k

section
variable {permits : κ → Prop} {s : σ}

@[simp] theorem within_value (result : Except ε α) :
    Within permits (value result : Traced σ ε κ α) s ↔ True := by
  simp [Within, value]

@[simp] theorem within_pure (a : α) :
    Within permits (pure a : Traced σ ε κ α) s ↔ True := within_value (.ok a)

@[simp] theorem within_statement (does : List κ) (method : σ → Except ε (σ × α)) :
    Within permits (statement does method) s ↔ ∀ k ∈ does, permits k := by
  simp only [Within, statement]
  cases method s <;> rfl

@[simp] theorem within_query (does : List κ) (method : σ → Except ε α) :
    Within permits (query does method) s ↔ ∀ k ∈ does, permits k := within_statement _ _

@[simp] theorem within_attempt (x : Traced σ ε κ α) :
    Within permits (attempt x) s ↔ Within permits x s := Iff.rfl

theorem within_bind (x : Traced σ ε κ α) (next : α → Traced σ ε κ β) :
    Within permits (x >>= next) s ↔
      Within permits x s ∧ ∀ a, (x s).result = .ok a → Within permits (next a) (x s).state := by
  change (∀ k ∈ (andThen x next s).trace, permits k) ↔ _
  unfold andThen
  cases outcome : (x s).result with
  | error e => simp [Within]
  | ok a =>
    simp only [Within, List.mem_append, Except.ok.injEq, forall_eq']
    constructor
    · intro each
      exact ⟨fun k first => each k (.inl first), fun k later => each k (.inr later)⟩
    · rintro ⟨first, later⟩ k (member | member)
      · exact first k member
      · exact later k member

theorem within_query_bind (does : List κ) (method : σ → Except ε α) (next : α → Traced σ ε κ β) :
    Within permits (query does method >>= next) s ↔
      (∀ k ∈ does, permits k) ∧ ∀ a, method s = .ok a → Within permits (next a) s := by
  rw [within_bind, within_query, query_result, query_state]

theorem within_attempt_query_bind (does : List κ) (method : σ → Except ε α)
    (next : Except ε α → Traced σ ε κ β) :
    Within permits (attempt (query does method) >>= next) s ↔
      (∀ k ∈ does, permits k) ∧ Within permits (next (method s)) s := by
  rw [within_bind, within_attempt, within_query]
  simp [attempt]

end

/-! ### Where the state changes -/

/-- The state before and the one after are related by the statements in between. -/
def Framed (frame : List κ → σ → σ → Prop) (x : Traced σ ε κ α) : Prop :=
  ∀ s, frame (x s).trace s (x s).state

section
variable {frame : List κ → σ → σ → Prop}

theorem Framed.value (refl : ∀ s, frame [] s s) (result : Except ε α) :
    Framed frame (Traced.value result : Traced σ ε κ α) := refl

theorem Framed.statement {does : List κ} {method : σ → Except ε (σ × α)}
    (unchanged : ∀ s, frame does s s)
    (changed : ∀ s s' a, method s = .ok (s', a) → frame does s s') :
    Framed frame (Traced.statement does method) := by
  intro s
  simp only [Traced.statement]
  cases outcome : method s with
  | error e => exact unchanged s
  | ok pair => exact changed s pair.1 pair.2 outcome

theorem Framed.query {does : List κ} {method : σ → Except ε α} (unchanged : ∀ s, frame does s s) :
    Framed frame (Traced.query does method) := by
  apply Framed.statement unchanged
  intro s s' a done
  obtain ⟨_, -, pair⟩ := map_eq_ok_iff.mp done
  cases pair
  exact unchanged s

theorem Framed.attempt {x : Traced σ ε κ α} (framed : Framed frame x) :
    Framed frame (Traced.attempt x) := framed

theorem Framed.bind {x : Traced σ ε κ α} {next : α → Traced σ ε κ β}
    (trans : ∀ {first second : List κ} {s s' s'' : σ}, frame first s s' → frame second s' s'' →
      frame (first ++ second) s s'')
    (framed : Framed frame x) (later : ∀ a, Framed frame (next a)) :
    Framed frame (x >>= next) := by
  intro s
  change frame (andThen x next s).trace s (andThen x next s).state
  unfold andThen
  cases (x s).result with
  | error e => exact framed s
  | ok a => exact trans (framed s) (later a _)

end

end Traced

end Expresso.Transition
