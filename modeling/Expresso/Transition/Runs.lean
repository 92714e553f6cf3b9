import Mathlib

/-! Computations that may fail, and runs of a step function: a property of every state along a
run, and a condition on every step in the state it is taken. -/

namespace Expresso.Transition

theorem bind_eq_ok_iff {ε α β : Type} {x : Except ε α} {f : α → Except ε β} {b : β} :
    (x >>= f) = .ok b ↔ ∃ a, x = .ok a ∧ f a = .ok b := by
  cases x <;> simp [bind, Except.bind]

theorem map_eq_ok_iff {ε α β : Type} {x : Except ε α} {f : α → β} {b : β} :
    x.map f = .ok b ↔ ∃ a, x = .ok a ∧ f a = b := by
  cases x <;> simp [Except.map]

section
variable {σ α : Type} (step : σ → α → σ)

/-- The property holds at the start and after every step. -/
def Throughout (property : σ → Prop) : σ → List α → Prop
  | s, [] => property s
  | s, a :: rest => property s ∧ Throughout property (step s a) rest

/-- Every step meets the condition in the state it is taken. -/
def EachStep (condition : σ → α → Prop) : σ → List α → Prop
  | _, [] => True
  | s, a :: rest => condition s a ∧ EachStep condition (step s a) rest

instance EachStep.decidable {condition : σ → α → Prop} [∀ s a, Decidable (condition s a)] :
    ∀ s actions, Decidable (EachStep step condition s actions)
  | _, [] => .isTrue trivial
  | s, a :: rest =>
      have : Decidable (EachStep step condition (step s a) rest) :=
        EachStep.decidable (step s a) rest
      inferInstanceAs (Decidable (condition s a ∧ EachStep step condition (step s a) rest))

variable {step}

theorem Throughout.start {property : σ → Prop} {s : σ} {actions : List α}
    (holds : Throughout step property s actions) : property s := by
  cases actions with
  | nil => exact holds
  | cons a rest => exact holds.1

theorem Throughout.imp {property weaker : σ → Prop} (weakens : ∀ s, property s → weaker s) {s : σ}
    {actions : List α} (holds : Throughout step property s actions) :
    Throughout step weaker s actions := by
  induction actions generalizing s with
  | nil => exact weakens s holds
  | cons a rest ih => exact ⟨weakens s holds.1, ih holds.2⟩

theorem throughout_iff {property : σ → Prop} {s : σ} {actions : List α} :
    Throughout step property s actions ↔
      ∀ before after, actions = before ++ after → property (before.foldl step s) := by
  induction actions generalizing s with
  | nil =>
    constructor
    · intro holds before after split
      obtain ⟨rfl, rfl⟩ := List.append_eq_nil_iff.mp split.symm
      exact holds
    · intro holds
      exact holds [] [] rfl
  | cons a rest ih =>
    constructor
    · rintro ⟨here, later⟩ before after split
      cases before with
      | nil => exact here
      | cons b before =>
        obtain ⟨rfl, tail⟩ := List.cons.inj split
        exact ih.mp later before after tail
    · intro holds
      refine ⟨holds [] (a :: rest) rfl, ih.mpr fun before after split => ?_⟩
      exact holds (a :: before) after (by rw [split, List.cons_append])

theorem eachStep_append {condition : σ → α → Prop} {s : σ} {first second : List α} :
    EachStep step condition s (first ++ second) ↔
      EachStep step condition s first ∧ EachStep step condition (first.foldl step s) second := by
  induction first generalizing s with
  | nil => simp [EachStep]
  | cons a rest ih =>
    rw [List.cons_append, EachStep, EachStep, ih, and_assoc]
    rfl

theorem eachStep_iff {condition : σ → α → Prop} {s : σ} {actions : List α} :
    EachStep step condition s actions ↔
      ∀ before a after, actions = before ++ a :: after → condition (before.foldl step s) a := by
  constructor
  · rintro holds before a after rfl
    exact (eachStep_append.1 holds).2.1
  · intro holds
    induction actions generalizing s with
    | nil => trivial
    | cons a rest ih =>
      refine ⟨holds [] a rest rfl, ih fun before b after split => ?_⟩
      exact holds (a :: before) b after (by rw [split, List.cons_append])

variable (step) in
/-- Something happened, and nothing after it has cancelled it. -/
def Since (happens : σ → α → Prop) (cancels : α → Prop) (s : σ) (actions : List α) : Prop :=
  ∃ before a after, actions = before ++ a :: after ∧ happens (before.foldl step s) a ∧
    ∀ later ∈ after, ¬cancels later

theorem since_nil {happens : σ → α → Prop} {cancels : α → Prop} {s : σ} :
    ¬Since step happens cancels s [] := by
  intro ⟨before, a, after, split, _⟩
  cases before <;> cases split

theorem since_snoc {happens : σ → α → Prop} {cancels : α → Prop} {s : σ} {actions : List α}
    {last : α} :
    Since step happens cancels s (actions ++ [last]) ↔
      happens (actions.foldl step s) last ∨ (Since step happens cancels s actions ∧ ¬cancels last) := by
  constructor
  · intro ⟨before, a, after, split, happened, kept⟩
    rcases List.eq_nil_or_concat after with rfl | ⟨front, final, rfl⟩
    · obtain ⟨rfl, same⟩ := List.append_inj' split rfl
      cases same
      exact .inl happened
    · have regroup : before ++ a :: (front ++ [final]) = (before ++ a :: front) ++ [final] := by
        simp
      rw [List.concat_eq_append, regroup] at split
      obtain ⟨rfl, same⟩ := List.append_inj' split rfl
      cases same
      exact .inr ⟨⟨before, a, front, rfl, happened,
        fun later member => kept later (by simp [member])⟩, kept last (by simp)⟩
  · rintro (happened | ⟨⟨before, a, after, rfl, happened, kept⟩, survives⟩)
    · exact ⟨actions, last, [], rfl, happened, by simp⟩
    · refine ⟨before, a, after ++ [last], by simp, happened, fun later member => ?_⟩
      rcases List.mem_append.mp member with inside | final
      · exact kept later inside
      · rw [List.mem_singleton.mp final]
        exact survives

/-- A preorder that relates the states before and after every step relates any two states of the
run. -/
theorem eachStep_iff_between {R : σ → σ → Prop} (refl : ∀ s, R s s)
    (trans : ∀ s t u, R s t → R t u → R s u) {s : σ} {actions : List α} :
    EachStep step (fun s a => R s (step s a)) s actions ↔
      ∀ before during after, actions = before ++ during ++ after →
        R (before.foldl step s) ((before ++ during).foldl step s) := by
  rw [eachStep_iff]
  constructor
  · intro each before during
    induction during using List.reverseRecOn with
    | nil =>
      intro after _
      rw [List.append_nil]
      exact refl _
    | append_singleton during a ih =>
      intro after split
      have first := ih (a :: after) (by rw [split]; simp)
      have last := each (before ++ during) a after (by rw [split]; simp)
      rw [← List.append_assoc, List.foldl_append]
      exact trans _ _ _ first last
  · intro between before a after split
    have one := between before [a] after (by rw [split]; simp)
    rwa [List.foldl_append] at one

/-- An invariant that survives every step taken under a condition. -/
theorem EachStep.throughout {invariant : σ → Prop} {condition : σ → α → Prop}
    (keeps : ∀ s a, invariant s → condition s a → invariant (step s a)) {s : σ}
    (initial : invariant s) {actions : List α} (met : EachStep step condition s actions) :
    Throughout step invariant s actions := by
  induction actions generalizing s with
  | nil => exact initial
  | cons a rest ih => exact ⟨initial, ih (keeps s a initial met.1) met.2⟩

/-- Where the condition makes a step keep an invariant and do what it should, a run of such steps
does so all along. -/
theorem EachStep.of_invariant {invariant : σ → Prop} {condition right : σ → α → Prop}
    (keeps : ∀ s a, invariant s → condition s a → invariant (step s a) ∧ right s a) {s : σ}
    (initial : invariant s) {actions : List α} (met : EachStep step condition s actions) :
    EachStep step right s actions := by
  induction actions generalizing s with
  | nil => trivial
  | cons a rest ih =>
    obtain ⟨next, good⟩ := keeps s a initial met.1
    exact ⟨good, ih next met.2⟩

/-- A condition that decides, at every step, whether an invariant survives it and the step does
what it should, decides over a whole run whether both are so all along. -/
theorem eachStep_iff_throughout_and {invariant : σ → Prop} {condition right : σ → α → Prop}
    (decides : ∀ s a, invariant s → (condition s a ↔ invariant (step s a) ∧ right s a)) {s : σ}
    (initial : invariant s) (actions : List α) :
    EachStep step condition s actions ↔
      Throughout step invariant s actions ∧ EachStep step right s actions := by
  induction actions generalizing s with
  | nil => exact ⟨fun _ => ⟨initial, trivial⟩, fun _ => trivial⟩
  | cons a rest ih =>
    constructor
    · intro ⟨met, later⟩
      obtain ⟨next, good⟩ := (decides s a initial).mp met
      obtain ⟨holds, goods⟩ := (ih next).mp later
      exact ⟨⟨initial, holds⟩, good, goods⟩
    · intro ⟨⟨_, holds⟩, good, goods⟩
      have next := holds.start
      exact ⟨(decides s a initial).mpr ⟨next, good⟩, (ih next).mpr ⟨holds, goods⟩⟩

/-- A condition that decides, at every step, whether an invariant survives it, decides over a
whole run whether the invariant holds all along. -/
theorem eachStep_iff_throughout {invariant : σ → Prop} {condition : σ → α → Prop}
    (decides : ∀ s a, invariant s → (condition s a ↔ invariant (step s a))) {s : σ}
    (initial : invariant s) (actions : List α) :
    EachStep step condition s actions ↔ Throughout step invariant s actions := by
  have both := eachStep_iff_throughout_and
    (fun s a holds => (decides s a holds).trans (and_iff_left trivial).symm) initial actions
  rw [both]
  apply and_iff_left
  clear both initial
  induction actions generalizing s with
  | nil => trivial
  | cons a rest ih => exact ⟨trivial, ih⟩

/-- The same where the steps of the run meet an assumption. -/
theorem eachStep_iff_throughout_of {invariant : σ → Prop} {assumed condition : σ → α → Prop}
    (decides : ∀ s a, invariant s → assumed s a → (condition s a ↔ invariant (step s a))) {s : σ}
    (initial : invariant s) {actions : List α} (given : EachStep step assumed s actions) :
    EachStep step condition s actions ↔ Throughout step invariant s actions := by
  induction actions generalizing s with
  | nil => exact ⟨fun _ => initial, fun _ => trivial⟩
  | cons a rest ih =>
    constructor
    · intro ⟨met, later⟩
      have next := (decides s a initial given.1).mp met
      exact ⟨initial, (ih next given.2).mp later⟩
    · intro ⟨_, holds⟩
      have next := holds.start
      exact ⟨(decides s a initial given.1).mpr next, (ih next given.2).mpr holds⟩

end

end Expresso.Transition
