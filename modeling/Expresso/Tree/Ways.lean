import Mathlib

/-! Short ways from one node to another that come to no node twice. -/

namespace Expresso.Tree

variable {α : Type} {step other : α → α → Prop} {n : Nat} {seen : List α} {a b c : α}

/-- A way of at most so many nodes, all of them new. -/
def Leads (step : α → α → Prop) (n : Nat) (seen : List α) (a b : α) : Prop :=
  ∃ rest : List α, rest.length < n ∧ (a :: rest).Nodup ∧ (∀ c ∈ a :: rest, c ∉ seen) ∧
    (a :: rest).IsChain step ∧ (a :: rest).getLast? = some b

theorem not_leads_zero : ¬Leads step 0 seen a b :=
  fun ⟨_, short, _⟩ => Nat.not_lt_zero _ short

theorem leads_self (fresh : a ∉ seen) : Leads step (n + 1) seen a a :=
  ⟨[], Nat.succ_pos n, List.nodup_singleton a, by simpa using fresh, .singleton a, rfl⟩

theorem Leads.cons (fresh : a ∉ seen) (first : step a c) (later : Leads step n (a :: seen) c b) :
    Leads step (n + 1) seen a b := by
  obtain ⟨rest, short, nodup, new, linked, ends⟩ := later
  have apart : ∀ d ∈ c :: rest, d ≠ a ∧ d ∉ seen := by
    intro d on
    have := new d on
    rw [List.mem_cons] at this
    exact ⟨fun same => this (.inl same), fun known => this (.inr known)⟩
  have absent : a ∉ c :: rest := fun on => (apart a on).1 rfl
  refine ⟨c :: rest, Nat.succ_lt_succ short, List.nodup_cons.mpr ⟨absent, nodup⟩, ?_,
    List.isChain_cons_cons.mpr ⟨first, linked⟩, ?_⟩
  · rw [List.forall_mem_cons]
    exact ⟨fresh, fun d on => (apart d on).2⟩
  · rw [List.getLast?_cons_cons]
    exact ends

/-- A way is its first node, or a step and a way from there. -/
theorem leads_succ_iff :
    Leads step (n + 1) seen a b ↔
      a ∉ seen ∧ (a = b ∨ ∃ c, step a c ∧ Leads step n (a :: seen) c b) := by
  constructor
  · intro ⟨rest, short, nodup, new, linked, ends⟩
    refine ⟨new a List.mem_cons_self, ?_⟩
    cases rest with
    | nil => exact .inl (Option.some.inj ends)
    | cons c rest =>
      obtain ⟨first, linked⟩ := List.isChain_cons_cons.mp linked
      obtain ⟨absent, nodup⟩ := List.nodup_cons.mp nodup
      rw [List.getLast?_cons_cons] at ends
      refine .inr ⟨c, first, rest, Nat.lt_of_succ_lt_succ short, nodup, ?_, linked, ends⟩
      intro d on
      rw [List.mem_cons, not_or]
      exact ⟨fun same => absent (same ▸ on), new d (List.mem_cons_of_mem a on)⟩
  · intro ⟨fresh, way⟩
    cases way with
    | inl same => exact same ▸ leads_self fresh
    | inr way =>
      obtain ⟨c, first, later⟩ := way
      exact later.cons fresh first

theorem Leads.mono (weaker : ∀ a b, step a b → other a b) (way : Leads step n seen a b) :
    Leads other n seen a b := by
  obtain ⟨rest, short, nodup, new, linked, ends⟩ := way
  exact ⟨rest, short, nodup, new, linked.imp weaker, ends⟩

/-- A way to a node of a kind has a first node of that kind. -/
theorem Leads.first (kind : α → Prop) (way : Leads step n seen a b) (met : kind b) :
    ∃ c, kind c ∧ Leads (fun a b => ¬kind a ∧ step a b) n seen a c := by
  induction n generalizing seen a with
  | zero => exact absurd way not_leads_zero
  | succ n ih =>
    obtain ⟨fresh, way⟩ := leads_succ_iff.1 way
    by_cases here : kind a
    · exact ⟨a, here, leads_self fresh⟩
    · cases way with
      | inl same => exact absurd (same ▸ met) here
      | inr way =>
        obtain ⟨c, first, later⟩ := way
        obtain ⟨d, found, later⟩ := ih later
        exact ⟨d, found, later.cons fresh ⟨here, first⟩⟩

/-- Where each node has at most one step, all ways end at the same dead end. -/
theorem Leads.ends_unique (single : ∀ a b c, step a b → step a c → b = c)
    (way : Leads step n seen a b) (dead : ∀ d, ¬step b d)
    (way' : Leads step n seen a c) (dead' : ∀ d, ¬step c d) : b = c := by
  induction n generalizing seen a with
  | zero => exact absurd way not_leads_zero
  | succ n ih =>
    obtain ⟨-, way⟩ := leads_succ_iff.1 way
    obtain ⟨-, way'⟩ := leads_succ_iff.1 way'
    cases way with
    | inl same =>
      subst same
      cases way' with
      | inl same => exact same
      | inr way' =>
        obtain ⟨d, first, -⟩ := way'
        exact absurd first (dead d)
    | inr way =>
      obtain ⟨d, first, later⟩ := way
      cases way' with
      | inl same => exact absurd (same ▸ first) (dead' d)
      | inr way' =>
        obtain ⟨e, first', later'⟩ := way'
        cases single a d e first first'
        exact ih later later'

end Expresso.Tree
