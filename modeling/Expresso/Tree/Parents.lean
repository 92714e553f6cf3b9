import Mathlib

/-! Nodes that name their parents: the way up from a node, and how changes of parents keep every
way finite. -/

namespace Expresso.Tree

variable {α : Type} {parent : α → Option α} {a b c : α}

/-- So many steps up. -/
def climb (parent : α → Option α) : Nat → α → Option α
  | 0, a => some a
  | n + 1, a => (parent a).bind (climb parent n)

example : climb (fun n : Nat => if n = 0 then none else some (n - 1)) 2 5 = some 3 := by
  simp [climb]

/-- The way up comes to an end. -/
def Rooted (parent : α → Option α) (a : α) : Prop := ∃ n, climb parent n a = none

def Forest (parent : α → Option α) : Prop := ∀ a, Rooted parent a

/-- The way up from the first node meets the second. Every node meets itself. -/
def Below (parent : α → Option α) (a b : α) : Prop := ∃ n, climb parent n a = some b

theorem climb_add (parent : α → Option α) (m n : Nat) (a : α) :
    climb parent (m + n) a = (climb parent m a).bind (climb parent n) := by
  induction m generalizing a with
  | zero => rw [Nat.zero_add]; rfl
  | succ m ih =>
    rw [Nat.succ_add, climb, climb, Option.bind_assoc]
    exact congrArg _ (funext ih)

theorem rooted_of_root (root : parent a = none) : Rooted parent a := ⟨1, by rw [climb, root]; rfl⟩

theorem rooted_iff_parent (known : parent a = some b) : Rooted parent a ↔ Rooted parent b := by
  constructor
  · intro ⟨n, ends⟩
    cases n with
    | zero => cases ends
    | succ n =>
      rw [climb, known] at ends
      exact ⟨n, ends⟩
  · intro ⟨n, ends⟩
    refine ⟨n + 1, ?_⟩
    rw [climb, known]
    exact ends

theorem Below.refl (a : α) : Below parent a a := ⟨0, rfl⟩

theorem Below.up (known : parent a = some b) (below : Below parent b c) : Below parent a c := by
  obtain ⟨n, met⟩ := below
  refine ⟨n + 1, ?_⟩
  rw [climb, known]
  exact met

theorem below_iff : Below parent a b ↔ a = b ∨ ∃ c, parent a = some c ∧ Below parent c b := by
  constructor
  · intro ⟨n, met⟩
    cases n with
    | zero => exact .inl (Option.some.inj met)
    | succ n =>
      obtain ⟨c, known, rest⟩ := Option.bind_eq_some_iff.mp met
      exact .inr ⟨c, known, n, rest⟩
  · rintro (rfl | ⟨c, known, below⟩)
    · exact .refl a
    · exact below.up known

theorem Rooted.of_below (rooted : Rooted parent a) (below : Below parent a b) :
    Rooted parent b := by
  obtain ⟨n, met⟩ := below
  induction n generalizing a with
  | zero => exact Option.some.inj met ▸ rooted
  | succ n ih =>
    obtain ⟨c, known, rest⟩ := Option.bind_eq_some_iff.mp met
    exact ih ((rooted_iff_parent known).mp rooted) rest

/-- A node whose way up ends is not above itself. -/
theorem Rooted.not_below (rooted : Rooted parent a) (known : parent a = some b) :
    ¬Below parent b a := by
  obtain ⟨n, ends⟩ := rooted
  induction n using Nat.strong_induction_on generalizing a b with
  | _ n ih =>
    intro ⟨m, met⟩
    have around : climb parent (m + 1) a = some a := by
      rw [climb, known]
      exact met
    by_cases far : m + 1 ≤ n
    · have shorter : climb parent (n - (m + 1)) a = none := by
        have split := climb_add parent (m + 1) (n - (m + 1)) a
        rw [Nat.add_sub_cancel' far, ends, around] at split
        exact split.symm
      exact ih (n - (m + 1)) (by omega) known shorter ⟨m, met⟩
    · have beyond := climb_add parent n (m + 1 - n) a
      rw [Nat.add_sub_cancel' (by omega), around, ends] at beyond
      cases beyond

/-- What is met above a node is the parent of some node. -/
theorem Below.child (below : Below parent a b) (other : a ≠ b) : ∃ c, parent c = some b := by
  obtain ⟨n, met⟩ := below
  cases n with
  | zero => exact absurd (Option.some.inj met) other
  | succ n =>
    rw [climb_add, Option.bind_eq_some_iff] at met
    obtain ⟨c, _, last⟩ := met
    cases known : parent c with
    | none =>
      rw [climb, known] at last
      cases last
    | some d =>
      rw [climb, known] at last
      exact ⟨c, known.trans last⟩

/-- No way up is longer than there are nodes with parents. -/
theorem Forest.climb_bounded (forest : Forest parent) {nodes : List α}
    (listed : ∀ a b, parent a = some b → a ∈ nodes) (a : α) :
    climb parent (nodes.length + 1) a = none := by
  by_contra long
  have reached : ∀ i ≤ nodes.length, ∃ b, climb parent i a = some b ∧ b ∈ nodes := by
    intro i small
    have split := climb_add parent i (nodes.length + 1 - i) a
    rw [Nat.add_sub_cancel' (by omega)] at split
    cases here : climb parent i a with
    | none =>
      rw [here] at split
      exact absurd split long
    | some b =>
      refine ⟨b, rfl, ?_⟩
      cases known : parent b with
      | none =>
        have one : nodes.length + 1 - i = nodes.length - i + 1 := by omega
        have ends : climb parent (nodes.length - i + 1) b = none := by
          rw [climb, known]
          rfl
        rw [here, Option.bind_some, one, ends] at split
        exact absurd split long
      | some c => exact listed b c known
  have inhabited : Nonempty α := ⟨a⟩
  choose! node met member using reached
  have distinct : Set.InjOn node (Finset.range (nodes.length + 1) : Set Nat) := by
    have ordered : ∀ i j, i < j → j ≤ nodes.length → node i ≠ node j := by
      intro i j less small same
      have split := climb_add parent i (j - i) a
      rw [Nat.add_sub_cancel' (by omega), met i (by omega), met j small, ← same] at split
      have one : j - i = j - i - 1 + 1 := by omega
      rw [Option.bind_some, one, climb] at split
      obtain ⟨c, known, back⟩ := Option.bind_eq_some_iff.mp split.symm
      exact (forest (node i)).not_below known ⟨_, back⟩
    intro i hi j hj same
    rw [Finset.coe_range, Set.mem_Iio] at hi hj
    rcases Nat.lt_trichotomy i j with less | equal | more
    · exact absurd same (ordered i j less (by omega))
    · exact equal
    · exact absurd same.symm (ordered j i more (by omega))
  classical
  have counted : nodes.length + 1 ≤ nodes.toFinset.card := by
    calc nodes.length + 1
      _ = (Finset.range (nodes.length + 1)).card := (Finset.card_range _).symm
      _ ≤ nodes.toFinset.card := Finset.card_le_card_of_injOn node (fun i small => by
          rw [Finset.coe_range, Set.mem_Iio] at small
          exact List.mem_toFinset.mpr (member i (by omega))) distinct
  have short := List.toFinset_card_le nodes
  omega

/-! ### Changes of parents -/

/-- Nodes that become roots keep every way finite. -/
theorem Forest.pruned {parent' : α → Option α} (forest : Forest parent)
    (pruned : ∀ a, parent' a = none ∨ parent' a = parent a) : Forest parent' := by
  intro a
  obtain ⟨n, ends⟩ := forest a
  induction n generalizing a with
  | zero => cases ends
  | succ n ih =>
    rcases pruned a with root | same
    · exact rooted_of_root root
    · cases known : parent a with
      | none => exact rooted_of_root (same.trans known)
      | some b =>
        rw [climb, known] at ends
        exact (rooted_iff_parent (same.trans known)).mpr (ih b ends)

section
variable {moved : α → Prop} [DecidablePred moved] {target : Option α}

/-- Some nodes are moved below another one, or to the roots. -/
def reparent (parent : α → Option α) (moved : α → Prop) [DecidablePred moved] (target : Option α) :
    α → Option α :=
  fun a => if moved a then target else parent a

theorem reparent_moved (member : moved a) : reparent parent moved target a = target :=
  if_pos member

theorem reparent_other (other : ¬moved a) : reparent parent moved target a = parent a :=
  if_neg other

/-- A way up that meets no moved node stays. -/
theorem rooted_reparent (rooted : Rooted parent a) (clear : ∀ b, Below parent a b → ¬moved b) :
    Rooted (reparent parent moved target) a := by
  obtain ⟨n, ends⟩ := rooted
  induction n generalizing a with
  | zero => cases ends
  | succ n ih =>
    have same : reparent parent moved target a = parent a := reparent_other (clear a (.refl a))
    cases known : parent a with
    | none => exact rooted_of_root (same.trans known)
    | some b =>
      rw [climb, known] at ends
      exact (rooted_iff_parent (same.trans known)).mpr
        (ih (fun c below => clear c (below.up known)) ends)

/-- The first moved node on a way up is on it after the move, too. -/
theorem below_reparent {n : Nat} (met : climb parent n a = some b) (member : moved b) :
    ∃ c, moved c ∧ Below (reparent parent moved target) a c := by
  induction n generalizing a with
  | zero => exact ⟨a, Option.some.inj met ▸ member, .refl a⟩
  | succ n ih =>
    by_cases here : moved a
    · exact ⟨a, here, .refl a⟩
    · obtain ⟨d, known, rest⟩ := Option.bind_eq_some_iff.mp met
      obtain ⟨c, isMoved, below⟩ := ih rest
      exact ⟨c, isMoved, below.up ((reparent_other here).trans known)⟩

/-- A move keeps every way finite if and only if its target is not below what it moves. -/
theorem forest_reparent_iff (forest : Forest parent) :
    Forest (reparent parent moved target) ↔
      ∀ q, target = some q → ∀ a, moved a → ¬Below parent q a := by
  constructor
  · intro after q isTarget a member ⟨n, met⟩
    have first : ∃ c, moved c ∧ Below (reparent parent moved target) q c :=
      below_reparent met member
    obtain ⟨c, isMoved, below⟩ := first
    exact (after c).not_below ((reparent_moved isMoved).trans isTarget) below
  · intro outside a
    have moves : ∀ c, moved c → Rooted (reparent parent moved target) c := by
      intro c isMoved
      cases goal : target with
      | none => exact rooted_of_root (reparent_moved isMoved)
      | some q =>
        apply (rooted_iff_parent (reparent_moved isMoved)).mpr
        exact rooted_reparent (forest q) fun b below isMoved' => outside q goal b isMoved' below
    obtain ⟨n, ends⟩ := forest a
    induction n generalizing a with
    | zero => cases ends
    | succ n ih =>
      by_cases here : moved a
      · exact moves a here
      · have same : reparent parent moved target a = parent a := reparent_other here
        cases known : parent a with
        | none => exact rooted_of_root (same.trans known)
        | some b =>
          rw [climb, known] at ends
          exact (rooted_iff_parent (same.trans known)).mpr (ih b ends)

end

/-! ### Growing sets -/

theorem countP_lt {p q : α → Bool} {l : List α} (grows : ∀ a ∈ l, p a = true → q a = true)
    (member : a ∈ l) (fresh : q a = true) (new : p a = false) : l.countP p < l.countP q := by
  induction l with
  | nil => cases member
  | cons b rest ih =>
    have below : rest.countP p ≤ rest.countP q :=
      List.countP_mono_left fun c inside => grows c (List.mem_cons_of_mem b inside)
    rw [List.countP_cons, List.countP_cons]
    rcases List.mem_cons.mp member with rfl | inside
    · rw [fresh, new]
      simpa using Nat.lt_succ_of_le below
    · have strict := ih (fun c inside => grows c (List.mem_cons_of_mem b inside)) inside
      have head := grows b (by simp)
      cases here : p b with
      | false =>
        simp only [Bool.false_eq_true, if_false]
        split <;> omega
      | true =>
        rw [head here]
        simpa using strict

/-- A set of nodes that grows, and stays once a step adds nothing, is complete within as many
steps as there are nodes. -/
theorem saturated {grown : Nat → α → Bool} {l : List α}
    (grows : ∀ n a, grown n a = true → grown (n + 1) a = true)
    (stays : ∀ n, (∀ a ∈ l, grown (n + 1) a = grown n a) →
      ∀ a ∈ l, grown (n + 2) a = grown (n + 1) a) :
    ∀ a ∈ l, grown (l.length + 1) a = grown l.length a := by
  have added : ∀ n, (∃ a ∈ l, grown (n + 1) a ≠ grown n a) →
      l.countP (grown n) < l.countP (grown (n + 1)) := by
    intro n ⟨a, member, changed⟩
    cases before : grown n a with
    | true => exact absurd ((grows n a before).trans before.symm) changed
    | false =>
      have after : grown (n + 1) a = true := by
        cases now : grown (n + 1) a with
        | true => rfl
        | false => exact absurd (now.trans before.symm) changed
      exact countP_lt (fun b _ => grows n b) member after before
  have counted : ∀ n, (∀ a ∈ l, grown (n + 1) a = grown n a) ∨
      n + 1 ≤ l.countP (grown (n + 1)) := by
    intro n
    induction n with
    | zero =>
      by_cases still : ∀ a ∈ l, grown 1 a = grown 0 a
      · exact .inl still
      · have more := added 0 (by simpa using still)
        exact .inr (by omega)
    | succ n ih =>
      by_cases still : ∀ a ∈ l, grown (n + 2) a = grown (n + 1) a
      · exact .inl still
      · rcases ih with settled | enough
        · exact absurd (stays n settled) still
        · have more := added (n + 1) (by simpa using still)
          exact .inr (by omega)
  rcases counted l.length with settled | many
  · exact settled
  · have most : l.countP (grown (l.length + 1)) ≤ l.length := List.countP_le_length
    omega

end Expresso.Tree
