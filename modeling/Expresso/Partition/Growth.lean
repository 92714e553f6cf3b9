import Mathlib

/-! Items that arrive one after the other, each with a label that it keeps, against the chains of
links between them. -/

namespace Expresso.Partition

variable {α κ : Type} (link : α → α → Prop) (label : α → κ)

def Linked (a b : α) : Prop := link a b ∨ link b a

/-- The items are the ends of a chain of links. -/
def Chained (items : List α) : α → α → Prop :=
  Relation.ReflTransGen fun a b => a ∈ items ∧ b ∈ items ∧ Linked link a b

/-- Items have the same label if and only if a chain leads from one to the other. -/
def Faithful (items : List α) : Prop :=
  ∀ a ∈ items, ∀ b ∈ items, label a = label b ↔ Chained link items a b

/-- A newcomer has the label of every item that it is linked to. -/
def Joins (items : List α) (a : α) : Prop := ∀ b ∈ items, Linked link a b → label b = label a

/-- A newcomer with a label that is in use is linked to an item that has it. -/
def Founded (items : List α) (a : α) : Prop :=
  (∃ b ∈ items, label b = label a) → ∃ b ∈ items, label b = label a ∧ Linked link a b

variable {link label}

theorem Linked.symm {a b : α} (linked : Linked link a b) : Linked link b a := Or.symm linked

theorem Chained.symm {items : List α} {a b : α} (chain : Chained link items a b) :
    Chained link items b a := by
  induction chain with
  | refl => exact .refl
  | tail _ step ih => exact ih.head ⟨step.2.1, step.1, step.2.2.symm⟩

theorem Chained.mono {items more : List α} (sub : items ⊆ more) {a b : α}
    (chain : Chained link items a b) : Chained link more a b := by
  induction chain with
  | refl => exact .refl
  | tail _ step ih => exact ih.tail ⟨sub step.1, sub step.2.1, step.2.2⟩

theorem Chained.of_linked {items : List α} {a b : α} (here : a ∈ items) (there : b ∈ items)
    (linked : Linked link a b) : Chained link items a b :=
  .single ⟨here, there, linked⟩

/-- Chains have one label as long as links have. -/
theorem label_eq_of_chained {items : List α}
    (same : ∀ a ∈ items, ∀ b ∈ items, Linked link a b → label a = label b) {a b : α}
    (chain : Chained link items a b) : label a = label b := by
  induction chain with
  | refl => rfl
  | tail _ step ih => exact ih.trans (same _ step.1 _ step.2.1 step.2.2)

/-- A newcomer that joins keeps the labels faithful. -/
theorem Faithful.append {items : List α} {a : α} (faithful : Faithful link label items)
    (founded : Founded link label items a) (joins : Joins link label items a) :
    Faithful link label (items ++ [a]) := by
  have old : items ⊆ items ++ [a] := List.subset_append_left _ _
  have newcomer : a ∈ items ++ [a] := List.mem_append_right _ (List.mem_singleton_self a)
  have links : ∀ x ∈ items ++ [a], ∀ y ∈ items ++ [a], Linked link x y → label x = label y := by
    intro x here y there linked
    rw [List.mem_append, List.mem_singleton] at here there
    obtain here | rfl := here <;> obtain there | rfl := there
    · exact (faithful x here y there).mpr (.of_linked here there linked)
    · exact joins x here linked.symm
    · exact (joins y there linked).symm
    · rfl
  have toNewcomer : ∀ y ∈ items, label y = label a → Chained link (items ++ [a]) y a := by
    intro y there same
    obtain ⟨b, among, shared, linked⟩ := founded ⟨y, there, same⟩
    have first := (faithful y there b among).mp (same.trans shared.symm)
    exact (first.mono old).trans (Chained.of_linked (old among) newcomer linked.symm)
  intro x here y there
  refine ⟨fun same => ?_, label_eq_of_chained links⟩
  rw [List.mem_append, List.mem_singleton] at here there
  obtain here | rfl := here <;> obtain there | rfl := there
  · exact ((faithful x here y there).mp same).mono old
  · exact toNewcomer x here same
  · exact (toNewcomer y there same.symm).symm
  · exact .refl

/-- Labels that are faithful in the end were joined by every newcomer. -/
theorem Faithful.joins {items more : List α} {a : α} (faithful : Faithful link label more)
    (sub : items ⊆ more) (newcomer : a ∈ more) : Joins link label items a := by
  intro b among linked
  exact (faithful b (sub among) a newcomer).mpr (.of_linked (sub among) newcomer linked.symm)

theorem Chained.congr {items items' : List α} (same : ∀ a, a ∈ items ↔ a ∈ items') {a b : α} :
    Chained link items a b ↔ Chained link items' a b :=
  ⟨.mono fun x => (same x).mp, .mono fun x => (same x).mpr⟩

section
variable {β : Type} {link' : β → β → Prop} {f : α → β} {items : List α}

/-- Chains stay when the items are renamed one to one. -/
theorem chained_map_iff
    (keeps : ∀ a ∈ items, ∀ b ∈ items, Linked link' (f a) (f b) ↔ Linked link a b)
    (apart : ∀ a ∈ items, ∀ b ∈ items, f a = f b → a = b) {a b : α} (here : a ∈ items)
    (there : b ∈ items) :
    Chained link' (items.map f) (f a) (f b) ↔ Chained link items a b := by
  have back : ∀ y, Chained link' (items.map f) (f a) y →
      ∃ c ∈ items, f c = y ∧ Chained link items a c := by
    intro y chain
    induction chain with
    | refl => exact ⟨a, here, rfl, .refl⟩
    | tail _ step ih =>
      obtain ⟨c, among, rfl, first⟩ := ih
      obtain ⟨d, next, rfl⟩ := List.mem_map.mp step.2.1
      exact ⟨d, next, rfl, first.tail ⟨among, next, (keeps c among d next).mp step.2.2⟩⟩
  constructor
  · intro chain
    obtain ⟨c, among, same, first⟩ := back (f b) chain
    rwa [apart c among b there same] at first
  · intro chain
    clear there
    induction chain with
    | refl => exact .refl
    | tail _ step ih =>
      obtain ⟨among, next, linked⟩ := step
      exact ih.tail ⟨List.mem_map_of_mem among, List.mem_map_of_mem next,
        (keeps _ among _ next).mpr linked⟩

/-- Faithful labels agree on which items belong together, also after a renaming. -/
theorem Faithful.agree {κ' : Type} {label' : β → κ'} {items' : List β}
    (first : Faithful link label items) (second : Faithful link' label' items')
    (same : ∀ x, x ∈ items' ↔ x ∈ items.map f)
    (keeps : ∀ a ∈ items, ∀ b ∈ items, Linked link' (f a) (f b) ↔ Linked link a b)
    (apart : ∀ a ∈ items, ∀ b ∈ items, f a = f b → a = b) {a b : α} (here : a ∈ items)
    (there : b ∈ items) : label a = label b ↔ label' (f a) = label' (f b) := by
  have renamed : ∀ c ∈ items, f c ∈ items' := fun c among =>
    (same _).mpr (List.mem_map_of_mem among)
  rw [first a here b there, second _ (renamed a here) _ (renamed b there), Chained.congr same,
    chained_map_iff keeps apart here there]

end

end Expresso.Partition
