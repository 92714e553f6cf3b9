import Expresso.Billing.Invoices

/-! What an invoice amounts to over a run. The total of a generation overwrites the last one, but
its lines are put over those of their kinds only: a line of a kind that is not generated again
stays. -/

namespace Expresso.Billing
open Text Time Transition
open Recurrence (Profile)

/-! ### The lines after a generation -/

/-- Every kind of line that the invoice has is generated again. -/
def Renews (lines : List Line) (rows : Kind → Option Line) : Prop :=
  ∀ kind, (rows kind).isSome → (byKind lines kind).isSome

theorem upsertLines_linesOf (terms : PlanTerms) (extraSeats extraGb : Int)
    (rows : Kind → Option Line) :
    upsertLines (linesOf terms extraSeats extraGb) rows =
      fun kind => (byKind (linesOf terms extraSeats extraGb) kind).or (rows kind) := by
  funext kind
  unfold linesOf
  split <;> split <;> cases kind <;> rfl

theorem length_filterMap_or {α β : Type} (f h : α → Option β) (l : List α) :
    (l.filterMap f).length ≤ (l.filterMap fun a => (f a).or (h a)).length := by
  induction l with
  | nil => exact le_rfl
  | cons a rest ih =>
    cases found : f a with
    | some b => simpa [List.filterMap_cons, found] using ih
    | none =>
      cases other : h a with
      | none => simpa [List.filterMap_cons, found, other] using ih
      | some b =>
        simp only [List.filterMap_cons, found, other, Option.none_or, List.length_cons]
        omega

/-- A second choice adds nothing where the first covers it. -/
theorem filterMap_or_eq_iff {α β : Type} (f h : α → Option β) (l : List α) :
    (l.filterMap fun a => (f a).or (h a)) = l.filterMap f ↔
      ∀ a ∈ l, (h a).isSome → (f a).isSome := by
  induction l with
  | nil => simp
  | cons a rest ih =>
    rw [List.forall_mem_cons, ← ih]
    cases found : f a with
    | some b => simp [found]
    | none =>
      cases other : h a with
      | none => simp [found, other]
      | some b =>
        have longer := length_filterMap_or f h rest
        constructor
        · intro same
          have lengths := congrArg List.length same
          simp only [List.filterMap_cons, found, other, Option.none_or, List.length_cons] at lengths
          omega
        · intro ⟨covered, _⟩
          exact absurd (covered rfl) (by simp)

section
variable {profile : Profile}

/-- What an action computes comes from terms and usage, and passes the checks. -/
theorem computes_spec {a : Action} {g : Generated} (computed : a.computes profile = some g) :
    (∃ terms extraSeats extraGb, g.lines = linesOf terms extraSeats extraGb) ∧
      totalCents profile g.lines = .ok g.total ∧ ∀ l ∈ g.lines, 0 ≤ l.amountCents := by
  cases a with
  | setStatus id status => cases computed
  | generate read tenant period newId =>
    unfold Action.computes at computed
    cases dated : period.date with
    | error e =>
      simp only [dated] at computed
      cases computed
    | ok date =>
      simp only [dated] at computed
      cases made : generatedFor profile read tenant date with
      | error e =>
        simp only [made] at computed
        cases computed
      | ok found =>
        cases found with
        | none =>
          simp only [made] at computed
          cases computed
        | some g' =>
          simp only [made] at computed
          split at computed
          · next valid =>
            cases computed
            unfold generatedFor at made
            cases priced : read.planTermsFor tenant with
            | none =>
              simp only [priced] at made
              cases made
            | some found =>
              obtain ⟨terms, plan, currency⟩ := found
              simp only [priced, bind_eq_ok_iff] at made
              obtain ⟨lines, computed, total, summed, built⟩ := made
              cases built
              simp only [computeLines, bind_eq_ok_iff] at computed
              obtain ⟨extraSeats, _, _, _, extraGb, _, listed⟩ := computed
              cases listed
              refine ⟨⟨terms, extraSeats, extraGb, rfl⟩, summed, fun l member => ?_⟩
              have checked := (Bool.and_eq_true_iff.mp valid).2
              have passed := List.all_eq_true.mp checked l member
              simp only [Line.valid, Bool.and_eq_true, decide_eq_true_eq] at passed
              exact passed.2
          · cases computed

theorem rows_upsert_iff {a : Action} {g : Generated} (computed : a.computes profile = some g)
    (rows : Kind → Option Line) :
    Kind.all.filterMap (upsertLines g.lines rows) = g.lines ↔ Renews g.lines rows := by
  obtain ⟨⟨terms, extraSeats, extraGb, listed⟩, -, -⟩ := computes_spec computed
  rw [listed, upsertLines_linesOf]
  conv_lhs => rhs; rw [← byKind_linesOf terms extraSeats extraGb]
  rw [filterMap_or_eq_iff]
  constructor
  · intro covered kind present
    exact covered kind (by cases kind <;> decide) present
  · exact fun covered kind _ present => covered kind present

/-! ### Runs -/

/-- The tables, with the lines that the last generation of each invoice computed. The service
does not keep these. -/
structure Books where
  ledger : Ledger
  generated : Uuid × Date → List Line

def Books.empty : Books := ⟨.empty, fun _ => []⟩

/-- The transaction of what is computed writes: its invoice is there, or its id is new. -/
def Ledger.Takes (s : Ledger) (g : Generated) (newId : Uuid) : Prop :=
  g.key ∈ s.invoices.map (·.key) ∨ newId ∉ s.invoices.map (·.id)

instance (s : Ledger) (g : Generated) (newId : Uuid) : Decidable (s.Takes g newId) :=
  inferInstanceAs (Decidable (_ ∨ _))

variable (profile) in
def Books.step (s : Books) (a : Action) : Books where
  ledger := s.ledger.step profile a
  generated :=
    match a.computes profile with
    | none => s.generated
    | some g =>
        if s.ledger.Takes g a.newId then Function.update s.generated g.key g.lines else s.generated

/-- Every invoice has the lines of its last generation, and their sum as its amount. -/
def Books.Balanced (s : Books) : Prop :=
  ∀ i ∈ s.ledger.invoices, i.rows = s.generated i.key ∧ i.amountCents = sumCents i.rows

variable (profile) in
/-- A generation that writes renews every kind of line of the invoice it finds, and its lines sum
up to an `i64`. -/
def Renewing (s : Books) (a : Action) : Prop :=
  ∀ g, a.computes profile = some g → s.ledger.Takes g a.newId →
    (∀ i ∈ s.ledger.invoices, i.key = g.key → Renews g.lines i.lines) ∧ sumCents g.lines < 2 ^ 63

theorem balanced_of_computes_none {s : Books} {a : Action} (nothing : a.computes profile = none)
    (balanced : s.Balanced) : (s.step profile a).Balanced := by
  obtain ⟨f, invoices, only⟩ := step_of_computes_none (s := s.ledger) nothing
  have history : (s.step profile a).generated = s.generated := by
    unfold Books.step
    rw [nothing]
  intro i member
  have among : i ∈ s.ledger.invoices.map f := invoices ▸ member
  obtain ⟨old, listed, changed⟩ := List.mem_map.mp among
  rw [history, ← changed, only old]
  exact balanced old listed

/-- An invoice that a generation has written. -/
theorem written_iff {a : Action} {g : Generated} (computed : a.computes profile = some g)
    (rows : Kind → Option Line) :
    (Kind.all.filterMap (upsertLines g.lines rows) = g.lines ∧
        g.total = sumCents (Kind.all.filterMap (upsertLines g.lines rows))) ↔
      Renews g.lines rows ∧ sumCents g.lines < 2 ^ 63 := by
  obtain ⟨-, summed, each⟩ := computes_spec computed
  rw [← rows_upsert_iff computed]
  apply and_congr_right
  intro same
  rw [same]
  exact total_eq_sum_iff each summed

theorem renewing_iff {s : Books} {a : Action} (balanced : s.Balanced) :
    Renewing profile s a ↔ (s.step profile a).Balanced := by
  cases computed : a.computes profile with
  | none =>
    refine iff_of_true (fun g found => ?_) (balanced_of_computes_none computed balanced)
    rw [computed] at found
    cases found
  | some g =>
    have invoices := step_computes (s := s.ledger) computed
    by_cases takes : s.ledger.Takes g a.newId
    · have history : (s.step profile a).generated = Function.update s.generated g.key g.lines := by
        unfold Books.step
        rw [computed]
        exact if_pos takes
      have condition : Renewing profile s a ↔
          (∀ i ∈ s.ledger.invoices, i.key = g.key → Renews g.lines i.lines) ∧
            sumCents g.lines < 2 ^ 63 := by
        constructor
        · intro renewing
          exact renewing g computed takes
        · intro holds g' found _
          rw [computed] at found
          cases found
          exact holds
      have others : ∀ i ∈ s.ledger.invoices, i.key ≠ g.key →
          i.rows = (s.step profile a).generated i.key ∧ i.amountCents = sumCents i.rows := by
        intro i member other
        rw [history, Function.update_of_ne other]
        exact balanced i member
      have mine : (s.step profile a).generated g.key = g.lines := by
        rw [history, Function.update_self]
      rw [condition]
      by_cases here : g.key ∈ s.ledger.invoices.map (·.key)
      · rw [if_pos here] at invoices
        constructor
        · intro ⟨renews, small⟩ i member
          have among : i ∈ s.ledger.invoices.map
              fun i => if i.key = g.key then g.update i else i := invoices ▸ member
          obtain ⟨old, listed, changed⟩ := List.mem_map.mp among
          by_cases same : old.key = g.key
          · rw [if_pos same] at changed
            obtain ⟨rows, amount⟩ := (written_iff computed _).mpr ⟨renews old listed same, small⟩
            subst changed
            have key : (g.update old).key = g.key := same
            rw [key, mine]
            exact ⟨rows, amount⟩
          · rw [if_neg same] at changed
            exact changed ▸ others old listed same
        · intro after
          have each : ∀ i ∈ s.ledger.invoices, i.key = g.key →
              Renews g.lines i.lines ∧ sumCents g.lines < 2 ^ 63 := by
            intro i member same
            have written : g.update i ∈ (s.step profile a).ledger.invoices := by
              have listed : g.update i ∈ s.ledger.invoices.map
                  fun i => if i.key = g.key then g.update i else i :=
                List.mem_map.mpr ⟨i, member, if_pos same⟩
              exact invoices ▸ listed
            have holds := after (g.update i) written
            have key : (g.update i).key = g.key := same
            rw [key, mine] at holds
            exact (written_iff computed _).mp holds
          obtain ⟨i, member, same⟩ := List.mem_map.mp here
          exact ⟨fun i member same => (each i member same).1, (each i member same).2⟩
      · have new : a.newId ∉ s.ledger.invoices.map (·.id) := takes.resolve_left here
        rw [if_neg here, if_neg new] at invoices
        have apart : ∀ i ∈ s.ledger.invoices, i.key ≠ g.key :=
          fun i member same => here (List.mem_map.mpr ⟨i, member, same⟩)
        have created := written_iff computed fun _ => none
        have blank : Renews g.lines fun _ => none := fun _ present => by cases present
        constructor
        · intro ⟨_, small⟩ i member
          have among : i ∈ s.ledger.invoices ++ [g.create a.newId] := invoices ▸ member
          rcases List.mem_append.mp among with old | last
          · exact others i old (apart i old)
          · rw [List.mem_singleton.mp last]
            have key : (g.create a.newId).key = g.key := rfl
            rw [key, mine]
            exact created.mpr ⟨blank, small⟩
        · intro after
          have written : g.create a.newId ∈ (s.step profile a).ledger.invoices := by
            have listed : g.create a.newId ∈ s.ledger.invoices ++ [g.create a.newId] := by simp
            exact invoices ▸ listed
          have holds := after (g.create a.newId) written
          have key : (g.create a.newId).key = g.key := rfl
          rw [key, mine] at holds
          exact ⟨fun i member same => absurd same (apart i member), (created.mp holds).2⟩
    · have history : (s.step profile a).generated = s.generated := by
        unfold Books.step
        rw [computed]
        exact if_neg takes
      obtain ⟨absent, taken⟩ := not_or.mp takes
      rw [if_neg absent, if_pos (not_not.mp taken)] at invoices
      refine iff_of_true (fun g' found writes => ?_) fun i member => ?_
      · rw [computed] at found
        cases found
        exact absurd writes takes
      · rw [history]
        exact balanced i (invoices ▸ member)

end

/-- Along a run every invoice has the lines of its last generation and their sum as its amount,
exactly when every generation that writes renews all kinds of lines of the invoice it finds, and
its lines sum up to an `i64`. -/
theorem balanced_throughout_iff (profile : Profile) (actions : List Action) :
    EachStep (Books.step profile) (Renewing profile) .empty actions ↔
      Throughout (Books.step profile) Books.Balanced .empty actions :=
  eachStep_iff_throughout (fun _ _ balanced => renewing_iff balanced)
    (fun _ member => absurd member List.not_mem_nil) actions

/-! ### A seat that is given up -/

def standardPlan : BillingPlan where
  monthlyPriceCents := 4900
  currency := "BRL".toList
  includedSeats := 1
  seatOverageCents := 500
  includedStorageGb := 0
  storageOverageCentsPerGb := 0

def seatsOf (seats : Int) : Catalog where
  planOf := fun _ => some "standard".toList
  plans := fun _ => some standardPlan
  seats := fun _ => seats
  mailBytes := fun _ => 0
  fileBytes := fun _ => 0

/-- Two seats at first, and one when the month is metered again. -/
def meteredTwice : List Action :=
  [.generate (seatsOf 2) 1 (.month "2026-06".toList) 10,
    .generate (seatsOf 1) 1 (.month "2026-06".toList) 11]

/-- The line of the second seat stays, and the lines no longer sum up to the amount. -/
theorem seat_line_stays :
    ((meteredTwice.foldl (Books.step .release) .empty).ledger.invoices.map
        fun i => (i.amountCents, sumCents i.rows, i.rows.length)) = [(4900, 5400, 2)] ∧
      ¬ Throughout (Books.step .release) Books.Balanced .empty meteredTwice := by
  have amounts : ((meteredTwice.foldl (Books.step .release) .empty).ledger.invoices.map
      fun i => (i.amountCents, sumCents i.rows, i.rows.length)) = [(4900, 5400, 2)] := by
    decide
  refine ⟨amounts, fun balanced => ?_⟩
  have final := throughout_iff.mp balanced meteredTwice [] (List.append_nil _).symm
  obtain ⟨i, member, facts⟩ : ∃ i ∈ (meteredTwice.foldl (Books.step .release) .empty).ledger.invoices,
      (i.amountCents, sumCents i.rows, i.rows.length) = (4900, 5400, 2) := by
    apply List.mem_map.mp
    rw [amounts]
    exact List.mem_singleton.mpr rfl
  have equal := (final i member).2
  simp only [Prod.mk.injEq] at facts
  omega

end Expresso.Billing
