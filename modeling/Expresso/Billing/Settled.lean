import Expresso.Billing.Balance

/-! Settled invoices, and invoices of one month, over a run. The upsert does not look at the
status of the invoice it rewrites, and only the generation by month puts the date on the first. -/

namespace Expresso.Billing
open Text Time Transition
open Recurrence (Profile)

/-- Paid or void. -/
def Invoice.Settled (i : Invoice) : Prop := i.status ≠ .pending

/-- The same amount, plan, currency and lines. -/
def Invoice.SameContent (i j : Invoice) : Prop :=
  j.amountCents = i.amountCents ∧ j.plan = i.plan ∧ j.currency = i.currency ∧ j.lines = i.lines

def SameMonth (d d' : Date) : Prop := d.year = d'.year ∧ d.month = d'.month

/-- No tenant has two invoices of a month. -/
def Ledger.OnePerMonth (s : Ledger) : Prop :=
  ∀ i ∈ s.invoices, ∀ j ∈ s.invoices, i.tenantId = j.tenantId → SameMonth i.period j.period →
    i = j

section
variable (profile : Profile)

/-- The step leaves every settled invoice as it is. -/
def KeepsSettled (s : Ledger) (a : Action) : Prop :=
  ∀ i ∈ s.invoices, i.Settled → ∀ j ∈ (s.step profile a).invoices, j.id = i.id → i.SameContent j

/-- A generation that comes to a settled invoice computes what it holds already. -/
def SparesSettled (s : Ledger) (a : Action) : Prop :=
  ∀ g, a.computes profile = some g → ∀ i ∈ s.invoices, i.key = g.key → i.Settled →
    g.total = i.amountCents ∧ g.plan = i.plan ∧ g.currency = i.currency ∧
      ∀ line ∈ g.lines, i.lines line.kind = some line

/-- A generation that writes is dated like the invoice that the tenant has in that month, if it
has one. -/
def OwnMonth (s : Ledger) (a : Action) : Prop :=
  ∀ g, a.computes profile = some g → s.Takes g a.newId → ∀ i ∈ s.invoices,
    i.tenantId = g.tenantId → SameMonth i.period g.period → i.period = g.period

variable {profile}

theorem eq_of_id {s : Ledger} {i j : Invoice} (first : i ∈ s.invoices) (second : j ∈ s.invoices)
    (same : i.id = j.id) : i = j :=
  List.inj_on_of_nodup_map s.ids first second same

theorem eq_of_key {s : Ledger} {i j : Invoice} (first : i ∈ s.invoices) (second : j ∈ s.invoices)
    (same : i.key = j.key) : i = j :=
  List.inj_on_of_nodup_map s.keys first second same

/-! ### Settled invoices -/

/-- The upserts change no line just where each line they write is there already. -/
theorem upsertLines_eq_self_iff {a : Action} {g : Generated}
    (computed : a.computes profile = some g) (rows : Kind → Option Line) :
    upsertLines g.lines rows = rows ↔ ∀ line ∈ g.lines, rows line.kind = some line := by
  obtain ⟨⟨terms, extraSeats, extraGb, listed⟩, -, -⟩ := computes_spec computed
  rw [listed, upsertLines_linesOf]
  constructor
  · intro same line member
    have found : byKind (linesOf terms extraSeats extraGb) line.kind = some line := by
      rw [← byKind_linesOf, List.mem_filterMap] at member
      obtain ⟨kind, _, found⟩ := member
      rw [(kind_of_byKind found).2]
      exact found
    have here := congrFun same line.kind
    simp only [found, Option.some_or] at here
    exact here.symm
  · intro each
    funext kind
    cases found : byKind (linesOf terms extraSeats extraGb) kind with
    | none => rfl
    | some line =>
      obtain ⟨member, same⟩ := kind_of_byKind found
      rw [← same, each line member]
      rfl

theorem update_sameContent_iff {a : Action} {g : Generated}
    (computed : a.computes profile = some g) (i : Invoice) :
    i.SameContent (g.update i) ↔ g.total = i.amountCents ∧ g.plan = i.plan ∧
      g.currency = i.currency ∧ ∀ line ∈ g.lines, i.lines line.kind = some line := by
  rw [← upsertLines_eq_self_iff computed]
  rfl

theorem sparesSettled_iff {s : Ledger} {a : Action} :
    SparesSettled profile s a ↔ KeepsSettled profile s a := by
  cases computed : a.computes profile with
  | none =>
    obtain ⟨f, invoices, only⟩ := step_of_computes_none (s := s) computed
    refine iff_of_true (fun g found => ?_) fun i member _ j after same => ?_
    · rw [computed] at found
      cases found
    · rw [invoices] at after
      obtain ⟨old, listed, changed⟩ := List.mem_map.mp after
      rw [← changed, only old] at same ⊢
      rw [eq_of_id listed member same]
      exact ⟨rfl, rfl, rfl, rfl⟩
  | some g =>
    have invoices := step_computes (s := s) computed
    have one : SparesSettled profile s a ↔
        ∀ i ∈ s.invoices, i.key = g.key → i.Settled → i.SameContent (g.update i) := by
      simp only [update_sameContent_iff computed]
      constructor
      · intro spares
        exact spares g computed
      · intro each g' found
        rw [computed] at found
        cases found
        exact each
    rw [one]
    constructor
    · intro spares i member settled j after same
      rw [invoices] at after
      split at after
      · obtain ⟨old, listed, changed⟩ := List.mem_map.mp after
        have kept : old.id = j.id := by
          rw [← changed]
          split <;> rfl
        have equal := eq_of_id listed member (kept.trans same)
        subst equal
        split at changed
        · next key => exact changed ▸ spares old member key settled
        · rw [changed]
          exact ⟨rfl, rfl, rfl, rfl⟩
      · next absent =>
        have unchanged : j ∈ s.invoices → i.SameContent j := by
          intro listed
          rw [eq_of_id listed member same]
          exact ⟨rfl, rfl, rfl, rfl⟩
        split at after
        · exact unchanged after
        · next new =>
          rcases List.mem_append.mp after with old | last
          · exact unchanged old
          · rw [List.mem_singleton.mp last] at same
            exact absurd (List.mem_map.mpr ⟨i, member, same.symm⟩) new
    · intro keeps i member key settled
      apply keeps i member settled (g.update i) ?_ rfl
      have here : g.key ∈ s.invoices.map (·.key) := List.mem_map.mpr ⟨i, member, key⟩
      rw [invoices, if_pos here]
      exact List.mem_map.mpr ⟨i, member, if_pos key⟩

/-! ### Invoices of one month -/

theorem onePerMonth_map {s s' : Ledger} {f : Invoice → Invoice}
    (invoices : s'.invoices = s.invoices.map f) (same : ∀ i, (f i).key = i.key)
    (one : s.OnePerMonth) : s'.OnePerMonth := by
  intro i first j second tenant month
  rw [invoices] at first second
  obtain ⟨i', listed, rfl⟩ := List.mem_map.mp first
  obtain ⟨j', listed', rfl⟩ := List.mem_map.mp second
  obtain ⟨tenantI, periodI⟩ := Prod.mk.inj (same i')
  obtain ⟨tenantJ, periodJ⟩ := Prod.mk.inj (same j')
  rw [tenantI, tenantJ] at tenant
  rw [periodI, periodJ] at month
  rw [one i' listed j' listed' tenant month]

theorem ownMonth_iff {s : Ledger} {a : Action} (one : s.OnePerMonth) :
    OwnMonth profile s a ↔ (s.step profile a).OnePerMonth := by
  cases computed : a.computes profile with
  | none =>
    obtain ⟨f, invoices, only⟩ := step_of_computes_none (s := s) computed
    refine iff_of_true (fun g found => ?_) (onePerMonth_map invoices (fun i => ?_) one)
    · rw [computed] at found
      cases found
    · rw [only i]
      rfl
  | some g =>
    have invoices := step_computes (s := s) computed
    have only : OwnMonth profile s a ↔ (s.Takes g a.newId → ∀ i ∈ s.invoices,
        i.tenantId = g.tenantId → SameMonth i.period g.period → i.period = g.period) := by
      constructor
      · intro own
        exact own g computed
      · intro each g' found
        rw [computed] at found
        cases found
        exact each
    rw [only]
    by_cases here : g.key ∈ s.invoices.map (·.key)
    · rw [if_pos here] at invoices
      refine iff_of_true (fun _ i member tenant month => ?_) (onePerMonth_map invoices ?_ one)
      · obtain ⟨j, listed, key⟩ := List.mem_map.mp here
        obtain ⟨tenantJ, periodJ⟩ := Prod.mk.inj key
        rw [← periodJ] at month ⊢
        rw [one i member j listed (tenant.trans tenantJ.symm) month]
      · intro i
        split <;> rfl
    · rw [if_neg here] at invoices
      have apart : ∀ i ∈ s.invoices, i.tenantId = g.tenantId → i.period ≠ g.period :=
        fun i member tenant period => here (List.mem_map.mpr ⟨i, member, Prod.ext tenant period⟩)
      by_cases taken : a.newId ∈ s.invoices.map (·.id)
      · rw [if_pos taken] at invoices
        refine iff_of_true (fun takes => ?_) (onePerMonth_map (f := id) (by simpa using invoices)
          (fun _ => rfl) one)
        exact absurd takes (not_or.mpr ⟨here, not_not.mpr taken⟩)
      · rw [if_neg taken] at invoices
        constructor
        · intro own i first j second tenant month
          have own := own (.inr taken)
          rw [invoices] at first second
          rcases List.mem_append.mp first with old | last
          · rcases List.mem_append.mp second with old' | last'
            · exact one i old j old' tenant month
            · rw [List.mem_singleton.mp last'] at tenant month
              exact absurd (own i old tenant month) (apart i old tenant)
          · rcases List.mem_append.mp second with old' | last'
            · rw [List.mem_singleton.mp last] at tenant month
              have back : SameMonth j.period g.period := ⟨month.1.symm, month.2.symm⟩
              exact absurd (own j old' tenant.symm back) (apart j old' tenant.symm)
            · rw [List.mem_singleton.mp last, List.mem_singleton.mp last']
        · intro after _ i member tenant month
          have listed : i ∈ (s.step profile a).invoices := by
            rw [invoices]
            exact List.mem_append_left _ member
          have written : g.create a.newId ∈ (s.step profile a).invoices := by
            rw [invoices]
            exact List.mem_append_right _ (List.mem_singleton.mpr rfl)
          rw [after i listed _ written tenant month]
          rfl

end

/-- Along a run no tenant has two invoices of a month and no settled invoice changes, exactly when
every generation is dated like the tenant's invoice of that month, if there is one, and computes
for a settled invoice what it holds already. -/
theorem settled_throughout_iff (profile : Profile) (actions : List Action) :
    EachStep (Ledger.step profile) (fun s a => OwnMonth profile s a ∧ SparesSettled profile s a)
        .empty actions ↔
      Throughout (Ledger.step profile) Ledger.OnePerMonth .empty actions ∧
        EachStep (Ledger.step profile) (KeepsSettled profile) .empty actions :=
  eachStep_iff_throughout_and
    (fun _ _ one => and_congr (ownMonth_iff one) sparesSettled_iff)
    (fun _ member => absurd member List.not_mem_nil) actions

/-! ### A paid invoice, and two of one month -/

def june15 : OffsetDateTime :=
  .assumeUtc ⟨2026, .june, 15, Time.year_2026, by decide⟩ 0 Time.midnight_range

/-- Generated, paid, and generated again when the tenant has a seat more; then generated for a
day of the same month. -/
def paidAndMetered : List Action :=
  [.generate (seatsOf 1) 1 (.month "2026-06".toList) 10, .setStatus 10 "paid".toList,
    .generate (seatsOf 2) 1 (.month "2026-06".toList) 11,
    .generate (seatsOf 1) 1 (.instant june15) 12]

/-- The paid invoice is raised by the seat, and the month has a second invoice. -/
theorem paid_invoice_raised :
    (((paidAndMetered.take 2).foldl (Ledger.step .release) .empty).invoices.map
        fun i => (i.id, i.status, i.amountCents)) = [(10, .paid, 4900)] ∧
      ((paidAndMetered.foldl (Ledger.step .release) .empty).invoices.map
        fun i => (i.id, i.tenantId, i.status, i.amountCents)) =
          [(10, 1, .paid, 5400), (12, 1, .pending, 4900)] ∧
      ((paidAndMetered.foldl (Ledger.step .release) .empty).invoices.map
        fun i => (i.period.year, i.period.month, i.period.day)) =
          [(2026, .june, 1), (2026, .june, 15)] := by
  decide

end Expresso.Billing
