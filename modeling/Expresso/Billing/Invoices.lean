import Expresso.Billing.Overage

/-! Invoices and their lines: one invoice for each tenant and date, written by the generation for
one tenant or for all of them, and settled by hand. A generation reads the plans and the usage
before its transaction, so that prices and usage may change freely from one to the next. -/

namespace Expresso.Billing
open Text Time Transition
open Recurrence (Profile)

abbrev Uuid := Nat

/-! ### Plans and usage -/

structure BillingPlan where
  monthlyPriceCents : Int
  currency : Str
  includedSeats : Int
  seatOverageCents : Int
  includedStorageGb : Int
  storageOverageCentsPerGb : Int
  deriving DecidableEq

/-- What a generation reads: the plans of the tenants and their prices, and the answers of the
usage queries, zero where one fails. -/
structure Catalog where
  planOf : Uuid → Option Str
  plans : Str → Option BillingPlan
  seats : Uuid → Int
  mailBytes : Uuid → Int
  fileBytes : Uuid → Int

/-- The terms, the plan and the currency. -/
def Catalog.planTermsFor (read : Catalog) (tenant : Uuid) : Option (PlanTerms × Str × Str) := do
  let plan ← read.planOf tenant
  let row ← read.plans plan
  some (⟨row.monthlyPriceCents, row.includedSeats, row.seatOverageCents, row.includedStorageGb,
    row.storageOverageCentsPerGb⟩, plan, row.currency)

def Catalog.measureUsage (read : Catalog) (tenant : Uuid) : Usage where
  seats := read.seats tenant
  storageBytes := saturated (read.mailBytes tenant + read.fileBytes tenant)

/-! ### Tables -/

inductive InvoiceStatus where
  | pending | paid | void
  deriving DecidableEq

def InvoiceStatus.ofText (text : Str) : Option InvoiceStatus :=
  if text = "paid".toList then some paid
  else if text = "void".toList then some void
  else if text = "pending".toList then some pending
  else none

/-- A row of `billing_invoices` with its rows of `billing_invoice_lines`, at most one of a kind. -/
structure Invoice where
  id : Uuid
  tenantId : Uuid
  period : Date
  plan : Str
  amountCents : Int
  currency : Str
  status : InvoiceStatus
  lines : Kind → Option Line

/-- The rows of the lines. -/
def Invoice.rows (i : Invoice) : List Line := Kind.all.filterMap i.lines

def Invoice.key (i : Invoice) : Uuid × Date := (i.tenantId, i.period)

structure Ledger where
  invoices : List Invoice
  ids : (invoices.map (·.id)).Nodup
  keys : (invoices.map (·.key)).Nodup

def Ledger.empty : Ledger := ⟨[], .nil, .nil⟩

/-- An edit of the rows that leaves ids and keys alone. -/
def Ledger.edit (s : Ledger) (f : Invoice → Invoice)
    (same : ∀ i, (f i).id = i.id ∧ (f i).key = i.key) : Ledger where
  invoices := s.invoices.map f
  ids := by
    have kept : (fun i : Invoice => (f i).id) = (·.id) := funext fun i => (same i).1
    rw [List.map_map]
    show (s.invoices.map fun i => (f i).id).Nodup
    rw [kept]
    exact s.ids
  keys := by
    have kept : (fun i : Invoice => (f i).key) = (·.key) := funext fun i => (same i).2
    rw [List.map_map]
    show (s.invoices.map fun i => (f i).key).Nodup
    rw [kept]
    exact s.keys

theorem nodup_map_append {α β : Type} {f : α → β} {l : List α} {a : α}
    (distinct : (l.map f).Nodup) (new : f a ∉ l.map f) : ((l ++ [a]).map f).Nodup := by
  rw [List.map_append, List.map_singleton]
  exact List.nodup_append_comm.mp (List.nodup_cons.mpr ⟨new, distinct⟩)

def Ledger.insert (s : Ledger) (i : Invoice) (newId : i.id ∉ s.invoices.map (·.id))
    (newKey : i.key ∉ s.invoices.map (·.key)) : Ledger where
  invoices := s.invoices ++ [i]
  ids := nodup_map_append s.ids newId
  keys := nodup_map_append s.keys newKey

/-! ### Generation -/

inductive BillingError where
  | database
  | panic (reason : Panic)
  | badRequest (message : Str)
  deriving DecidableEq

/-- What a generation computes before its transaction. -/
structure Generated where
  tenantId : Uuid
  period : Date
  plan : Str
  currency : Str
  lines : List Line
  total : Int
  deriving DecidableEq

def Generated.key (g : Generated) : Uuid × Date := (g.tenantId, g.period)

/-- The upserts of the lines, one after the other. -/
def upsertLines (lines : List Line) (rows : Kind → Option Line) : Kind → Option Line :=
  lines.foldl (fun rows line => Function.update rows line.kind (some line)) rows

def Generated.update (g : Generated) (i : Invoice) : Invoice :=
  { i with
    amountCents := g.total
    plan := g.plan
    currency := g.currency
    lines := upsertLines g.lines i.lines }

def Generated.create (g : Generated) (id : Uuid) : Invoice :=
  { id, tenantId := g.tenantId, period := g.period, plan := g.plan, amountCents := g.total
    currency := g.currency, status := .pending, lines := upsertLines g.lines fun _ => none }

/-- The checks of the two tables. -/
def Generated.valid (g : Generated) : Bool := 0 ≤ g.total && g.lines.all (·.valid)

section
variable (profile : Profile)

def generatedFor (read : Catalog) (tenant : Uuid) (period : Date) :
    Except Panic (Option Generated) :=
  match read.planTermsFor tenant with
  | none => .ok none
  | some (terms, plan, currency) => do
      let lines ← computeLines profile terms (read.measureUsage tenant)
      let total ← totalCents profile lines
      return some ⟨tenant, period, plan, currency, lines, total⟩

/-- The transaction: an invoice of the tenant and date is rewritten, whatever its status. -/
def Ledger.commit (s : Ledger) (g : Generated) (newId : Uuid) : Except BillingError Ledger :=
  if g.valid then
    if absent : g.key ∉ s.invoices.map (·.key) then
      if new : newId ∉ s.invoices.map (·.id) then .ok (s.insert (g.create newId) new absent)
      else .error .database
    else
      .ok (s.edit (fun i => if i.key = g.key then g.update i else i) fun i => by
        split
        · exact ⟨rfl, rfl⟩
        · exact ⟨rfl, rfl⟩)
  else .error .database

/-- The total, or `none` for a tenant without a priced plan. -/
def Ledger.generateOne (s : Ledger) (read : Catalog) (tenant : Uuid) (period : Date)
    (newId : Uuid) : Except BillingError (Ledger × Option Int) :=
  match generatedFor profile read tenant period with
  | .error reason => .error (.panic reason)
  | .ok none => .ok (s, none)
  | .ok (some g) => (s.commit g newId).map fun s' => (s', some g.total)

/-! ### Periods -/

/-- The text of a date, as RFC 3339 starts with it. There is none for a year below zero. -/
def isoDate (d : Date) : Str :=
  if d.year < 0 then []
  else padded 4 d.year ++ '-' :: padded 2 d.month.number ++ '-' :: padded 2 d.day

/-- `::date` of a text `YYYY-MM-DD`. There is no year zero. -/
def castDate (text : Str) : Option Date := do
  let (year, s) ← Recurrence.fixedDigits 4 text
  let s ← Recurrence.literal '-' s
  let (month, s) ← Recurrence.fixedDigits 2 s
  let s ← Recurrence.literal '-' s
  let (day, s) ← Recurrence.fixedDigits 2 s
  let month ← Month.tryFrom month
  let date ← Date.fromCalendarDate year month day
  if s = [] ∧ 1 ≤ year then some date else none

/-- `YYYY-MM`, or more, as the first of the month. -/
def periodFirstOfMonth (raw : Str) : Option Str :=
  let ym := raw.take 7
  let shaped := ym.length = 7 && ym[4]? = some '-' && (ym.take 4).all Char.isDigit &&
    (ym.drop 5).all Char.isDigit
  if shaped then some (ym ++ "-01".toList) else none

/-- The period that a request names: the time parsed from RFC 3339 for a single invoice, a month
for the screen and for the batch. -/
inductive Period where
  | instant (time : OffsetDateTime)
  | month (raw : Str)

def Period.date : Period → Except BillingError Date
  | .instant time =>
      match castDate (isoDate time.date) with
      | none => .error .database
      | some date => .ok date
  | .month raw =>
      match periodFirstOfMonth raw with
      | none => .error (.badRequest "period must be YYYY-MM".toList)
      | some text =>
          match castDate text with
          | none => .error .database
          | some date => .ok date

/-! ### Requests -/

/-- One invoice, and its header as it then is; `none` where tenant or plan is missing. -/
def Ledger.generateInvoice (s : Ledger) (read : Catalog) (tenant : Uuid) (time : OffsetDateTime)
    (newId : Uuid) : Except BillingError (Ledger × Option Invoice) := do
  let date ← Period.date (.instant time)
  let (s, total) ← s.generateOne profile read tenant date newId
  match total with
  | none => return (s, none)
  | some _ => return (s, s.invoices.find? (·.key = (tenant, date)))

/-- The turn of one tenant in the batch. -/
structure Turn where
  tenant : Uuid
  read : Catalog
  newId : Uuid

/-- The loop over the tenants, each in a transaction of its own: an error ends it, and what was
generated before it stays. -/
def generateAllForPeriod (date : Date) :
    List Turn → Nat → Ledger → Ledger × Except BillingError Nat
  | [], processed, s => (s, .ok processed)
  | t :: rest, processed, s =>
      match s.generateOne profile t.read t.tenant date t.newId with
      | .error e => (s, .error e)
      | .ok (s', none) => generateAllForPeriod date rest processed s'
      | .ok (s', some _) => generateAllForPeriod date rest (processed + 1) s'

end

def Invoice.withStatus (i : Invoice) (status : InvoiceStatus) : Invoice := { i with status }

/-- The new status, whatever the old one; `none` where there is no such invoice. -/
def Ledger.setInvoiceStatus (s : Ledger) (id : Uuid) (status : Str) :
    Except BillingError (Ledger × Option Invoice) :=
  match InvoiceStatus.ofText status with
  | none => .error (.badRequest "status must be paid|void|pending".toList)
  | some status =>
      let after := s.edit (fun i => if i.id = id then i.withStatus status else i) fun i => by
        split
        · exact ⟨rfl, rfl⟩
        · exact ⟨rfl, rfl⟩
      .ok (after, after.invoices.find? (·.id = id))

/-! ### Runs -/

/-- A step of the service: the generation for one tenant, alone or as its turn in a batch, and a
change of status. -/
inductive Action where
  | generate (read : Catalog) (tenant : Uuid) (period : Period) (newId : Uuid)
  | setStatus (id : Uuid) (status : Str)

section
variable (profile : Profile)

def Ledger.step (s : Ledger) : Action → Ledger
  | .generate read tenant period newId =>
      match period.date with
      | .error _ => s
      | .ok date =>
          match s.generateOne profile read tenant date newId with
          | .error _ => s
          | .ok (s', _) => s'
  | .setStatus id status =>
      match s.setInvoiceStatus id status with
      | .error _ => s
      | .ok (s', _) => s'

/-- What an action computes for its transaction, if it comes to one that passes the checks. -/
def Action.computes : Action → Option Generated
  | .generate read tenant period _ =>
      match period.date with
      | .error _ => none
      | .ok date =>
          match generatedFor profile read tenant date with
          | .error _ => none
          | .ok none => none
          | .ok (some g) => if g.valid then some g else none
  | .setStatus _ _ => none

/-- The id that a new invoice of the action has. -/
def Action.newId : Action → Uuid
  | .generate _ _ _ newId => newId
  | .setStatus id _ => id

variable {profile}

theorem step_computes {s : Ledger} {a : Action} {g : Generated}
    (computed : a.computes profile = some g) :
    (s.step profile a).invoices =
      if g.key ∈ s.invoices.map (·.key) then
        s.invoices.map fun i => if i.key = g.key then g.update i else i
      else if a.newId ∈ s.invoices.map (·.id) then s.invoices
      else s.invoices ++ [g.create a.newId] := by
  cases a with
  | setStatus id status => cases computed
  | generate read tenant period newId =>
    unfold Action.computes at computed
    unfold Ledger.step
    cases dated : period.date with
    | error e =>
      simp only [dated] at computed
      cases computed
    | ok date =>
      simp only [dated] at computed ⊢
      unfold Ledger.generateOne
      cases made : generatedFor profile read tenant date with
      | error e =>
        simp only [made] at computed
        cases computed
      | ok found =>
        cases found with
        | none =>
          simp only [made] at computed
          cases computed
        | some g' =>
          simp only [made] at computed ⊢
          split at computed
          · next valid =>
            cases computed
            unfold Ledger.commit
            rw [if_pos valid]
            by_cases here : g.key ∈ s.invoices.map (·.key)
            · rw [dif_neg (not_not.mpr here), if_pos here]
              rfl
            · rw [dif_pos here, if_neg here]
              by_cases taken : newId ∈ s.invoices.map (·.id)
              · rw [dif_neg (not_not.mpr taken), Action.newId, if_pos taken]
                rfl
              · rw [dif_pos taken, Action.newId, if_neg taken]
                rfl
          · cases computed

/-- Every other action changes nothing but a status. -/
theorem step_of_computes_none {s : Ledger} {a : Action} (nothing : a.computes profile = none) :
    ∃ f : Invoice → Invoice, (s.step profile a).invoices = s.invoices.map f ∧
      ∀ i, f i = i.withStatus (f i).status := by
  have same : ∃ f : Invoice → Invoice, s.invoices = s.invoices.map f ∧
      ∀ i, f i = i.withStatus (f i).status := ⟨id, (List.map_id _).symm, fun _ => rfl⟩
  cases a with
  | setStatus id status =>
    cases named : InvoiceStatus.ofText status with
    | none =>
      simp only [Ledger.step, Ledger.setInvoiceStatus, named]
      exact same
    | some status =>
      simp only [Ledger.step, Ledger.setInvoiceStatus, named]
      refine ⟨_, rfl, fun i => ?_⟩
      split <;> rfl
  | generate read tenant period newId =>
    cases dated : period.date with
    | error e =>
      simp only [Ledger.step, dated]
      exact same
    | ok date =>
      simp only [Action.computes, dated] at nothing
      simp only [Ledger.step, dated, Ledger.generateOne]
      cases made : generatedFor profile read tenant date with
      | error e => exact same
      | ok found =>
        cases found with
        | none => exact same
        | some g =>
          simp only [made] at nothing ⊢
          split at nothing
          · cases nothing
          · next invalid =>
            rw [Ledger.commit, if_neg invalid]
            exact same

/-- A batch is a run of the turns up to the one that fails. -/
theorem generateAllForPeriod_eq_run {raw : Str} {date : Date}
    (named : Period.date (.month raw) = .ok date) (turns : List Turn) (processed : Nat)
    (s : Ledger) : ∃ k, (generateAllForPeriod profile date turns processed s).1 =
      ((turns.take k).map fun t => Action.generate t.read t.tenant (.month raw) t.newId).foldl
        (Ledger.step profile) s := by
  induction turns generalizing processed s with
  | nil => exact ⟨0, rfl⟩
  | cons t rest ih =>
    unfold generateAllForPeriod
    have first : s.step profile (.generate t.read t.tenant (.month raw) t.newId) =
        match s.generateOne profile t.read t.tenant date t.newId with
        | .error _ => s
        | .ok (s', _) => s' := by
      simp only [Ledger.step, named]
    cases generated : s.generateOne profile t.read t.tenant date t.newId with
    | error e => exact ⟨0, rfl⟩
    | ok result =>
      obtain ⟨s', total⟩ := result
      rw [generated] at first
      cases total with
      | none =>
        obtain ⟨k, run⟩ := ih processed s'
        exact ⟨k + 1, by rw [List.take_succ_cons, List.map_cons, List.foldl_cons, first, ← run]⟩
      | some total =>
        obtain ⟨k, run⟩ := ih (processed + 1) s'
        exact ⟨k + 1, by rw [List.take_succ_cons, List.map_cons, List.foldl_cons, first, ← run]⟩

end

end Expresso.Billing
