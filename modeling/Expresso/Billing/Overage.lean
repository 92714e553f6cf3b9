import Expresso.Recurrence.Expand
import Expresso.Transition.Runs

/-! The lines of an invoice: the base price of the plan, and what the usage exceeds the allowance
by. Amounts are `i64` cents. -/

namespace Expresso.Billing
open Text Transition
open Recurrence (Profile)

/-! ### Arithmetic -/

/-- The result of an `i64` operation: out of range it panics where overflow is checked, and wraps
where it is not. -/
def i64 (profile : Profile) (n : Int) : Except Panic Int :=
  if -2 ^ 63 ≤ n ∧ n < 2 ^ 63 then .ok n
  else match profile with
    | .dev => .error .overflow
    | .release => .ok ((n + 2 ^ 63) % 2 ^ 64 - 2 ^ 63)

/-- The result of a saturating `i64` operation. -/
def saturated (n : Int) : Int := max (-2 ^ 63) (min (2 ^ 63 - 1) n)

theorem i64_of_range (profile : Profile) {n : Int} (range : -2 ^ 63 ≤ n ∧ n < 2 ^ 63) :
    i64 profile n = .ok n :=
  if_pos range

theorem i64_range {profile : Profile} {n m : Int} (result : i64 profile n = .ok m) :
    -2 ^ 63 ≤ m ∧ m < 2 ^ 63 := by
  unfold i64 at result
  split at result
  · next range =>
    cases result
    exact range
  · cases profile with
    | dev => cases result
    | release =>
      cases result
      omega

/-! ### Lines -/

/-- The kinds that the table of lines admits. -/
inductive Kind where
  | base | seatOverage | storageOverage
  deriving DecidableEq

def Kind.all : List Kind := [base, seatOverage, storageOverage]

structure PlanTerms where
  baseCents : Int
  includedSeats : Int
  seatOverageCents : Int
  includedStorageGb : Int
  storageOverageCentsPerGb : Int
  deriving DecidableEq

structure Usage where
  seats : Int
  storageBytes : Int
  deriving DecidableEq

structure Line where
  kind : Kind
  description : Str
  quantity : Int
  unitCents : Int
  amountCents : Int
  deriving DecidableEq

def bytesPerGb : Int := 1024 * 1024 * 1024

section
variable (profile : Profile)

/-- Storage in whole GB, rounded up. -/
def bytesToGbCeil (bytes : Int) : Except Panic Int :=
  if bytes ≤ 0 then .ok 0
  else do
    let raised ← i64 profile (bytes + bytesPerGb)
    let raised ← i64 profile (raised - 1)
    return raised.tdiv bytesPerGb

/-- The units beyond the allowance. -/
def excess (used included : Int) : Except Panic Int := do
  return max (← i64 profile (used - included)) 0

def baseLine (terms : PlanTerms) : Line where
  kind := .base
  description := "Assinatura mensal".toList
  quantity := 1
  unitCents := terms.baseCents
  amountCents := terms.baseCents

def seatLine (terms : PlanTerms) (extra : Int) : Line where
  kind := .seatOverage
  description := "Usuários adicionais (".toList ++ display extra ++ [')']
  quantity := extra
  unitCents := terms.seatOverageCents
  amountCents := saturated (extra * terms.seatOverageCents)

def storageLine (terms : PlanTerms) (extra : Int) : Line where
  kind := .storageOverage
  description := "Armazenamento adicional (".toList ++ display extra ++ " GB)".toList
  quantity := extra
  unitCents := terms.storageOverageCentsPerGb
  amountCents := saturated (extra * terms.storageOverageCentsPerGb)

/-- The lines of a period: an excess is listed where the plan charges for it. -/
def linesOf (terms : PlanTerms) (extraSeats extraGb : Int) : List Line :=
  baseLine terms ::
    ((if 0 < extraSeats ∧ 0 < terms.seatOverageCents then [seatLine terms extraSeats] else []) ++
      if 0 < extraGb ∧ 0 < terms.storageOverageCentsPerGb then [storageLine terms extraGb] else [])

def computeLines (terms : PlanTerms) (usage : Usage) : Except Panic (List Line) := do
  let extraSeats ← excess profile usage.seats terms.includedSeats
  let usedGb ← bytesToGbCeil profile usage.storageBytes
  let extraGb ← excess profile usedGb terms.includedStorageGb
  return linesOf terms extraSeats extraGb

def totalCents (lines : List Line) : Except Panic Int :=
  lines.foldlM (fun total line => i64 profile (total + line.amountCents)) 0

end

/-- The sum of the amounts. -/
def sumCents (lines : List Line) : Int := (lines.map (·.amountCents)).sum

/-- What the table of lines checks. -/
def Line.valid (line : Line) : Bool :=
  0 ≤ line.quantity && 0 ≤ line.unitCents && 0 ≤ line.amountCents

/-! ### One line of each kind -/

/-- The lines by their kinds. -/
def byKind (lines : List Line) (kind : Kind) : Option Line := lines.find? (·.kind = kind)

theorem kind_of_byKind {lines : List Line} {kind : Kind} {line : Line}
    (found : byKind lines kind = some line) : line ∈ lines ∧ line.kind = kind :=
  ⟨List.mem_of_find?_eq_some found, by simpa using List.find?_some found⟩

/-- The lines computed are in the order of their kinds, none of which is there twice. -/
theorem byKind_linesOf (terms : PlanTerms) (extraSeats extraGb : Int) :
    Kind.all.filterMap (byKind (linesOf terms extraSeats extraGb)) =
      linesOf terms extraSeats extraGb := by
  unfold linesOf
  split <;> split <;> rfl

theorem byKind_computeLines {profile : Profile} {terms : PlanTerms} {usage : Usage}
    {lines : List Line} (computed : computeLines profile terms usage = .ok lines) :
    Kind.all.filterMap (byKind lines) = lines := by
  simp only [computeLines, bind_eq_ok_iff] at computed
  obtain ⟨extraSeats, _, _, _, extraGb, _, made⟩ := computed
  cases made
  exact byKind_linesOf terms extraSeats extraGb

/-! ### The total -/

theorem sumCents_cons (line : Line) (rest : List Line) :
    sumCents (line :: rest) = line.amountCents + sumCents rest := by
  simp [sumCents]

theorem sumCents_nonneg {lines : List Line} (each : ∀ l ∈ lines, 0 ≤ l.amountCents) :
    0 ≤ sumCents lines := by
  induction lines with
  | nil => exact le_rfl
  | cons line rest ih =>
    have here := each line List.mem_cons_self
    have later := ih fun l member => each l (List.mem_cons_of_mem line member)
    rw [sumCents_cons]
    omega

theorem foldlM_cents_of_small {profile : Profile} {lines : List Line} {start : Int}
    (nonneg : 0 ≤ start) (each : ∀ l ∈ lines, 0 ≤ l.amountCents)
    (small : start + sumCents lines < 2 ^ 63) :
    lines.foldlM (fun total line => i64 profile (total + line.amountCents)) start =
      .ok (start + sumCents lines) := by
  induction lines generalizing start with
  | nil =>
    show Except.ok start = .ok (start + 0)
    rw [add_zero]
  | cons line rest ih =>
    have here := each line List.mem_cons_self
    have later : ∀ l ∈ rest, 0 ≤ l.amountCents :=
      fun l member => each l (List.mem_cons_of_mem line member)
    have rests := sumCents_nonneg later
    rw [sumCents_cons] at small ⊢
    rw [List.foldlM_cons, i64_of_range profile (by omega)]
    show List.foldlM _ (start + line.amountCents) rest = _
    rw [ih (by omega) later (by omega)]
    congr 1
    omega

theorem foldlM_cents_range {profile : Profile} {lines : List Line} {start total : Int}
    (range : start < 2 ^ 63)
    (result : lines.foldlM (fun total line => i64 profile (total + line.amountCents)) start =
      .ok total) : total < 2 ^ 63 := by
  induction lines generalizing start with
  | nil =>
    cases result
    exact range
  | cons line rest ih =>
    rw [List.foldlM_cons, bind_eq_ok_iff] at result
    obtain ⟨next, first, later⟩ := result
    exact ih (i64_range first).2 later

/-- Of lines without negative amounts the total is their sum, just where that is an `i64`. -/
theorem total_eq_sum_iff {profile : Profile} {lines : List Line} {total : Int}
    (each : ∀ l ∈ lines, 0 ≤ l.amountCents) (result : totalCents profile lines = .ok total) :
    total = sumCents lines ↔ sumCents lines < 2 ^ 63 := by
  constructor
  · intro same
    rw [← same]
    exact foldlM_cents_range (by decide) result
  · intro small
    have summed : totalCents profile lines = .ok (0 + sumCents lines) :=
      foldlM_cents_of_small le_rfl each (by omega)
    rw [summed] at result
    have same := Except.ok.inj result
    omega

end Expresso.Billing
