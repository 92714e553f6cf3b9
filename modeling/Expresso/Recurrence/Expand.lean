import Expresso.Recurrence.Rule
import Expresso.Periodic.Walk

/-! The expander: for each period from the start of the event on, the candidates of the
period, narrowed by `BYSETPOS`, are streamed through the series range, `COUNT`, the
excluded dates and the queried window. Date-times compare by instant throughout. -/

namespace Expresso.Recurrence
open Time Periodic

/-- Build profile: `dev` checks arithmetic for overflow, `release` wraps. -/
inductive Profile where
  | dev | release
  deriving DecidableEq

def maxIter : Nat := 1000

/-- The bodies of a `for` loop, one after the other. -/
def collect {α β : Type} (body : α → Except Panic (List β)) : List α → Except Panic (List β)
  | [] => .ok []
  | x :: rest => do
      let here ← body x
      let later ← collect body rest
      .ok (here ++ later)

theorem mem_collect {α β : Type} {body : α → Except Panic (List β)} {xs : List α} {ys : List β}
    (collected : collect body xs = .ok ys) {y : β} (member : y ∈ ys) :
    ∃ x ∈ xs, ∃ here, body x = .ok here ∧ y ∈ here := by
  induction xs generalizing ys with
  | nil =>
    cases collected
    cases member
  | cons x rest ih =>
    simp only [collect, bind, Except.bind] at collected
    split at collected
    · cases collected
    · next here found =>
      split at collected
      · cases collected
      · next later tail =>
        cases collected
        rcases List.mem_append.mp member with now | after
        · exact ⟨x, List.mem_cons_self, here, found, now⟩
        · obtain ⟨x', among, part, ran, inPart⟩ := ih tail after
          exact ⟨x', List.mem_cons_of_mem x among, part, ran, inPart⟩

/-! ### Candidate dates of a period -/

def weekdayIndex : Weekday → Nat
  | .monday => 0 | .tuesday => 1 | .wednesday => 2 | .thursday => 3
  | .friday => 4 | .saturday => 5 | .sunday => 6

def startOfWeek (d : Date) : Except Panic Date :=
  d.addDays (-(weekdayIndex d.weekday : Int))

def monthdayToDate (year : Int) (month : Month) (md : Int) : Option Date :=
  let last : Int := month.length year
  let day := if md > 0 then md else last + md + 1
  if md = 0 ∨ day < 1 ∨ day > last then none
  else Date.fromCalendarDate year month day.toNat

/-- How far from the end `-n` points. In `i8`, `-n - 1` overflows for -128; zero, which
no parsed rule holds, overflows one step later. -/
def positionFromEnd (profile : Profile) (n : Int) : Except Panic Nat :=
  if profile = .dev ∧ (n = -128 ∨ n = 0) then .error .overflow else .ok (-n).toNat

def bydayDatesInMonth (profile : Profile) (year : Int) (month : Month) (bd : ByDay) :
    Except Panic (List Date) :=
  let matching := ((List.range' 1 (month.length year)).filterMap fun day =>
    Date.fromCalendarDate year month day).filter fun d => d.weekday = bd.weekday
  match bd.ordinal with
  | none => .ok matching
  | some n =>
      if n > 0 then .ok (matching[(n - 1).toNat]?).toList
      else do
        let back ← positionFromEnd profile n
        if back ≤ matching.length then .ok (matching[matching.length - back]?).toList
        else .ok []

namespace Rrule

def monthAllowed (r : Rrule) (d : Date) : Bool :=
  r.bymonth.isEmpty || r.bymonth.contains d.month.number

def monthdayAllowed (r : Rrule) (d : Date) : Bool :=
  let last : Int := d.month.length d.year
  r.bymonthday.isEmpty || r.bymonthday.any fun md =>
    md = (d.day : Int) || (md < 0 && last + md + 1 = (d.day : Int))

def needsSetExpansion (r : Rrule) : Bool :=
  !r.byday.isEmpty || !r.bymonthday.isEmpty

def isExcluded (r : Rrule) (c : OffsetDateTime) : Bool :=
  r.exdate.any fun x => x.instant = c.instant

/-- `self.until.is_some_and(|u| t > u)`. -/
def pastUntil (r : Rrule) (t : OffsetDateTime) : Bool :=
  r.untilAt.any fun u => u.instant < t.instant

def candidateMonths (r : Rrule) (current : OffsetDateTime) : List (Int × Month) :=
  let d := current.date
  if r.freq = .yearly ∧ r.bymonth ≠ [] then
    r.bymonth.filterMap fun m => (Month.tryFrom m).map fun month => (d.year, month)
  else [(d.year, d.month)]

def weeklyDates (r : Rrule) (current : OffsetDateTime) : Except Panic (List Date) := do
  let weekStart ← startOfWeek current.date
  collect (fun bd => do
    let date ← weekStart.addDays (weekdayIndex bd.weekday)
    .ok [date]) r.byday

def monthOrYearDates (profile : Profile) (r : Rrule) (current : OffsetDateTime) :
    Except Panic (List Date) :=
  collect (fun (year, month) => do
    let weekdays ← collect (bydayDatesInMonth profile year month) r.byday
    .ok (r.bymonthday.filterMap (monthdayToDate year month) ++ weekdays))
    (r.candidateMonths current)

/-- `DAILY`, or no expanding rule: the anchor date itself. -/
def anchorDates (r : Rrule) (current : OffsetDateTime) : List Date :=
  if r.monthAllowed current.date && r.monthdayAllowed current.date then [current.date] else []

def periodDates (profile : Profile) (r : Rrule) (current : OffsetDateTime) :
    Except Panic (List Date) :=
  match r.freq with
  | .daily => .ok (r.anchorDates current)
  | .weekly => if r.byday.isEmpty then .ok (r.anchorDates current) else r.weeklyDates current
  | .monthly | .yearly =>
      if r.needsSetExpansion then r.monthOrYearDates profile current
      else .ok (r.anchorDates current)

def periodCandidates (profile : Profile) (r : Rrule) (current dtstart : OffsetDateTime) :
    Except Panic (List OffsetDateTime) := do
  let dates ← r.periodDates profile current
  .ok (sortDedup OffsetDateTime.instant
    (((dates.filter r.monthAllowed).map current.replaceDate).filter fun c =>
      dtstart.instant ≤ c.instant))

end Rrule

/-- Positions count from one, negative ones from the end; those outside select nothing. -/
def applyBysetpos (bysetpos : List Int) (candidates : List OffsetDateTime) :
    List OffsetDateTime :=
  if bysetpos.isEmpty || candidates.isEmpty then candidates
  else
    let len : Int := candidates.length
    sortDedup OffsetDateTime.instant (bysetpos.filterMap fun p =>
      let idx := if p > 0 then p - 1 else len + p
      if 0 ≤ idx ∧ idx < len then candidates[idx.toNat]? else none)

/-! ### The step from one period to the next -/

/-- `as i32`. -/
def wrapI32 (n : Int) : Int := (n + 2 ^ 31) % 2 ^ 32 - 2 ^ 31

/-- The day is clamped to the length of the new month. -/
def addMonths (dt : OffsetDateTime) (months : Int) : Option OffsetDateTime :=
  let d := dt.date
  let total := d.year * 12 + ((d.month.number : Int) - 1) + months
  let ny := wrapI32 (total / 12)
  (Month.tryFrom ((total % 12).toNat + 1)).bind fun nm =>
    (Date.fromCalendarDate ny nm (min d.day (nm.length ny))).map dt.replaceDate

def advance (current : OffsetDateTime) (freq : Freq) (interval : UInt32) :
    Except Panic (Option OffsetDateTime) :=
  let i : Int := interval.toNat
  match freq with
  | .daily => (current.add (Duration.days i)).map some
  | .weekly => (current.add (Duration.weeks i)).map some
  | .monthly => .ok (addMonths current i)
  | .yearly => .ok (addMonths current (i * 12))

/-! ### The loop -/

structure Window where
  winFrom : OffsetDateTime
  winTo : OffsetDateTime
  deriving DecidableEq

/-- An occurrence: start and end. -/
abbrev Occurrence := OffsetDateTime × OffsetDateTime

section Expand

variable (profile : Profile) (r : Rrule) (dtstart : OffsetDateTime) (duration : Duration)
  (window : Window)

/-- `self.count.unwrap_or(u32::MAX)`. -/
def Rrule.limitCount : Nat := (r.count.map UInt32.toNat).getD (2 ^ 32 - 1)

/-- The inner loop over one period's candidates: the counter and the output after it. -/
def emit : List OffsetDateTime → Nat → List Occurrence → Except Panic (Nat × List Occurrence)
  | [], emitted, out => .ok (emitted, out)
  | c :: rest, emitted, out =>
      if r.limitCount ≤ emitted then .ok (emitted, out)
      else if c.instant < dtstart.instant || r.pastUntil c then emit rest emitted out
      else if r.isExcluded c then emit rest (emitted + 1) out
      else do
        let finish ← c.add duration
        if window.winFrom.instant < finish.instant && c.instant < window.winTo.instant then
          emit rest (emitted + 1) (out ++ [(c, finish)])
        else emit rest (emitted + 1) out

/-- The test at the head of the loop, on the period's anchor. -/
def stops (current : OffsetDateTime) : Bool :=
  r.pastUntil current || window.winTo.instant ≤ current.instant

def expandLoop : Nat → Nat → OffsetDateTime → List Occurrence → Except Panic (List Occurrence)
  | 0, _, _, out => .ok out
  | iters + 1, emitted, current, out =>
      if r.limitCount ≤ emitted then .ok out
      else if stops r window current then .ok out
      else do
        let candidates ← r.periodCandidates profile current dtstart
        let (emitted, out) ←
          emit r dtstart duration window (applyBysetpos r.bysetpos candidates) emitted out
        match ← advance current r.freq r.interval with
        | some next => expandLoop iters emitted next out
        | none => .ok out

def Rrule.expand : Except Panic (List Occurrence) :=
  expandLoop profile r dtstart duration window maxIter 0 dtstart []

end Expand

end Expresso.Recurrence
