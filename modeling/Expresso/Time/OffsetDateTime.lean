import Expresso.Text.Str
import Expresso.Time.Gregorian

/-! Dates, date-times with an offset, and their arithmetic as the `time` crate
documents it: years −9999 to 9999, comparison by instant, panics on overflow. -/

namespace Expresso.Time

structure Date where
  year : Int
  month : Month
  day : Nat
  year_range : -9999 ≤ year ∧ year ≤ 9999
  day_range : 1 ≤ day ∧ day ≤ month.length year
  deriving DecidableEq

namespace Date

def toDays (d : Date) : Int :=
  daysBeforeYear d.year + d.month.daysBefore d.year + d.day

def fromCalendarDate (year : Int) (month : Month) (day : Nat) : Option Date :=
  if valid : (-9999 ≤ year ∧ year ≤ 9999) ∧ (1 ≤ day ∧ day ≤ month.length year) then
    some ⟨year, month, day, valid.1, valid.2⟩
  else none

def ofDays (days : Int) : Option Date :=
  let year := yearOf days
  match splitOrdinal year Month.all (days - daysBeforeYear year).toNat with
  | none => none
  | some (month, day) => fromCalendarDate year month day

def weekday (d : Date) : Weekday := weekdayOf d.toDays

/-- `Date + Duration::days(n)`. -/
def addDays (d : Date) (n : Int) : Except Panic Date :=
  match ofDays (d.toDays + n) with
  | none => .error .dateRange
  | some d => .ok d

theorem toDays_in_month (d : Date) :
    monthStart d.year d.month ≤ d.toDays ∧
      d.toDays < monthStart d.year d.month + d.month.length d.year := by
  have range := d.day_range
  simp only [toDays, monthStart]
  omega

theorem toDays_in_year (d : Date) :
    daysBeforeYear d.year < d.toDays ∧ d.toDays ≤ daysBeforeYear (d.year + 1) := by
  have range := d.day_range
  have within := month_within_year d.year d.month
  rw [daysBeforeYear_succ]
  simp only [toDays]
  omega

theorem fromCalendarDate_some {year : Int} {month : Month} {day : Nat} {d : Date}
    (built : fromCalendarDate year month day = some d) :
    d.year = year ∧ d.month = month ∧ d.day = day := by
  unfold fromCalendarDate at built
  split at built
  · simp only [Option.some.injEq] at built
    simp [← built]
  · cases built

theorem toDays_of_ofDays {days : Int} {d : Date} (found : ofDays days = some d) :
    d.toDays = days := by
  obtain ⟨after, upto⟩ := yearOf_spec days
  have next := daysBeforeYear_succ (yearOf days)
  obtain ⟨month, day, split, sum, _⟩ := splitOrdinal_spec (yearOf days)
    (days - daysBeforeYear (yearOf days)).toNat (by omega) (by omega)
  simp only [ofDays, split] at found
  obtain ⟨year, sameMonth, sameDay⟩ := fromCalendarDate_some found
  simp only [toDays, year, sameMonth, sameDay]
  omega

/-- The first and the last representable day. -/
def minDay : Int := daysBeforeYear (-9999) + 1
def maxDay : Int := daysBeforeYear 10000

theorem ofDays_eq_some_iff (days : Int) :
    (∃ d, ofDays days = some d) ↔ minDay ≤ days ∧ days ≤ maxDay := by
  obtain ⟨after, upto⟩ := yearOf_spec days
  have next := daysBeforeYear_succ (yearOf days)
  obtain ⟨month, day, split, _, low, high⟩ := splitOrdinal_spec (yearOf days)
    (days - daysBeforeYear (yearOf days)).toNat (by omega) (by omega)
  have year : (∃ d, ofDays days = some d) ↔ -9999 ≤ yearOf days ∧ yearOf days ≤ 9999 := by
    simp only [ofDays, split, fromCalendarDate, low, high, and_self, and_true]
    split
    · next valid => simp [valid]
    · next invalid => simp [invalid]
  rw [year]
  constructor
  · rintro ⟨first, last⟩
    have lower := daysBeforeYear_mono first
    have upper := daysBeforeYear_mono (show yearOf days + 1 ≤ 10000 by omega)
    simp only [minDay, maxDay]
    omega
  · rintro ⟨first, last⟩
    simp only [minDay, maxDay] at first last
    by_contra outside
    rcases not_and_or.mp outside with early | late
    · have lower := daysBeforeYear_mono (show yearOf days + 1 ≤ -9999 by omega)
      omega
    · have upper := daysBeforeYear_mono (show 10000 ≤ yearOf days by omega)
      omega

theorem addDays_ok_iff (d : Date) (n : Int) :
    (∃ next, d.addDays n = .ok next) ↔ minDay ≤ d.toDays + n ∧ d.toDays + n ≤ maxDay := by
  rw [← ofDays_eq_some_iff]
  unfold addDays
  cases ofDays (d.toDays + n) <;> simp

theorem toDays_range (d : Date) : minDay ≤ d.toDays ∧ d.toDays ≤ maxDay := by
  obtain ⟨first, last⟩ := d.year_range
  obtain ⟨after, upto⟩ := d.toDays_in_year
  have lower := daysBeforeYear_mono first
  have upper := daysBeforeYear_mono (show d.year + 1 ≤ 10000 by omega)
  simp only [minDay, maxDay]
  omega

theorem toDays_of_addDays {d next : Date} {n : Int} (added : d.addDays n = .ok next) :
    next.toDays = d.toDays + n := by
  unfold addDays at added
  split at added
  · cases added
  · next found =>
    simp only [Except.ok.injEq] at added
    subst added
    exact toDays_of_ofDays found

end Date

/-- Nanoseconds of a day. -/
def dayNanos : Int := 86400000000000

theorem dayNanos_pos : 0 < dayNanos := by decide

theorem clock_range (total : Int) : 0 ≤ total % dayNanos ∧ total % dayNanos < dayNanos :=
  ⟨Int.emod_nonneg _ dayNanos_pos.ne', Int.emod_lt_of_pos _ dayNanos_pos⟩

/-- A length of time, in nanoseconds. -/
abbrev Duration := Int

def Duration.days (n : Int) : Duration := n * dayNanos
def Duration.weeks (n : Int) : Duration := n * (7 * dayNanos)

theorem Duration.weeks_eq_days (n : Int) : weeks n = days (7 * n) := by
  change n * (7 * 86400000000000) = 7 * n * 86400000000000
  omega

/-- A local date, the nanosecond of the day, and the offset from UTC in seconds. -/
structure OffsetDateTime where
  date : Date
  nanos : Int
  offset : Int
  nanos_range : 0 ≤ nanos ∧ nanos < dayNanos
  offset_range : -93599 ≤ offset ∧ offset ≤ 93599
  deriving DecidableEq

theorem year_2026 : -9999 ≤ (2026 : Int) ∧ (2026 : Int) ≤ 9999 := by decide

theorem may_first : 1 ≤ 1 ∧ 1 ≤ Month.may.length 2026 := by decide

theorem may_eighteenth : 1 ≤ 18 ∧ 18 ≤ Month.may.length 2026 := by decide

theorem june_first : 1 ≤ 1 ∧ 1 ≤ Month.june.length 2026 := by decide

theorem midnight_range : 0 ≤ (0 : Int) ∧ (0 : Int) < dayNanos := by decide

theorem ten_range : 0 ≤ (36000000000000 : Int) ∧ (36000000000000 : Int) < dayNanos := by decide

namespace OffsetDateTime

/-- The UTC instant in nanoseconds, by which date-times compare. -/
def instant (t : OffsetDateTime) : Int :=
  t.date.toDays * dayNanos + t.nanos - t.offset * 1000000000

theorem utc_range : -93599 ≤ (0 : Int) ∧ (0 : Int) ≤ 93599 := by decide

/-- Midnight and later, UTC. -/
def assumeUtc (date : Date) (nanos : Int) (range : 0 ≤ nanos ∧ nanos < dayNanos) :
    OffsetDateTime :=
  ⟨date, nanos, 0, range, utc_range⟩

def replaceDate (t : OffsetDateTime) (date : Date) : OffsetDateTime :=
  { t with date := date }

/-- `OffsetDateTime + Duration`. The offset stays; only the local date is checked. -/
def add (t : OffsetDateTime) (duration : Duration) : Except Panic OffsetDateTime :=
  let total := t.date.toDays * dayNanos + t.nanos + duration
  (Date.ofDays (total / dayNanos)).elim (.error .dateRange) fun date =>
    .ok ⟨date, total % dayNanos, t.offset, clock_range total, t.offset_range⟩

/-- Same time of day and same offset: then only the date decides the order. -/
def SameClock (first second : OffsetDateTime) : Prop :=
  first.nanos = second.nanos ∧ first.offset = second.offset

theorem SameClock.refl (t : OffsetDateTime) : SameClock t t := ⟨rfl, rfl⟩

theorem SameClock.symm {first second : OffsetDateTime} (same : SameClock first second) :
    SameClock second first := ⟨same.1.symm, same.2.symm⟩

theorem SameClock.trans {first second third : OffsetDateTime} (same : SameClock first second)
    (other : SameClock second third) : SameClock first third :=
  ⟨same.1.trans other.1, same.2.trans other.2⟩

theorem SameClock.instant_lt_iff {first second : OffsetDateTime}
    (same : SameClock first second) :
    first.instant < second.instant ↔ first.date.toDays < second.date.toDays := by
  obtain ⟨nanos, offset⟩ := same
  simp only [instant, nanos, offset, dayNanos]
  omega

theorem sameClock_replaceDate (t : OffsetDateTime) (date : Date) :
    SameClock (t.replaceDate date) t := ⟨rfl, rfl⟩

theorem add_ok {t result : OffsetDateTime} {duration : Duration}
    (added : t.add duration = .ok result) :
    result.date.toDays = (t.date.toDays * dayNanos + t.nanos + duration) / dayNanos ∧
      result.nanos = (t.date.toDays * dayNanos + t.nanos + duration) % dayNanos ∧
      result.offset = t.offset := by
  simp only [add] at added
  cases found : Date.ofDays ((t.date.toDays * dayNanos + t.nanos + duration) / dayNanos) with
  | none =>
    rw [found] at added
    cases added
  | some date =>
    rw [found] at added
    simp only [Option.elim_some, Except.ok.injEq] at added
    subst added
    exact ⟨Date.toDays_of_ofDays found, rfl, rfl⟩

theorem instant_of_add {t result : OffsetDateTime} {duration : Duration}
    (added : t.add duration = .ok result) : result.instant = t.instant + duration := by
  obtain ⟨days, nanos, offset⟩ := add_ok added
  simp only [instant, days, nanos, offset, dayNanos]
  omega

/-- The local day of a date-time a duration later, representable or not. -/
def dayAfter (t : OffsetDateTime) (duration : Duration) : Int :=
  (t.date.toDays * dayNanos + t.nanos + duration) / dayNanos

theorem add_ok_iff (t : OffsetDateTime) (duration : Duration) :
    (∃ result, t.add duration = .ok result) ↔
      Date.minDay ≤ t.dayAfter duration ∧ t.dayAfter duration ≤ Date.maxDay := by
  rw [← Date.ofDays_eq_some_iff]
  simp only [add, dayAfter]
  cases Date.ofDays ((t.date.toDays * dayNanos + t.nanos + duration) / dayNanos) <;> simp

theorem dayAfter_days (t : OffsetDateTime) (n : Int) :
    t.dayAfter (Duration.days n) = t.date.toDays + n := by
  have range := t.nanos_range
  simp only [dayAfter, Duration.days, dayNanos] at range ⊢
  omega

/-- Adding whole days moves the date and keeps the clock. -/
theorem add_days {t result : OffsetDateTime} {n : Int}
    (added : t.add (Duration.days n) = .ok result) :
    result.date.toDays = t.date.toDays + n ∧ SameClock result t := by
  have range := t.nanos_range
  obtain ⟨days, nanos, offset⟩ := add_ok added
  simp only [Duration.days, dayNanos] at range days nanos
  exact ⟨by omega, by omega, offset⟩

end OffsetDateTime
end Expresso.Time
