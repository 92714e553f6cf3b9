import Mathlib

/-! The proleptic Gregorian calendar as day numbers. Day 1 is the first of January of
year 1, a Monday. Years are unbounded here; the range of representable dates is a
matter of the `Date` type built on this module. -/

namespace Expresso.Time

inductive Month where
  | january | february | march | april | may | june
  | july | august | september | october | november | december
  deriving DecidableEq

inductive Weekday where
  | monday | tuesday | wednesday | thursday | friday | saturday | sunday
  deriving DecidableEq

def isLeapYear (year : Int) : Bool :=
  year % 4 = 0 ∧ (year % 100 ≠ 0 ∨ year % 400 = 0)

namespace Month

def number : Month → Nat
  | january => 1 | february => 2 | march => 3 | april => 4 | may => 5 | june => 6
  | july => 7 | august => 8 | september => 9 | october => 10 | november => 11 | december => 12

def tryFrom : Nat → Option Month
  | 1 => some january | 2 => some february | 3 => some march | 4 => some april
  | 5 => some may | 6 => some june | 7 => some july | 8 => some august
  | 9 => some september | 10 => some october | 11 => some november | 12 => some december
  | _ => none

def length (year : Int) : Month → Nat
  | february => if isLeapYear year then 29 else 28
  | april | june | september | november => 30
  | _ => 31

/-- Days of the year before the first of the month. -/
def daysBefore (year : Int) : Month → Nat
  | january => 0
  | february => 31
  | march => 31 + february.length year
  | april => 62 + february.length year
  | may => 92 + february.length year
  | june => 123 + february.length year
  | july => 153 + february.length year
  | august => 184 + february.length year
  | september => 215 + february.length year
  | october => 245 + february.length year
  | november => 276 + february.length year
  | december => 306 + february.length year

def all : List Month :=
  [january, february, march, april, may, june, july, august, september, october, november,
    december]

theorem number_range (m : Month) : 1 ≤ m.number ∧ m.number ≤ 12 := by
  cases m <;> decide

theorem tryFrom_number (m : Month) : tryFrom m.number = some m := by
  cases m <;> rfl

theorem number_of_tryFrom {n : Nat} {m : Month} (found : tryFrom n = some m) : m.number = n := by
  unfold tryFrom at found
  split at found <;> simp_all [number] <;> subst found <;> rfl

theorem length_range (year : Int) (m : Month) : 28 ≤ m.length year ∧ m.length year ≤ 31 := by
  cases m <;> simp only [length] <;> try split
  all_goals omega

/-- A later month starts after all days of an earlier one. -/
theorem daysBefore_of_number_lt (year : Int) (first second : Month)
    (earlier : first.number < second.number) :
    first.daysBefore year + first.length year ≤ second.daysBefore year := by
  cases first <;> cases second <;>
    simp only [number, daysBefore, length] at earlier ⊢ <;> omega

end Month

/-- Days before the first of January of the year. -/
def daysBeforeYear (year : Int) : Int :=
  365 * (year - 1) + (year - 1) / 4 - (year - 1) / 100 + (year - 1) / 400

def yearLength (year : Int) : Nat :=
  337 + Month.february.length year

theorem february_length (year : Int) :
    (Month.february.length year = 29 ∧ year % 4 = 0 ∧ (year % 100 ≠ 0 ∨ year % 400 = 0)) ∨
      (Month.february.length year = 28 ∧
        (year % 4 ≠ 0 ∨ (year % 100 = 0 ∧ year % 400 ≠ 0))) := by
  simp only [Month.length, isLeapYear, decide_eq_true_eq]
  split
  · next leap => exact .inl ⟨rfl, leap⟩
  · next common =>
    refine .inr ⟨rfl, ?_⟩
    omega

theorem daysBeforeYear_succ (year : Int) :
    daysBeforeYear (year + 1) = daysBeforeYear year + yearLength year := by
  simp only [daysBeforeYear, yearLength]
  rcases february_length year with ⟨february, four, hundred | cycle⟩ |
    ⟨february, four | ⟨hundred, cycle⟩⟩ <;> rw [february] <;> omega

theorem daysBeforeYear_mono {first second : Int} (ordered : first ≤ second) :
    daysBeforeYear first ≤ daysBeforeYear second := by
  simp only [daysBeforeYear]
  omega

theorem month_within_year (year : Int) (m : Month) :
    m.daysBefore year + m.length year ≤ yearLength year := by
  cases m <;> simp only [Month.daysBefore, Month.length, yearLength] <;> omega

/-- The day number of the first of the month. -/
def monthStart (year : Int) (m : Month) : Int :=
  daysBeforeYear year + m.daysBefore year + 1

/-- Months, over all years, start one after the other. -/
theorem monthStart_of_lt {year year' : Int} {m m' : Month}
    (earlier : 12 * year + m.number < 12 * year' + m'.number) :
    monthStart year m + m.length year ≤ monthStart year' m' := by
  have range := m.number_range
  have range' := m'.number_range
  by_cases same : year = year'
  · subst same
    have step := Month.daysBefore_of_number_lt year m m' (by omega)
    simp only [monthStart]
    omega
  · have within := month_within_year year m
    have next := daysBeforeYear_succ year
    have mono := daysBeforeYear_mono (show year + 1 ≤ year' by omega)
    simp only [monthStart]
    omega

/-! ### From day numbers back to dates -/

/-- The year a day number falls in: whole 400-year, 100-year and 4-year cycles are
taken out first; the last century and the last year of a cycle are a day longer. -/
def yearOf (days : Int) : Int :=
  let era := (days - 1) / 146097
  let inEra := (days - 1) % 146097
  let century := min (inEra / 36524) 3
  let inCentury := inEra - century * 36524
  let quad := inCentury / 1461
  let inQuad := inCentury % 1461
  let inYear := min (inQuad / 365) 3
  400 * era + 100 * century + 4 * quad + inYear + 1

private theorem daysBeforeYear_cycles (era century quad inYear : Int)
    (centuries : 0 ≤ century ∧ century ≤ 3) (quads : 0 ≤ quad ∧ quad ≤ 24)
    (years : 0 ≤ inYear ∧ inYear ≤ 3) :
    daysBeforeYear (400 * era + 100 * century + 4 * quad + inYear + 1) =
      146097 * era + 36524 * century + 1461 * quad + 365 * inYear := by
  simp only [daysBeforeYear]
  omega

/-- A 366th day needs a leap year: the last of its four years, and not the last of a
century unless that century closes the era. -/
private theorem year_of_cycles (days era century quad inYear : Int)
    (centuries : 0 ≤ century ∧ century ≤ 3) (quads : 0 ≤ quad ∧ quad ≤ 24)
    (years : 0 ≤ inYear ∧ inYear ≤ 3)
    (after : 146097 * era + 36524 * century + 1461 * quad + 365 * inYear < days)
    (before : days ≤ 146097 * era + 36524 * century + 1461 * quad + 365 * inYear + 365 ∨
      (inYear = 3 ∧ (quad = 24 → century = 3) ∧
        days ≤ 146097 * era + 36524 * century + 1461 * quad + 365 * inYear + 366)) :
    daysBeforeYear (400 * era + 100 * century + 4 * quad + inYear + 1) < days ∧
      days ≤ daysBeforeYear (400 * era + 100 * century + 4 * quad + inYear + 1 + 1) := by
  rw [daysBeforeYear_succ (400 * era + 100 * century + 4 * quad + inYear + 1),
    daysBeforeYear_cycles era century quad inYear centuries quads years]
  refine ⟨after, ?_⟩
  simp only [yearLength]
  rcases february_length (400 * era + 100 * century + 4 * quad + inYear + 1) with
    ⟨february, leap⟩ | ⟨february, common⟩ <;> rw [february] <;> omega

theorem yearOf_spec (days : Int) :
    daysBeforeYear (yearOf days) < days ∧ days ≤ daysBeforeYear (yearOf days + 1) := by
  simp only [yearOf]
  have eras : days - 1 = 146097 * ((days - 1) / 146097) + (days - 1) % 146097 ∧
      0 ≤ (days - 1) % 146097 ∧ (days - 1) % 146097 < 146097 := by omega
  generalize (days - 1) / 146097 = era at *
  generalize (days - 1) % 146097 = inEra at *
  have centuries : 0 ≤ min (inEra / 36524) 3 ∧ min (inEra / 36524) 3 ≤ 3 ∧
      0 ≤ inEra - min (inEra / 36524) 3 * 36524 ∧
      (inEra - min (inEra / 36524) 3 * 36524 < 36524 ∨ min (inEra / 36524) 3 = 3 ∧
        inEra - min (inEra / 36524) 3 * 36524 ≤ 36524) := by omega
  generalize min (inEra / 36524) 3 = century at *
  generalize rest : inEra - century * 36524 = inCentury at *
  have quads : inCentury = 1461 * (inCentury / 1461) + inCentury % 1461 ∧
      0 ≤ inCentury % 1461 ∧ inCentury % 1461 < 1461 ∧ 0 ≤ inCentury / 1461 ∧
      inCentury / 1461 ≤ 24 := by omega
  generalize inCentury / 1461 = quad at *
  generalize inCentury % 1461 = inQuad at *
  have years : 0 ≤ min (inQuad / 365) 3 ∧ min (inQuad / 365) 3 ≤ 3 ∧
      0 ≤ inQuad - 365 * min (inQuad / 365) 3 ∧
      (inQuad - 365 * min (inQuad / 365) 3 < 365 ∨ min (inQuad / 365) 3 = 3 ∧ inQuad = 1460) := by
    omega
  generalize min (inQuad / 365) 3 = inYear at *
  apply year_of_cycles <;> omega

/-- The month and day of an ordinal within the year. -/
def splitOrdinal (year : Int) : List Month → Nat → Option (Month × Nat)
  | [], _ => none
  | m :: rest, ordinal =>
      if ordinal ≤ m.length year then some (m, ordinal)
      else splitOrdinal year rest (ordinal - m.length year)

private theorem splitOrdinal_walk (year : Int) (months : List Month) (before ordinal : Nat)
    (positive : 1 ≤ ordinal) (bounded : ordinal ≤ (months.map (Month.length year)).sum)
    (table : ∀ i m, months[i]? = some m →
      m.daysBefore year = before + ((months.take i).map (Month.length year)).sum) :
    ∃ m day, splitOrdinal year months ordinal = some (m, day) ∧
      m.daysBefore year + day = before + ordinal ∧ 1 ≤ day ∧ day ≤ m.length year := by
  induction months generalizing before ordinal with
  | nil =>
    simp only [List.map_nil, List.sum_nil] at bounded
    omega
  | cons m rest ih =>
    have here := table 0 m rfl
    simp only [List.take_zero, List.map_nil, List.sum_nil] at here
    by_cases fits : ordinal ≤ m.length year
    · exact ⟨m, ordinal, by simp [splitOrdinal, fits], by omega, positive, fits⟩
    · simp only [splitOrdinal, if_neg fits]
      simp only [List.map_cons, List.sum_cons] at bounded
      obtain ⟨found, day, split, sum, low, high⟩ :=
        ih (before + m.length year) (ordinal - m.length year) (by omega) (by omega) (by
          intro i other at_i
          have entry := table (i + 1) other (by simpa using at_i)
          simp only [List.take_succ_cons, List.map_cons, List.sum_cons] at entry
          omega)
      exact ⟨found, day, split, by omega, low, high⟩

theorem splitOrdinal_spec (year : Int) (ordinal : Nat) (positive : 1 ≤ ordinal)
    (bounded : ordinal ≤ yearLength year) :
    ∃ m day, splitOrdinal year Month.all ordinal = some (m, day) ∧
      m.daysBefore year + day = ordinal ∧ 1 ≤ day ∧ day ≤ m.length year := by
  have total : (Month.all.map (Month.length year)).sum = yearLength year := by
    simp only [Month.all, List.map_cons, List.map_nil, List.sum_cons, List.sum_nil,
      Month.length, yearLength]
    omega
  have walked := splitOrdinal_walk year Month.all 0 ordinal positive (by omega) (by
    intro i m found
    have small : i < 12 := by
      have inside := (List.getElem?_eq_some_iff.mp found).1
      simpa [Month.all] using inside
    interval_cases i <;>
      simp only [Month.all, List.getElem?_cons_zero, List.getElem?_cons_succ, Option.some.injEq]
        at found <;>
      subst m <;> simp [Month.all, Month.daysBefore, Month.length] <;> omega)
  simpa using walked

/-- The weekday of a day number. -/
def weekdayOf (days : Int) : Weekday :=
  match (days - 1) % 7 with
  | 0 => .monday
  | 1 => .tuesday
  | 2 => .wednesday
  | 3 => .thursday
  | 4 => .friday
  | 5 => .saturday
  | _ => .sunday

example : weekdayOf (monthStart 2026 .may + 10) = .monday := by decide

end Expresso.Time
