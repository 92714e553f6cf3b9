import Expresso.Recurrence.Expand

/-! Where the candidates of a period lie. A period is the day, week, month or year of its
anchor; its candidates keep the anchor's clock and stay inside, and the step to the next
period leaves it. -/

namespace Expresso.Recurrence
open Time Periodic

/-- The first day of the period a date falls in. -/
def lowDay (freq : Freq) (d : Date) : Int :=
  match freq with
  | .daily => d.toDays
  | .weekly => d.toDays - (d.toDays - 1) % 7
  | .monthly => monthStart d.year d.month
  | .yearly => daysBeforeYear d.year + 1

/-- The first day after the period. -/
def highDay (freq : Freq) (d : Date) : Int :=
  match freq with
  | .daily => d.toDays + 1
  | .weekly => d.toDays - (d.toDays - 1) % 7 + 7
  | .monthly => monthStart d.year d.month + d.month.length d.year
  | .yearly => daysBeforeYear (d.year + 1) + 1

def Within (freq : Freq) (anchor d : Date) : Prop :=
  lowDay freq anchor ≤ d.toDays ∧ d.toDays < highDay freq anchor

theorem within_self (freq : Freq) (d : Date) : Within freq d d := by
  cases freq with
  | daily => exact ⟨le_refl _, by simp only [highDay]; omega⟩
  | weekly => constructor <;> simp only [lowDay, highDay] <;> omega
  | monthly => exact d.toDays_in_month
  | yearly =>
    have range := d.toDays_in_year
    constructor <;> simp only [lowDay, highDay] <;> omega

theorem within_yearly {anchor d : Date} (same : d.year = anchor.year) :
    Within .yearly anchor d := by
  have range := within_self .yearly d
  simpa only [Within, lowDay, highDay, same] using range

theorem within_monthly {anchor d : Date} (year : d.year = anchor.year)
    (month : d.month = anchor.month) : Within .monthly anchor d := by
  have range := within_self .monthly d
  simpa only [Within, lowDay, highDay, year, month] using range

/-! ### Candidate dates -/

theorem weekdayIndex_weekday (d : Date) : (weekdayIndex d.weekday : Int) = (d.toDays - 1) % 7 := by
  have range : 0 ≤ (d.toDays - 1) % 7 ∧ (d.toDays - 1) % 7 < 7 := by omega
  simp only [Date.weekday, weekdayOf]
  generalize (d.toDays - 1) % 7 = index at range
  obtain ⟨low, high⟩ := range
  interval_cases index <;> rfl

theorem weekdayIndex_lt (w : Weekday) : weekdayIndex w < 7 := by
  cases w <;> decide

theorem weeklyDates_within {r : Rrule} {current : OffsetDateTime} {dates : List Date}
    (found : r.weeklyDates current = .ok dates) {d : Date} (member : d ∈ dates) :
    Within .weekly current.date d := by
  simp only [Rrule.weeklyDates, startOfWeek, bind, Except.bind] at found
  split at found
  · cases found
  · next weekStart start =>
    have startDay := Date.toDays_of_addDays start
    rw [weekdayIndex_weekday] at startDay
    obtain ⟨bd, _, here, added, inHere⟩ := mem_collect found member
    split at added
    · cases added
    · next date shifted =>
      cases added
      have day := Date.toDays_of_addDays shifted
      have small := weekdayIndex_lt bd.weekday
      rw [List.mem_singleton] at inHere
      subst inHere
      constructor <;> simp only [lowDay, highDay] <;> omega

theorem monthdayToDate_month {year md : Int} {month : Month} {d : Date}
    (found : monthdayToDate year month md = some d) : d.year = year ∧ d.month = month := by
  simp only [monthdayToDate] at found
  generalize (if md > 0 then md else (month.length year : Int) + md + 1) = day at found
  split at found
  · cases found
  · obtain ⟨sameYear, sameMonth, _⟩ := Date.fromCalendarDate_some found
    exact ⟨sameYear, sameMonth⟩

theorem bydayDatesInMonth_month {profile : Profile} {year : Int} {month : Month} {bd : ByDay}
    {dates : List Date} (found : bydayDatesInMonth profile year month bd = .ok dates) {d : Date}
    (member : d ∈ dates) : d.year = year ∧ d.month = month := by
  simp only [bydayDatesInMonth] at found
  generalize list : ((List.range' 1 (month.length year)).filterMap fun day =>
    Date.fromCalendarDate year month day).filter (fun d => d.weekday = bd.weekday) = matching
    at found
  have inMonth : ∀ d ∈ matching, d.year = year ∧ d.month = month := by
    intro d among
    rw [← list] at among
    obtain ⟨day, _, built⟩ := List.mem_filterMap.mp (List.mem_filter.mp among).1
    obtain ⟨sameYear, sameMonth, _⟩ := Date.fromCalendarDate_some built
    exact ⟨sameYear, sameMonth⟩
  have picked : ∀ i : Nat, d ∈ matching[i]?.toList → d.year = year ∧ d.month = month := by
    intro i at_i
    exact inMonth d (List.mem_of_getElem? (Option.mem_toList.mp at_i))
  split at found
  · cases found
    exact inMonth d member
  · split at found
    · cases found
      exact picked _ member
    · simp only [bind, Except.bind] at found
      split at found
      · cases found
      · split at found
        · cases found
          exact picked _ member
        · cases found
          cases member

theorem candidateMonths_year {r : Rrule} {current : OffsetDateTime} {year : Int} {month : Month}
    (member : (year, month) ∈ r.candidateMonths current) :
    year = current.date.year ∧ (r.freq ≠ .yearly → month = current.date.month) := by
  simp only [Rrule.candidateMonths] at member
  split at member
  · next scanned =>
    obtain ⟨m, _, found⟩ := List.mem_filterMap.mp member
    obtain ⟨month', _, pair⟩ := Option.map_eq_some_iff.mp found
    cases pair
    exact ⟨rfl, fun other => absurd scanned.1 other⟩
  · rw [List.mem_singleton] at member
    cases member
    exact ⟨rfl, fun _ => rfl⟩

theorem monthOrYearDates_month {profile : Profile} {r : Rrule} {current : OffsetDateTime}
    {dates : List Date} (found : r.monthOrYearDates profile current = .ok dates) {d : Date}
    (member : d ∈ dates) :
    d.year = current.date.year ∧ (r.freq ≠ .yearly → d.month = current.date.month) := by
  obtain ⟨⟨year, month⟩, scanned, here, ran, inHere⟩ := mem_collect found member
  have same := candidateMonths_year scanned
  have inMonth : d.year = year ∧ d.month = month := by
    simp only [bind, Except.bind] at ran
    split at ran
    · cases ran
    · next weekdays matched =>
      cases ran
      rcases List.mem_append.mp inHere with byNumber | byWeekday
      · obtain ⟨md, _, built⟩ := List.mem_filterMap.mp byNumber
        exact monthdayToDate_month built
      · obtain ⟨bd, _, part, built, inPart⟩ := mem_collect matched byWeekday
        exact bydayDatesInMonth_month built inPart
  exact ⟨inMonth.1.trans same.1, fun monthly => inMonth.2.trans (same.2 monthly)⟩

theorem anchorDates_within {r : Rrule} {current : OffsetDateTime} {d : Date}
    (member : d ∈ r.anchorDates current) (freq : Freq) : Within freq current.date d := by
  simp only [Rrule.anchorDates] at member
  split at member
  · rw [List.mem_singleton] at member
    rw [member]
    exact within_self freq current.date
  · cases member

theorem periodDates_within {profile : Profile} {r : Rrule} {current : OffsetDateTime}
    {dates : List Date} (found : r.periodDates profile current = .ok dates) {d : Date}
    (member : d ∈ dates) : Within r.freq current.date d := by
  simp only [Rrule.periodDates] at found
  cases freq : r.freq with
  | daily =>
    simp only [freq, Except.ok.injEq] at found
    exact anchorDates_within (found ▸ member) _
  | weekly =>
    simp only [freq] at found
    split at found
    · cases found
      exact anchorDates_within member _
    · exact weeklyDates_within found member
  | monthly =>
    simp only [freq] at found
    split at found
    · obtain ⟨year, month⟩ := monthOrYearDates_month found member
      exact within_monthly year (month (by rw [freq]; decide))
    · cases found
      exact anchorDates_within member _
  | yearly =>
    simp only [freq] at found
    split at found
    · exact within_yearly (monthOrYearDates_month found member).1
    · cases found
      exact anchorDates_within member _

/-! ### Candidates as instants -/

/-- The clock of `t` on the first day of its period, and on the first day after it. -/
def lowInstant (freq : Freq) (t : OffsetDateTime) : Int :=
  t.instant + (lowDay freq t.date - t.date.toDays) * dayNanos

def highInstant (freq : Freq) (t : OffsetDateTime) : Int :=
  t.instant + (highDay freq t.date - t.date.toDays) * dayNanos

theorem instant_in_period {freq : Freq} {t c : OffsetDateTime} (clock : c.SameClock t)
    (inside : Within freq t.date c.date) :
    lowInstant freq t ≤ c.instant ∧ c.instant < highInstant freq t := by
  obtain ⟨nanos, offset⟩ := clock
  obtain ⟨low, high⟩ := inside
  simp only [lowInstant, highInstant, OffsetDateTime.instant, nanos, offset, dayNanos]
  omega

theorem anchor_in_period (freq : Freq) (t : OffsetDateTime) :
    lowInstant freq t ≤ t.instant ∧ t.instant < highInstant freq t :=
  instant_in_period (.refl t) (within_self freq t.date)

/-- A period's candidates, `BYSETPOS` applied: in order, from the start of the event on, and
inside the period. -/
theorem applyBysetpos_subset {bysetpos : List Int} {candidates : List OffsetDateTime}
    {c : OffsetDateTime} (member : c ∈ applyBysetpos bysetpos candidates) : c ∈ candidates := by
  simp only [applyBysetpos] at member
  split at member
  · exact member
  · obtain ⟨p, _, picked⟩ := List.mem_filterMap.mp (mem_of_mem_sortDedup member)
    generalize (if p > 0 then p - 1 else (candidates.length : Int) + p) = idx at picked
    split at picked
    · exact List.mem_of_getElem? picked
    · cases picked

theorem applyBysetpos_increasing {bysetpos : List Int} {candidates : List OffsetDateTime}
    (sorted : candidates.Pairwise fun a b => a.instant < b.instant) :
    (applyBysetpos bysetpos candidates).Pairwise fun a b => a.instant < b.instant := by
  simp only [applyBysetpos]
  split
  · exact sorted
  · exact sortDedup_increasing _

section Candidates

variable {profile : Profile} {r : Rrule} {current dtstart : OffsetDateTime}
  {candidates : List OffsetDateTime}
  (found : r.periodCandidates profile current dtstart = .ok candidates)

include found

theorem periodCandidates_increasing :
    candidates.Pairwise fun a b => a.instant < b.instant := by
  simp only [Rrule.periodCandidates, bind, Except.bind] at found
  split at found
  · cases found
  · cases found
    exact sortDedup_increasing _

theorem periodCandidates_inside {c : OffsetDateTime} (member : c ∈ candidates) :
    lowInstant r.freq current ≤ c.instant ∧ c.instant < highInstant r.freq current := by
  simp only [Rrule.periodCandidates, bind, Except.bind] at found
  split at found
  · cases found
  · next dates dated =>
    cases found
    have listed := (List.mem_filter.mp (mem_of_mem_sortDedup member)).1
    obtain ⟨d, kept, replaced⟩ := List.mem_map.mp listed
    subst replaced
    exact instant_in_period (OffsetDateTime.sameClock_replaceDate current d)
      (periodDates_within dated (List.mem_filter.mp kept).1)

end Candidates

/-! ### From one period to the next -/

theorem addMonths_some {dt next : OffsetDateTime} {months : Int}
    (added : addMonths dt months = some next) :
    next.SameClock dt ∧
      next.date.year =
        wrapI32 ((dt.date.year * 12 + ((dt.date.month.number : Int) - 1) + months) / 12) ∧
      (next.date.month.number : Int) =
        (dt.date.year * 12 + ((dt.date.month.number : Int) - 1) + months) % 12 + 1 := by
  simp only [addMonths, Option.bind_eq_some_iff, Option.map_eq_some_iff] at added
  obtain ⟨month, named, date, built, replaced⟩ := added
  obtain ⟨year, sameMonth, _⟩ := Date.fromCalendarDate_some built
  have number := Month.number_of_tryFrom named
  subst replaced
  refine ⟨OffsetDateTime.sameClock_replaceDate dt date, year, ?_⟩
  simp only [OffsetDateTime.replaceDate, sameMonth, number]
  omega

/-- The rules whose year steps go backwards: a step of 2³¹ years or more wraps in `i32`. -/
def Rrule.wrapsBack (r : Rrule) : Prop := r.freq = .yearly ∧ 2 ^ 31 ≤ r.interval.toNat

theorem highInstant_le_lowInstant {freq : Freq} {t next : OffsetDateTime}
    (clock : next.SameClock t) (apart : highDay freq t.date ≤ lowDay freq next.date) :
    highInstant freq t ≤ lowInstant freq next := by
  obtain ⟨nanos, offset⟩ := clock
  simp only [lowInstant, highInstant, OffsetDateTime.instant, nanos, offset, dayNanos]
  omega

theorem yearly_step {dt next : OffsetDateTime} {i : Int} (range : 1 ≤ i ∧ i < 2 ^ 32)
    (added : addMonths dt (i * 12) = some next) :
    next.SameClock dt ∧ (i < 2 ^ 31 → dt.date.year < next.date.year) ∧
      (2 ^ 31 ≤ i → next.date.year < dt.date.year) := by
  obtain ⟨clock, year, _⟩ := addMonths_some added
  have bounds := dt.date.year_range
  have bounds' := next.date.year_range
  have months := dt.date.month.number_range
  have whole : (dt.date.year * 12 + ((dt.date.month.number : Int) - 1) + i * 12) / 12 =
      dt.date.year + i := by omega
  rw [whole] at year
  simp only [wrapI32] at year
  exact ⟨clock, by omega, by omega⟩

theorem days_step {current next : OffsetDateTime} {n : Int}
    (stepped : (current.add (Duration.days n)).map some = .ok (some next)) :
    next.date.toDays = current.date.toDays + n ∧ next.SameClock current := by
  cases added : current.add (Duration.days n) with
  | error => simp [added, Except.map] at stepped
  | ok day =>
    simp only [added, Except.map, Except.ok.injEq, Option.some.injEq] at stepped
    subst stepped
    exact OffsetDateTime.add_days added

theorem advance_forward {r : Rrule} {current next : OffsetDateTime}
    (positive : 1 ≤ r.interval.toNat) (forward : ¬ r.wrapsBack)
    (stepped : advance current r.freq r.interval = .ok (some next)) :
    highInstant r.freq current ≤ lowInstant r.freq next := by
  have bound : r.interval.toNat < 2 ^ 32 := r.interval.toNat_lt
  simp only [Rrule.wrapsBack, not_and, not_le] at forward
  simp only [advance] at stepped
  cases freq : r.freq with
  | daily =>
    simp only [freq] at stepped
    obtain ⟨days, clock⟩ := days_step stepped
    apply highInstant_le_lowInstant clock
    simp only [lowDay, highDay]
    omega
  | weekly =>
    simp only [freq, Duration.weeks_eq_days] at stepped
    obtain ⟨days, clock⟩ := days_step stepped
    apply highInstant_le_lowInstant clock
    simp only [lowDay, highDay]
    omega
  | monthly =>
    simp only [freq, Except.ok.injEq] at stepped
    obtain ⟨clock, year, month⟩ := addMonths_some stepped
    apply highInstant_le_lowInstant clock
    simp only [lowDay, highDay]
    apply monthStart_of_lt
    have bounds := current.date.year_range
    have months := current.date.month.number_range
    simp only [wrapI32] at year
    omega
  | yearly =>
    simp only [freq, Except.ok.injEq] at stepped
    obtain ⟨clock, later, _⟩ := yearly_step (by omega) stepped
    apply highInstant_le_lowInstant clock
    have small := forward freq
    have mono := daysBeforeYear_mono (show current.date.year + 1 ≤ next.date.year by omega)
    simp only [lowDay, highDay]
    omega

theorem advance_backward {r : Rrule} {current next : OffsetDateTime} (backward : r.wrapsBack)
    (stepped : advance current r.freq r.interval = .ok (some next)) :
    highInstant r.freq next ≤ lowInstant r.freq current := by
  have bound : r.interval.toNat < 2 ^ 32 := r.interval.toNat_lt
  obtain ⟨freq, large⟩ := backward
  simp only [advance, freq, Except.ok.injEq] at stepped
  obtain ⟨clock, _, earlier⟩ := yearly_step (by omega) stepped
  rw [freq]
  apply highInstant_le_lowInstant clock.symm
  have mono := daysBeforeYear_mono (show next.date.year + 1 ≤ current.date.year by omega)
  simp only [lowDay, highDay]
  omega

end Expresso.Recurrence
