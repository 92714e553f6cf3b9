import Expresso.Recurrence.Total

/-! Monthly and yearly rules without `BY` parts: the day of the n-th candidate, which is clamped
month after month, and the day of the event clamped once. -/

namespace Expresso.Recurrence
open Time Periodic Transition

/-- Months since January of year 0. -/
def monthIndex (d : Date) : Int := d.year * 12 + ((d.month.number : Int) - 1)

/-- The length of the month with an index. -/
def lengthAt (index : Int) : Nat :=
  ((Month.tryFrom ((index % 12).toNat + 1)).map (Month.length (index / 12))).getD 0

/-- The day of the event, clamped to the length of the month that lies so many months later. -/
structure IsMonthsAfter (dtstart : OffsetDateTime) (months : Int) (c : OffsetDateTime) : Prop where
  clock : c.SameClock dtstart
  month : monthIndex c.date = monthIndex dtstart.date + months
  day : c.date.day = min dtstart.date.day (lengthAt (monthIndex dtstart.date + months))

namespace Rrule

/-- A monthly or yearly rule without `BY` parts. -/
structure Simple (r : Rrule) : Prop where
  freq : r.freq = .monthly ∨ r.freq = .yearly
  byday : r.byday = []
  bymonthday : r.bymonthday = []
  bymonth : r.bymonth = []
  bysetpos : r.bysetpos = []

def strideMonths (r : Rrule) : Int :=
  if r.freq = .yearly then r.interval.toNat * 12 else r.interval.toNat

/-- The n-th anchor from a date-time on. -/
def nthAnchor (r : Rrule) : Nat → OffsetDateTime → Option OffsetDateTime
  | 0, s => some s
  | n + 1, s => (r.nthAnchor n s).bind r.nextAnchor

end Rrule

/-- No month that is visited before is shorter than the day that is due. -/
def NoneShorter (r : Rrule) (dtstart : OffsetDateTime) (n : Nat) : Prop :=
  ∀ j : Nat, 1 ≤ j → j ≤ n →
    min dtstart.date.day (lengthAt (monthIndex dtstart.date + n * r.strideMonths)) ≤
      lengthAt (monthIndex dtstart.date + j * r.strideMonths)

/-! ### Repeated clamping -/

/-- The day after clamping it to one length after the other. -/
def clampedDay (day : Nat) (length : Nat → Nat) : Nat → Nat
  | 0 => day
  | n + 1 => min (clampedDay day length n) (length (n + 1))

theorem le_clampedDay_iff {day x n : Nat} {length : Nat → Nat} :
    x ≤ clampedDay day length n ↔ x ≤ day ∧ ∀ j, 1 ≤ j → j ≤ n → x ≤ length j := by
  induction n with
  | zero =>
    refine (and_iff_left ?_).symm
    intro j positive small
    omega
  | succ n ih =>
    rw [clampedDay, le_min_iff, ih, and_assoc]
    apply and_congr_right
    intro _
    constructor
    · intro ⟨before, last⟩ j positive small
      rcases Nat.le_succ_iff.mp small with earlier | rfl
      · exact before j positive earlier
      · exact last
    · intro all
      exact ⟨fun j positive small => all j positive (Nat.le_succ_of_le small),
        all (n + 1) (Nat.le_add_left 1 n) le_rfl⟩

/-- It is the day clamped once just where no length on the way is shorter. -/
theorem clampedDay_eq_iff {day n : Nat} {length : Nat → Nat} (start : day ≤ length 0) :
    clampedDay day length n = min day (length n) ↔
      ∀ j, 1 ≤ j → j ≤ n → min day (length n) ≤ length j := by
  have upper : clampedDay day length n ≤ min day (length n) := by
    cases n with
    | zero => exact le_min le_rfl start
    | succ n =>
      have below := (le_clampedDay_iff (x := clampedDay day length (n + 1))).mp le_rfl
      exact le_min below.1 (below.2 (n + 1) (Nat.le_add_left 1 n) le_rfl)
  rw [Nat.le_antisymm_iff, and_iff_right upper, le_clampedDay_iff, and_iff_right (min_le_left _ _)]

/-! ### Anchors -/

theorem monthIndex_split (d : Date) :
    monthIndex d / 12 = d.year ∧ (monthIndex d % 12).toNat + 1 = d.month.number := by
  have range := d.month.number_range
  unfold monthIndex
  omega

theorem lengthAt_monthIndex (d : Date) : lengthAt (monthIndex d) = d.month.length d.year := by
  obtain ⟨year, month⟩ := monthIndex_split d
  rw [lengthAt, month, year, Month.tryFrom_number]
  rfl

theorem addMonths_day {dt next : OffsetDateTime} {months : Int}
    (added : addMonths dt months = some next) :
    next.date.day = min dt.date.day (lengthAt (monthIndex next.date)) := by
  simp only [addMonths, Option.bind_eq_some_iff, Option.map_eq_some_iff] at added
  obtain ⟨month, named, date, built, replaced⟩ := added
  obtain ⟨year, sameMonth, day⟩ := Date.fromCalendarDate_some built
  subst replaced
  rw [lengthAt_monthIndex, OffsetDateTime.replaceDate, day, year, sameMonth]

section
variable {r : Rrule} {s next : OffsetDateTime}

theorem nextAnchor_eq (simple : r.Simple) : r.nextAnchor s = addMonths s r.strideMonths := by
  unfold Rrule.nextAnchor Rrule.strideMonths
  rcases simple.freq with freq | freq
  · simp [freq]
  · simp [freq]

theorem advance_eq (simple : r.Simple) : advance s r.freq r.interval = .ok (r.nextAnchor s) := by
  rw [advance_ok_iff]
  refine ⟨fun days stride => ?_, rfl⟩
  unfold Rrule.strideDays at stride
  rcases simple.freq with freq | freq
  · simp [freq] at stride
  · simp [freq] at stride

/-- A step that stays in the range of years goes on by the months of the rule. -/
theorem nextAnchor_some (simple : r.Simple) (forward : ¬r.wrapsBack)
    (step : r.nextAnchor s = some next) :
    next.SameClock s ∧ monthIndex next.date = monthIndex s.date + r.strideMonths ∧
      next.date.day = min s.date.day (lengthAt (monthIndex next.date)) := by
  rw [nextAnchor_eq simple] at step
  obtain ⟨clock, year, month⟩ := addMonths_some step
  refine ⟨clock, ?_, addMonths_day step⟩
  have bound : r.interval.toNat < 2 ^ 32 := r.interval.toNat_lt
  have before := s.date.year_range
  have after := next.date.year_range
  have months := s.date.month.number_range
  simp only [Rrule.wrapsBack, not_and, not_le] at forward
  simp only [wrapI32, Rrule.strideMonths] at year
  simp only [Rrule.strideMonths] at month
  unfold monthIndex Rrule.strideMonths
  split_ifs at year month ⊢ with yearly
  · have small := forward yearly
    omega
  · omega

theorem nthAnchor_some (simple : r.Simple) (forward : ¬r.wrapsBack) {n : Nat}
    {c : OffsetDateTime} (reached : r.nthAnchor n s = some c) :
    c.SameClock s ∧ monthIndex c.date = monthIndex s.date + n * r.strideMonths ∧
      c.date.day = clampedDay s.date.day
        (fun j => lengthAt (monthIndex s.date + j * r.strideMonths)) n := by
  induction n generalizing c with
  | zero =>
    cases reached
    exact ⟨.refl s, by simp, rfl⟩
  | succ n ih =>
    obtain ⟨before, earlier, step⟩ := Option.bind_eq_some_iff.mp reached
    obtain ⟨clock, month, day⟩ := ih earlier
    obtain ⟨clock', month', day'⟩ := nextAnchor_some simple forward step
    have index : monthIndex c.date = monthIndex s.date + (n + 1 : Nat) * r.strideMonths := by
      rw [month', month, Nat.cast_succ, add_mul, one_mul, add_assoc]
    refine ⟨clock'.trans clock, index, ?_⟩
    rw [day', day, index]
    rfl

theorem nthAnchor_step (n : Nat) :
    (r.nextAnchor s).bind (r.nthAnchor n) = r.nthAnchor (n + 1) s := by
  induction n with
  | zero => exact Option.bind_fun_some _
  | succ n ih =>
    rw [Rrule.nthAnchor, ← ih, Option.bind_assoc]
    rfl

/-! ### Candidates -/

variable {profile : Profile} {dtstart : OffsetDateTime}

/-- A period has its anchor as the only candidate. -/
theorem period_eq (simple : r.Simple) :
    period profile r dtstart s =
      some (if inSeries r dtstart s then [s] else [], r.nextAnchor s) := by
  have dates : r.periodDates profile s = .ok [s.date] := by
    have anchor : r.anchorDates s = [s.date] := by
      simp [Rrule.anchorDates, Rrule.monthAllowed, Rrule.monthdayAllowed, simple.bymonth,
        simple.bymonthday]
    have unset : r.needsSetExpansion = false := by
      simp [Rrule.needsSetExpansion, simple.byday, simple.bymonthday]
    rcases simple.freq with freq | freq
    · simp [Rrule.periodDates, freq, unset, anchor]
    · simp [Rrule.periodDates, freq, unset, anchor]
  have allowed : [s.date].filter r.monthAllowed = [s.date] := by
    simp [Rrule.monthAllowed, simple.bymonth]
  have candidates : r.periodCandidates profile s dtstart =
      .ok (if dtstart.instant ≤ s.instant then [s] else []) := by
    simp only [Rrule.periodCandidates, dates, bind, Except.bind, allowed, List.map_singleton]
    have same : s.replaceDate s.date = s := rfl
    rw [same]
    split_ifs with later
    · simp [later, sortDedup]
    · simp [later, sortDedup]
  unfold period
  rw [candidates, advance_eq simple]
  simp only [applyBysetpos, simple.bysetpos, List.isEmpty_nil, Bool.true_or, if_true]
  by_cases later : dtstart.instant ≤ s.instant
  · rw [if_pos later]
    by_cases inside : inSeries r dtstart s
    · simp [inside]
    · simp [inside]
  · have outside : inSeries r dtstart s = false := by simp [inSeries, later]
    simp [later, outside]

theorem pastUntil_of_le {t t' : OffsetDateTime} (later : t.instant ≤ t'.instant)
    (past : r.pastUntil t = true) : r.pastUntil t' = true := by
  simp only [Rrule.pastUntil, Option.any_eq_true, decide_eq_true_eq] at past ⊢
  obtain ⟨u, limit, gone⟩ := past
  exact ⟨u, limit, gone.trans_le later⟩

/-- The n-th candidate is the n-th anchor. -/
theorem series_nth (simple : r.Simple) (positive : 1 ≤ r.interval.toNat) (forward : ¬r.wrapsBack)
    {fuel n : Nat} {p : OffsetDateTime × OffsetDateTime} (later : dtstart.instant ≤ s.instant)
    (nth : (series (period profile r dtstart) fuel s)[n]? = some p) :
    r.nthAnchor n s = some p.2 := by
  induction fuel generalizing s n with
  | zero => simp [walk] at nth
  | succ fuel ih =>
    have onward {t t' : OffsetDateTime} (step : r.nextAnchor t = some t') :
        t.instant ≤ t'.instant := by
      have stepped : advance t r.freq r.interval = .ok (some t') := by
        rw [advance_eq simple, step]
      have apart := advance_forward positive forward stepped
      have here := anchor_in_period r.freq t
      have there := anchor_in_period r.freq t'
      omega
    simp only [walk, period_eq simple, Bool.false_eq_true, if_false] at nth
    by_cases inside : inSeries r dtstart s
    · rw [if_pos inside] at nth
      cases n with
      | zero =>
        simp only [List.map_singleton, List.singleton_append, List.getElem?_cons_zero,
          Option.some.injEq] at nth
        rw [← nth]
        rfl
      | succ n =>
        simp only [List.map_singleton, List.singleton_append, List.getElem?_cons_succ] at nth
        cases step : r.nextAnchor s with
        | none => simp [step] at nth
        | some s' =>
          rw [step] at nth
          rw [← nthAnchor_step, step]
          exact ih (later.trans (onward step)) nth
    · -- past `UNTIL` nothing follows
      have past : r.pastUntil s = true := by
        simpa [inSeries, later] using inside
      rw [if_neg inside] at nth
      cases step : r.nextAnchor s with
      | none => simp [step] at nth
      | some s' =>
        have empty : series (period profile r dtstart) fuel s' = [] := by
          apply walk_eq_nil (fun t items next (gone : r.pastUntil t = true) found => ?_)
          · exact pastUntil_of_le (onward step) past
          · rw [period_eq simple] at found
            simp only [Option.some.injEq, Prod.mk.injEq] at found
            obtain ⟨rfl, rfl⟩ := found
            refine ⟨if_neg (by simp [inSeries, gone]), ?_⟩
            intro t' follows
            exact pastUntil_of_le (onward follows) gone
        simp [step, empty] at nth

/-- Where the years wrap backwards there is no second candidate. -/
theorem seriesOf_nth (simple : r.Simple) (positive : 1 ≤ r.interval.toNat) {n : Nat}
    {p : OffsetDateTime × OffsetDateTime} (nth : (seriesOf profile r dtstart)[n]? = some p) :
    (r.wrapsBack → n = 0) ∧ r.nthAnchor n dtstart = some p.2 := by
  by_cases backward : r.wrapsBack
  · have only (fuel : Nat) : series (period profile r dtstart) (fuel + 1) dtstart =
        if inSeries r dtstart dtstart then [(dtstart, dtstart)] else [] := by
      simp only [walk, period_eq simple, Bool.false_eq_true, if_false]
      cases step : r.nextAnchor dtstart with
      | none => split_ifs <;> rfl
      | some s' =>
        have stepped : advance dtstart r.freq r.interval = .ok (some s') := by
          rw [advance_eq simple, step]
        have empty : walk (period profile r dtstart) (fun _ => false) fuel s' = [] :=
          walk_eq_nil_of_wrapsBack backward fuel (anchor_in_period r.freq dtstart).1 stepped
        rw [Option.elim_some, empty]
        split_ifs <;> rfl
    rw [show seriesOf profile r dtstart = _ from only 999] at nth
    split_ifs at nth
    · cases n with
      | zero =>
        cases nth
        exact ⟨fun _ => rfl, rfl⟩
      | succ n => simp at nth
    · simp at nth
  · exact ⟨fun wraps => absurd wraps backward, series_nth simple positive backward le_rfl nth⟩

/-- The n-th candidate of a monthly or yearly rule is right just where no month before it cuts the
day that is due. -/
theorem candidate_undrifted_iff (simple : r.Simple) (positive : 1 ≤ r.interval.toNat) {n : Nat}
    {anchor c : OffsetDateTime} (nth : (seriesOf profile r dtstart)[n]? = some (anchor, c)) :
    IsMonthsAfter dtstart (n * r.strideMonths) c ↔ NoneShorter r dtstart n := by
  obtain ⟨first, reached⟩ := seriesOf_nth simple positive nth
  have start : dtstart.date.day ≤
      lengthAt (monthIndex dtstart.date + (0 : Nat) * r.strideMonths) := by
    rw [Nat.cast_zero, zero_mul, add_zero, lengthAt_monthIndex]
    exact dtstart.date.day_range.2
  have anchored : c.SameClock dtstart ∧
      monthIndex c.date = monthIndex dtstart.date + n * r.strideMonths ∧
      c.date.day = clampedDay dtstart.date.day
        (fun j => lengthAt (monthIndex dtstart.date + j * r.strideMonths)) n := by
    by_cases backward : r.wrapsBack
    · obtain rfl := first backward
      cases reached
      exact ⟨.refl _, by simp, rfl⟩
    · exact nthAnchor_some simple backward reached
  obtain ⟨clock, month, day⟩ := anchored
  have clamped := @clampedDay_eq_iff dtstart.date.day n
    (fun j => lengthAt (monthIndex dtstart.date + j * r.strideMonths)) start
  unfold NoneShorter
  rw [← clamped, ← day]
  exact ⟨fun right => right.day, fun right => ⟨clock, month, right⟩⟩

end

section Sample

/-- Every month. -/
def monthly : Rrule where
  freq := .monthly
  interval := 1
  count := none
  untilAt := none
  byday := []
  bymonthday := []
  bymonth := []
  bysetpos := []
  exdate := []

def jan31 : OffsetDateTime :=
  .assumeUtc ⟨2026, .january, 31, Time.year_2026, by decide⟩ 0 Time.midnight_range
def feb28 : OffsetDateTime :=
  .assumeUtc ⟨2026, .february, 28, Time.year_2026, by decide⟩ 0 Time.midnight_range
def mar28 : OffsetDateTime :=
  .assumeUtc ⟨2026, .march, 28, Time.year_2026, by decide⟩ 0 Time.midnight_range

theorem candidate_undrifted_february :
    IsMonthsAfter jan31 ((1 : Nat) * monthly.strideMonths) feb28 := by
  have nth : (seriesOf .release monthly jan31)[1]? = some (feb28, feb28) := by decide
  refine (candidate_undrifted_iff ⟨.inl rfl, rfl, rfl, rfl, rfl⟩ (by decide) nth).mpr ?_
  intro j positive small
  obtain rfl := Nat.le_antisymm small positive
  exact min_le_right _ _

/-- The third candidate is the 28 of March. -/
theorem candidate_drifts_march :
    (seriesOf .release monthly jan31)[2]? = some (mar28, mar28) ∧
      ¬IsMonthsAfter jan31 ((2 : Nat) * monthly.strideMonths) mar28 := by
  refine ⟨by decide, fun right => ?_⟩
  exact absurd right.day (by decide)

end Sample

end Expresso.Recurrence
