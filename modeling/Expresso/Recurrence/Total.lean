import Expresso.Recurrence.Window
import Expresso.Transition.Runs

/-! When reading and expanding a rule returns. The parser cuts a `BYDAY` token by bytes, and
the expander adds days in the range of dates, so both can panic. The periods an expansion
visits are described here in unbounded day numbers, and it returns exactly when every date
these periods ask for exists. -/

namespace Expresso.Recurrence
open Time Text Periodic Transition

/-! ### Reading a rule -/

/-- Two bytes before the end, or at the start of a shorter text, a character begins. -/
def CutsBetween (code : Str) : Prop := ∃ before, before <+: code ∧ len before = len code - 2

theorem cutsBetween_toAsciiUppercase (code : Str) :
    CutsBetween (toAsciiUppercase code) ↔ CutsBetween code := by
  simp only [CutsBetween, len_toAsciiUppercase]
  constructor
  · rintro ⟨before, cutOff, size⟩
    have same := List.prefix_iff_eq_take.mp cutOff
    refine ⟨code.take before.length, List.take_prefix _ code, ?_⟩
    rw [← size, ← len_toAsciiUppercase, toAsciiUppercase, List.map_take]
    exact congrArg len same.symm
  · rintro ⟨before, cutOff, size⟩
    exact ⟨toAsciiUppercase before, cutOff.map _, (len_toAsciiUppercase before).trans size⟩

theorem bydayFrom_ok_iff (code : Str) :
    (∃ entry, bydayFrom code = .ok entry) ↔ CutsBetween code := by
  rw [← cutsBetween_toAsciiUppercase, CutsBetween, ← splitAt_ok_iff]
  simp only [bydayFrom, bind, Except.bind]
  cases splitAt (len (toAsciiUppercase code) - 2) (toAsciiUppercase code) with
  | error => simp
  | ok halves =>
    simp only [Except.ok.injEq, exists_eq', iff_true]
    split
    · exact ⟨_, rfl⟩
    · split
      · exact ⟨_, rfl⟩
      · split
        · exact ⟨_, rfl⟩
        · split <;> exact ⟨_, rfl⟩

/-- What holds of every item a loop over the list comes to, when it goes on only past items
that allow it. -/
def ForallReached {α : Type} (goesOn holds : α → Prop) : List α → Prop
  | [] => True
  | x :: rest => holds x ∧ (goesOn x → ForallReached goesOn holds rest)

/-- A token of `BYDAY` that names a weekday, with or without its ordinal. -/
def NamesWeekday (d : Str) : Prop := ∃ entry, bydayFrom (trim d) = .ok (some entry)

theorem bydaysFrom_ok_iff (tokens : List Str) :
    (∃ entries, bydaysFrom tokens = .ok entries) ↔
      ForallReached NamesWeekday (fun d => CutsBetween (trim d)) tokens := by
  induction tokens with
  | nil => exact ⟨fun _ => trivial, fun _ => ⟨_, rfl⟩⟩
  | cons d rest ih =>
    simp only [bydaysFrom, ForallReached, bind, Except.bind]
    rw [← ih, ← bydayFrom_ok_iff, NamesWeekday]
    cases bydayFrom (trim d) with
    | error => simp
    | ok entry =>
      cases entry with
      | none => simp
      | some entry =>
        simp only [Except.ok.injEq, exists_eq', true_and, Option.some.injEq, true_implies]
        cases bydaysFrom rest with
        | error => simp
        | ok entries => cases entries <;> simp

/-- No token of a `BYDAY` value that the loop comes to is cut inside a character. -/
def WholeTokens (part : Str) : Prop :=
  ∀ k v, splitOnce '=' part = some (k, v) → toAsciiUppercase (trim k) = "BYDAY".toList →
    ForallReached NamesWeekday (fun d => CutsBetween (trim d)) (split ',' v)

theorem exists_ok_ite {c : Prop} [Decidable c] {α : Type} {a b : Except Panic α}
    (yes : ∃ result, a = .ok result) (no : ∃ result, b = .ok result) :
    ∃ result, (if c then a else b) = .ok result := by
  split
  · exact yes
  · exact no

theorem parsePart_ok_iff (part : Str) (f : Fields) :
    (∃ result, parsePart part f = .ok result) ↔ WholeTokens part := by
  simp only [parsePart, WholeTokens]
  cases splitOnce '=' part with
  | none => simp
  | some halves =>
    obtain ⟨k, v⟩ := halves
    have only : (∀ k' v', some (k, v) = some (k', v') →
        toAsciiUppercase (trim k') = "BYDAY".toList →
        ForallReached NamesWeekday (fun d => CutsBetween (trim d)) (split ',' v')) ↔
        (toAsciiUppercase (trim k) = "BYDAY".toList →
          ∃ entries, bydaysFrom (split ',' v) = .ok entries) := by
      simp only [Option.some.injEq, Prod.mk.injEq, bydaysFrom_ok_iff]
      exact ⟨fun all => all k v ⟨rfl, rfl⟩, by rintro one _ _ ⟨rfl, rfl⟩; exact one⟩
    rw [only]
    by_cases byday : toAsciiUppercase (trim k) = "BYDAY".toList
    · simp only [byday, true_implies, bind, Except.bind]
      rw [if_neg (by decide), if_neg (by decide), if_neg (by decide), if_neg (by decide),
        if_pos trivial]
      cases bydaysFrom (split ',' v) <;> simp
    · refine iff_of_true ?_ (fun named => absurd named byday)
      simp only [byday, if_false]
      repeat' apply exists_ok_ite
      all_goals exact ⟨_, rfl⟩

/-- The parser goes on with the fields read so far. -/
def GoesOn (result : Except Panic (Option Fields)) : Prop := ∃ f, result = .ok (some f)

theorem goesOn_map {α : Type} (x : Option α) (g g' : α → Fields) :
    GoesOn (.ok (x.map g)) ↔ GoesOn (.ok (x.map g')) := by
  cases x <;> simp [GoesOn]

theorem goesOn_ite {c : Prop} [Decidable c] {a b a' b' : Except Panic (Option Fields)}
    (yes : GoesOn a ↔ GoesOn a') (no : GoesOn b ↔ GoesOn b') :
    GoesOn (if c then a else b) ↔ GoesOn (if c then a' else b') := by
  split
  · exact yes
  · exact no

/-- A part that the parser goes on after, whatever it read before. -/
def Accepted (part : Str) : Prop := GoesOn (parsePart part {})

theorem accepted_iff (part : Str) (f : Fields) : GoesOn (parsePart part f) ↔ Accepted part := by
  simp only [Accepted, parsePart]
  cases splitOnce '=' part with
  | none => rfl
  | some halves =>
    obtain ⟨k, v⟩ := halves
    simp only [bind, Except.bind]
    repeat' apply goesOn_ite
    any_goals exact goesOn_map _ _ _
    · simp [GoesOn]
    · cases bydaysFrom (split ',' v) with
      | error => rfl
      | ok entries => exact goesOn_map _ _ _
    · simp [GoesOn]
    · simp [GoesOn]

theorem parseParts_ok_iff (parts : List Str) (f : Fields) :
    (∃ result, parseParts parts f = .ok result) ↔ ForallReached Accepted WholeTokens parts := by
  induction parts generalizing f with
  | nil => exact ⟨fun _ => trivial, fun _ => ⟨_, rfl⟩⟩
  | cons part rest ih =>
    simp only [parseParts, ForallReached, bind, Except.bind]
    rw [← parsePart_ok_iff part f, ← accepted_iff part f]
    cases parsePart part f with
    | error => simp
    | ok result =>
      cases result with
      | none => simp [GoesOn]
      | some f' => simp [GoesOn, ih f']

/-- The parts of a rule, as the parser separates them. -/
def partsOf (raw : Str) : List Str := split ';' ((stripPrefix "RRULE:".toList raw).getD raw)

theorem parse_ok_iff (raw : Str) :
    (∃ parsed, Rrule.parse raw = .ok parsed) ↔
      ForallReached Accepted WholeTokens (partsOf raw) := by
  rw [← parseParts_ok_iff (partsOf raw) {}]
  simp only [Rrule.parse, partsOf, bind, Except.bind]
  cases parseParts (split ';' ((stripPrefix "RRULE:".toList raw).getD raw)) {} with
  | error => simp
  | ok result => cases result <;> simp

/-! ### The rules the parser returns -/

theorem ordinal_of_bydayFrom {code : Str} {entry : ByDay}
    (read : bydayFrom code = .ok (some entry)) : entry.ordinal ≠ some 0 := by
  simp only [bydayFrom, bind, Except.bind] at read
  split at read
  · cases read
  · split at read
    · cases read
    · split at read
      · cases read
        simp
      · split at read
        · cases read
        · split at read
          · cases read
          · next nonzero =>
            cases read
            simpa using nonzero

theorem ordinal_of_bydaysFrom {tokens : List Str} {entries : List ByDay}
    (read : bydaysFrom tokens = .ok (some entries)) : ∀ bd ∈ entries, bd.ordinal ≠ some 0 := by
  induction tokens generalizing entries with
  | nil =>
    cases read
    simp
  | cons d rest ih =>
    simp only [bydaysFrom, bind, Except.bind] at read
    split at read
    · cases read
    · split at read
      · cases read
      · next entry first =>
        split at read
        · cases read
        · split at read
          · cases read
          · next later tail =>
            cases read
            intro bd member
            rcases List.mem_cons.mp member with rfl | among
            · exact ordinal_of_bydayFrom first
            · exact ih tail bd among

/-- What the parser checks: an ordinal is not zero, a month is one of the twelve. -/
structure Checked (byday : List ByDay) (bymonth : List Nat) : Prop where
  ordinal : ∀ bd ∈ byday, bd.ordinal ≠ some 0
  month : ∀ m ∈ bymonth, 1 ≤ m ∧ m ≤ 12

theorem month_of_parseMonth {v : Str} {n : Nat} (read : parseMonth v = some n) :
    1 ≤ n ∧ n ≤ 12 := by
  simp only [parseMonth, Option.bind_eq_some_iff] at read
  obtain ⟨m, _, checked⟩ := read
  split at checked
  · next range =>
    cases checked
    exact range
  · cases checked

theorem exists_of_mem_mapM {α β : Type} {f : α → Option β} {xs : List α} {ys : List β}
    (mapped : xs.mapM f = some ys) {y : β} (member : y ∈ ys) : ∃ x ∈ xs, f x = some y := by
  induction xs generalizing ys with
  | nil =>
    cases mapped
    cases member
  | cons x rest ih =>
    simp only [List.mapM_cons, Option.bind_eq_bind, Option.bind_eq_some_iff, Option.pure_def,
      Option.some.injEq] at mapped
    obtain ⟨y', first, ys', later, rfl⟩ := mapped
    rcases List.mem_cons.mp member with rfl | among
    · exact ⟨x, List.mem_cons_self, first⟩
    · obtain ⟨x', inRest, found⟩ := ih later among
      exact ⟨x', List.mem_cons_of_mem x inRest, found⟩

theorem of_ite_eq {α : Type} {c p : Prop} [Decidable c] {a b x : α}
    (equal : (if c then a else b) = x) (yes : a = x → p) (no : b = x → p) : p := by
  split at equal
  · exact yes equal
  · exact no equal

theorem checked_of_parsePart {part : Str} {f f' : Fields} (before : Checked f.byday f.bymonth)
    (read : parsePart part f = .ok (some f')) : Checked f'.byday f'.bymonth := by
  have mapped : ∀ {α : Type} {x : Option α} {g : α → Fields},
      (.ok (x.map g) : Except Panic (Option Fields)) = .ok (some f') →
      (∀ a, x = some a → Checked (g a).byday (g a).bymonth) → Checked f'.byday f'.bymonth := by
    intro α x g result each
    simp only [Except.ok.injEq, Option.map_eq_some_iff] at result
    obtain ⟨a, found, rfl⟩ := result
    exact each a found
  have kept : ∀ {g : Fields}, (.ok (some g) : Except Panic (Option Fields)) = .ok (some f') →
      Checked g.byday g.bymonth → Checked f'.byday f'.bymonth := by
    intro g result same
    simp only [Except.ok.injEq, Option.some.injEq] at result
    exact result ▸ same
  cases cut : splitOnce '=' part with
  | none => simp [parsePart, cut] at read
  | some halves =>
    obtain ⟨k, v⟩ := halves
    simp only [parsePart, cut] at read
    refine of_ite_eq read (mapped · fun _ _ => before) fun read => ?_
    refine of_ite_eq read (mapped · fun _ _ => before) fun read => ?_
    refine of_ite_eq read (mapped · fun _ _ => before) fun read => ?_
    refine of_ite_eq read (kept · before) fun read => ?_
    refine of_ite_eq read ?_ fun read => ?_
    · intro ran
      obtain ⟨entries, named, ran⟩ := bind_eq_ok_iff.mp ran
      refine mapped ran fun days found => ⟨?_, before.month⟩
      intro bd member
      rcases List.mem_append.mp member with old | new
      · exact before.ordinal bd old
      · exact ordinal_of_bydaysFrom (found ▸ named) bd new
    refine of_ite_eq read (mapped · fun _ _ => before) fun read => ?_
    refine of_ite_eq read ?_ fun read => ?_
    · refine (mapped · fun months found => ⟨before.ordinal, ?_⟩)
      intro m member
      rcases List.mem_append.mp member with old | new
      · exact before.month m old
      · obtain ⟨v', _, named⟩ := exists_of_mem_mapM found new
        exact month_of_parseMonth named
    refine of_ite_eq read (mapped · fun _ _ => before) fun read => ?_
    exact of_ite_eq read (kept · before) (kept · before)

theorem checked_of_parseParts {parts : List Str} {f f' : Fields}
    (before : Checked f.byday f.bymonth) (read : parseParts parts f = .ok (some f')) :
    Checked f'.byday f'.bymonth := by
  induction parts generalizing f with
  | nil =>
    cases read
    exact before
  | cons part rest ih =>
    simp only [parseParts, bind, Except.bind] at read
    split at read
    · cases read
    · split at read
      · cases read
      · next here => exact ih (checked_of_parsePart before here) read

theorem checked_of_parse {raw : Str} {r : Rrule} (parsed : Rrule.parse raw = .ok (some r)) :
    Checked r.byday r.bymonth := by
  simp only [Rrule.parse, bind, Except.bind] at parsed
  split at parsed
  · cases parsed
  · split at parsed
    · cases parsed
    · next read =>
      simp only [Except.ok.injEq, Fields.finish, Option.map_eq_some_iff] at parsed
      obtain ⟨freq, _, rfl⟩ := parsed
      exact checked_of_parseParts ⟨by simp, by simp⟩ read

/-! ### The dates of a period -/

/-- The days a `WEEKLY` period's `BYDAY` entries name, representable or not. -/
def Rrule.weeklyDays (r : Rrule) (current : OffsetDateTime) : List Int :=
  r.byday.map fun bd => lowDay .weekly current.date + weekdayIndex bd.weekday

/-- The n-th date, or the n-th from the end. -/
def nthOf (matching : List Date) (n : Int) : Option Date :=
  if n > 0 then matching[(n - 1).toNat]?
  else if (-n).toNat ≤ matching.length then matching[matching.length - (-n).toNat]? else none

def weekdaysInMonth (year : Int) (month : Month) (bd : ByDay) : List Date :=
  let matching := ((List.range' 1 (month.length year)).filterMap fun day =>
    Date.fromCalendarDate year month day).filter fun d => d.weekday = bd.weekday
  match bd.ordinal with
  | none => matching
  | some n => (nthOf matching n).toList

/-- The dates a period names. -/
def Rrule.namedDates (r : Rrule) (current : OffsetDateTime) : List Date :=
  match r.freq with
  | .daily => r.anchorDates current
  | .weekly =>
      if r.byday.isEmpty then r.anchorDates current
      else (r.weeklyDays current).filterMap Date.ofDays
  | .monthly | .yearly =>
      if r.needsSetExpansion then
        (r.candidateMonths current).flatMap fun (year, month) =>
          r.bymonthday.filterMap (monthdayToDate year month) ++
            r.byday.flatMap (weekdaysInMonth year month)
      else r.anchorDates current

/-- The period's dates can be computed: its week lies in the range of dates as far as
`BYDAY` reaches, and with overflow checks no ordinal is the least `i8`. -/
def SafeDates (profile : Profile) (r : Rrule) (current : OffsetDateTime) : Prop :=
  match r.freq with
  | .daily => True
  | .weekly =>
      r.byday ≠ [] → Date.minDay ≤ lowDay .weekly current.date ∧
        ∀ day ∈ r.weeklyDays current, day ≤ Date.maxDay
  | .monthly | .yearly => profile = .dev → ∀ bd ∈ r.byday, bd.ordinal ≠ some (-128)

theorem collect_ok_iff {α β : Type} {body : α → Except Panic (List β)} {safe : α → Prop}
    {result : α → List β} (each : ∀ x here, body x = .ok here ↔ safe x ∧ here = result x)
    (xs : List α) (ys : List β) :
    collect body xs = .ok ys ↔ (∀ x ∈ xs, safe x) ∧ ys = xs.flatMap result := by
  induction xs generalizing ys with
  | nil => simp [collect, eq_comm]
  | cons x rest ih =>
    simp only [collect, bind, Except.bind]
    cases here : body x with
    | error =>
      have stuck : ¬ safe x := fun ok => by
        have ran := (each x _).mpr ⟨ok, rfl⟩
        simp [here] at ran
      simp [stuck]
    | ok items =>
      obtain ⟨ok, rfl⟩ := (each x items).mp here
      cases later : collect body rest with
      | error =>
        have stuck : ¬ ∀ x ∈ rest, safe x := fun ok => by
          have ran := (ih _).mpr ⟨ok, rfl⟩
          simp [later] at ran
        simp only [reduceCtorEq, List.forall_mem_cons, stuck, and_false, false_and]
      | ok tail =>
        obtain ⟨safeRest, rfl⟩ := (ih tail).mp later
        simp only [Except.ok.injEq, List.forall_mem_cons, ok, true_and, List.flatMap_cons]
        exact ⟨fun same => ⟨safeRest, same.symm⟩, fun same => same.2.symm⟩

theorem addDays_eq_ok_iff (d next : Date) (n : Int) :
    d.addDays n = .ok next ↔ Date.ofDays (d.toDays + n) = some next := by
  unfold Date.addDays
  cases Date.ofDays (d.toDays + n) <;> simp

/-- From a Monday in range, a weekday of its week is a date unless it is past the last. -/
theorem weekday_ok_iff (weekStart : Date) (bd : ByDay) (here : List Date) :
    (do let date ← weekStart.addDays (weekdayIndex bd.weekday)
        .ok [date] : Except Panic (List Date)) = .ok here ↔
      weekStart.toDays + weekdayIndex bd.weekday ≤ Date.maxDay ∧
        here = (Date.ofDays (weekStart.toDays + weekdayIndex bd.weekday)).toList := by
  have inRange := weekStart.toDays_range
  have reach := Date.ofDays_eq_some_iff (weekStart.toDays + weekdayIndex bd.weekday)
  simp only [bind_eq_ok_iff, addDays_eq_ok_iff, Except.ok.injEq]
  cases found : Date.ofDays (weekStart.toDays + weekdayIndex bd.weekday) with
  | none =>
    simp only [found, reduceCtorEq, exists_false, false_iff] at reach
    have beyond : ¬ weekStart.toDays + weekdayIndex bd.weekday ≤ Date.maxDay := by omega
    simp [beyond]
  | some date =>
    simp only [found, Option.some.injEq, exists_eq', true_iff] at reach
    simp [reach.2, eq_comm]

theorem weeklyDates_ok_iff (r : Rrule) (current : OffsetDateTime) (dates : List Date) :
    r.weeklyDates current = .ok dates ↔
      (Date.minDay ≤ lowDay .weekly current.date ∧
        ∀ day ∈ r.weeklyDays current, day ≤ Date.maxDay) ∧
      dates = (r.weeklyDays current).filterMap Date.ofDays := by
  have range := current.date.toDays_range
  have monday : current.date.toDays + -(weekdayIndex current.date.weekday : Int) =
      lowDay .weekly current.date := by
    rw [weekdayIndex_weekday]
    simp only [lowDay]
    omega
  have week : ∀ weekStart : Date, weekStart.toDays = lowDay .weekly current.date →
      (collect (fun bd => do
          let date ← weekStart.addDays (weekdayIndex bd.weekday)
          .ok [date]) r.byday = .ok dates ↔
        (∀ day ∈ r.weeklyDays current, day ≤ Date.maxDay) ∧
          dates = (r.weeklyDays current).filterMap Date.ofDays) := by
    intro weekStart first
    rw [collect_ok_iff (weekday_ok_iff weekStart), first, Rrule.weeklyDays,
      List.filterMap_eq_flatMap_toList, List.flatMap_map]
    simp only [List.forall_mem_map]
  simp only [Rrule.weeklyDates, startOfWeek, bind_eq_ok_iff, addDays_eq_ok_iff, monday]
  constructor
  · rintro ⟨weekStart, found, ran⟩
    have first := Date.toDays_of_ofDays found
    have inRange := weekStart.toDays_range
    obtain ⟨inside, same⟩ := (week weekStart first).mp ran
    exact ⟨⟨by omega, inside⟩, same⟩
  · rintro ⟨⟨above, inside⟩, same⟩
    have below : lowDay .weekly current.date ≤ current.date.toDays := (within_self .weekly _).1
    obtain ⟨weekStart, found⟩ := (Date.ofDays_eq_some_iff _).mpr ⟨above, by omega⟩
    exact ⟨weekStart, found, (week weekStart (Date.toDays_of_ofDays found)).mpr ⟨inside, same⟩⟩

theorem bydayDatesInMonth_ok_iff (profile : Profile) (year : Int) (month : Month) (bd : ByDay)
    (dates : List Date) :
    bydayDatesInMonth profile year month bd = .ok dates ↔
      ¬ (profile = .dev ∧ (bd.ordinal = some (-128) ∨ bd.ordinal = some 0)) ∧
        dates = weekdaysInMonth year month bd := by
  simp only [bydayDatesInMonth, weekdaysInMonth]
  generalize ((List.range' 1 (month.length year)).filterMap fun day =>
    Date.fromCalendarDate year month day).filter (fun d => d.weekday = bd.weekday) = matching
  cases bd.ordinal with
  | none => simp [eq_comm]
  | some n =>
    simp only [nthOf, Option.some.injEq]
    split
    · next forward =>
      have other : ¬ (n = -128 ∨ n = 0) := by omega
      simp [other, eq_comm]
    · simp only [positionFromEnd, bind_eq_ok_iff]
      split
      · next overflows => simp [overflows]
      · next fits =>
        simp only [Except.ok.injEq, exists_eq_left', fits, not_false_eq_true, true_and]
        split <;> simp [eq_comm]

theorem candidateMonths_ne_nil {r : Rrule} (checked : Checked r.byday r.bymonth)
    (current : OffsetDateTime) : r.candidateMonths current ≠ [] := by
  simp only [Rrule.candidateMonths]
  split
  · next scanned =>
    obtain ⟨m, rest, listed⟩ := List.exists_cons_of_ne_nil scanned.2
    obtain ⟨low, high⟩ := checked.month m (listed ▸ List.mem_cons_self)
    have named : ∃ month, Month.tryFrom m = some month := by
      interval_cases m <;> exact ⟨_, rfl⟩
    obtain ⟨month, found⟩ := named
    simp [listed, found]
  · simp

theorem monthOrYearDates_ok_iff {r : Rrule} (checked : Checked r.byday r.bymonth)
    (profile : Profile) (current : OffsetDateTime) (dates : List Date) :
    r.monthOrYearDates profile current = .ok dates ↔
      (profile = .dev → ∀ bd ∈ r.byday, bd.ordinal ≠ some (-128)) ∧
      dates = (r.candidateMonths current).flatMap fun (year, month) =>
        r.bymonthday.filterMap (monthdayToDate year month) ++
          r.byday.flatMap (weekdaysInMonth year month) := by
  have ordinals : (∀ bd ∈ r.byday,
      ¬ (profile = .dev ∧ (bd.ordinal = some (-128) ∨ bd.ordinal = some 0))) ↔
      (profile = .dev → ∀ bd ∈ r.byday, bd.ordinal ≠ some (-128)) := by
    constructor
    · intro none dev bd member least
      exact none bd member ⟨dev, .inl least⟩
    · rintro none bd member ⟨dev, least | zero⟩
      · exact none dev bd member least
      · exact checked.ordinal bd member zero
  have each : ∀ (p : Int × Month) (here : List Date),
      (do let weekdays ← collect (bydayDatesInMonth profile p.1 p.2) r.byday
          .ok (r.bymonthday.filterMap (monthdayToDate p.1 p.2) ++ weekdays) :
            Except Panic (List Date)) = .ok here ↔
        (profile = .dev → ∀ bd ∈ r.byday, bd.ordinal ≠ some (-128)) ∧
          here = r.bymonthday.filterMap (monthdayToDate p.1 p.2) ++
            r.byday.flatMap (weekdaysInMonth p.1 p.2) := by
    intro p here
    simp only [bind_eq_ok_iff, collect_ok_iff (bydayDatesInMonth_ok_iff profile p.1 p.2),
      Except.ok.injEq, ordinals]
    constructor
    · rintro ⟨weekdays, ⟨safe, rfl⟩, rfl⟩
      exact ⟨safe, rfl⟩
    · rintro ⟨safe, rfl⟩
      exact ⟨_, ⟨safe, rfl⟩, rfl⟩
  obtain ⟨p, rest, listed⟩ := List.exists_cons_of_ne_nil (candidateMonths_ne_nil checked current)
  rw [Rrule.monthOrYearDates, collect_ok_iff each]
  refine and_congr_left fun _ => ⟨fun all => all p (listed ▸ List.mem_cons_self), ?_⟩
  intro safe _ _
  exact safe

theorem periodDates_ok_iff {r : Rrule} (checked : Checked r.byday r.bymonth)
    (profile : Profile) (current : OffsetDateTime) (dates : List Date) :
    r.periodDates profile current = .ok dates ↔
      SafeDates profile r current ∧ dates = r.namedDates current := by
  simp only [Rrule.periodDates, SafeDates, Rrule.namedDates]
  have unnamed : r.needsSetExpansion = false →
      (profile = .dev → ∀ bd ∈ r.byday, bd.ordinal ≠ some (-128)) := by
    intro plain _
    simp only [Rrule.needsSetExpansion, Bool.or_eq_false_iff, Bool.not_eq_false',
      List.isEmpty_iff] at plain
    simp [plain.1]
  cases r.freq with
  | daily => simp [eq_comm]
  | weekly =>
    simp only [List.isEmpty_iff]
    split
    · next plain => simp [plain, eq_comm]
    · next named => simp [named, weeklyDates_ok_iff]
  | monthly =>
    simp only
    split
    · exact monthOrYearDates_ok_iff checked profile current dates
    · next plain =>
      have safe := unnamed (by simpa using plain)
      simp only [Except.ok.injEq, eq_comm, and_iff_right safe]
  | yearly =>
    simp only
    split
    · exact monthOrYearDates_ok_iff checked profile current dates
    · next plain =>
      have safe := unnamed (by simpa using plain)
      simp only [Except.ok.injEq, eq_comm, and_iff_right safe]

/-- The candidates of a period that count: in the series, `BYSETPOS` applied. -/
def Rrule.picks (r : Rrule) (dtstart current : OffsetDateTime) : List OffsetDateTime :=
  (applyBysetpos r.bysetpos (sortDedup OffsetDateTime.instant
    ((((r.namedDates current).filter r.monthAllowed).map current.replaceDate).filter fun c =>
      dtstart.instant ≤ c.instant))).filter (inSeries r dtstart)

theorem periodCandidates_ok_iff {r : Rrule} (checked : Checked r.byday r.bymonth)
    (profile : Profile) (current dtstart : OffsetDateTime) (candidates : List OffsetDateTime) :
    r.periodCandidates profile current dtstart = .ok candidates ↔
      SafeDates profile r current ∧ candidates = sortDedup OffsetDateTime.instant
        ((((r.namedDates current).filter r.monthAllowed).map current.replaceDate).filter fun c =>
          dtstart.instant ≤ c.instant) := by
  simp only [Rrule.periodCandidates, bind_eq_ok_iff, periodDates_ok_iff checked, Except.ok.injEq]
  constructor
  · rintro ⟨dates, ⟨safe, rfl⟩, rfl⟩
    exact ⟨safe, rfl⟩
  · rintro ⟨safe, rfl⟩
    exact ⟨_, ⟨safe, rfl⟩, rfl⟩

/-! ### The step to the next period -/

/-- The days between the anchors of `DAILY` and `WEEKLY` periods. -/
def Rrule.strideDays (r : Rrule) : Option Int :=
  match r.freq with
  | .daily => some r.interval.toNat
  | .weekly => some (7 * r.interval.toNat)
  | .monthly | .yearly => none

/-- The anchor of the next period, if it is a date. -/
def Rrule.nextAnchor (r : Rrule) (current : OffsetDateTime) : Option OffsetDateTime :=
  match r.freq with
  | .daily => (Date.ofDays (current.date.toDays + r.interval.toNat)).map current.replaceDate
  | .weekly => (Date.ofDays (current.date.toDays + 7 * r.interval.toNat)).map current.replaceDate
  | .monthly => addMonths current r.interval.toNat
  | .yearly => addMonths current (r.interval.toNat * 12)

theorem add_days_eq_ok_iff (t next : OffsetDateTime) (n : Int) :
    t.add (Duration.days n) = .ok next ↔
      (Date.ofDays (t.date.toDays + n)).map t.replaceDate = some next := by
  have range := t.nanos_range
  have day : (t.date.toDays * dayNanos + t.nanos + Duration.days n) / dayNanos =
      t.date.toDays + n := t.dayAfter_days n
  have clock : (t.date.toDays * dayNanos + t.nanos + Duration.days n) % dayNanos = t.nanos := by
    simp only [Duration.days, dayNanos] at range ⊢
    omega
  simp only [OffsetDateTime.add, day, clock]
  cases Date.ofDays (t.date.toDays + n) <;> simp [OffsetDateTime.replaceDate]

theorem add_stride_ok_iff (t : OffsetDateTime) (n : Nat) (step : Option OffsetDateTime) :
    (t.add (Duration.days n)).map some = .ok step ↔
      t.date.toDays + n ≤ Date.maxDay ∧
        step = (Date.ofDays (t.date.toDays + n)).map t.replaceDate := by
  have inRange := t.date.toDays_range
  have reach := Date.ofDays_eq_some_iff (t.date.toDays + n)
  have added := add_days_eq_ok_iff t
  cases found : Date.ofDays (t.date.toDays + n) with
  | none =>
    simp only [found, reduceCtorEq, exists_false, false_iff] at reach
    have beyond : ¬ t.date.toDays + n ≤ Date.maxDay := by omega
    cases ran : t.add (Duration.days n) with
    | error => simp [Except.map, beyond]
    | ok next => simp [added, found] at ran
  | some date =>
    simp only [found, Option.some.injEq, exists_eq', true_iff] at reach
    have ran := (added (t.replaceDate date) n).mpr (by simp [found])
    simp [ran, Except.map, reach.2, eq_comm]

theorem advance_ok_iff (r : Rrule) (current : OffsetDateTime) (step : Option OffsetDateTime) :
    advance current r.freq r.interval = .ok step ↔
      (∀ days, r.strideDays = some days → current.date.toDays + days ≤ Date.maxDay) ∧
        step = r.nextAnchor current := by
  simp only [advance, Rrule.strideDays, Rrule.nextAnchor]
  cases r.freq with
  | daily => simp [add_stride_ok_iff]
  | weekly =>
    have stride := add_stride_ok_iff current (7 * r.interval.toNat) step
    simp only [Nat.cast_mul, Nat.cast_ofNat] at stride
    simp [Duration.weeks_eq_days, stride]
  | monthly => simp [eq_comm]
  | yearly => simp [eq_comm]

/-! ### The loop -/

section Loop

variable (profile : Profile) (r : Rrule) (dtstart : OffsetDateTime) (duration : Duration)
  (window : Window)

/-- A candidate that is not excluded ends on a representable date. -/
def EndsOnDate (c : OffsetDateTime) : Prop :=
  r.isExcluded c = false →
    Date.minDay ≤ c.dayAfter duration ∧ c.dayAfter duration ≤ Date.maxDay

/-- Everything a period computes is in range: its dates, the ends of the candidates that
`COUNT` leaves room for after those of earlier periods, and the step to the next period. -/
structure SafePeriod (current : OffsetDateTime) (counted : Nat) : Prop where
  dates : SafeDates profile r current
  ends : ∀ c ∈ (r.picks dtstart current).take (r.limitCount - counted), EndsOnDate r duration c
  step : ∀ days, r.strideDays = some days → current.date.toDays + days ≤ Date.maxDay

/-- The periods an expansion visits: each anchor, with the candidates counted before it. -/
def periodsVisited : Nat → OffsetDateTime × Nat → List (OffsetDateTime × Nat) :=
  visits (fun (current, counted) => r.limitCount ≤ counted || stops r window current)
    (fun (current, counted) => (r.nextAnchor current).map fun next =>
      (next, counted + (r.picks dtstart current).length))

end Loop

section Returns

variable {profile : Profile} {r : Rrule} {dtstart : OffsetDateTime} {duration : Duration}
  {window : Window}

theorem endsInRange_iff (c : OffsetDateTime) :
    EndsInRange r duration c ↔ EndsOnDate r duration c := by
  simp only [EndsInRange, EndsOnDate, OffsetDateTime.add_ok_iff]

theorem emit_ok_iff (candidates : List OffsetDateTime) (emitted : Nat) (out : List Occurrence) :
    (∃ result, emit r dtstart duration window candidates emitted out = .ok result) ↔
      ∀ c ∈ (candidates.filter (inSeries r dtstart)).take (r.limitCount - emitted),
        EndsInRange r duration c := by
  constructor
  · rintro ⟨⟨emitted', out'⟩, ran⟩
    exact (emit_ok ran).ends
  · intro ends
    induction candidates generalizing emitted out with
    | nil => exact ⟨_, rfl⟩
    | cons c rest ih =>
      simp only [emit]
      split
      · exact ⟨_, rfl⟩
      · next space =>
        split
        · next outside =>
          rw [List.filter_cons, if_neg (fun inside => inSeries_iff.mp inside outside)] at ends
          exact ih _ _ ends
        · next inside =>
          have slots : r.limitCount - emitted = r.limitCount - (emitted + 1) + 1 := by omega
          rw [List.filter_cons, if_pos (inSeries_iff.mpr inside), slots,
            List.take_succ_cons] at ends
          obtain ⟨here, later⟩ := List.forall_mem_cons.mp ends
          split
          · exact ih _ _ later
          · next kept =>
            obtain ⟨finish, added⟩ := here (by simpa using kept)
            simp only [added, bind, Except.bind]
            split
            · exact ih _ _ later
            · exact ih _ _ later

theorem emit_eq_ok_iff (candidates : List OffsetDateTime) (emitted : Nat) (out : List Occurrence)
    (result : Nat × List Occurrence) :
    emit r dtstart duration window candidates emitted out = .ok result ↔
      (∀ c ∈ (candidates.filter (inSeries r dtstart)).take (r.limitCount - emitted),
        EndsOnDate r duration c) ∧
      result = (emitted + ((candidates.filter (inSeries r dtstart)).take
          (r.limitCount - emitted)).length,
        out ++ ((candidates.filter (inSeries r dtstart)).take
          (r.limitCount - emitted)).filterMap (occurrence r duration window)) := by
  simp only [← endsInRange_iff]
  constructor
  · intro ran
    obtain ⟨count, listed, ends⟩ := emit_ok ran
    exact ⟨ends, Prod.ext count listed⟩
  · rintro ⟨ends, rfl⟩
    obtain ⟨⟨emitted', out'⟩, ran⟩ := (emit_ok_iff candidates emitted out).mpr ends
    obtain ⟨count, listed, _⟩ := emit_ok ran
    rw [ran, count, listed]

/-- One turn of the loop: it returns when its period is safe and the rest returns. -/
theorem expandLoop_succ_ok_iff (checked : Checked r.byday r.bymonth) (iters counted : Nat)
    (current : OffsetDateTime) (out : List Occurrence) (room : counted < r.limitCount)
    (runs : stops r window current = false) :
    (∃ l, expandLoop profile r dtstart duration window (iters + 1) counted current out = .ok l) ↔
      SafePeriod profile r dtstart duration current counted ∧
        ∀ next, r.nextAnchor current = some next →
          ∃ l, expandLoop profile r dtstart duration window iters
            (min (counted + (r.picks dtstart current).length) r.limitCount) next
            (out ++ ((r.picks dtstart current).take (r.limitCount - counted)).filterMap
              (occurrence r duration window)) = .ok l := by
  have count : counted + ((r.picks dtstart current).take (r.limitCount - counted)).length =
      min (counted + (r.picks dtstart current).length) r.limitCount := by
    rw [List.length_take]
    omega
  simp only [expandLoop, if_neg (not_le.mpr room), runs, Bool.false_eq_true, if_false,
    bind_eq_ok_iff, periodCandidates_ok_iff checked, advance_ok_iff, ← count]
  constructor
  · rintro ⟨l, _, ⟨dates, rfl⟩, _, emitted, step, ⟨stride, rfl⟩, rest⟩
    obtain ⟨ends, rfl⟩ := (emit_eq_ok_iff _ _ _ _).mp emitted
    refine ⟨⟨dates, ends, stride⟩, ?_⟩
    intro next found
    rw [found] at rest
    exact ⟨l, rest⟩
  · rintro ⟨⟨dates, ends, stride⟩, rest⟩
    cases found : r.nextAnchor current with
    | none =>
      exact ⟨_, _, ⟨dates, rfl⟩, _, (emit_eq_ok_iff _ _ _ _).mpr ⟨ends, rfl⟩, none,
        ⟨stride, rfl⟩, rfl⟩
    | some next =>
      obtain ⟨l, later⟩ := rest next found
      exact ⟨l, _, ⟨dates, rfl⟩, _, (emit_eq_ok_iff _ _ _ _).mpr ⟨ends, rfl⟩, some next,
        ⟨stride, rfl⟩, later⟩

variable (profile dtstart duration window) in
theorem expandLoop_ok_iff (checked : Checked r.byday r.bymonth) (iters counted : Nat)
    (current : OffsetDateTime) (out : List Occurrence) :
    (∃ l, expandLoop profile r dtstart duration window iters (min counted r.limitCount)
        current out = .ok l) ↔
      ∀ p ∈ periodsVisited r dtstart window iters (current, counted),
        SafePeriod profile r dtstart duration p.1 p.2 := by
  induction iters generalizing counted current out with
  | zero => simp [expandLoop, periodsVisited, visits]
  | succ iters ih =>
    by_cases full : r.limitCount ≤ counted
    · simp [expandLoop, periodsVisited, visits, full]
    · rw [not_le] at full
      by_cases stopped : stops r window current = true
      · simp [expandLoop, periodsVisited, visits, stopped]
      · rw [Bool.not_eq_true] at stopped
        rw [min_eq_left full.le,
          expandLoop_succ_ok_iff checked iters counted current out full stopped]
        simp only [ih, periodsVisited, visits, not_le.mpr full, decide_false, stopped, Bool.or_self,
          Bool.false_eq_true, if_false, List.forall_mem_cons]
        refine and_congr_right fun _ => ?_
        cases r.nextAnchor current with
        | none => simp
        | some next => simp

/-- Reading a rule and expanding it return, exactly when no reached token of `BYDAY` is cut
inside a character, and every period the expansion visits is in range. -/
theorem parse_expand_return_iff (profile : Profile) (raw : Str) (exdates : List OffsetDateTime)
    (dtstart : OffsetDateTime) (duration : Duration) (window : Window) :
    ((∃ parsed, Rrule.parse raw = .ok parsed) ∧
        ∀ rule, Rrule.parse raw = .ok (some rule) →
          ∃ l, Rrule.expand profile { rule with exdate := exdates } dtstart duration window =
            .ok l) ↔
      ForallReached Accepted WholeTokens (partsOf raw) ∧
        ∀ rule, Rrule.parse raw = .ok (some rule) →
          ∀ p ∈ periodsVisited { rule with exdate := exdates } dtstart window maxIter (dtstart, 0),
            SafePeriod profile { rule with exdate := exdates } dtstart duration p.1 p.2 := by
  rw [parse_ok_iff]
  refine and_congr_right fun _ => forall_congr' fun rule => forall_congr' fun parsed => ?_
  have checked : Checked rule.byday rule.bymonth := checked_of_parse parsed
  generalize excluding : { rule with exdate := exdates } = r
  have same : Checked r.byday r.bymonth := by rw [← excluding]; exact checked
  have loop := expandLoop_ok_iff profile dtstart duration window same maxIter 0 dtstart []
  rwa [Nat.zero_min] at loop

end Returns

/-- Every 4294967295 days. -/
def longStride : Rrule :=
  { mondaysWednesdays with freq := .daily, interval := 4294967295, byday := [] }

/-- The 128th Monday from the end of every month. -/
def leastOrdinal : Rrule :=
  { mondaysWednesdays with freq := .monthly, byday := [⟨.monday, some (-128)⟩] }

/-- A token cut inside a character; a step past the last date; the least ordinal under
overflow checks. -/
theorem parse_expand_panic :
    Rrule.parse "FREQ=WEEKLY;BYDAY=1€".toList = .error .charBoundary ∧
      Rrule.parse "FREQ=DAILY;INTERVAL=4294967295".toList = .ok (some longStride) ∧
      longStride.expand .release may13 anHour ⟨may18, may25⟩ = .error .dateRange ∧
      Rrule.parse "FREQ=MONTHLY;BYDAY=-128MO".toList = .ok (some leastOrdinal) ∧
      leastOrdinal.expand .dev may13 anHour ⟨may18, may25⟩ = .error .overflow :=
  ⟨by decide, by decide, by decide, by decide, by decide⟩

end Expresso.Recurrence
