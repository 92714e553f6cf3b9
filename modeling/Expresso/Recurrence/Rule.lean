import Expresso.Time.OffsetDateTime

/-! The recurrence rule of an event and the parser of its text form, `RRULE` values of
RFC 5545 as `expresso-rrule` reads them. -/

namespace Expresso.Recurrence
open Time Text

inductive Freq where
  | daily | weekly | monthly | yearly
  deriving DecidableEq

/-- A weekday, or its n-th occurrence (`-1` the last). The ordinal is an `i8`. -/
structure ByDay where
  weekday : Weekday
  ordinal : Option Int
  deriving DecidableEq

structure Rrule where
  freq : Freq
  interval : UInt32
  count : Option UInt32
  untilAt : Option OffsetDateTime
  byday : List ByDay
  bymonthday : List Int
  bymonth : List Nat
  bysetpos : List Int
  exdate : List OffsetDateTime
  deriving DecidableEq

/-! ### Dates of `UNTIL` and `EXDATE` -/

/-- Exactly `n` decimal digits, and what follows them. -/
def fixedDigits (n : Nat) (s : Str) : Option (Nat × Str) :=
  if (s.take n).length = n then (digits (s.take n)).map fun value => (value, s.drop n) else none

def literal (c : Char) : Str → Option Str
  | head :: rest => if head = c then some rest else none
  | [] => none

/-- `[year][month][day]`, and what follows. -/
def parseDatePart (s : Str) : Option (Date × Str) := do
  let (year, s) ← fixedDigits 4 s
  let (month, s) ← fixedDigits 2 s
  let (day, s) ← fixedDigits 2 s
  let month ← Month.tryFrom month
  let date ← Date.fromCalendarDate year month day
  some (date, s)

theorem hms_range {hour minute second : Nat} (valid : hour ≤ 23 ∧ minute ≤ 59 ∧ second ≤ 59) :
    0 ≤ ((hour * 3600 + minute * 60 + second : Nat) : Int) * 1000000000 ∧
      ((hour * 3600 + minute * 60 + second : Nat) : Int) * 1000000000 < dayNanos := by
  simp only [dayNanos]
  omega

/-- The nanosecond of the day, if the clock reading is one. -/
def fromHms (hour minute second : Nat) : Option { nanos : Int // 0 ≤ nanos ∧ nanos < dayNanos } :=
  if valid : hour ≤ 23 ∧ minute ≤ 59 ∧ second ≤ 59 then
    some ⟨((hour * 3600 + minute * 60 + second : Nat) : Int) * 1000000000, hms_range valid⟩
  else none

theorem fromHms_range (clock : { nanos : Int // 0 ≤ nanos ∧ nanos < dayNanos }) :
    0 ≤ clock.1 ∧ clock.1 < dayNanos := clock.2

/-- `YYYYMMDDTHHMMSSZ`, or `YYYYMMDD` for the last second of that day. -/
def parseUntil (raw : Str) : Option OffsetDateTime :=
  let s := trim raw
  if len s = 16 ∧ s.getLast? = some 'Z' then do
    let (date, s) ← parseDatePart s
    let s ← literal 'T' s
    let (hour, s) ← fixedDigits 2 s
    let (minute, s) ← fixedDigits 2 s
    let (second, s) ← fixedDigits 2 s
    let s ← literal 'Z' s
    let clock ← fromHms hour minute second
    if s = [] then some (OffsetDateTime.assumeUtc date clock.1 (fromHms_range clock)) else none
  else if len s = 8 then do
    let (date, s) ← parseDatePart s
    let clock ← fromHms 23 59 59
    if s = [] then some (OffsetDateTime.assumeUtc date clock.1 (fromHms_range clock)) else none
  else none

/-! ### The parts of a rule -/

def weekdayFrom (code : Str) : Option Weekday :=
  let code := toAsciiUppercase code
  if code = "MO".toList then some .monday
  else if code = "TU".toList then some .tuesday
  else if code = "WE".toList then some .wednesday
  else if code = "TH".toList then some .thursday
  else if code = "FR".toList then some .friday
  else if code = "SA".toList then some .saturday
  else if code = "SU".toList then some .sunday
  else none

/-- The weekday code is the last two bytes; a character across that boundary panics. -/
def bydayFrom (code : Str) : Except Panic (Option ByDay) := do
  let code := toAsciiUppercase code
  let (ordStr, dayStr) ← splitAt (len code - 2) code
  match weekdayFrom dayStr with
  | none => .ok none
  | some weekday =>
      if ordStr = [] then .ok (some ⟨weekday, none⟩)
      else match parseI8 ordStr with
        | none => .ok none
        | some n => if n = 0 then .ok none else .ok (some ⟨weekday, some n⟩)

def parseMonthday (v : Str) : Option Int :=
  (parseI8 v).bind fun n => if (1 ≤ n ∧ n ≤ 31) ∨ (-31 ≤ n ∧ n ≤ -1) then some n else none

def parseMonth (v : Str) : Option Nat :=
  (parseU8 v).bind fun n => if 1 ≤ n ∧ n ≤ 12 then some n else none

def freqFrom (v : Str) : Option Freq :=
  let v := toAsciiUppercase (trim v)
  if v = "DAILY".toList then some .daily
  else if v = "WEEKLY".toList then some .weekly
  else if v = "MONTHLY".toList then some .monthly
  else if v = "YEARLY".toList then some .yearly
  else none

/-- Every `BYDAY` entry in order, up to the first that does not parse. -/
def bydaysFrom : List Str → Except Panic (Option (List ByDay))
  | [] => .ok (some [])
  | d :: rest => do
      match ← bydayFrom (trim d) with
      | none => .ok none
      | some entry =>
          match ← bydaysFrom rest with
          | none => .ok none
          | some entries => .ok (some (entry :: entries))

/-- The local variables of `parse`. -/
structure Fields where
  freq : Option Freq := none
  interval : UInt32 := 1
  count : Option UInt32 := none
  untilAt : Option OffsetDateTime := none
  byday : List ByDay := []
  bymonthday : List Int := []
  bymonth : List Nat := []
  bysetpos : List Int := []
  exdate : List OffsetDateTime := []

/-- One `KEY=value` part. Unknown keys are ignored. -/
def parsePart (part : Str) (f : Fields) : Except Panic (Option Fields) :=
  match splitOnce '=' part with
  | none => .ok none
  | some (k, v) =>
      let key := toAsciiUppercase (trim k)
      if key = "FREQ".toList then
        .ok ((freqFrom v).map fun freq => { f with freq := some freq })
      else if key = "INTERVAL".toList then
        .ok ((parseU32 v).map fun interval => { f with interval := interval })
      else if key = "COUNT".toList then
        .ok ((parseU32 v).map fun count => { f with count := some count })
      else if key = "UNTIL".toList then .ok (some { f with untilAt := parseUntil v })
      else if key = "BYDAY".toList then do
        let entries ← bydaysFrom (split ',' v)
        .ok (entries.map fun entries => { f with byday := f.byday ++ entries })
      else if key = "BYMONTHDAY".toList then
        .ok (((split ',' v).mapM fun d => parseMonthday (trim d)).map fun days =>
          { f with bymonthday := f.bymonthday ++ days })
      else if key = "BYMONTH".toList then
        .ok (((split ',' v).mapM fun m => parseMonth (trim m)).map fun months =>
          { f with bymonth := f.bymonth ++ months })
      else if key = "BYSETPOS".toList then
        .ok (((split ',' v).mapM fun p => parseI32 (trim p)).map fun positions =>
          { f with bysetpos := f.bysetpos ++ positions.filter (· ≠ 0) })
      else if key = "EXDATE".toList then
        .ok (some { f with exdate := f.exdate ++
          (split ',' v).filterMap (fun d => parseUntil (trim d)) })
      else .ok (some f)

def parseParts : List Str → Fields → Except Panic (Option Fields)
  | [], f => .ok (some f)
  | part :: rest, f => do
      match ← parsePart part f with
      | none => .ok none
      | some f => parseParts rest f

/-- The rule of the parts read: `FREQ` is required, an interval of zero counts as one. -/
def Fields.finish (f : Fields) : Option Rrule :=
  f.freq.map fun freq =>
    { freq, interval := if f.interval = 0 then 1 else f.interval, count := f.count,
      untilAt := f.untilAt, byday := f.byday, bymonthday := f.bymonthday, bymonth := f.bymonth,
      bysetpos := f.bysetpos, exdate := f.exdate }

def Rrule.parse (raw : Str) : Except Panic (Option Rrule) := do
  let body := (stripPrefix "RRULE:".toList raw).getD raw
  match ← parseParts (split ';' body) {} with
  | none => .ok none
  | some f => .ok f.finish

theorem interval_of_parse {raw : Str} {r : Rrule} (parsed : Rrule.parse raw = .ok (some r)) :
    1 ≤ r.interval.toNat := by
  simp only [Rrule.parse, bind, Except.bind] at parsed
  split at parsed
  · cases parsed
  · split at parsed
    · cases parsed
    · next f _ =>
      simp only [Except.ok.injEq, Fields.finish, Option.map_eq_some_iff] at parsed
      obtain ⟨freq, -, rule⟩ := parsed
      subst rule
      simp only
      split
      · decide
      · next nonzero =>
        have positive : f.interval.toNat ≠ 0 := fun zero =>
          nonzero (UInt32.toNat_inj.mp (by simpa using zero))
        omega

end Expresso.Recurrence
