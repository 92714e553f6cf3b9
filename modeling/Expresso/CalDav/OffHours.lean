import Expresso.Interval.Gaps
import Expresso.Time.OffsetDateTime
import Mathlib.Data.List.Sort

/-! The time outside the working hours of an attendee, as busy intervals. -/

namespace Expresso.CalDav
open Time Expresso.Interval

/-- A time zone, as far as it is asked: the civil date of a timestamp, and the timestamp of a civil
hour and minute. Timestamps are in seconds since 1970. -/
structure Zone where
  civilDate : Int → Date
  timestamp : Date → Nat → Nat → Option Int

structure BusyInterval where
  start : OffsetDateTime
  stop : OffsetDateTime
  deriving DecidableEq

/-- Start and end, in minutes from midnight. -/
abbrev TimeWindow := Int × Int

/-- The day of 1970-01-01, counted as `Date.toDays` does. -/
def unixDay : Int := 719163

def unixTimestamp (t : OffsetDateTime) : Int := t.instant / 1000000000 - unixDay * 86400

theorem second_range (second : Int) :
    0 ≤ second % 86400 * 1000000000 ∧ second % 86400 * 1000000000 < dayNanos := by
  unfold dayNanos
  omega

def fromUnixTimestamp (second : Int) : Option OffsetDateTime :=
  (Date.ofDays (unixDay + second / 86400)).map fun d =>
    .assumeUtc d (second % 86400 * 1000000000) (second_range second)

/-- The seconds of `Timestamp::MIN` and `Timestamp::MAX`. -/
def minSecond : Int := -377705023201
def maxSecond : Int := 253402207200

def tomorrow (date : Date) : Option Date := (date.addDays 1).toOption

/-- `Ord::max`. -/
def later (s t : OffsetDateTime) : OffsetDateTime := if t.instant < s.instant then s else t

/-- `Ord::min`. -/
def earlier (s t : OffsetDateTime) : OffsetDateTime := if s.instant ≤ t.instant then s else t

section
variable (zone : Zone)

def utcToZonedDate (t : OffsetDateTime) : Date :=
  let second := unixTimestamp t
  zone.civilDate (if minSecond ≤ second ∧ second ≤ maxSecond then second else 0)

/-- No minutes are negative: they come from a cursor that starts at midnight. -/
def localMinutesToUtc (date : Date) (minutes : Int) : Option OffsetDateTime := do
  let (d, hm) ← if 1440 ≤ minutes then (tomorrow date).map fun next => (next, 0)
    else some (date, minutes.toNat)
  let second ← zone.timestamp d (hm / 60) (hm % 60)
  fromUnixTimestamp second

variable (fromTime toTime : OffsetDateTime)

def pushLocal (out : List BusyInterval) (date : Date) (startMin endMin : Int) :
    List BusyInterval :=
  match localMinutesToUtc zone date startMin, localMinutesToUtc zone date endMin with
  | some sUtc, some eUtc =>
      let s := later sUtc fromTime
      let e := earlier eUtc toTime
      if s.instant < e.instant then out ++ [⟨s, e⟩] else out
  | _, _ => out

/-- The order in which windows are sorted. -/
def windowLe (v w : TimeWindow) : Prop := v.1 < w.1 ∨ v.1 = w.1 ∧ v.2 ≤ w.2

instance : DecidableRel windowLe := fun _ _ => inferInstanceAs (Decidable (_ ∨ _))

/-- What a window leaves before it is pushed, and the cursor moves to its end. -/
def pushWindow (date : Date) (state : Int × List BusyInterval) (w : TimeWindow) :
    Int × List BusyInterval :=
  (max state.1 w.2,
    if state.1 < w.1 then pushLocal zone fromTime toTime state.2 date state.1 w.1 else state.2)

/-- What is left of the day after its windows. -/
def pushRest (date : Date) (state : Int × List BusyInterval) : List BusyInterval :=
  if state.1 < 1440 then pushLocal zone fromTime toTime state.2 date state.1 1440 else state.2

def pushDay (byDay : Weekday → List TimeWindow) (out : List BusyInterval) (date : Date) :
    List BusyInterval :=
  let windows := (byDay date.weekday).insertionSort windowLe
  pushRest zone fromTime toTime date (windows.foldl (pushWindow zone fromTime toTime date) (0, out))

/-- The loop over the days. At the last date of all the next date is the same one. -/
def scanDays (byDay : Weekday → List TimeWindow) (startLocal endLocal : Date) :
    Nat → Date → List BusyInterval → Option (List BusyInterval)
  | 0, _, _ => none
  | fuel + 1, date, out =>
      if endLocal.toDays < date.toDays then some out
      else
        let out := pushDay zone fromTime toTime byDay out date
        let next := (tomorrow date).getD date
        if next = endLocal ∧ startLocal = endLocal then some out
        else scanDays byDay startLocal endLocal fuel next out

end

/-- The busy intervals, where as many rounds as there are days are enough. -/
def offHoursIntervals (zones : List Char → Option Zone) (utc : Zone) (tz : List Char)
    (byDay : Weekday → List TimeWindow) (fromTime toTime : OffsetDateTime) : Option (List BusyInterval) :=
  let zone := (zones tz).getD utc
  let startLocal := utcToZonedDate zone fromTime
  let endLocal := utcToZonedDate zone toTime
  scanDays zone fromTime toTime byDay startLocal endLocal
    ((endLocal.toDays - startLocal.toDays).toNat + 2) startLocal []

/-! ### A fixed offset -/

/-- What a zone with one offset, in seconds, answers where its answers are timestamps. -/
structure FixedOffset (zone : Zone) (offset : Int) : Prop where
  range : -93599 ≤ offset ∧ offset ≤ 93599
  civilDate : ∀ second, minSecond ≤ second → second ≤ maxSecond →
    (zone.civilDate second).toDays = unixDay + (second + offset) / 86400
  timestamp : ∀ (d : Date) (hour minute : Nat), hour < 24 → minute < 60 →
    let second := (d.toDays - unixDay) * 86400 + hour * 3600 + minute * 60 - offset
    minSecond ≤ second → second ≤ maxSecond → zone.timestamp d hour minute = some second

/-- The second of a local day at which a minute of it begins, the day being over at the last. -/
def minuteSecond (offset day minute : Int) : Int := day * 86400 + min minute 1440 * 60 - offset

def minuteInstant (offset day minute : Int) : Int := minuteSecond offset day minute * 1000000000

def localDay (offset x : Int) : Int := (x / 1000000000 + offset) / 86400

def localMinute (offset x : Int) : Int := (x / 1000000000 + offset) % 86400 / 60

/-- The instant lies in a working window of its weekday. -/
def Working (byDay : Weekday → List TimeWindow) (offset x : Int) : Prop :=
  Covers (byDay (weekdayOf (localDay offset x))) (localMinute offset x)

def instants (out : List BusyInterval) : List (Int × Int) :=
  out.map fun b => (b.start.instant, b.stop.instant)

theorem instant_later (s t : OffsetDateTime) :
    (later s t).instant = max s.instant t.instant := by
  unfold later
  split <;> omega

theorem instant_earlier (s t : OffsetDateTime) :
    (earlier s t).instant = min s.instant t.instant := by
  unfold earlier
  split <;> omega

theorem fromUnixTimestamp_some {second : Int} (low : minSecond ≤ second)
    (high : second ≤ maxSecond) : ∃ t, fromUnixTimestamp second = some t ∧
      t.instant = (unixDay * 86400 + second) * 1000000000 := by
  have representable : Date.minDay ≤ unixDay + second / 86400 ∧
      unixDay + second / 86400 ≤ Date.maxDay := by
    have first : Date.minDay = -3652424 := by decide
    have last : Date.maxDay = 3652059 := by decide
    unfold minSecond at low
    unfold maxSecond at high
    unfold unixDay
    omega
  obtain ⟨d, found⟩ := (Date.ofDays_eq_some_iff _).mpr representable
  refine ⟨_, by rw [fromUnixTimestamp, found]; rfl, ?_⟩
  have days := Date.toDays_of_ofDays found
  simp only [OffsetDateTime.instant, OffsetDateTime.assumeUtc, days, dayNanos]
  omega

theorem tomorrow_some {date : Date} (inside : date.toDays + 1 ≤ Date.maxDay) :
    ∃ next, tomorrow date = some next ∧ next.toDays = date.toDays + 1 := by
  have range := date.toDays_range
  obtain ⟨next, added⟩ := (Date.addDays_ok_iff date 1).mpr ⟨by omega, inside⟩
  refine ⟨next, ?_, Date.toDays_of_addDays added⟩
  rw [tomorrow, added]
  rfl

/-- Midnight at both ends of the day is a timestamp. -/
structure DayWithin (offset day : Int) : Prop where
  low : minSecond ≤ (day - unixDay) * 86400 - offset
  high : (day + 1 - unixDay) * 86400 - offset ≤ maxSecond

section
variable {zone : Zone} {offset : Int} (fixed : FixedOffset zone offset)
include fixed

theorem DayWithin.succ_le {day : Int} (within : DayWithin offset day) : day + 1 ≤ Date.maxDay := by
  have last : Date.maxDay = 3652059 := by decide
  have bound := fixed.range
  have high := within.high
  unfold maxSecond unixDay at high
  omega

theorem localMinutesToUtc_some {date : Date} (within : DayWithin offset date.toDays) {minutes : Int}
    (positive : 0 ≤ minutes) : ∃ t, localMinutesToUtc zone date minutes = some t ∧
      t.instant = minuteInstant offset date.toDays minutes := by
  have low := within.low
  have high := within.high
  by_cases over_ : 1440 ≤ minutes
  · obtain ⟨next, following, days⟩ := tomorrow_some (within.succ_le fixed)
    have asked := fixed.timestamp next 0 0 (by decide) (by decide)
    rw [days] at asked
    have second := asked (by push_cast; omega) (by push_cast; omega)
    obtain ⟨t, found, instant⟩ := @fromUnixTimestamp_some
      ((date.toDays + 1 - unixDay) * 86400 - offset) (by omega) (by omega)
    have value : (date.toDays + 1 - unixDay) * 86400 + (0 : Nat) * 3600 + (0 : Nat) * 60 - offset =
        (date.toDays + 1 - unixDay) * 86400 - offset := by push_cast; omega
    rw [value] at second
    refine ⟨t, ?_, ?_⟩
    · simp only [localMinutesToUtc, if_pos over_, following, Option.map_some, Option.bind_eq_bind,
        Option.bind_some, Nat.zero_div, Nat.zero_mod, second, found]
    · rw [instant, minuteInstant, minuteSecond]
      omega
  · have hours : minutes.toNat / 60 < 24 := by omega
    have asked := fixed.timestamp date (minutes.toNat / 60) (minutes.toNat % 60) hours
      (Nat.mod_lt _ (by decide))
    have value : (date.toDays - unixDay) * 86400 + (minutes.toNat / 60 : Nat) * 3600 +
        (minutes.toNat % 60 : Nat) * 60 - offset =
          (date.toDays - unixDay) * 86400 + minutes * 60 - offset := by
      omega
    rw [value] at asked
    have second := asked (by omega) (by omega)
    obtain ⟨t, found, instant⟩ := @fromUnixTimestamp_some
      ((date.toDays - unixDay) * 86400 + minutes * 60 - offset) (by omega) (by omega)
    refine ⟨t, ?_, ?_⟩
    · simp only [localMinutesToUtc, if_neg over_, Option.bind_eq_bind, Option.bind_some, second,
        found]
    · rw [instant, minuteInstant, minuteSecond]
      omega

variable (fromTime toTime : OffsetDateTime)

/-- A pushed interval is what lies in the window of the request. -/
theorem instants_pushLocal (out : List BusyInterval) {date : Date}
    (within : DayWithin offset date.toDays) {first last : Int} (positive : 0 ≤ first)
    (positive' : 0 ≤ last) : instants (pushLocal zone fromTime toTime out date first last) =
      instants out ++ (clip fromTime.instant toTime.instant
        (minuteInstant offset date.toDays first, minuteInstant offset date.toDays last)).toList := by
  obtain ⟨s, started, sInstant⟩ := localMinutesToUtc_some fixed within positive
  obtain ⟨e, ended, eInstant⟩ := localMinutesToUtc_some fixed within positive'
  simp only [pushLocal, started, ended, clip, instant_later, instant_earlier, sInstant, eInstant]
  split
  · simp [instants, instant_later, instant_earlier, sInstant, eInstant]
  · simp

/-- The part of a day that the windows leave, as far as it is asked for. -/
def freeOf (offset day : Int) (windows : List TimeWindow) (cursor first last : Int) :
    List (Int × Int) :=
  ((gaps 1440 cursor windows).map fun g =>
    (minuteInstant offset day g.1, minuteInstant offset day g.2)).filterMap (clip first last)

theorem instants_windows {date : Date} (within : DayWithin offset date.toDays)
    (windows : List TimeWindow) {cursor : Int} (start : 0 ≤ cursor) (out : List BusyInterval) :
    instants (pushRest zone fromTime toTime date
        (windows.foldl (pushWindow zone fromTime toTime date) (cursor, out))) =
      instants out ++
        freeOf offset date.toDays windows cursor fromTime.instant toTime.instant := by
  induction windows generalizing cursor out with
  | nil =>
    rw [List.foldl_nil, freeOf, gaps, pushRest]
    by_cases before : cursor < 1440
    · rw [if_pos before, if_pos before,
        instants_pushLocal fixed fromTime toTime out within start (by decide)]
      rfl
    · rw [if_neg before, if_neg before]
      exact (List.append_nil _).symm
  | cons w rest ih =>
    have next : 0 ≤ max cursor w.2 := start.trans (le_max_left _ _)
    rw [List.foldl_cons, pushWindow, ih next, freeOf, freeOf, gaps, List.map_append,
      List.filterMap_append, ← List.append_assoc]
    congr 1
    by_cases before : cursor < w.1
    · rw [if_pos before, if_pos before,
        instants_pushLocal fixed fromTime toTime out within start (start.trans before.le)]
      rfl
    · rw [if_neg before, if_neg before]
      exact (List.append_nil _).symm

/-- The windows of a day in the order in which they are read. -/
def sortedWindows (byDay : Weekday → List TimeWindow) (day : Int) : List TimeWindow :=
  (byDay (weekdayOf day)).insertionSort windowLe

/-- The days that are left to scan each add their part. -/
theorem scanDays_some (byDay : Weekday → List TimeWindow) (startLocal endLocal : Date) {fuel : Nat}
    {date : Date} {out : List BusyInterval}
    (enough : (endLocal.toDays + 1 - date.toDays).toNat < fuel)
    (within : ∀ day, date.toDays ≤ day → day ≤ endLocal.toDays → DayWithin offset day)
    (after : startLocal.toDays ≤ date.toDays) :
    ∃ out', scanDays zone fromTime toTime byDay startLocal endLocal fuel date out = some out' ∧
      instants out' = instants out ++
        (List.range (endLocal.toDays + 1 - date.toDays).toNat).flatMap fun k : Nat =>
          freeOf offset (date.toDays + k) (sortedWindows byDay (date.toDays + k)) 0
            fromTime.instant toTime.instant := by
  induction fuel generalizing date out with
  | zero => exact absurd enough (Nat.not_lt_zero _)
  | succ fuel ih =>
    rw [scanDays]
    by_cases over_ : endLocal.toDays < date.toDays
    · have none_ : (endLocal.toDays + 1 - date.toDays).toNat = 0 := by omega
      refine ⟨out, if_pos over_, ?_⟩
      rw [none_]
      exact (List.append_nil _).symm
    · have here := within date.toDays (le_refl _) (by omega)
      obtain ⟨next, following, days⟩ := tomorrow_some (here.succ_le fixed)
      have apart : ¬(next = endLocal ∧ startLocal = endLocal) := by
        rintro ⟨rfl, rfl⟩
        omega
      obtain ⟨out', scanned, parts⟩ := @ih next (pushDay zone fromTime toTime byDay out date)
        (by omega) (fun day low high => within day (by omega) high) (by omega)
      refine ⟨out', ?_, ?_⟩
      · rw [if_neg over_, following, Option.getD_some]
        exact (if_neg apart).trans scanned
      · have count : (endLocal.toDays + 1 - date.toDays).toNat =
            (endLocal.toDays + 1 - next.toDays).toNat + 1 := by omega
        have day : instants (pushDay zone fromTime toTime byDay out date) = instants out ++
            freeOf offset date.toDays (sortedWindows byDay date.toDays) 0 fromTime.instant
              toTime.instant :=
          instants_windows fixed fromTime toTime here _ (le_refl 0) out
        rw [parts, day, count, List.range_succ_eq_map, List.flatMap_cons, List.flatMap_map,
          List.append_assoc, Nat.cast_zero, Int.add_zero, days]
        congr 2
        apply List.flatMap_congr
        intro k _
        rw [Nat.succ_eq_add_one, Nat.cast_add, Nat.cast_one, Int.add_assoc, Int.add_comm 1]

end

/-! ### The complement of the working time -/

/-- An instant lies between two minutes of a day, just where it is of that day and its minute lies
between them. -/
theorem between_minutes_iff {offset day first last x : Int} (positive : 0 ≤ first) :
    minuteInstant offset day first ≤ x ∧ x < minuteInstant offset day last ∧ first < last ↔
      localDay offset x = day ∧ first ≤ localMinute offset x ∧ localMinute offset x < last := by
  unfold minuteInstant minuteSecond localDay localMinute
  constructor
  · rintro ⟨low, high, -⟩
    omega
  · rintro ⟨rfl, low, high⟩
    omega

theorem minuteInstant_mono (offset day : Int) : Monotone (minuteInstant offset day) := by
  intro first last ordered
  unfold minuteInstant minuteSecond
  omega

instance : Std.Total windowLe := ⟨fun v w => by unfold windowLe; omega⟩

instance : IsTrans TimeWindow windowLe := ⟨fun u v w => by unfold windowLe; omega⟩

theorem sortedWindows_sorted (byDay : Weekday → List TimeWindow) (day : Int) :
    (sortedWindows byDay day).Pairwise fun v w => v.1 ≤ w.1 := by
  apply (List.pairwise_insertionSort windowLe _).imp
  intro v w ordered
  unfold windowLe at ordered
  omega

/-- What a day adds covers the instants of it that no window covers. -/
theorem covers_freeOf_iff (byDay : Weekday → List TimeWindow) {offset day first last x : Int}
    (low : first ≤ x) (high : x < last) :
    Covers (freeOf offset day (sortedWindows byDay day) 0 first last) x ↔
      localDay offset x = day ∧ ¬Working byDay offset x := by
  have sameWindows : Covers (sortedWindows byDay day) (localMinute offset x) ↔
      Covers (byDay (weekdayOf day)) (localMinute offset x) := by
    simp only [Covers, sortedWindows, List.mem_insertionSort]
  have minute : 0 ≤ localMinute offset x ∧ localMinute offset x < 1440 := by
    unfold localMinute
    omega
  have left : Covers (gaps 1440 0 (sortedWindows byDay day)) (localMinute offset x) ↔
      0 ≤ localMinute offset x ∧ ¬Covers (sortedWindows byDay day) (localMinute offset x) :=
    covers_gaps_iff (sortedWindows_sorted byDay day) minute.2
  rw [freeOf, covers_clip_iff low high]
  constructor
  · rintro ⟨j, member, inside⟩
    obtain ⟨g, among, rfl⟩ := List.mem_map.mp member
    obtain ⟨positive, nonempty⟩ := le_of_mem_gaps among
    obtain ⟨rfl, within⟩ := (between_minutes_iff positive).mp ⟨inside.1, inside.2, nonempty⟩
    refine ⟨rfl, fun working => ?_⟩
    exact (left.mp ⟨g, among, within⟩).2 (sameWindows.mpr working)
  · rintro ⟨rfl, free⟩
    obtain ⟨g, among, within⟩ := left.mpr ⟨minute.1, fun working => free (sameWindows.mp working)⟩
    have positive := (le_of_mem_gaps among).1
    obtain ⟨starts, ends, -⟩ := (between_minutes_iff positive).mpr ⟨rfl, within⟩
    exact ⟨_, List.mem_map_of_mem among, starts, ends⟩

theorem apart_freeOf {byDay : Weekday → List TimeWindow} (proper : ∀ day, ∀ w ∈ byDay day, w.1 ≤ w.2)
    (offset day first last : Int) :
    Apart (freeOf offset day (sortedWindows byDay day) 0 first last) := by
  have sorted : ∀ w ∈ sortedWindows byDay day, w.1 ≤ w.2 := fun w member =>
    proper _ w ((List.mem_insertionSort windowLe).mp member)
  exact apart_clip (apart_map (apart_gaps sorted 0) (minuteInstant_mono offset day)) first last

/-- What a day adds lies in that day. -/
theorem freeOf_within {offset day first last : Int} {windows : List TimeWindow} {i : Int × Int}
    (member : i ∈ freeOf offset day windows 0 first last) :
    minuteInstant offset day 0 ≤ i.1 ∧ i.2 ≤ minuteInstant offset (day + 1) 0 := by
  obtain ⟨j, among, clipped⟩ := List.mem_filterMap.mp member
  obtain ⟨g, inside, rfl⟩ := List.mem_map.mp among
  obtain ⟨rfl, -⟩ := clip_eq_some clipped
  have positive := (le_of_mem_gaps inside).1
  unfold minuteInstant minuteSecond
  dsimp only
  omega

/-- Two days from the limits of the timestamps. -/
structure AwayFromLimits (fromTime toTime : OffsetDateTime) : Prop where
  low : minSecond + 2 * 86400 ≤ unixTimestamp fromTime
  high : unixTimestamp toTime + 2 * 86400 ≤ maxSecond

theorem utcToZonedDate_toDays {zone : Zone} {offset : Int} (fixed : FixedOffset zone offset)
    {t : OffsetDateTime} (low : minSecond ≤ unixTimestamp t) (high : unixTimestamp t ≤ maxSecond) :
    (utcToZonedDate zone t).toDays = localDay offset t.instant := by
  rw [utcToZonedDate, if_pos ⟨low, high⟩, fixed.civilDate _ low high, localDay, unixTimestamp]
  omega

section
variable {zones : List Char → Option Zone} {utc : Zone} {tz : List Char}
  {byDay : Weekday → List TimeWindow} {offset : Int} {fromTime toTime : OffsetDateTime}

/-- The intervals are those of the local days, from the first to the last. -/
theorem offHoursIntervals_some (fixed : FixedOffset ((zones tz).getD utc) offset)
    (ordered : fromTime.instant < toTime.instant) (away : AwayFromLimits fromTime toTime) :
    ∃ out, offHoursIntervals zones utc tz byDay fromTime toTime = some out ∧
      instants out = (List.range (localDay offset toTime.instant + 1 -
        localDay offset fromTime.instant).toNat).flatMap fun k : Nat =>
          freeOf offset (localDay offset fromTime.instant + k)
            (sortedWindows byDay (localDay offset fromTime.instant + k)) 0
            fromTime.instant toTime.instant := by
  have low := away.low
  have high := away.high
  have bound := fixed.range
  have timestamps : unixTimestamp fromTime ≤ unixTimestamp toTime := by
    unfold unixTimestamp
    omega
  have first : (utcToZonedDate ((zones tz).getD utc) fromTime).toDays =
      localDay offset fromTime.instant :=
    utcToZonedDate_toDays fixed (by omega) (by omega)
  have last : (utcToZonedDate ((zones tz).getD utc) toTime).toDays =
      localDay offset toTime.instant :=
    utcToZonedDate_toDays fixed (by omega) (by omega)
  have within : ∀ day, localDay offset fromTime.instant ≤ day →
      day ≤ localDay offset toTime.instant → DayWithin offset day := by
    intro day after before
    unfold localDay at after before
    unfold unixTimestamp at low high
    exact ⟨by omega, by omega⟩
  rw [offHoursIntervals]
  generalize utcToZonedDate ((zones tz).getD utc) fromTime = startLocal at first
  generalize utcToZonedDate ((zones tz).getD utc) toTime = endLocal at last
  have days : ∀ day, startLocal.toDays ≤ day → day ≤ endLocal.toDays → DayWithin offset day := by
    rw [first, last]
    exact within
  have enough : (endLocal.toDays + 1 - startLocal.toDays).toNat <
      (endLocal.toDays - startLocal.toDays).toNat + 2 := by omega
  obtain ⟨out, scanned, parts⟩ := @scanDays_some ((zones tz).getD utc) offset fixed fromTime toTime
    byDay startLocal endLocal _ startLocal [] enough days (le_refl _)
  refine ⟨out, scanned, ?_⟩
  rw [parts, first, last]
  rfl

/-- The intervals follow one another inside the window that is asked for, and an instant of it lies
in one of them just where it is not working time. -/
theorem off_hours_exact (fixed : FixedOffset ((zones tz).getD utc) offset)
    (proper : ∀ day, ∀ w ∈ byDay day, w.1 ≤ w.2)
    (ordered : fromTime.instant < toTime.instant) (away : AwayFromLimits fromTime toTime) :
    ∃ out, offHoursIntervals zones utc tz byDay fromTime toTime = some out ∧
      out.Pairwise (fun a b => a.stop.instant ≤ b.start.instant) ∧
      (∀ b ∈ out, fromTime.instant ≤ b.start.instant ∧ b.start.instant < b.stop.instant ∧
        b.stop.instant ≤ toTime.instant) ∧
      ∀ x, fromTime.instant ≤ x → x < toTime.instant →
        ((∃ b ∈ out, b.start.instant ≤ x ∧ x < b.stop.instant) ↔ ¬Working byDay offset x) := by
  obtain ⟨out, found, parts⟩ :=
    @offHoursIntervals_some zones utc tz byDay offset fromTime toTime fixed ordered away
  refine ⟨out, found, ?_, ?_, fun x low high => ?_⟩
  · have apart : Apart (instants out) := by
      rw [parts]
      apply apart_flatMap (fun k _ => apart_freeOf proper offset _ _ _)
        (fun k _ i member => freeOf_within member)
      apply List.pairwise_lt_range.imp
      intro k l before
      unfold minuteInstant minuteSecond
      omega
    exact List.pairwise_map.mp apart
  · intro b member
    have listed : (b.start.instant, b.stop.instant) ∈ instants out := List.mem_map_of_mem member
    rw [parts] at listed
    obtain ⟨k, -, part⟩ := List.mem_flatMap.mp listed
    exact within_clip part
  · have covered : (∃ b ∈ out, b.start.instant ≤ x ∧ x < b.stop.instant) ↔
        Covers (instants out) x := by
      simp only [Covers, instants, List.mem_map, exists_exists_and_eq_and]
    rw [covered, parts, covers_flatMap]
    constructor
    · rintro ⟨k, -, inside⟩
      exact ((covers_freeOf_iff byDay low high).mp inside).2
    · intro free
      have days : localDay offset fromTime.instant ≤ localDay offset x ∧
          localDay offset x ≤ localDay offset toTime.instant := by
        unfold localDay
        omega
      refine ⟨(localDay offset x - localDay offset fromTime.instant).toNat, ?_, ?_⟩
      · rw [List.mem_range]
        omega
      · exact (covers_freeOf_iff byDay low high).mpr ⟨by omega, free⟩

end

/-! ### A zone -/

/-- The zone of an offset. -/
def Zone.ofOffset (offset : Int) : Zone where
  civilDate second := (Date.ofDays (unixDay + (second + offset) / 86400)).getD
    ⟨1970, .january, 1, by decide, by decide⟩
  timestamp d hour minute :=
    let second := (d.toDays - unixDay) * 86400 + hour * 3600 + minute * 60 - offset
    if minSecond ≤ second ∧ second ≤ maxSecond then some second else none

theorem fixedOffset_ofOffset {offset : Int} (range : -93599 ≤ offset ∧ offset ≤ 93599) :
    FixedOffset (Zone.ofOffset offset) offset where
  range := range
  civilDate second low high := by
    have representable : Date.minDay ≤ unixDay + (second + offset) / 86400 ∧
        unixDay + (second + offset) / 86400 ≤ Date.maxDay := by
      have first : Date.minDay = -3652424 := by decide
      have last : Date.maxDay = 3652059 := by decide
      unfold minSecond at low
      unfold maxSecond at high
      unfold unixDay
      omega
    obtain ⟨d, found⟩ := (Date.ofDays_eq_some_iff _).mpr representable
    change ((Date.ofDays (unixDay + (second + offset) / 86400)).getD _).toDays = _
    rw [found]
    exact Date.toDays_of_ofDays found
  timestamp d hour minute _ _ low high := if_pos ⟨low, high⟩

private def june (day : Nat) (range : 1 ≤ day ∧ day ≤ 30) : OffsetDateTime :=
  .assumeUtc ⟨2026, .june, day, Time.year_2026, range⟩ 0 Time.midnight_range

/-- Monday from nine to five. -/
private def mondays (day : Weekday) : List TimeWindow :=
  if day = .monday then [(540, 1020)] else []

example : (offHoursIntervals (fun _ => none) (.ofOffset (-10800)) [] mondays
    (june 1 (by decide)) (june 2 (by decide))).map (·.map fun b =>
      ((b.start.instant - (june 1 (by decide)).instant) / 3600000000000,
        (b.stop.instant - (june 1 (by decide)).instant) / 3600000000000)) =
    some [(0, 3), (3, 12), (20, 24)] := by
  decide

theorem off_hours_exact_june : ∃ out, offHoursIntervals (fun _ => none) (.ofOffset (-10800)) []
    mondays (june 1 (by decide)) (june 2 (by decide)) = some out ∧
      out.Pairwise fun a b => a.stop.instant ≤ b.start.instant := by
  have proper : ∀ day, ∀ w ∈ mondays day, w.1 ≤ w.2 := by
    intro day
    cases day <;> decide
  obtain ⟨out, found, apart, -⟩ := @off_hours_exact (fun _ => none) (.ofOffset (-10800)) [] mondays
    (-10800) (june 1 (by decide)) (june 2 (by decide)) (fixedOffset_ofOffset (by decide)) proper
    (by decide) ⟨by decide, by decide⟩
  exact ⟨out, found, apart⟩

end Expresso.CalDav
