import Expresso.Recurrence.Series

/-! What an expansion returns: its instances, in order, are occurrences of the recurrence
set that overlap the window; all of them, exactly when no such occurrence lies in a period
whose anchor already stops the loop. -/

namespace Expresso.Recurrence
open Time Periodic

section Results

variable {profile : Profile} {r : Rrule} {dtstart : OffsetDateTime} {duration : Duration}
  {window : Window}

variable (profile dtstart) in
theorem recurrenceSet_increasing (positive : 1 ≤ r.interval.toNat) :
    (recurrenceSet profile r dtstart).Pairwise fun p q => p.2.instant < q.2.instant :=
  (seriesOf_increasing positive).sublist (List.take_sublist r.limitCount _)

variable (profile dtstart) in
/-- The rest of the recurrence set lies in periods whose anchor stops the loop. -/
theorem recurrenceSet_split (positive : 1 ≤ r.interval.toNat) (window : Window) :
    ∃ rest, recurrenceSet profile r dtstart = consumed profile r dtstart window ++ rest ∧
      ∀ p ∈ rest, stops r window p.1 = true := by
  obtain ⟨rest, split, stopped⟩ := seriesOf_split profile dtstart positive window
  refine ⟨_, by rw [recurrenceSet, split, List.take_append, consumed], ?_⟩
  intro p member
  exact stopped p (List.mem_of_mem_take member)

theorem recurrenceSet_inSeries {p : OffsetDateTime × OffsetDateTime}
    (member : p ∈ recurrenceSet profile r dtstart) : inSeries r dtstart p.2 = true := by
  have each : ∀ s items next, period profile r dtstart s = some (items, next) →
      ∀ c ∈ items, inSeries r dtstart c = true :=
    fun _ _ _ found c among => ((period_some found).2.1 c among).1
  have among : p ∈ series (period profile r dtstart) maxIter dtstart := List.mem_of_mem_take member
  exact walk_forall each maxIter dtstart p among

theorem consumed_not_stopped {p : OffsetDateTime × OffsetDateTime}
    (member : p ∈ consumed profile r dtstart window) : stops r window p.1 = false :=
  walk_not_stopped maxIter dtstart p (List.mem_of_mem_take member)

theorem occurrence_eq_some {c : OffsetDateTime} {o : Occurrence}
    (shown : occurrence r duration window c = some o) :
    o.1 = c ∧ r.isExcluded c = false ∧ c.add duration = .ok o.2 ∧
      window.overlaps duration c = true := by
  simp only [occurrence] at shown
  split at shown
  · cases shown
  · next kept =>
    split at shown
    · cases shown
    · next finish added =>
      split at shown
      · next overlap =>
        cases shown
        exact ⟨rfl, by simpa using kept, added, overlap⟩
      · cases shown

/-- Up to any instance returned, the series has no more candidates than `COUNT`. -/
theorem candidates_upto_le (positive : 1 ≤ r.interval.toNat)
    {p : OffsetDateTime × OffsetDateTime} (member : p ∈ recurrenceSet profile r dtstart)
    {n : UInt32} (limited : r.count = some n) :
    ((seriesOf profile r dtstart).filter fun q => q.2.instant ≤ p.2.instant).length ≤ n.toNat := by
  have limit : r.limitCount = n.toNat := by simp [Rrule.limitCount, limited]
  have bound := length_upto_le (seriesOf_increasing positive) member
  rwa [limit] at bound

end Results

/-- For every parsed rule, an expansion is strictly increasing, and each instance is in the
series, not excluded, overlaps the window, ends after the given duration, and is among the
first `COUNT` candidates of the series, excluded ones counted. -/
theorem expand_instances {raw : Text.Str} {rule : Rrule} (parsed : Rrule.parse raw = .ok (some rule))
    (profile : Profile) (exdates : List OffsetDateTime) (dtstart : OffsetDateTime)
    (duration : Duration) (window : Window) {l : List Occurrence}
    (expanded : Rrule.expand profile { rule with exdate := exdates } dtstart duration window =
      .ok l) :
    l.Pairwise (fun o o' => o.1.instant < o'.1.instant) ∧
      ∀ o ∈ l, dtstart.instant ≤ o.1.instant ∧
        (∀ u, rule.untilAt = some u → o.1.instant ≤ u.instant) ∧
        (∀ x ∈ exdates, x.instant ≠ o.1.instant) ∧
        o.1.instant < window.winTo.instant ∧ window.winFrom.instant < o.2.instant ∧
        o.1.add duration = .ok o.2 ∧
        ∀ n, rule.count = some n →
          ((seriesOf profile { rule with exdate := exdates } dtstart).filter
            fun q => q.2.instant ≤ o.1.instant).length ≤ n.toNat := by
  have positive := interval_of_parse parsed
  generalize excluding : { rule with exdate := exdates } = r at expanded
  have interval : 1 ≤ r.interval.toNat := by rw [← excluding]; exact positive
  obtain ⟨listed, _⟩ := expand_ok expanded
  obtain ⟨rest, split, _⟩ := recurrenceSet_split profile dtstart interval window
  have ordered : (consumed profile r dtstart window).Pairwise
      fun p q => p.2.instant < q.2.instant := by
    have whole := recurrenceSet_increasing profile dtstart interval
    rw [split] at whole
    exact (List.pairwise_append.mp whole).1
  constructor
  · rw [listed, List.pairwise_filterMap]
    refine ordered.imp ?_
    intro p q before o shown o' shown'
    rw [(occurrence_eq_some shown).1, (occurrence_eq_some shown').1]
    exact before
  · intro o member
    rw [listed] at member
    obtain ⟨p, among, shown⟩ := List.mem_filterMap.mp member
    obtain ⟨start, kept, added, overlap⟩ := occurrence_eq_some shown
    have inSet : p ∈ recurrenceSet profile r dtstart := by
      rw [split]
      exact List.mem_append_left rest among
    have range := recurrenceSet_inSeries inSet
    have finish := OffsetDateTime.instant_of_add added
    simp only [inSeries, Bool.and_eq_true, decide_eq_true_eq, Bool.not_eq_true'] at range
    simp only [Window.overlaps, Bool.and_eq_true, decide_eq_true_eq] at overlap
    rw [start]
    refine ⟨range.1, ?_, ?_, overlap.2, by omega, added, ?_⟩
    · intro u bounded
      have notPast := range.2
      rw [← excluding] at notPast
      simpa [Rrule.pastUntil, bounded] using notPast
    · intro x excluded same
      rw [← excluding] at kept
      have differs := List.any_eq_false.mp kept x excluded
      simp only [decide_eq_true_eq] at differs
      exact differs same
    · intro n limited
      exact candidates_upto_le interval inSet (by rw [← excluding]; exact limited)

/-- Mondays and Wednesdays from Wednesday, 13 May 2026, at ten, for an hour. -/
def mondaysWednesdays : Rrule where
  freq := .weekly
  interval := 1
  count := none
  untilAt := none
  byday := [⟨.monday, none⟩, ⟨.wednesday, none⟩]
  bymonthday := []
  bymonth := []
  bysetpos := []
  exdate := []

def may13 : OffsetDateTime :=
  .assumeUtc ⟨2026, .may, 13, Time.year_2026, by decide⟩ 36000000000000 Time.ten_range
def may18 : OffsetDateTime :=
  .assumeUtc ⟨2026, .may, 18, Time.year_2026, Time.may_eighteenth⟩ 0 Time.midnight_range
def may19 : OffsetDateTime :=
  .assumeUtc ⟨2026, .may, 19, Time.year_2026, by decide⟩ 0 Time.midnight_range
def may25 : OffsetDateTime :=
  .assumeUtc ⟨2026, .may, 25, Time.year_2026, by decide⟩ 0 Time.midnight_range

def anHour : Duration := 3600000000000

theorem parse_mondaysWednesdays :
    Rrule.parse "FREQ=WEEKLY;BYDAY=MO,WE".toList = .ok (some mondaysWednesdays) := by
  decide

theorem expand_instances_week :
    ∃ l, mondaysWednesdays.expand .release may13 anHour ⟨may18, may25⟩ = .ok l ∧ l.length = 2 ∧
      l.Pairwise fun o o' => o.1.instant < o'.1.instant :=
  ⟨_, rfl, by decide,
    (expand_instances parse_mondaysWednesdays .release [] may13 anHour ⟨may18, may25⟩ rfl).1⟩

/-! ### One window inside another -/

/-- Contained in the other window. -/
def Window.Within (inner outer : Window) : Prop :=
  outer.winFrom.instant ≤ inner.winFrom.instant ∧ inner.winTo.instant ≤ outer.winTo.instant

/-- The occurrence starts before the end of the window and ends after its start. -/
def Window.meets (window : Window) (o : Occurrence) : Bool :=
  window.winFrom.instant < o.2.instant && o.1.instant < window.winTo.instant

/-- The occurrences of the recurrence set that a query over the window is about. -/
def Due (profile : Profile) (r : Rrule) (dtstart : OffsetDateTime) (duration : Duration)
    (window : Window) (p : OffsetDateTime × OffsetDateTime) : Prop :=
  p ∈ recurrenceSet profile r dtstart ∧ r.isExcluded p.2 = false ∧
    window.overlaps duration p.2 = true

section Nested

variable {profile : Profile} {r : Rrule} {dtstart : OffsetDateTime} {duration : Duration}
  {outer inner : Window}

theorem overlaps_of_within (contained : inner.Within outer) {c : OffsetDateTime}
    (overlap : inner.overlaps duration c = true) : outer.overlaps duration c = true := by
  obtain ⟨start, finish⟩ := contained
  simp only [Window.overlaps, Bool.and_eq_true, decide_eq_true_eq] at overlap ⊢
  omega

variable (profile r dtstart) in
/-- A smaller window stops the loop no later; what it leaves out is stopped there. -/
theorem consumed_prefix (contained : inner.Within outer) :
    ∃ more, consumed profile r dtstart outer = consumed profile r dtstart inner ++ more := by
  have earlier : ∀ s, stops r outer s → stops r inner s := by
    intro s stopped
    obtain ⟨_, finish⟩ := contained
    simp only [stops, Bool.or_eq_true, decide_eq_true_eq] at stopped ⊢
    exact stopped.imp id (fun reached => by omega)
  have cut : walk (period profile r dtstart) (stops r inner) maxIter dtstart <+:
      walk (period profile r dtstart) (stops r outer) maxIter dtstart :=
    walk_prefix earlier maxIter dtstart
  obtain ⟨more, split⟩ := cut
  exact ⟨_, by rw [consumed, ← split, List.take_append, consumed]⟩

/-- Of the same stream the smaller window keeps what overlaps it. -/
theorem filter_occurrence (contained : inner.Within outer)
    (stream : List (OffsetDateTime × OffsetDateTime)) :
    (stream.filterMap fun p => occurrence r duration outer p.2).filter inner.meets =
      stream.filterMap fun p => occurrence r duration inner p.2 := by
  rw [List.filter_filterMap]
  congr 1
  funext p
  simp only [occurrence]
  split
  · rfl
  · split
    · rfl
    · next finish added =>
      have ends := OffsetDateTime.instant_of_add added
      have same : inner.meets (p.2, finish) = inner.overlaps duration p.2 := by
        simp only [Window.meets, Window.overlaps, ends]
      by_cases overlap : inner.overlaps duration p.2 = true
      · simp [overlaps_of_within contained overlap, overlap, same]
      · by_cases wide : outer.overlaps duration p.2 = true
        · simp [wide, overlap, same]
        · simp [wide, overlap]

theorem occurrence_of_due {p : OffsetDateTime × OffsetDateTime}
    (due : Due profile r dtstart duration inner p) (ends : EndsInRange r duration p.2) :
    ∃ finish, occurrence r duration inner p.2 = some (p.2, finish) := by
  obtain ⟨_, kept, overlap⟩ := due
  obtain ⟨finish, added⟩ := ends kept
  exact ⟨finish, by simp [occurrence, kept, added, overlap]⟩

theorem occurrence_eq_none {p : OffsetDateTime × OffsetDateTime}
    (member : p ∈ recurrenceSet profile r dtstart)
    (notDue : ¬ Due profile r dtstart duration inner p) :
    occurrence r duration inner p.2 = none := by
  cases shown : occurrence r duration inner p.2 with
  | none => rfl
  | some o =>
    obtain ⟨_, kept, _, overlap⟩ := occurrence_eq_some shown
    exact absurd ⟨member, kept, overlap⟩ notDue

end Nested

/-- An expansion over a window inside another agrees with the wider one and misses no
occurrence of the recurrence set, exactly when every occurrence due in the window lies in a
period whose anchor is before the end of the window and not past `UNTIL`. -/
theorem expand_within_iff {raw : Text.Str} {rule : Rrule}
    (parsed : Rrule.parse raw = .ok (some rule)) (profile : Profile)
    (exdates : List OffsetDateTime) (dtstart : OffsetDateTime) (duration : Duration)
    (outer inner : Window) (contained : inner.Within outer) {r : Rrule}
    (excluding : r = { rule with exdate := exdates }) {wide narrow : List Occurrence}
    (outerRun : r.expand profile dtstart duration outer = .ok wide)
    (innerRun : r.expand profile dtstart duration inner = .ok narrow) :
    (narrow = wide.filter inner.meets ∧
        ∀ p, Due profile r dtstart duration inner p → ∃ o ∈ narrow, o.1 = p.2) ↔
      ∀ p, Due profile r dtstart duration inner p →
        p.1.instant < inner.winTo.instant ∧ r.pastUntil p.1 = false := by
  have interval : 1 ≤ r.interval.toNat := by
    have positive := interval_of_parse parsed
    rwa [excluding]
  obtain ⟨narrowList, narrowEnds⟩ := expand_ok innerRun
  obtain ⟨wideList, _⟩ := expand_ok outerRun
  obtain ⟨rest, split, stopped⟩ := recurrenceSet_split profile dtstart interval inner
  have running : ∀ s, stops r inner s = false ↔
      s.instant < inner.winTo.instant ∧ r.pastUntil s = false := by
    intro s
    simp only [stops, Bool.or_eq_false_iff, decide_eq_false_iff_not, not_le]
    exact and_comm
  constructor
  · rintro ⟨_, complete⟩ p due
    obtain ⟨o, member, start⟩ := complete p due
    rw [narrowList] at member
    obtain ⟨q, among, shown⟩ := List.mem_filterMap.mp member
    have instants : q.2.instant = p.2.instant := by
      rw [← start, (occurrence_eq_some shown).1]
    have same : q = p := eq_of_key_eq (recurrenceSet_increasing profile dtstart interval)
      (split ▸ List.mem_append_left rest among) due.1 instants
    rw [← running, ← same]
    exact consumed_not_stopped among
  · intro reached
    have unread : ∀ p ∈ rest, ¬ Due profile r dtstart duration inner p := by
      intro p later due
      have runs := (running p.1).mpr (reached p due)
      rw [stopped p later] at runs
      cases runs
    have inPrefix : ∀ p, Due profile r dtstart duration inner p →
        p ∈ consumed profile r dtstart inner := by
      intro p due
      have member := due.1
      rw [split] at member
      exact (List.mem_append.mp member).resolve_right fun later => unread p later due
    constructor
    · obtain ⟨more, longer⟩ := consumed_prefix profile r dtstart contained
      obtain ⟨rest', split', _⟩ := recurrenceSet_split profile dtstart interval outer
      have beyond : rest = more ++ rest' := by
        rw [split, longer, List.append_assoc] at split'
        exact List.append_cancel_left split'
      have nothing : (more.filterMap fun p => occurrence r duration inner p.2) = [] := by
        apply List.filterMap_eq_nil_iff.mpr
        intro p among
        have later : p ∈ rest := beyond ▸ List.mem_append_left rest' among
        exact occurrence_eq_none (split ▸ List.mem_append_right _ later) (unread p later)
      rw [wideList, filter_occurrence contained, longer, List.filterMap_append, nothing,
        List.append_nil, narrowList]
    · intro p due
      obtain ⟨finish, shown⟩ := occurrence_of_due due (narrowEnds p (inPrefix p due))
      refine ⟨(p.2, finish), ?_, rfl⟩
      rw [narrowList]
      exact List.mem_filterMap.mpr ⟨p, inPrefix p due, shown⟩

theorem expand_within_week :
    ∃ wide narrow, mondaysWednesdays.expand .release may13 anHour ⟨may18, may25⟩ = .ok wide ∧
      mondaysWednesdays.expand .release may13 anHour ⟨may19, may25⟩ = .ok narrow ∧
      ((narrow = wide.filter (Window.meets ⟨may19, may25⟩) ∧
          ∀ p, Due .release mondaysWednesdays may13 anHour ⟨may19, may25⟩ p →
            ∃ o ∈ narrow, o.1 = p.2) ↔
        ∀ p, Due .release mondaysWednesdays may13 anHour ⟨may19, may25⟩ p →
          p.1.instant < may25.instant ∧ mondaysWednesdays.pastUntil p.1 = false) :=
  ⟨_, _, rfl, rfl,
    expand_within_iff parse_mondaysWednesdays .release [] may13 anHour ⟨may18, may25⟩
      ⟨may19, may25⟩ ⟨by decide, by decide⟩ rfl rfl rfl⟩

/-- The Monday of the second week is in the window, but the anchor of that week is its
Wednesday, past the end of the window. -/
theorem expand_within_loses_monday :
    ∃ wide narrow, Rrule.parse "FREQ=WEEKLY;BYDAY=MO,WE".toList = .ok (some mondaysWednesdays) ∧
      Window.Within ⟨may18, may19⟩ ⟨may18, may25⟩ ∧
      mondaysWednesdays.expand .release may13 anHour ⟨may18, may25⟩ = .ok wide ∧
      mondaysWednesdays.expand .release may13 anHour ⟨may18, may19⟩ = .ok narrow ∧
      narrow = [] ∧ (wide.filter (Window.meets ⟨may18, may19⟩)).length = 1 :=
  ⟨_, _, parse_mondaysWednesdays, ⟨by decide, by decide⟩, rfl, rfl, rfl,
    by decide⟩

end Expresso.Recurrence
