import Expresso.CalDav.Ical
import Expresso.Interval.Meeting
import Expresso.Recurrence.Tiling

/-! Two events that book one resource, and the first of their occurrences that overlap. -/

namespace Expresso.CalDav
open Text Time Recurrence

structure ResourceConflict where
  resourceEmail : Str
  aEventId : Uuid
  aSummary : Option Str
  aDtstart : Option OffsetDateTime
  aDtend : Option OffsetDateTime
  bEventId : Uuid
  bSummary : Option Str
  bDtstart : Option OffsetDateTime
  bDtend : Option OffsetDateTime
  overlapStart : OffsetDateTime
  overlapEnd : OffsetDateTime
  deriving DecidableEq

structure ConflictCandidate where
  resourceEmail : Str
  aEventId : Uuid
  aSummary : Option Str
  aDtstart : OffsetDateTime
  aDtend : Option OffsetDateTime
  aRrule : Option Str
  bEventId : Uuid
  bSummary : Option Str
  bDtstart : OffsetDateTime
  bDtend : Option OffsetDateTime
  bRrule : Option Str
  deriving DecidableEq

/-- `Ord::max`, by the instant. -/
def maxTime (a b : OffsetDateTime) : OffsetDateTime := if b.instant < a.instant then a else b

/-- `Ord::min`. -/
def minTime (a b : OffsetDateTime) : OffsetDateTime := if b.instant < a.instant then b else a

def singleInstance (dtstart : OffsetDateTime) (dtend : Option OffsetDateTime) (window : Window) :
    Option Occurrence :=
  let finish := dtend.getD dtstart
  if finish.instant = dtstart.instant then
    if window.winFrom.instant ≤ dtstart.instant ∧ dtstart.instant < window.winTo.instant then
      some (dtstart, dtstart)
    else none
  else if finish.instant ≤ window.winFrom.instant ∨ window.winTo.instant ≤ dtstart.instant then none
  else
    let s := if dtstart.instant < window.winFrom.instant then window.winFrom else dtstart
    let e := if window.winTo.instant < finish.instant then window.winTo else finish
    if e.instant ≤ s.instant then none else some (s, e)

def occurrences (profile : Profile) (dtstart : OffsetDateTime) (dtend : Option OffsetDateTime)
    (rrule : Option Str) (window : Window) : Except Panic (List Occurrence) := do
  let duration : Duration := (dtend.getD dtstart).instant - dtstart.instant
  let rule ← rrule.elim (.ok none) Rrule.parse
  match rule with
  | some rule => rule.expand profile dtstart duration window
  | none => .ok (singleInstance dtstart dtend window).toList

def firstOverlap (profile : Profile) (c : ConflictCandidate) (window : Window) :
    Except Panic (Option ResourceConflict) := do
  let occA ← occurrences profile c.aDtstart c.aDtend c.aRrule window
  let occB ← occurrences profile c.bDtstart c.bDtend c.bRrule window
  let overlap := occA.findSome? fun a =>
    (occB.find? fun b => a.1.instant < b.2.instant && b.1.instant < a.2.instant).map fun b =>
      (maxTime a.1 b.1, minTime a.2 b.2)
  return overlap.map fun (overlapStart, overlapEnd) =>
    { resourceEmail := c.resourceEmail
      aEventId := c.aEventId
      aSummary := c.aSummary
      aDtstart := some c.aDtstart
      aDtend := c.aDtend
      bEventId := c.bEventId
      bSummary := c.bSummary
      bDtstart := some c.bDtstart
      bDtend := c.bDtend
      overlapStart
      overlapEnd }

/-! ### Overlaps -/

/-- Each occurrence begins before the other ends. -/
def Overlap (a b : Occurrence) : Prop :=
  Interval.Meets (fun o : Occurrence => o.1.instant) (fun o => o.2.instant) a b

/-- An instant lies in both. -/
def Shares (a b : Occurrence) : Prop :=
  ∃ t : Int, (a.1.instant ≤ t ∧ t < a.2.instant) ∧ b.1.instant ≤ t ∧ t < b.2.instant

def firstPair (occA occB : List Occurrence) : Option (Occurrence × Occurrence) :=
  Interval.firstMeeting (fun o => o.1.instant) (fun o => o.2.instant) occA occB

theorem instant_maxTime (a b : OffsetDateTime) :
    (maxTime a b).instant = max a.instant b.instant := by
  unfold maxTime
  split <;> omega

theorem instant_minTime (a b : OffsetDateTime) :
    (minTime a b).instant = min a.instant b.instant := by
  unfold minTime
  split <;> omega

/-- The event ends after it begins. -/
def Lasts (dtstart : OffsetDateTime) (dtend : Option OffsetDateTime) : Prop :=
  dtstart.instant < (dtend.getD dtstart).instant

section
variable {profile : Profile} {dtstart : OffsetDateTime} {dtend : Option OffsetDateTime}
  {rrule : Option Str} {window : Window} {occ : List Occurrence}

theorem expand_sorted {r : Rrule} {duration : Duration} (positive : 1 ≤ r.interval.toNat)
    (ran : r.expand profile dtstart duration window = .ok occ) :
    occ.Pairwise (fun o o' => o.1.instant < o'.1.instant) ∧
      ∀ o ∈ occ, o.2.instant = o.1.instant + duration := by
  obtain ⟨listed, -⟩ := expand_ok ran
  constructor
  · rw [listed, List.pairwise_filterMap]
    refine (consumed_increasing positive).imp fun before o shown o' shown' => ?_
    rw [(occurrence_eq_some shown).1, (occurrence_eq_some shown').1]
    exact before
  · intro o member
    rw [listed] at member
    obtain ⟨p, -, shown⟩ := List.mem_filterMap.mp member
    obtain ⟨start, -, added, -⟩ := occurrence_eq_some shown
    rw [start]
    exact OffsetDateTime.instant_of_add added

theorem singleInstance_lasts (lasts : Lasts dtstart dtend) {o : Occurrence}
    (shown : singleInstance dtstart dtend window = some o) : o.1.instant < o.2.instant := by
  unfold Lasts at lasts
  simp only [singleInstance, if_neg lasts.ne', Option.ite_none_left_eq_some,
    Option.some.injEq] at shown
  obtain ⟨-, positive, rfl⟩ := shown
  exact not_le.mp positive

/-- The occurrences come in order; those of an event that lasts, last. -/
theorem occurrences_ok (ran : occurrences profile dtstart dtend rrule window = .ok occ) :
    occ.Pairwise (fun o o' => o.1.instant ≤ o'.1.instant) ∧
      (Lasts dtstart dtend → ∀ o ∈ occ, o.1.instant < o.2.instant) := by
  simp only [occurrences, Transition.bind_eq_ok_iff] at ran
  obtain ⟨rule, parsed, ran⟩ := ran
  cases rule with
  | none =>
    cases ran
    refine ⟨?_, fun lasts o member => singleInstance_lasts lasts (Option.mem_toList.mp member)⟩
    cases singleInstance dtstart dtend window with
    | none => exact List.Pairwise.nil
    | some o => exact List.pairwise_singleton _ o
  | some rule =>
    have positive : 1 ≤ rule.interval.toNat := by
      cases rrule with
      | none => cases parsed
      | some raw => exact interval_of_parse parsed
    obtain ⟨ordered, ends⟩ := expand_sorted positive ran
    refine ⟨ordered.imp fun before => before.le, fun lasts o member => ?_⟩
    unfold Lasts at lasts
    rw [ends o member]
    omega

end

/-! ### The conflict -/

/-- The two events in the other order. -/
def ConflictCandidate.swap (c : ConflictCandidate) : ConflictCandidate :=
  { c with
    aEventId := c.bEventId, aSummary := c.bSummary, aDtstart := c.bDtstart, aDtend := c.bDtend
    aRrule := c.bRrule
    bEventId := c.aEventId, bSummary := c.aSummary, bDtstart := c.aDtstart, bDtend := c.aDtend
    bRrule := c.aRrule }

/-- The interval that is returned. -/
def ResourceConflict.interval (conflict : ResourceConflict) : Int × Int :=
  (conflict.overlapStart.instant, conflict.overlapEnd.instant)

/-- What two occurrences have in common. -/
def intersection (pair : Occurrence × Occurrence) : Int × Int :=
  (max pair.1.1.instant pair.2.1.instant, min pair.1.2.instant pair.2.2.instant)

section
variable {profile : Profile} {c : ConflictCandidate} {window : Window} {occA occB : List Occurrence}
  (first : occurrences profile c.aDtstart c.aDtend c.aRrule window = .ok occA)
  (second : occurrences profile c.bDtstart c.bDtend c.bRrule window = .ok occB)
include first second

theorem firstOverlap_interval : ∃ found, firstOverlap profile c window = .ok found ∧
    found.map (·.interval) = (firstPair occA occB).map intersection := by
  unfold firstOverlap
  simp only [first, second, bind, Except.bind, pure, Except.pure]
  refine ⟨_, rfl, ?_⟩
  have test (a b : Occurrence) :
      (decide (a.1.instant < b.2.instant) && decide (b.1.instant < a.2.instant)) =
        decide (Interval.Meets (fun o : Occurrence => o.1.instant) (fun o => o.2.instant) a b) :=
    (Bool.decide_and _ _).symm
  unfold firstPair Interval.firstMeeting
  simp only [test, List.map_findSome?]
  congr 1
  funext a
  simp only [Function.comp_apply, Option.map_map]
  congr 1
  funext b
  exact Prod.ext (instant_maxTime a.1 b.1) (instant_minTime a.2 b.2)

/-- The first conflict is of the first occurrences that overlap, each starting before the other
ends, and the same whichever event is read first; occurrences of events that last overlap just
where they share an instant. -/
theorem firstOverlap_exact : ∃ found, firstOverlap profile c window = .ok found ∧
    (found.isSome ↔ ∃ a ∈ occA, ∃ b ∈ occB, Overlap a b) ∧
    (∀ conflict ∈ found, ∃ a ∈ occA, ∃ b ∈ occB, Overlap a b ∧
      conflict.interval = intersection (a, b) ∧
      ∀ a' ∈ occA, ∀ b' ∈ occB, Overlap a' b' →
        conflict.interval.1 ≤ (intersection (a', b')).1) ∧
    (∃ swapped, firstOverlap profile c.swap window = .ok swapped ∧
      swapped.map (·.interval) = found.map (·.interval)) ∧
    (Lasts c.aDtstart c.aDtend → Lasts c.bDtstart c.bDtend →
      ∀ a ∈ occA, ∀ b ∈ occB, Overlap a b ↔ Shares a b) := by
  obtain ⟨found, ran, interval⟩ := firstOverlap_interval first second
  obtain ⟨swapped, ran', interval'⟩ :=
    @firstOverlap_interval profile c.swap window occB occA second first
  obtain ⟨sorted, lasts⟩ := occurrences_ok first
  obtain ⟨sorted', lasts'⟩ := occurrences_ok second
  refine ⟨found, ran, ?_, ?_, ⟨swapped, ran', ?_⟩, ?_⟩
  · have one : found.isSome = (firstPair occA occB).isSome := by
      rw [← Option.isSome_map (f := ResourceConflict.interval), interval, Option.isSome_map]
    rw [one, ← not_iff_not, Option.not_isSome_iff_eq_none, firstPair,
      Interval.firstMeeting_eq_none_iff]
    simp only [Overlap, not_exists, not_and]
  · intro conflict given
    rw [Option.mem_def.mp given, Option.map_some] at interval
    obtain ⟨⟨a, b⟩, met, same⟩ := Option.map_eq_some_iff.mp interval.symm
    obtain ⟨⟨before, after, whole, -⟩, ⟨front, back, split, -⟩, meets⟩ :=
      Interval.firstMeeting_eq_some_iff.mp met
    refine ⟨a, whole ▸ List.mem_append_right _ List.mem_cons_self, b,
      split ▸ List.mem_append_right _ List.mem_cons_self, meets, same.symm, ?_⟩
    intro a' inA b' inB overlap
    rw [← same]
    exact Interval.firstMeeting_earliest sorted sorted' met inA inB overlap
  · have symmetric : intersection ∘ Prod.swap = intersection := by
      funext pair
      exact Prod.ext (max_comm _ _) (min_comm _ _)
    rw [interval', interval]
    unfold firstPair
    rw [Interval.firstMeeting_swap sorted sorted', Option.map_map, symmetric]
  · intro aLasts bLasts a inA b inB
    exact Interval.meets_iff (lasts aLasts a inA) (lasts' bLasts b inB)

end

/-! ### A booking and a reminder -/

def bookingDay (hour : Nat) (range : hour < 24) : OffsetDateTime :=
  .assumeUtc ⟨2026, .may, 18, Time.year_2026, Time.may_eighteenth⟩ (hour * 3600000000000)
    (by unfold dayNanos; omega)

/-- A meeting from ten to twelve, and another event on the same day. -/
def booked (start : OffsetDateTime) (finish : Option OffsetDateTime) : ConflictCandidate where
  resourceEmail := "room@x.org".toList
  aEventId := 1
  aSummary := none
  aDtstart := bookingDay 10 (by decide)
  aDtend := some (bookingDay 12 (by decide))
  aRrule := none
  bEventId := 2
  bSummary := none
  bDtstart := start
  bDtend := finish
  bRrule := none

def wholeDay : Window := ⟨bookingDay 0 (by decide), bookingDay 23 (by decide)⟩

theorem firstOverlap_meetings : ∃ conflict,
    firstOverlap .release (booked (bookingDay 11 (by decide)) (some (bookingDay 13 (by decide))))
      wholeDay = .ok (some conflict) ∧
    conflict.interval.1 ≤ (bookingDay 11 (by decide)).instant := by
  have first : occurrences .release (bookingDay 10 (by decide)) (some (bookingDay 12 (by decide)))
      none wholeDay = .ok [(bookingDay 10 (by decide), bookingDay 12 (by decide))] := by decide
  have second : occurrences .release (bookingDay 11 (by decide)) (some (bookingDay 13 (by decide)))
      none wholeDay = .ok [(bookingDay 11 (by decide), bookingDay 13 (by decide))] := by decide
  obtain ⟨found, ran, some_iff, earliest, -⟩ := @firstOverlap_exact .release
    (booked (bookingDay 11 (by decide)) (some (bookingDay 13 (by decide)))) wholeDay _ _
    first second
  have overlap : Overlap (bookingDay 10 (by decide), bookingDay 12 (by decide))
      (bookingDay 11 (by decide), bookingDay 13 (by decide)) := ⟨by decide, by decide⟩
  obtain ⟨conflict, given⟩ := Option.isSome_iff_exists.mp
    (some_iff.mpr ⟨_, List.mem_singleton_self _, _, List.mem_singleton_self _, overlap⟩)
  subst given
  obtain ⟨-, -, -, -, -, -, least⟩ := earliest conflict rfl
  refine ⟨conflict, ran, ?_⟩
  exact (least _ (List.mem_singleton_self _) _ (List.mem_singleton_self _) overlap).trans
    (by decide)

/-- A reminder in a meeting takes no time, and conflicts. -/
theorem firstOverlap_reminder : ∃ occA occB conflict,
    occurrences .release (bookingDay 10 (by decide)) (some (bookingDay 12 (by decide))) none
      wholeDay = .ok occA ∧
    occurrences .release (bookingDay 11 (by decide)) none none wholeDay = .ok occB ∧
    firstOverlap .release (booked (bookingDay 11 (by decide)) none) wholeDay = .ok (some conflict) ∧
    conflict.interval.1 = conflict.interval.2 ∧ ¬∃ a ∈ occA, ∃ b ∈ occB, Shares a b := by
  refine ⟨[(bookingDay 10 (by decide), bookingDay 12 (by decide))],
    [(bookingDay 11 (by decide), bookingDay 11 (by decide))],
    { resourceEmail := "room@x.org".toList
      aEventId := 1
      aSummary := none
      aDtstart := some (bookingDay 10 (by decide))
      aDtend := some (bookingDay 12 (by decide))
      bEventId := 2
      bSummary := none
      bDtstart := some (bookingDay 11 (by decide))
      bDtend := none
      overlapStart := bookingDay 11 (by decide)
      overlapEnd := bookingDay 11 (by decide) }, by decide, by decide, by decide, by decide, ?_⟩
  intro ⟨a, _, b, member, t, _, after, before⟩
  rw [List.mem_singleton.mp member] at after before
  exact absurd after (not_le.mpr before)

end Expresso.CalDav
