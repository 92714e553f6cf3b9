import Expresso.CalDav.Tasks
import Expresso.Recurrence.Tiling

/-! The instances of a task over a window. A recurring task lists the occurrences strictly after
the start of the window; a task without a rule is listed at the start as well. -/

namespace Expresso.CalDav
open Text Time Periodic Recurrence Transition

/-- The start of the task, or else the time it is due. -/
def Task.anchor (t : Task) : Option OffsetDateTime := (t.dtstart.or t.due).bind ofTimestamp

/-- The rule the task is expanded by, before it is parsed. -/
def Task.rawRule (t : Task) : Option Str := t.rrule.filter fun raw => !(trim raw).isEmpty

def singleAnchor (anchor : OffsetDateTime) (window : Window) : List OffsetDateTime :=
  if window.winFrom.instant ≤ anchor.instant ∧ anchor.instant < window.winTo.instant then [anchor]
  else []

def Task.expandInstances (profile : Profile) (t : Task) (window : Window) :
    Except Panic (List OffsetDateTime) :=
  match t.anchor with
  | none => .ok []
  | some anchor =>
      match t.rawRule with
      | none => .ok (singleAnchor anchor window)
      | some raw => do
          match ← Rrule.parse raw with
          | none => .ok (singleAnchor anchor window)
          | some rule => return (← rule.expand profile anchor 0 window).map (·.1)

/-- The task repeats from the anchor by the rule. -/
def Task.Recurs (t : Task) (anchor : OffsetDateTime) (rule : Rrule) : Prop :=
  t.anchor = some anchor ∧ ∃ raw, t.rawRule = some raw ∧ Rrule.parse raw = .ok (some rule)

/-- The dates the rule yields, whatever the window. -/
def yielded (profile : Profile) (rule : Rrule) (anchor : OffsetDateTime) :
    List (OffsetDateTime × OffsetDateTime) :=
  (recurrenceSet profile rule anchor).filter fun p => !rule.isExcluded p.2

/-- The only date, if it lies in the window, is not its start and is reached by the loop. -/
def InsideWindow (rule : Rrule) (window : Window) (only : OffsetDateTime × OffsetDateTime) : Prop :=
  window.winFrom.instant ≤ only.2.instant → only.2.instant < window.winTo.instant →
    only.2.instant ≠ window.winFrom.instant ∧ Reaches rule window.winTo only.1

section
variable {profile : Profile} {t : Task} {anchor : OffsetDateTime} {rule : Rrule} {window : Window}

theorem singleAnchor_tiles {a b c : OffsetDateTime} (first : a.instant < b.instant)
    (second : b.instant < c.instant) :
    singleAnchor anchor ⟨a, c⟩ = singleAnchor anchor ⟨a, b⟩ ++ singleAnchor anchor ⟨b, c⟩ := by
  unfold singleAnchor
  by_cases below : anchor.instant < b.instant
  · have outside : ¬ (b.instant ≤ anchor.instant ∧ anchor.instant < c.instant) := by omega
    rw [if_neg outside, List.append_nil]
    have same : (a.instant ≤ anchor.instant ∧ anchor.instant < c.instant) ↔
        (a.instant ≤ anchor.instant ∧ anchor.instant < b.instant) := by omega
    simp only [same]
  · have outside : ¬ (a.instant ≤ anchor.instant ∧ anchor.instant < b.instant) := by omega
    rw [if_neg outside, List.nil_append]
    have same : (a.instant ≤ anchor.instant ∧ anchor.instant < c.instant) ↔
        (b.instant ≤ anchor.instant ∧ anchor.instant < c.instant) := by omega
    simp only [same]

theorem mem_singleAnchor {x : OffsetDateTime} : x ∈ singleAnchor anchor window ↔
    window.winFrom.instant ≤ anchor.instant ∧ anchor.instant < window.winTo.instant ∧
      x = anchor := by
  unfold singleAnchor
  split
  · next inside => simp [inside]
  · next outside =>
    simp only [List.not_mem_nil, false_iff]
    exact fun ⟨after, before, _⟩ => outside ⟨after, before⟩

theorem singleAnchor_increasing :
    (singleAnchor anchor window).Pairwise fun a b => a.instant < b.instant := by
  unfold singleAnchor
  split
  · exact List.pairwise_singleton _ _
  · exact List.Pairwise.nil

/-- A rule that yields one date is expanded like a task without a rule, just where the date is
not the start of the window and its period is reached. -/
theorem expand_single_iff (positive : 1 ≤ rule.interval.toNat) {l : List Occurrence}
    (ran : rule.expand profile anchor 0 window = .ok l) {only : OffsetDateTime × OffsetDateTime}
    (single : yielded profile rule anchor = [only]) :
    l.map (·.1) = singleAnchor only.2 window ↔ InsideWindow rule window only := by
  have yields : ∀ p, p ∈ recurrenceSet profile rule anchor ∧ rule.isExcluded p.2 = false ↔
      p = only := by
    intro p
    have same := List.mem_singleton (a := p) (b := only)
    rw [← single, yielded, List.mem_filter, Bool.not_eq_true'] at same
    exact same
  have lists : ∀ x, x ∈ l.map (·.1) ↔ Reaches rule window.winTo only.1 ∧ x = only.2 ∧
      window.winFrom.instant < only.2.instant ∧ only.2.instant < window.winTo.instant := by
    intro x
    rw [mem_starts_iff positive ran]
    constructor
    · intro ⟨p, member, reached, equal, inside⟩
      obtain ⟨kept, after, before⟩ := shown_iff.mp inside
      have same := (yields p).mp ⟨member, equal ▸ kept⟩
      subst same
      exact ⟨reached, equal.symm, equal ▸ after, equal ▸ before⟩
    · intro ⟨reached, equal, after, before⟩
      obtain ⟨member, kept⟩ := (yields only).mpr rfl
      subst equal
      exact ⟨only, member, reached, rfl, shown_iff.mpr ⟨kept, after, before⟩⟩
  constructor
  · intro same after before
    have listed : only.2 ∈ l.map (·.1) := same ▸ mem_singleAnchor.2 ⟨after, before, rfl⟩
    obtain ⟨reached, _, beyond, _⟩ := (lists only.2).mp listed
    exact ⟨beyond.ne', reached⟩
  · intro inside
    refine increasing_ext (starts_increasing positive ran) singleAnchor_increasing fun x => ?_
    rw [lists, mem_singleAnchor]
    constructor
    · intro ⟨_, equal, after, before⟩
      exact ⟨after.le, before, equal⟩
    · intro ⟨after, before, equal⟩
      obtain ⟨apart, reached⟩ := inside after before
      exact ⟨reached, equal, lt_of_le_of_ne after apart.symm, before⟩

theorem expandInstances_of_recurs (recurs : t.Recurs anchor rule) :
    t.expandInstances profile window =
      (rule.expand profile anchor 0 window).map fun l => l.map (·.1) := by
  obtain ⟨starts, raw, given, parsed⟩ := recurs
  unfold Task.expandInstances
  simp only [starts, given, parsed, bind, Except.bind]
  cases rule.expand profile anchor 0 window with
  | error => rfl
  | ok l => rfl

/-- A task that does not recur has one instance or none. -/
theorem expandInstances_of_not_recurs (once : ∀ anchor rule, ¬ t.Recurs anchor rule)
    {l : List OffsetDateTime} (ran : t.expandInstances profile window = .ok l) :
    (∀ w, t.expandInstances profile w = .ok []) ∨
      ∃ anchor, ∀ w, t.expandInstances profile w = .ok (singleAnchor anchor w) := by
  unfold Task.expandInstances at ran ⊢
  cases starts : t.anchor with
  | none => exact .inl fun _ => rfl
  | some anchor =>
    right
    refine ⟨anchor, fun w => ?_⟩
    cases given : t.rawRule with
    | none => rfl
    | some raw =>
      cases parsed : Rrule.parse raw with
      | error =>
        simp only [starts, given, parsed, bind, Except.bind] at ran
        cases ran
      | ok read =>
        cases read with
        | none => simp only [parsed, bind, Except.bind]
        | some rule => exact absurd ⟨starts, raw, given, parsed⟩ (once anchor rule)

end

/-- The instances of a task over a window are those of its two parts, and agree with the
instance of a task without a rule where the rule yields one date, exactly when no occurrence lies
where the window is cut or at its start, and none belongs to a period that begins past the part
it lies in. -/
theorem expandInstances_tile_iff (profile : Profile) (t : Task) (a b c : OffsetDateTime)
    (first : a.instant < b.instant) (second : b.instant < c.instant) {all : List OffsetDateTime}
    (whole : t.expandInstances profile ⟨a, c⟩ = .ok all) :
    ((∃ early late, t.expandInstances profile ⟨a, b⟩ = .ok early ∧
          t.expandInstances profile ⟨b, c⟩ = .ok late ∧ all = early ++ late) ∧
        ∀ anchor rule only, t.Recurs anchor rule → yielded profile rule anchor = [only] →
          all = singleAnchor only.2 ⟨a, c⟩) ↔
      ∀ anchor rule, t.Recurs anchor rule → CutsCleanly profile rule anchor a b c ∧
        ∀ only, yielded profile rule anchor = [only] → InsideWindow rule ⟨a, c⟩ only := by
  by_cases recurring : ∃ anchor rule, t.Recurs anchor rule
  · obtain ⟨anchor, rule, recurs⟩ := recurring
    have one : ∀ anchor' rule', t.Recurs anchor' rule' → anchor' = anchor ∧ rule' = rule := by
      intro anchor' rule' ⟨starts', raw', given', parsed'⟩
      obtain ⟨starts, raw, given, parsed⟩ := recurs
      have sameAnchor := Option.some.inj (starts'.symm.trans starts)
      have sameRaw := Option.some.inj (given'.symm.trans given)
      rw [sameRaw] at parsed'
      have sameRule := Option.some.inj (Except.ok.inj (parsed'.symm.trans parsed))
      exact ⟨sameAnchor, sameRule⟩
    obtain ⟨raw, _, parsed⟩ := recurs.2
    have positive := interval_of_parse parsed
    have checked := checked_of_parse parsed
    rw [expandInstances_of_recurs recurs, map_eq_ok_iff] at whole
    obtain ⟨l, ran, rfl⟩ := whole
    obtain ⟨l₁, left⟩ : ∃ l, rule.expand profile anchor 0 ⟨a, b⟩ = .ok l :=
      expand_returns checked ran second.le
    obtain ⟨l₂, right⟩ : ∃ l, rule.expand profile anchor 0 ⟨b, c⟩ = .ok l :=
      expand_returns checked ran le_rfl
    have tiles := expand_tiles_iff positive first second ran left right
    rw [expandInstances_of_recurs recurs, expandInstances_of_recurs recurs, left, right]
    constructor
    · intro ⟨⟨early, late, hereEarly, hereLate, together⟩, alone⟩ anchor' rule' recurs'
      obtain ⟨rfl, rfl⟩ := one anchor' rule' recurs'
      cases hereEarly
      cases hereLate
      refine ⟨tiles.mp together, fun only single => ?_⟩
      exact (expand_single_iff positive ran single).mp (alone _ _ only recurs' single)
    · intro clean
      obtain ⟨cut, inside⟩ := clean anchor rule recurs
      refine ⟨⟨_, _, rfl, rfl, tiles.mpr cut⟩, ?_⟩
      intro anchor' rule' only recurs' single
      obtain ⟨rfl, rfl⟩ := one anchor' rule' recurs'
      exact (expand_single_iff positive ran single).mpr (inside only single)
  · have once : ∀ anchor rule, ¬ t.Recurs anchor rule :=
      fun anchor rule recurs => recurring ⟨anchor, rule, recurs⟩
    refine iff_of_true ⟨?_, fun anchor rule _ recurs => absurd recurs (once anchor rule)⟩
      fun anchor rule recurs => absurd recurs (once anchor rule)
    rcases expandInstances_of_not_recurs once whole with never | ⟨anchor, always⟩
    · rw [never] at whole
      cases whole
      exact ⟨[], [], never _, never _, rfl⟩
    · rw [always] at whole
      cases whole
      exact ⟨_, _, always _, always _, singleAnchor_tiles first second⟩

/-- A task from Monday, 18 May 2026, at midnight. -/
def taskFromMay18 (rrule : Str) : Task :=
  { id := 7, tenantId := 1, calendarId := 2, uid := "1".toList, summary := "Call".toList
    description := none, status := .needsAction, priority := 0, percentComplete := 0
    dtstart := some (toTimestamp may18), due := none, completedAt := none, rrule := some rrule
    icalRaw := none, etag := none, createdAt := 0, updatedAt := 0 }

theorem expandInstances_tile_may :
    ∃ all, (taskFromMay18 "FREQ=DAILY;COUNT=3".toList).expandInstances .release ⟨may13, may25⟩ =
        .ok all ∧
      (((∃ early late, (taskFromMay18 "FREQ=DAILY;COUNT=3".toList).expandInstances .release
              ⟨may13, may19⟩ = .ok early ∧
            (taskFromMay18 "FREQ=DAILY;COUNT=3".toList).expandInstances .release ⟨may19, may25⟩ =
              .ok late ∧ all = early ++ late) ∧
          ∀ anchor rule only,
            (taskFromMay18 "FREQ=DAILY;COUNT=3".toList).Recurs anchor rule →
              yielded .release rule anchor = [only] → all = singleAnchor only.2 ⟨may13, may25⟩) ↔
        ∀ anchor rule, (taskFromMay18 "FREQ=DAILY;COUNT=3".toList).Recurs anchor rule →
          CutsCleanly .release rule anchor may13 may19 may25 ∧
            ∀ only, yielded .release rule anchor = [only] →
              InsideWindow rule ⟨may13, may25⟩ only) :=
  ⟨_, rfl, expandInstances_tile_iff .release _ may13 may19 may25 (by decide)
    (by decide) rfl⟩

/-- Of three days the one at the cut is in neither part, and a single day is not listed from its
own midnight on. -/
theorem expandInstances_loses_cut :
    ∃ all early late only,
      (taskFromMay18 "FREQ=DAILY;COUNT=3".toList).expandInstances .release ⟨may13, may25⟩ =
          .ok all ∧
        (taskFromMay18 "FREQ=DAILY;COUNT=3".toList).expandInstances .release ⟨may13, may19⟩ =
          .ok early ∧
        (taskFromMay18 "FREQ=DAILY;COUNT=3".toList).expandInstances .release ⟨may19, may25⟩ =
          .ok late ∧
        all.length = 3 ∧ early.length = 1 ∧ late.length = 1 ∧
        (taskFromMay18 "FREQ=DAILY;COUNT=1".toList).expandInstances .release ⟨may18, may25⟩ =
          .ok [] ∧
        (taskFromMay18 "FREQ=DAILY;COUNT=1".toList).expandInstances .release ⟨may13, may25⟩ =
          .ok [only] ∧
        (taskFromMay18 []).expandInstances .release ⟨may18, may25⟩ = .ok [only] :=
  ⟨_, _, _, _, rfl, rfl, rfl, by decide, by decide, by decide, rfl, rfl,
    rfl⟩

end Expresso.CalDav
