import Expresso.CalDav.Store
import Mathlib.Data.List.Forall2

/-! What the statements on events do to the tags: each touched row takes a new tag of its
calendar, and the calendar's counter never falls. -/

namespace Expresso.CalDav
open Text

/-- The current tag of the calendar a tenant sees under the id. -/
def ctagOf (calendars : List Calendar) (tenant calendar : Uuid) : Int :=
  ((calendars.find? (·.isRow tenant calendar)).map (·.ctag)).getD 0

def hasCalendar (calendars : List Calendar) (tenant calendar : Uuid) : Prop :=
  ∃ c ∈ calendars, c.isRow tenant calendar

/-! ### The trigger -/

/-- Calendars after the trigger has fired any number of times. -/
structure Ticked (before after : List Calendar) : Prop where
  ids : after.map (·.id) = before.map (·.id)
  rows : ∀ tenant calendar, hasCalendar after tenant calendar ↔ hasCalendar before tenant calendar
  ctag_le : ∀ tenant calendar, ctagOf before tenant calendar ≤ ctagOf after tenant calendar

theorem Ticked.refl (calendars : List Calendar) : Ticked calendars calendars :=
  ⟨rfl, fun _ _ => Iff.rfl, fun _ _ => le_refl _⟩

theorem Ticked.trans {first second third : List Calendar} (earlier : Ticked first second)
    (later : Ticked second third) : Ticked first third :=
  ⟨later.ids.trans earlier.ids,
    fun tenant calendar => (later.rows tenant calendar).trans (earlier.rows tenant calendar),
    fun tenant calendar => (earlier.ctag_le tenant calendar).trans (later.ctag_le tenant calendar)⟩

/-- One firing of the trigger for a calendar. -/
structure Tick (tenant calendar : Uuid) (ctag : Int) (before after : List Calendar) : Prop
    extends Ticked before after where
  found : hasCalendar before tenant calendar
  old : ctag = ctagOf before tenant calendar + 1
  new : ctagOf after tenant calendar = ctag
  others : ∀ tenant' calendar', ¬(tenant' = tenant ∧ calendar' = calendar) →
    ctagOf after tenant' calendar' = ctagOf before tenant' calendar'

private theorem isRow_bumped (tenant calendar tenant' calendar' : Uuid) (now : Timestamp)
    (c : Calendar) :
    (if c.isRow tenant calendar then { c with ctag := c.ctag + 1, updatedAt := now } else c).isRow
      tenant' calendar' = c.isRow tenant' calendar' := by
  split <;> rfl

private theorem ctagOf_bumped (tenant calendar tenant' calendar' : Uuid) (now : Timestamp)
    (calendars : List Calendar) :
    ctagOf (calendars.map fun c =>
        if c.isRow tenant calendar then { c with ctag := c.ctag + 1, updatedAt := now } else c)
      tenant' calendar' =
      ((calendars.find? (·.isRow tenant' calendar')).map fun c =>
        if c.isRow tenant calendar then c.ctag + 1 else c.ctag).getD 0 := by
  simp only [ctagOf, List.find?_map, Function.comp_def, isRow_bumped, Option.map_map]
  congr 2
  funext c
  split <;> rfl

theorem touch_some {tenant calendar : Uuid} {now : Timestamp} {calendars after : List Calendar}
    {ctag : Int} (touched : touch tenant calendar now calendars = some (ctag, after)) :
    Tick tenant calendar ctag calendars after := by
  simp only [touch, Option.map_eq_some_iff, Prod.mk.injEq] at touched
  obtain ⟨row, found, tag, bumped⟩ := touched
  have member := List.mem_of_find?_eq_some found
  have isRow : row.isRow tenant calendar := by simpa using List.find?_some found
  have old : ctagOf calendars tenant calendar = row.ctag := by simp [ctagOf, found]
  have new : ctagOf after tenant calendar = ctag := by
    rw [← bumped, ctagOf_bumped, found, ← tag]
    simp [isRow]
  have others : ∀ tenant' calendar', ¬(tenant' = tenant ∧ calendar' = calendar) →
      ctagOf after tenant' calendar' = ctagOf calendars tenant' calendar' := by
    intro tenant' calendar' different
    rw [← bumped, ctagOf_bumped, ctagOf]
    cases other : calendars.find? (·.isRow tenant' calendar') with
    | none => rfl
    | some c =>
      have here : c.isRow tenant' calendar' := by simpa using List.find?_some other
      have elsewhere : c.isRow tenant calendar = false := by
        simp only [Calendar.isRow, Bool.and_eq_true, decide_eq_true_eq] at here
        simp only [Calendar.isRow, Bool.and_eq_false_iff, decide_eq_false_iff_not]
        by_contra both
        push Not at both
        exact different ⟨here.2.symm.trans both.2, here.1.symm.trans both.1⟩
      simp [elsewhere]
  refine ⟨⟨?_, ?_, ?_⟩, ⟨row, member, isRow⟩, ?_, new, others⟩
  · rw [← bumped, List.map_map]
    apply List.map_congr_left
    intro c _
    simp only [Function.comp_apply]
    split <;> rfl
  · intro tenant' calendar'
    simp only [hasCalendar, ← bumped, List.mem_map, exists_exists_and_eq_and, isRow_bumped]
  · intro tenant' calendar'
    by_cases same : tenant' = tenant ∧ calendar' = calendar
    · obtain ⟨rfl, rfl⟩ := same
      rw [new, old]
      omega
    · exact (others tenant' calendar' same).ge
  · rw [old, tag]

theorem touch_eq_none {tenant calendar : Uuid} {now : Timestamp} {calendars : List Calendar}
    (absent : ¬hasCalendar calendars tenant calendar) :
    touch tenant calendar now calendars = none := by
  have notFound : calendars.find? (·.isRow tenant calendar) = none :=
    List.find?_eq_none.mpr fun c member row => absent ⟨c, member, row⟩
  rw [touch, notFound, Option.map_none]

/-! ### Updated rows -/

/-- A tag that the trigger gave out between two states of the calendars. -/
def Fresh (before after : List Calendar) (tenant calendar : Uuid) (ctag : Int) : Prop :=
  ctagOf before tenant calendar < ctag ∧ ctag ≤ ctagOf after tenant calendar

theorem Fresh.widen {first second third fourth : List Calendar} {tenant calendar : Uuid}
    {ctag : Int} (fresh : Fresh second third tenant calendar ctag) (earlier : Ticked first second)
    (later : Ticked third fourth) : Fresh first fourth tenant calendar ctag :=
  ⟨(earlier.ctag_le tenant calendar).trans_lt fresh.1,
    fresh.2.trans (later.ctag_le tenant calendar)⟩

theorem Tick.fresh {tenant calendar : Uuid} {ctag : Int} {before after : List Calendar}
    (tick : Tick tenant calendar ctag before after) : Fresh before after tenant calendar ctag := by
  have old := tick.old
  exact ⟨by omega, tick.new.ge⟩

/-- A row before and after an `UPDATE`. -/
def Updated (tenant : Uuid) (now : Timestamp) (change : Event → Option Event)
    (before after : List Calendar) (e e' : Event) : Prop :=
  (change e = none ∧ e' = e) ∨
    ∃ changed ctag, change e = some changed ∧
      e' = { changed with updatedAt := now, lastCtag := ctag } ∧
      hasCalendar before tenant changed.calendarId ∧
      Fresh before after tenant changed.calendarId ctag

theorem Updated.widen {tenant : Uuid} {now : Timestamp} {change : Event → Option Event}
    {first second third : List Calendar} {e e' : Event}
    (updated : Updated tenant now change second third e e') (earlier : Ticked first second) :
    Updated tenant now change first third e e' := by
  rcases updated with kept | ⟨changed, ctag, changes, row, found, fresh⟩
  · exact .inl kept
  · exact .inr ⟨changed, ctag, changes, row, (earlier.rows _ _).mp found,
      fresh.widen earlier (.refl third)⟩

section
variable {tenant : Uuid} {now : Timestamp} {change : Event → Option Event}

/-- The two ways a row goes through an `UPDATE`. -/
theorem updateRows_cons {e : Event} {rest rows : List Event} {calendars after : List Calendar}
    (updated : updateRows tenant now change (e :: rest) calendars = some (rows, after)) :
    (change e = none ∧ ∃ others, rows = e :: others ∧
      updateRows tenant now change rest calendars = some (others, after)) ∨
    ∃ changed ctag middle others, change e = some changed ∧
      Tick tenant changed.calendarId ctag calendars middle ∧
      rows = { changed with updatedAt := now, lastCtag := ctag } :: others ∧
      updateRows tenant now change rest middle = some (others, after) := by
  simp only [updateRows] at updated
  split at updated
  · next kept =>
    simp only [Option.bind_eq_bind, Option.bind_eq_some_iff, Option.some.injEq, Prod.mk.injEq,
      Prod.exists] at updated
    obtain ⟨others, _, run, rfl, rfl⟩ := updated
    exact .inl ⟨kept, others, rfl, run⟩
  · next changed changes =>
    simp only [Option.bind_eq_bind, Option.bind_eq_some_iff, Option.some.injEq, Prod.mk.injEq,
      Prod.exists] at updated
    obtain ⟨ctag, middle, touched, others, _, run, rfl, rfl⟩ := updated
    exact .inr ⟨changed, ctag, middle, others, changes, touch_some touched, rfl, run⟩

theorem updateRows_ticked {rows rows' : List Event} {calendars after : List Calendar}
    (updated : updateRows tenant now change rows calendars = some (rows', after)) :
    Ticked calendars after := by
  induction rows generalizing rows' calendars with
  | nil =>
    simp only [updateRows, Option.some.injEq, Prod.mk.injEq] at updated
    exact updated.2 ▸ .refl _
  | cons e rest ih =>
    rcases updateRows_cons updated with ⟨-, others, -, run⟩ |
      ⟨changed, ctag, middle, others, -, tick, -, run⟩
    · exact ih run
    · exact tick.toTicked.trans (ih run)

/-- Every row goes through an `UPDATE` in its place. -/
theorem updateRows_spec {rows rows' : List Event} {calendars after : List Calendar}
    (updated : updateRows tenant now change rows calendars = some (rows', after)) :
    List.Forall₂ (Updated tenant now change calendars after) rows rows' := by
  induction rows generalizing rows' calendars with
  | nil =>
    simp only [updateRows, Option.some.injEq, Prod.mk.injEq] at updated
    exact updated.1 ▸ .nil
  | cons e rest ih =>
    rcases updateRows_cons updated with ⟨kept, others, rfl, run⟩ |
      ⟨changed, ctag, middle, others, changes, tick, rfl, run⟩
    · exact .cons (.inl ⟨kept, rfl⟩) (ih run)
    · have fresh := tick.fresh.widen (.refl _) (updateRows_ticked run)
      exact .cons (.inr ⟨changed, ctag, changes, rfl, tick.found, fresh⟩)
        ((ih run).imp fun _ _ step => step.widen tick.toTicked)

end

theorem exists_left {α β : Type} {related : α → β → Prop} {first : List α} {second : List β}
    (all : List.Forall₂ related first second) {b : β} (member : b ∈ second) :
    ∃ a ∈ first, related a b := by
  induction all with
  | nil => cases member
  | cons here _ ih =>
    rcases List.mem_cons.mp member with rfl | inRest
    · exact ⟨_, List.mem_cons_self, here⟩
    · obtain ⟨a, listed, step⟩ := ih inRest
      exact ⟨a, List.mem_cons_of_mem _ listed, step⟩

theorem exists_right {α β : Type} {related : α → β → Prop} {first : List α} {second : List β}
    (all : List.Forall₂ related first second) {a : α} (member : a ∈ first) :
    ∃ b ∈ second, related a b :=
  exists_left all.flip member

/-! ### Deleted rows -/

/-- A deleted row and its tombstone. -/
def Buried (tenant : Uuid) (now : Timestamp) (before after : List Calendar) (e : Event)
    (t : Tombstone) : Prop :=
  t = ⟨e.tenantId, e.calendarId, e.uid, t.deletedCtag, now⟩ ∧
    hasCalendar before tenant e.calendarId ∧
    Fresh before after tenant e.calendarId t.deletedCtag

theorem Buried.widen {tenant : Uuid} {now : Timestamp} {first second third : List Calendar}
    {e : Event} {t : Tombstone} (buried : Buried tenant now second third e t)
    (earlier : Ticked first second) : Buried tenant now first third e t :=
  ⟨buried.1, (earlier.rows _ _).mp buried.2.1, buried.2.2.widen earlier (.refl third)⟩

theorem deleteRows_spec {tenant : Uuid} {now : Timestamp} {selected : Event → Bool}
    {rows rows' : List Event} {tombstones : List Tombstone} {calendars after : List Calendar}
    (deleted : deleteRows tenant now selected rows calendars = some (rows', tombstones, after)) :
    (rows' = rows.filter fun e => !selected e) ∧ Ticked calendars after ∧
      List.Forall₂ (Buried tenant now calendars after) (rows.filter selected) tombstones := by
  induction rows generalizing rows' tombstones calendars with
  | nil =>
    simp only [deleteRows, Option.some.injEq, Prod.mk.injEq] at deleted
    obtain ⟨rfl, rfl, rfl⟩ := deleted
    exact ⟨rfl, .refl _, .nil⟩
  | cons e rest ih =>
    simp only [deleteRows] at deleted
    split at deleted
    · next chosen =>
      simp only [Option.bind_eq_bind, Option.bind_eq_some_iff, Option.some.injEq, Prod.mk.injEq,
        Prod.exists] at deleted
      obtain ⟨ctag, middle, touched, _, others, _, run, rfl, rfl, rfl⟩ := deleted
      have tick := touch_some touched
      obtain ⟨left, ticked, buried⟩ := ih run
      rw [List.filter_cons, List.filter_cons, chosen]
      refine ⟨left, tick.toTicked.trans ticked, .cons ?_ ?_⟩
      · exact ⟨rfl, tick.found, tick.fresh.widen (.refl _) ticked⟩
      · exact buried.imp fun _ _ step => step.widen tick.toTicked
    · next kept =>
      simp only [Option.bind_eq_bind, Option.bind_eq_some_iff, Option.some.injEq, Prod.mk.injEq,
        Prod.exists] at deleted
      obtain ⟨_, others, _, run, rfl, rfl, rfl⟩ := deleted
      obtain ⟨left, ticked, buried⟩ := ih run
      rw [List.filter_cons, List.filter_cons, Bool.eq_false_iff.mpr kept]
      exact ⟨congrArg (e :: ·) left, ticked, buried⟩

/-! ### Distinct tags -/

/-- Two rows of one calendar have different tags. -/
def TagsDiffer (e e' : Event) : Prop :=
  e.tenantId = e'.tenantId → e.calendarId = e'.calendarId → e.lastCtag ≠ e'.lastCtag

/-- No row is ahead of its calendar, and no two rows share a tag. -/
structure Tagged (events : List Event) (calendars : List Calendar) : Prop where
  le : ∀ e ∈ events, e.lastCtag ≤ ctagOf calendars e.tenantId e.calendarId
  differ : events.Pairwise TagsDiffer

theorem Tagged.ticked {events : List Event} {calendars after : List Calendar}
    (tagged : Tagged events calendars) (ticked : Ticked calendars after) : Tagged events after :=
  ⟨fun e member => (tagged.le e member).trans (ticked.ctag_le _ _), tagged.differ⟩

theorem Tagged.append {events : List Event} {calendars after : List Calendar} {e : Event}
    (tagged : Tagged events calendars) (ticked : Ticked calendars after)
    (fresh : Fresh calendars after e.tenantId e.calendarId e.lastCtag) :
    Tagged (events ++ [e]) after where
  le x member := by
    rcases List.mem_append.mp member with earlier | last
    · exact (tagged.ticked ticked).le x earlier
    · rw [List.mem_singleton.mp last]
      exact fresh.2
  differ := by
    apply List.pairwise_append.mpr
    refine ⟨tagged.differ, List.pairwise_singleton _ _, ?_⟩
    intro x member y last
    rw [List.mem_singleton.mp last]
    intro tenant calendar same
    have bound := tagged.le x member
    rw [tenant, calendar, same] at bound
    exact absurd fresh.1 (not_lt.mpr bound)

theorem Tagged.filter {events : List Event} {calendars : List Calendar}
    (tagged : Tagged events calendars) (p : Event → Bool) : Tagged (events.filter p) calendars :=
  ⟨fun e member => tagged.le e (List.mem_of_mem_filter member), tagged.differ.filter p⟩

section
variable {tenant : Uuid} {now : Timestamp} {change : Event → Option Event}

/-- A row after an `UPDATE` is an old one, or ahead of the old counter of its calendar. -/
theorem Updated.tag {before after : List Calendar} {e e' : Event}
    (keeps : ∀ changed, change e = some changed → changed.tenantId = tenant)
    (updated : Updated tenant now change before after e e') :
    e' = e ∨ Fresh before after e'.tenantId e'.calendarId e'.lastCtag := by
  rcases updated with ⟨-, kept⟩ | ⟨changed, ctag, changes, rfl, -, fresh⟩
  · exact .inl kept
  · right
    rw [← keeps changed changes] at fresh
    exact fresh

theorem updateRows_tagged {rows rows' : List Event} {calendars after : List Calendar}
    (keeps : ∀ e ∈ rows, ∀ changed, change e = some changed → changed.tenantId = tenant)
    (tagged : Tagged rows calendars)
    (updated : updateRows tenant now change rows calendars = some (rows', after)) :
    Tagged rows' after := by
  constructor
  · intro e' member
    obtain ⟨e, listed, step⟩ := exists_left (updateRows_spec updated) member
    rcases step.tag (keeps e listed) with rfl | fresh
    · exact (tagged.ticked (updateRows_ticked updated)).le e' listed
    · exact fresh.2
  -- each row against the later ones, which the trigger reaches after it
  induction rows generalizing rows' calendars with
  | nil =>
    simp only [updateRows, Option.some.injEq, Prod.mk.injEq] at updated
    exact updated.1 ▸ .nil
  | cons e rest ih =>
    have keepsRest : ∀ x ∈ rest, ∀ changed, change x = some changed → changed.tenantId = tenant :=
      fun x listed => keeps x (List.mem_cons_of_mem e listed)
    obtain ⟨headDiffer, restDiffer⟩ := List.pairwise_cons.mp tagged.differ
    have restTagged : Tagged rest calendars :=
      ⟨fun x listed => tagged.le x (List.mem_cons_of_mem e listed), restDiffer⟩
    rcases updateRows_cons updated with ⟨kept, others, rfl, run⟩ |
      ⟨changed, ctag, middle, others, changes, tick, rfl, run⟩
    · refine List.pairwise_cons.mpr ⟨?_, ih keepsRest restTagged run⟩
      intro x member
      obtain ⟨old, listed, step⟩ := exists_left (updateRows_spec run) member
      rcases step.tag (keepsRest old listed) with rfl | fresh
      · exact headDiffer x listed
      · intro tenant calendar same
        have bound := tagged.le e List.mem_cons_self
        rw [tenant, calendar, same] at bound
        exact absurd fresh.1 (not_lt.mpr bound)
    · refine List.pairwise_cons.mpr ⟨?_, ih keepsRest (restTagged.ticked tick.toTicked) run⟩
      intro x member
      obtain ⟨old, listed, step⟩ := exists_left (updateRows_spec run) member
      have owner := keeps e List.mem_cons_self changed changes
      intro tenant calendar same
      simp only at tenant calendar same
      have given := tick.fresh.1
      have now := tick.new
      rw [← owner, tenant, calendar, same] at given now
      rcases step.tag (keepsRest old listed) with rfl | fresh
      · have bound := restTagged.le x listed
        omega
      · have ahead := fresh.1
        omega

end

end Expresso.CalDav
