import Expresso.CalDav.Accepts

/-! `replaceByUid` and `deleteByUid` in full: when they are accepted, and the tables they
leave. -/

namespace Expresso.CalDav
open Text

/-! ### One row for a key -/

/-- `UNIQUE (calendar_id, uid)`, for the statements that select by it. -/
theorem Store.single_under (s : Store) (calendar : Uuid) (uid : Str) :
    Single (·.under calendar uid) s.events := by
  apply (List.pairwise_map.mp s.constraints.2.2.2.2.1).imp
  rintro a b different ⟨underA, underB⟩
  simp only [Event.under, Bool.and_eq_true, decide_eq_true_eq] at underA underB
  exact different (Prod.ext (underA.1.trans underB.1.symm) (underA.2.trans underB.2.symm))

theorem Event.isAt_iff {tenant calendar : Uuid} {uid : Str} {e : Event} :
    e.isAt tenant calendar uid ↔ e.tenantId = tenant ∧ e.under calendar uid := by
  simp [Event.isAt, Event.under, and_assoc]

theorem Store.single_isAt (s : Store) (tenant calendar : Uuid) (uid : Str) :
    Single (·.isAt tenant calendar uid) s.events :=
  (s.single_under calendar uid).imp fun different both =>
    different ⟨(Event.isAt_iff.1 both.1).2, (Event.isAt_iff.1 both.2).2⟩

/-- Calendar ids are unique, so the events of a calendar belong to its tenant. -/
theorem Coherent.tenant_eq {crates : Crates} {s : Store} (coherent : Coherent crates s.toTables)
    {tenant calendar : Uuid} {c : Calendar} {e : Event}
    (found : s.calendars.find? (·.isRow tenant calendar) = some c) (member : e ∈ s.events)
    (here : e.calendarId = calendar) : e.tenantId = tenant := by
  obtain ⟨c', listed, row'⟩ := coherent.owned e member
  have row := List.find?_some found
  simp only [Calendar.isRow, Bool.and_eq_true, decide_eq_true_eq] at row row'
  have same : c' = c := List.inj_on_of_nodup_map s.constraints.1 listed
    (List.mem_of_find?_eq_some found) (row'.1.trans (here.trans row.1.symm))
  rw [← row'.2, ← row.2, same]

/-! ### The tables `replaceByUid` leaves -/

section
variable (crates : Crates) (tenant calendar id : Uuid) (raw : Str) (now : Timestamp) (s : Store)
  (parsed : ParsedEvent)

/-- The row of a UID rewritten in its place; the trigger fired twice. -/
def rewrite (ctag : Int) (e : Event) : Event :=
  if e.under calendar parsed.uid then
    { e.replaced parsed (computeEtag crates raw) raw with updatedAt := now, lastCtag := ctag }
  else e

def withReplaced (ctag : Int) : Tables :=
  { s.toTables with
    calendars := (s.calendars.map (bumped tenant calendar now)).map (bumped tenant calendar now)
    events := s.events.map (rewrite crates calendar raw now parsed ctag) }

def upserted : Tables :=
  let ctag := ctagOf s.calendars tenant calendar
  match s.events.find? (·.under calendar parsed.uid) with
  | none => withFresh crates tenant calendar id raw now s parsed (ctag + 1)
  | some _ => withReplaced crates tenant calendar raw now s parsed (ctag + 2)

/-- The calendar is there, its tag can be raised, and the row fits: a new id, or a sequence that
can be raised where the columns change. -/
def Writable : Prop :=
  hasCalendar s.calendars tenant calendar ∧
    match s.events.find? (·.under calendar parsed.uid) with
    | none => ctagOf s.calendars tenant calendar + 1 < 2 ^ 63 ∧ ∀ e ∈ s.events, e.id ≠ id
    | some old => ctagOf s.calendars tenant calendar + 2 < 2 ^ 63 ∧
        (old.replaced parsed (computeEtag crates raw) raw).sequence < 2 ^ 31

end

section
variable {crates : Crates} {tenant calendar id : Uuid} {raw : Str} {now : Timestamp} {s : Store}
  {parsed : ParsedEvent}

theorem upsertEvent_eq (coherent : Coherent crates s.toTables)
    (known : hasCalendar s.calendars tenant calendar) :
    upsertEvent tenant now (Event.fresh id tenant calendar now parsed (computeEtag crates raw) raw)
        (fun e => e.replaced parsed (computeEtag crates raw) raw) s.toTables =
      some (upserted crates tenant calendar id raw now s parsed) := by
  obtain ⟨c, found⟩ : ∃ c, s.calendars.find? (·.isRow tenant calendar) = some c :=
    Option.isSome_iff_exists.mp (List.find?_isSome.mpr known)
  have tag : ctagOf s.calendars tenant calendar = c.ctag := by simp [ctagOf, found]
  simp only [upsertEvent, Event.fresh, touch_eq found, Option.bind_eq_bind, Option.bind_some,
    upserted, tag]
  cases row : s.events.find? (·.under calendar parsed.uid) with
  | none => rfl
  | some old =>
    have member := List.mem_of_find?_eq_some row
    have under : old.under calendar parsed.uid := List.find?_some row
    have place : old.calendarId = calendar := by
      simp only [Event.under, Bool.and_eq_true, decide_eq_true_eq] at under
      exact under.1
    have touched : touch tenant (old.replaced parsed (computeEtag crates raw) raw).calendarId now
        (s.calendars.map (bumped tenant calendar now)) = some (c.ctag + 1 + 1,
          (s.calendars.map (bumped tenant calendar now)).map (bumped tenant calendar now)) := by
      change touch tenant old.calendarId now _ = _
      rw [place]
      exact touch_eq (bumped_find found)
    have run : updateRows tenant now (fun e => if e.under calendar parsed.uid then
        some (e.replaced parsed (computeEtag crates raw) raw) else none) s.events
        (s.calendars.map (bumped tenant calendar now)) =
        some (s.events.map (rewrite crates calendar raw now parsed (c.ctag + 1 + 1)),
          (s.calendars.map (bumped tenant calendar now)).map (bumped tenant calendar now)) :=
      updateRows_single (s.single_under calendar parsed.uid) member under touched
    simp only [if_pos (coherent.tenant_eq found member place)]
    change (updateRows tenant now (fun e => if e.under calendar parsed.uid then
      some (e.replaced parsed (computeEtag crates raw) raw) else none) s.events _).bind _ = _
    rw [run, Option.bind_some, add_assoc]
    rfl

theorem replaceByUid_eq (coherent : Coherent crates s.toTables)
    (known : hasCalendar s.calendars tenant calendar)
    (accepted : parseVevent crates raw = .ok parsed) :
    replaceByUid crates tenant calendar raw id now s =
      returning (·.isAt tenant calendar parsed.uid)
        (transaction (some (upserted crates tenant calendar id raw now s parsed))) := by
  simp only [replaceByUid, accepted, bind, Except.bind, upsertEvent_eq coherent known]

variable (id raw now parsed) in
/-- The row of the UID has the body. -/
theorem upserted_holds (coherent : Coherent crates s.toTables)
    (known : hasCalendar s.calendars tenant calendar) :
    ∃ e ∈ (upserted crates tenant calendar id raw now s parsed).events,
      e.isAt tenant calendar parsed.uid ∧ e.icalRaw = raw := by
  obtain ⟨c, found⟩ : ∃ c, s.calendars.find? (·.isRow tenant calendar) = some c :=
    Option.isSome_iff_exists.mp (List.find?_isSome.mpr known)
  simp only [upserted]
  split
  · exact ⟨_, List.mem_append_right _ (List.mem_singleton_self _),
      by simp [Event.isAt, Event.fresh], rfl⟩
  · next old row =>
    have member := List.mem_of_find?_eq_some row
    have under : old.under calendar parsed.uid := List.find?_some row
    refine ⟨_, List.mem_map_of_mem member, ?_, ?_⟩
    · rw [rewrite, if_pos under]
      simp only [Event.under, Bool.and_eq_true, decide_eq_true_eq] at under
      have mine := coherent.tenant_eq found member under.1
      simp only [Event.isAt, Bool.and_eq_true, decide_eq_true_eq]
      exact ⟨⟨mine, under.1⟩, rfl⟩
    · rw [rewrite, if_pos under]
      rfl

/-- The rows of other keys stay as they are. -/
theorem upserted_others {e : Event} (other : ¬e.under calendar parsed.uid) :
    e ∈ (upserted crates tenant calendar id raw now s parsed).events ↔ e ∈ s.events := by
  simp only [upserted]
  split
  · simp only [withFresh, List.mem_append, List.mem_singleton, or_iff_left_iff_imp]
    rintro rfl
    exact absurd (by simp [Event.under, Event.fresh]) other
  · simp only [withReplaced, List.mem_map]
    constructor
    · rintro ⟨x, member, rfl⟩
      by_cases under : x.under calendar parsed.uid
      · rw [rewrite, if_pos under] at other
        simp only [Event.under, Bool.and_eq_true, decide_eq_true_eq] at under
        exact absurd (by simp [Event.under, Event.replaced, Event.withBody, under.1]) other
      · rwa [rewrite, if_neg under]
    · intro member
      exact ⟨e, member, by rw [rewrite, if_neg other]⟩

theorem Event.sequence_le_replaced (parsed : ParsedEvent) (etag raw : Str) (e : Event) :
    e.sequence ≤ (e.replaced parsed etag raw).sequence := by
  simp only [Event.replaced]
  split <;> omega

/-- A new row fits if its id is new. -/
theorem withFresh_constraints_iff {c : Calendar} (body : AcceptedBody crates raw parsed)
    (accepted : parseVevent crates raw = .ok parsed)
    (found : s.calendars.find? (·.isRow tenant calendar) = some c)
    (absent : s.events.find? (·.under calendar parsed.uid) = none) :
    (withFresh crates tenant calendar id raw now s parsed (c.ctag + 1)).Constraints ↔
      c.ctag + 1 < 2 ^ 63 ∧ ∀ e ∈ s.events, e.id ≠ id := by
  constructor
  · rintro ⟨-, -, range, ids, -⟩
    refine ⟨(range _ (List.mem_of_find?_eq_some (bumped_find found))).2, ?_⟩
    intro e member same
    simp only [withFresh, List.map_append] at ids
    exact (List.nodup_append.mp ids).2.2 e.id (List.mem_map_of_mem member) id
      (by simp [Event.fresh]) same
  · rintro ⟨room, freshId⟩
    exact .of_parts (bumped_ok found room s.calendarsOk)
      (s.eventsOk.append bumped_ids (body.fresh accepted id tenant calendar now _) (mem_ids found)
        freshId (List.find?_eq_none.mp absent))

/-- A rewritten row fits if its sequence does. -/
theorem withReplaced_constraints_iff {c : Calendar} {old : Event}
    (body : AcceptedBody crates raw parsed)
    (found : s.calendars.find? (·.isRow tenant calendar) = some c)
    (row : s.events.find? (·.under calendar parsed.uid) = some old) :
    (withReplaced crates tenant calendar raw now s parsed (c.ctag + 2)).Constraints ↔
      c.ctag + 2 < 2 ^ 63 ∧
        (old.replaced parsed (computeEtag crates raw) raw).sequence < 2 ^ 31 := by
  have member := List.mem_of_find?_eq_some row
  have under : old.under calendar parsed.uid := List.find?_some row
  have twice : ((s.calendars.map (bumped tenant calendar now)).map
      (bumped tenant calendar now)).find? (·.isRow tenant calendar) = some _ :=
    bumped_find (bumped_find found)
  constructor
  · rintro ⟨-, -, range, -, -, -, valid⟩
    have room := (range _ (List.mem_of_find?_eq_some twice)).2
    have fits := valid _ (List.mem_map_of_mem member)
    rw [rewrite, if_pos under] at fits
    exact ⟨by simp only at room; omega, fits.2.2.2.2.2.2.2⟩
  · rintro ⟨room, fits⟩
    refine .of_parts (bumped_ok (bumped_find found) (by simp only; omega)
      (bumped_ok found (by omega) s.calendarsOk)) ?_
    refine s.eventsOk.map (bumped_ids.trans bumped_ids) ?_ ?_ ?_
    · intro e
      rw [rewrite]
      split <;> exact ⟨rfl, rfl⟩
    · intro e _
      rw [rewrite]
      split
      · next here =>
        simp only [Event.under, Bool.and_eq_true, decide_eq_true_eq] at here
        exact here.2.symm
      · rfl
    · intro e listed
      rw [rewrite]
      split
      · next here =>
        rw [s.eq_of_under listed member here under]
        have lower := (s.valid member).2.2.2.2.2.2.1
        have raised := old.sequence_le_replaced parsed (computeEtag crates raw) raw
        exact body { old.replaced parsed (computeEtag crates raw) raw with
          updatedAt := now, lastCtag := c.ctag + 2 } (by simp only; omega) fits
      · exact s.valid listed

theorem bumped_tick {c : Calendar} {calendars : List Calendar}
    (found : calendars.find? (·.isRow tenant calendar) = some c) :
    Tick tenant calendar (c.ctag + 1) calendars (calendars.map (bumped tenant calendar now)) :=
  touch_some (touch_eq found)

/-- The tag of the calendar goes up, those of the others stay. -/
theorem upserted_ctag (known : hasCalendar s.calendars tenant calendar) :
    ctagOf s.calendars tenant calendar <
        ctagOf (upserted crates tenant calendar id raw now s parsed).calendars tenant calendar ∧
      ∀ other, other ≠ calendar →
        ctagOf (upserted crates tenant calendar id raw now s parsed).calendars tenant other =
          ctagOf s.calendars tenant other := by
  obtain ⟨c, found⟩ : ∃ c, s.calendars.find? (·.isRow tenant calendar) = some c :=
    Option.isSome_iff_exists.mp (List.find?_isSome.mpr known)
  have first : Tick tenant calendar _ s.calendars (s.calendars.map (bumped tenant calendar now)) :=
    bumped_tick found
  have second : Tick tenant calendar _ _
      ((s.calendars.map (bumped tenant calendar now)).map (bumped tenant calendar now)) :=
    bumped_tick (bumped_find found)
  simp only [upserted]
  split
  · exact ⟨first.fresh.1.trans_le first.new.ge, fun other away =>
      first.others tenant other fun same => away same.2⟩
  · refine ⟨(first.ctag_le _ _).trans_lt (second.fresh.1.trans_le second.new.ge), ?_⟩
    intro other away
    exact (second.others tenant other fun same => away same.2).trans
      (first.others tenant other fun same => away same.2)

variable (now) in
theorem upserted_constraints_iff (body : AcceptedBody crates raw parsed)
    (accepted : parseVevent crates raw = .ok parsed)
    (known : hasCalendar s.calendars tenant calendar) :
    (upserted crates tenant calendar id raw now s parsed).Constraints ↔
      Writable crates tenant calendar id raw s parsed := by
  obtain ⟨c, found⟩ : ∃ c, s.calendars.find? (·.isRow tenant calendar) = some c :=
    Option.isSome_iff_exists.mp (List.find?_isSome.mpr known)
  have tag : ctagOf s.calendars tenant calendar = c.ctag := by simp [ctagOf, found]
  rw [Writable, and_iff_right known]
  simp only [upserted, tag]
  cases row : s.events.find? (·.under calendar parsed.uid) with
  | none => exact withFresh_constraints_iff body accepted found row
  | some old => exact withReplaced_constraints_iff body found row

theorem replaceByUid_tables {s' : Store} {e : Event} (coherent : Coherent crates s.toTables)
    (accepted : parseVevent crates raw = .ok parsed)
    (done : replaceByUid crates tenant calendar raw id now s = .ok (s', e)) :
    hasCalendar s.calendars tenant calendar ∧
      s'.toTables = upserted crates tenant calendar id raw now s parsed := by
  by_cases known : hasCalendar s.calendars tenant calendar
  · rw [replaceByUid_eq coherent known accepted] at done
    exact ⟨known, (Option.some.inj (transaction_ok (returning_ok done))).symm⟩
  · simp [replaceByUid, accepted, bind, Except.bind, upsertEvent, Event.fresh, touch_eq_none known,
      transaction, returning] at done

/-- `replaceByUid` succeeds exactly when the row can be written. -/
theorem replaceByUid_ok_iff (coherent : Coherent crates s.toTables)
    (body : AcceptedBody crates raw parsed) (accepted : parseVevent crates raw = .ok parsed) :
    (∃ s' e, replaceByUid crates tenant calendar raw id now s = .ok (s', e)) ↔
      Writable crates tenant calendar id raw s parsed := by
  constructor
  · rintro ⟨s', e, done⟩
    obtain ⟨known, tables⟩ := replaceByUid_tables coherent accepted done
    exact (upserted_constraints_iff now body accepted known).mp (tables ▸ s'.constraints)
  · intro writable
    have known := writable.1
    obtain ⟨s', written, tables⟩ := transaction_accepts
      ((upserted_constraints_iff now body accepted known).mpr writable)
    obtain ⟨x, member, here, -⟩ := upserted_holds id raw now parsed coherent known
    obtain ⟨e, returned⟩ := Option.isSome_iff_exists.mp
      (List.find?_isSome.mpr ⟨x, tables ▸ member, here⟩)
    refine ⟨s', e, ?_⟩
    rw [replaceByUid_eq coherent known accepted, written]
    simp only [returning, bind, Except.bind, returned]

/-! ### The tables a deletion leaves -/

/-- The one selected row is gone. -/
def without (selected : Event → Bool) (e : Event) (now : Timestamp) (s : Store) : Tables where
  calendars := s.calendars.map (bumped e.tenantId e.calendarId now)
  events := s.events.filter fun x => !selected x
  tombstones := s.tombstones ++
    [⟨e.tenantId, e.calendarId, e.uid, ctagOf s.calendars e.tenantId e.calendarId + 1, now⟩]

variable (now) in
theorem deleteEvents_eq {selected : Event → Bool} {e : Event}
    (coherent : Coherent crates s.toTables) (single : Single selected s.events)
    (member : e ∈ s.events) (chosen : selected e) :
    deleteEvents e.tenantId now selected s.toTables = some (without selected e now s) := by
  obtain ⟨c, found⟩ := coherent.find member
  have tag : ctagOf s.calendars e.tenantId e.calendarId = c.ctag := by simp [ctagOf, found]
  have touched : touch e.tenantId e.calendarId now s.calendars = some _ := touch_eq found
  have run := deleteRows_single single member chosen touched
  simp only [deleteEvents, bind, run, Option.bind_some, without, tag]

/-- A row can be deleted exactly when the tag of its calendar can be raised. -/
theorem without_ok_iff (selected : Event → Bool) {e : Event}
    (coherent : Coherent crates s.toTables) (member : e ∈ s.events) :
    (∃ s', transaction (some (without selected e now s)) = .ok s') ↔
      ctagOf s.calendars e.tenantId e.calendarId + 1 < 2 ^ 63 := by
  obtain ⟨c, found⟩ := coherent.find member
  have tag : ctagOf s.calendars e.tenantId e.calendarId = c.ctag := by simp [ctagOf, found]
  rw [tag]
  constructor
  · rintro ⟨s', written⟩
    have listed : _ ∈ (without selected e now s).calendars :=
      List.mem_of_find?_eq_some (bumped_find found)
    rw [Option.some.inj (transaction_ok written)] at listed
    exact (s'.constraints.2.2.1 _ listed).2
  · intro room
    have fits : (without selected e now s).Constraints :=
      .of_parts (bumped_ok found room s.calendarsOk) (s.eventsOk.filter bumped_ids _)
    obtain ⟨s', written, -⟩ := transaction_accepts fits
    exact ⟨s', written⟩

def withoutUid (tenant calendar : Uuid) (uid : Str) (now : Timestamp) (s : Store) : Tables where
  calendars := s.calendars.map (bumped tenant calendar now)
  events := s.events.filter fun e => !e.isAt tenant calendar uid
  tombstones := s.tombstones ++
    [⟨tenant, calendar, uid, ctagOf s.calendars tenant calendar + 1, now⟩]

theorem deleteByUid_eq {uid : Str} {e : Event} (coherent : Coherent crates s.toTables)
    (member : e ∈ s.events) (here : e.isAt tenant calendar uid) :
    deleteByUid tenant calendar uid now s =
      transaction (some (withoutUid tenant calendar uid now s)) := by
  obtain ⟨x, row⟩ := Option.isSome_iff_exists.mp (List.find?_isSome.mpr ⟨e, member, here⟩)
  have place := here
  simp only [Event.isAt, Bool.and_eq_true, decide_eq_true_eq] at place
  obtain ⟨⟨rfl, rfl⟩, rfl⟩ := place
  have single := s.single_isAt e.tenantId e.calendarId e.uid
  have run := deleteEvents_eq now coherent single member here
  simp only [deleteByUid, getByUid, row, bind, Except.bind, run]
  rfl

/-- `deleteByUid` succeeds on a row exactly when the tag of its calendar can be raised. -/
theorem deleteByUid_ok_iff {uid : Str} {e : Event} (coherent : Coherent crates s.toTables)
    (member : e ∈ s.events) (here : e.isAt tenant calendar uid) :
    (∃ s', deleteByUid tenant calendar uid now s = .ok s') ↔
      ctagOf s.calendars tenant calendar + 1 < 2 ^ 63 := by
  rw [deleteByUid_eq coherent member here]
  simp only [Event.isAt, Bool.and_eq_true, decide_eq_true_eq] at here
  obtain ⟨⟨rfl, rfl⟩, rfl⟩ := here
  exact without_ok_iff _ coherent member

theorem Store.single_isRow (s : Store) (tenant id : Uuid) : Single (·.isRow tenant id) s.events := by
  apply (List.pairwise_map.mp s.constraints.2.2.2.1).imp
  rintro a b different ⟨rowA, rowB⟩
  simp only [Event.isRow, Bool.and_eq_true, decide_eq_true_eq] at rowA rowB
  exact different (rowA.2.trans rowB.2.symm)

theorem delete_eq {e : Event} (coherent : Coherent crates s.toTables) (member : e ∈ s.events) :
    delete e.tenantId e.id now s =
      transaction (some (without (·.isRow e.tenantId e.id) e now s)) := by
  have here : e.isRow e.tenantId e.id = true := by simp [Event.isRow]
  obtain ⟨x, row⟩ := Option.isSome_iff_exists.mp (List.find?_isSome.mpr ⟨e, member, here⟩)
  have single := s.single_isRow e.tenantId e.id
  have run := deleteEvents_eq now coherent single member here
  simp only [delete, get, row, bind, Except.bind, run]

end

end Expresso.CalDav
