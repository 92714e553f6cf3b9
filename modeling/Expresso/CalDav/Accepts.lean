import Expresso.CalDav.Reachable
import Mathlib.Tactic.IntervalCases

/-! When the statements on single events are accepted: the calendar is there and its tag can
still be raised, and the row written passes the checks. -/

namespace Expresso.CalDav
open Text

/-! ### Calendars -/

@[reducible]
def CalendarsOk (calendars : List Calendar) : Prop :=
  (calendars.map (·.id)).Nodup ∧
  ((calendars.filter (·.isDefault)).map (·.ownerUserId)).Nodup ∧
  ∀ c ∈ calendars, -2 ^ 63 ≤ c.ctag ∧ c.ctag < 2 ^ 63

@[reducible]
def EventsOk (calendars : List Calendar) (events : List Event) : Prop :=
  (events.map (·.id)).Nodup ∧
  (events.map fun e => (e.calendarId, e.uid)).Nodup ∧
  (∀ e ∈ events, e.calendarId ∈ calendars.map (·.id)) ∧
  ∀ e ∈ events, e.Valid

theorem Store.calendarsOk (s : Store) : CalendarsOk s.calendars :=
  ⟨s.constraints.1, s.constraints.2.1, s.constraints.2.2.1⟩

theorem Store.eventsOk (s : Store) : EventsOk s.calendars s.events := s.constraints.2.2.2

theorem Tables.Constraints.of_parts {t : Tables} (calendars : CalendarsOk t.calendars)
    (events : EventsOk t.calendars t.events) : t.Constraints :=
  ⟨calendars.1, calendars.2.1, calendars.2.2, events⟩

theorem transaction_accepts {t : Tables} (valid : t.Constraints) :
    ∃ s, transaction (some t) = .ok s ∧ s.toTables = t := by
  have committed : commit t = some ⟨t, valid⟩ := dif_pos valid
  exact ⟨⟨t, valid⟩, by rw [transaction, Option.bind_some, committed], rfl⟩

/-- A calendar row after the trigger. -/
def bumped (tenant calendar : Uuid) (now : Timestamp) (c : Calendar) : Calendar :=
  if c.isRow tenant calendar then { c with ctag := c.ctag + 1, updatedAt := now } else c

section
variable {tenant calendar : Uuid} {now : Timestamp} {calendars : List Calendar} {c : Calendar}

theorem touch_eq (found : calendars.find? (·.isRow tenant calendar) = some c) :
    touch tenant calendar now calendars =
      some (c.ctag + 1, calendars.map (bumped tenant calendar now)) := by
  rw [touch, found]
  rfl

theorem bumped_ids : (calendars.map (bumped tenant calendar now)).map (·.id) =
    calendars.map (·.id) := by
  rw [List.map_map]
  apply List.map_congr_left
  intro c _
  simp only [Function.comp_apply, bumped]
  split <;> rfl

theorem bumped_find (found : calendars.find? (·.isRow tenant calendar) = some c) :
    (calendars.map (bumped tenant calendar now)).find? (·.isRow tenant calendar) =
      some { c with ctag := c.ctag + 1, updatedAt := now } := by
  have rows : ∀ c : Calendar,
      (bumped tenant calendar now c).isRow tenant calendar = c.isRow tenant calendar := by
    intro c
    simp only [bumped]
    split <;> rfl
  have row : c.isRow tenant calendar := List.find?_some found
  simp only [List.find?_map, Function.comp_def, rows, found, Option.map_some]
  rw [bumped, if_pos row]

theorem bumped_ok (found : calendars.find? (·.isRow tenant calendar) = some c)
    (room : c.ctag + 1 < 2 ^ 63) (ok : CalendarsOk calendars) :
    CalendarsOk (calendars.map (bumped tenant calendar now)) := by
  obtain ⟨ids, defaults, range⟩ := ok
  refine ⟨by rwa [bumped_ids], ?_, ?_⟩
  · have kept : ((calendars.map (bumped tenant calendar now)).filter (·.isDefault)).map
        (·.ownerUserId) = (calendars.filter (·.isDefault)).map (·.ownerUserId) := by
      have same : ∀ c : Calendar, (bumped tenant calendar now c).isDefault = c.isDefault ∧
          (bumped tenant calendar now c).ownerUserId = c.ownerUserId := by
        intro c
        simp only [bumped]
        split <;> exact ⟨rfl, rfl⟩
      simp only [List.filter_map, List.map_map, Function.comp_def, same]
    exact kept ▸ defaults
  · intro c' member
    obtain ⟨old, listed, rfl⟩ := List.mem_map.mp member
    have bounds := range old listed
    simp only [bumped]
    split
    · next row =>
      -- there is one row of the id
      have first := List.find?_some found
      simp only [Calendar.isRow, Bool.and_eq_true, decide_eq_true_eq] at row first
      have same : old = c := List.inj_on_of_nodup_map ids listed
        (List.mem_of_find?_eq_some found) (row.1.trans first.1.symm)
      subst same
      exact ⟨by simp only; omega, room⟩
    · exact bounds

end

/-! ### Events -/

theorem EventsOk.append {calendars calendars' : List Calendar} {events : List Event} {row : Event}
    (ok : EventsOk calendars events) (ids : calendars'.map (·.id) = calendars.map (·.id))
    (valid : row.Valid) (calendar : row.calendarId ∈ calendars.map (·.id))
    (freshId : ∀ e ∈ events, e.id ≠ row.id)
    (freshUid : ∀ e ∈ events, ¬e.under row.calendarId row.uid) :
    EventsOk calendars' (events ++ [row]) := by
  obtain ⟨nodupIds, nodupKeys, references, checks⟩ := ok
  refine ⟨?_, ?_, ?_, ?_⟩
  · rw [List.map_append]
    apply List.nodup_append.mpr
    refine ⟨nodupIds, List.nodup_singleton _, ?_⟩
    intro a inEvents b last
    obtain ⟨e, member, rfl⟩ := List.mem_map.mp inEvents
    rw [List.mem_singleton.mp last]
    exact freshId e member
  · rw [List.map_append]
    apply List.nodup_append.mpr
    refine ⟨nodupKeys, List.nodup_singleton _, ?_⟩
    intro a inEvents b last same
    obtain ⟨e, member, rfl⟩ := List.mem_map.mp inEvents
    rw [List.mem_singleton.mp last, Prod.mk.injEq] at same
    exact freshUid e member (by simp [Event.under, same])
  · rw [ids]
    intro e member
    rcases List.mem_append.mp member with old | last
    · exact references e old
    · rw [List.mem_singleton.mp last]
      exact calendar
  · intro e member
    rcases List.mem_append.mp member with old | last
    · exact checks e old
    · rw [List.mem_singleton.mp last]
      exact valid

theorem EventsOk.map {calendars calendars' : List Calendar} {events : List Event}
    {set : Event → Event} (ok : EventsOk calendars events)
    (ids : calendars'.map (·.id) = calendars.map (·.id))
    (same : ∀ e, (set e).id = e.id ∧ (set e).calendarId = e.calendarId)
    (uids : ∀ e ∈ events, (set e).uid = e.uid)
    (valid : ∀ e ∈ events, (set e).Valid) :
    EventsOk calendars' (events.map set) := by
  obtain ⟨nodupIds, nodupKeys, references, -⟩ := ok
  refine ⟨?_, ?_, ?_, ?_⟩
  · simpa only [List.map_map, Function.comp_def, same] using nodupIds
  · have keys : (events.map set).map (fun e => (e.calendarId, e.uid)) =
        events.map fun e => (e.calendarId, e.uid) := by
      rw [List.map_map]
      apply List.map_congr_left
      intro e member
      simp only [Function.comp_apply, same, uids e member]
    rwa [keys]
  · intro e member
    obtain ⟨old, listed, rfl⟩ := List.mem_map.mp member
    rw [ids, (same old).2]
    exact references old listed
  · intro e member
    obtain ⟨old, listed, rfl⟩ := List.mem_map.mp member
    exact valid old listed

theorem EventsOk.filter {calendars calendars' : List Calendar} {events : List Event}
    (ok : EventsOk calendars events) (ids : calendars'.map (·.id) = calendars.map (·.id))
    (p : Event → Bool) : EventsOk calendars' (events.filter p) := by
  obtain ⟨nodupIds, nodupKeys, references, checks⟩ := ok
  refine ⟨nodupIds.sublist (List.filter_sublist.map _),
    nodupKeys.sublist (List.filter_sublist.map _), ?_, ?_⟩
  · intro e member
    rw [ids]
    exact references e (List.mem_of_mem_filter member)
  · intro e member
    exact checks e (List.mem_of_mem_filter member)

/-! ### Statements on one row -/

section
variable {tenant : Uuid} {now : Timestamp} {selected : Event → Bool} {rows : List Event}
  {e : Event}

theorem updateRows_of_none {change : Event → Option Event} (kept : ∀ x ∈ rows, change x = none)
    (calendars : List Calendar) :
    updateRows tenant now change rows calendars = some (rows, calendars) := by
  induction rows with
  | nil => rfl
  | cons x rest ih =>
    rw [updateRows, kept x List.mem_cons_self,
      ih fun y listed => kept y (List.mem_cons_of_mem x listed)]
    rfl

/-- At most one row is selected. -/
def Single (selected : Event → Bool) (rows : List Event) : Prop :=
  rows.Pairwise fun a b => ¬(selected a ∧ selected b)

theorem updateRows_single {set : Event → Event} (single : Single selected rows)
    (member : e ∈ rows) (chosen : selected e) {calendars after : List Calendar} {ctag : Int}
    (touched : touch tenant (set e).calendarId now calendars = some (ctag, after)) :
    updateRows tenant now (fun x => if selected x then some (set x) else none) rows calendars =
      some (rows.map fun x =>
        if selected x then { set x with updatedAt := now, lastCtag := ctag } else x, after) := by
  induction rows with
  | nil => cases member
  | cons x rest ih =>
    obtain ⟨alone, later⟩ := List.pairwise_cons.mp single
    by_cases here : selected x
    · have same : x = e := by
        rcases List.mem_cons.mp member with rfl | inRest
        · rfl
        · exact absurd ⟨here, chosen⟩ (alone e inRest)
      subst same
      have others : ∀ y ∈ rest, selected y = false := fun y listed =>
        Bool.eq_false_iff.mpr fun also => alone y listed ⟨here, also⟩
      have unchanged : rest.map (fun y =>
          if selected y then { set y with updatedAt := now, lastCtag := ctag } else y) = rest := by
        rw [List.map_congr_left (g := id) fun y listed => by simp [others y listed], List.map_id]
      have kept : ∀ y ∈ rest, (if selected y then some (set y) else none) = none := by
        intro y listed
        simp [others y listed]
      simp only [updateRows, if_pos here, touched, Option.bind_eq_bind, Option.bind_some,
        updateRows_of_none kept, List.map_cons, unchanged]
    · have inRest : e ∈ rest := by
        rcases List.mem_cons.mp member with rfl | inRest
        · exact absurd chosen here
        · exact inRest
      simp only [updateRows, if_neg here, ih later inRest, Option.bind_eq_bind, Option.bind_some,
        List.map_cons]

theorem deleteRows_single (single : Single selected rows) (member : e ∈ rows)
    (chosen : selected e) {calendars after : List Calendar} {ctag : Int}
    (touched : touch tenant e.calendarId now calendars = some (ctag, after)) :
    deleteRows tenant now selected rows calendars =
      some (rows.filter fun x => !selected x, [⟨e.tenantId, e.calendarId, e.uid, ctag, now⟩],
        after) := by
  induction rows with
  | nil => cases member
  | cons x rest ih =>
    obtain ⟨alone, later⟩ := List.pairwise_cons.mp single
    by_cases here : selected x
    · have same : x = e := by
        rcases List.mem_cons.mp member with rfl | inRest
        · rfl
        · exact absurd ⟨here, chosen⟩ (alone e inRest)
      subst same
      have others : ∀ y ∈ rest, selected y = false := fun y listed =>
        Bool.eq_false_iff.mpr fun also => alone y listed ⟨here, also⟩
      have unchanged : rest.filter (fun y => !selected y) = rest :=
        List.filter_eq_self.mpr fun y listed => by simp [others y listed]
      rw [List.filter_cons_of_neg (by simp [here]), unchanged]
      simp only [deleteRows, if_pos here, touched, Option.bind_eq_bind, Option.bind_some,
        deleteRows_of_none others]
    · have inRest : e ∈ rest := by
        rcases List.mem_cons.mp member with rfl | inRest
        · exact absurd chosen here
        · exact inRest
      rw [List.filter_cons_of_pos (by simp [here])]
      simp only [deleteRows, if_neg here, ih later inRest, Option.bind_eq_bind, Option.bind_some]

end

/-! ### Writing a body -/

theorem AcceptedBody.fresh {crates : Crates} {raw : Str} {parsed : ParsedEvent}
    (body : AcceptedBody crates raw parsed) (accepted : parseVevent crates raw = .ok parsed)
    (id tenant calendar : Uuid) (now ctag : Int) :
    { Event.fresh id tenant calendar now parsed (computeEtag crates raw) raw with
      lastCtag := ctag }.Valid := by
  obtain ⟨lower, upper⟩ := parseVevent_sequence accepted
  exact body { Event.fresh id tenant calendar now parsed (computeEtag crates raw) raw with
    lastCtag := ctag } lower upper

theorem mem_ids {calendars : List Calendar} {tenant calendar : Uuid} {c : Calendar}
    (found : calendars.find? (·.isRow tenant calendar) = some c) :
    calendar ∈ calendars.map (·.id) := by
  have row : c.isRow tenant calendar := List.find?_some found
  simp only [Calendar.isRow, Bool.and_eq_true, decide_eq_true_eq] at row
  exact List.mem_map.mpr ⟨c, List.mem_of_find?_eq_some found, row.1⟩

section
variable {crates : Crates} {tenant calendar id : Uuid} {raw : Str} {now : Timestamp} {s : Store}
  {parsed : ParsedEvent} {c : Calendar}

/-- The tables with a row of the body appended. -/
def withFresh (crates : Crates) (tenant calendar id : Uuid) (raw : Str) (now : Timestamp)
    (s : Store) (parsed : ParsedEvent) (ctag : Int) : Tables :=
  { s.toTables with
    calendars := s.calendars.map (bumped tenant calendar now)
    events := s.events ++ [{ Event.fresh id tenant calendar now parsed (computeEtag crates raw) raw
      with lastCtag := ctag }] }

theorem withFresh_ok (body : AcceptedBody crates raw parsed)
    (accepted : parseVevent crates raw = .ok parsed)
    (found : s.calendars.find? (·.isRow tenant calendar) = some c)
    (room : c.ctag + 1 < 2 ^ 63) (freshId : ∀ e ∈ s.events, e.id ≠ id)
    (freshUid : ∀ e ∈ s.events, ¬e.under calendar parsed.uid) :
    ∃ s', transaction (some (withFresh crates tenant calendar id raw now s parsed (c.ctag + 1))) =
      .ok s' ∧ s'.toTables = withFresh crates tenant calendar id raw now s parsed (c.ctag + 1) :=
  transaction_accepts (.of_parts (bumped_ok found room s.calendarsOk)
    (s.eventsOk.append bumped_ids (body.fresh accepted id tenant calendar now _) (mem_ids found)
      freshId freshUid))

variable (id now) in
theorem create_accepts (body : AcceptedBody crates raw parsed)
    (accepted : parseVevent crates raw = .ok parsed)
    (found : s.calendars.find? (·.isRow tenant calendar) = some c)
    (room : c.ctag + 1 < 2 ^ 63) (freshId : ∀ e ∈ s.events, e.id ≠ id)
    (freshUid : ∀ e ∈ s.events, ¬e.under calendar parsed.uid) :
    ∃ s' e, create crates tenant calendar raw id now s = .ok (s', e) ∧
      s'.toTables = withFresh crates tenant calendar id raw now s parsed (c.ctag + 1) := by
  obtain ⟨s', written, tables⟩ := withFresh_ok body accepted found room freshId freshUid
  have inserted : insertEvent tenant now
      (Event.fresh id tenant calendar now parsed (computeEtag crates raw) raw) s.toTables =
      some (withFresh crates tenant calendar id raw now s parsed (c.ctag + 1)) := by
    simp only [insertEvent, Event.fresh, touch_eq found, Option.bind_eq_bind, Option.bind_some,
      withFresh]
  have listed : (s'.events.find? (·.id = id)).isSome := by
    rw [List.find?_isSome, tables]
    exact ⟨_, List.mem_append_right _ (List.mem_singleton_self _), by simp [Event.fresh]⟩
  obtain ⟨e, returned⟩ := Option.isSome_iff_exists.mp listed
  refine ⟨s', e, ?_, tables⟩
  simp only [create, accepted, bind, Except.bind, inserted, written, returning, returned]

end

theorem hexDigit_ne_zero (n : Nat) (small : n < 16) : hexDigit n ≠ '\x00' := by
  interval_cases n <;> decide

theorem zero_not_mem_computeEtag (crates : Crates) (raw : Str) :
    '\x00' ∉ computeEtag crates raw := by
  intro member
  obtain ⟨b, -, digit⟩ := List.mem_flatMap.mp member
  have bound : b.toNat < 256 := b.toNat_lt
  simp only [hexByte, List.mem_cons, List.not_mem_nil, or_false] at digit
  rcases digit with high | low
  · exact hexDigit_ne_zero _ (by omega) high.symm
  · exact hexDigit_ne_zero _ (by omega) low.symm

theorem acceptedBody_plainBody {crates : Crates} {uid : Str} (clean : '\x00' ∉ uid) :
    AcceptedBody crates (plainBody uid) { uid } := by
  intro e lower upper
  refine ⟨nofun, nofun, nofun, ?_, nofun, nofun, lower, upper⟩
  intro text member
  have cases : text = uid ∨ text = computeEtag crates (plainBody uid) ∨ text = plainBody uid := by
    simpa [Event.texts, Event.withBody] using member
  rcases cases with rfl | rfl | rfl
  · exact clean
  · exact zero_not_mem_computeEtag crates _
  · intro zero
    rcases List.mem_append.mp zero with start | inUid
    · exact absurd start (by decide)
    · exact clean inUid

end Expresso.CalDav
