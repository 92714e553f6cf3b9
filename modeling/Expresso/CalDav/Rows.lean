import Expresso.CalDav.Reachable

/-! What a command makes of every row: the columns that name a row, hold its body and count
its revisions. -/

namespace Expresso.CalDav
open Text

/-- The id, the tenant, the UID, the body and the sequence of a row. -/
def Event.revision (e : Event) : Uuid × Uuid × Str × Str × Int :=
  (e.id, e.tenantId, e.uid, e.icalRaw, e.sequence)

section
variable {e e' : Event} (same : e'.revision = e.revision)
include same

theorem Event.revision_id : e'.id = e.id := congrArg (·.1) same

theorem Event.revision_tenant : e'.tenantId = e.tenantId := congrArg (·.2.1) same

theorem Event.revision_uid : e'.uid = e.uid := congrArg (·.2.2.1) same

theorem Event.revision_body : e'.icalRaw = e.icalRaw := congrArg (·.2.2.2.1) same

theorem Event.revision_sequence : e'.sequence = e.sequence := congrArg (·.2.2.2.2) same

end

/-- Where a row comes from that stands in the tables after a command. -/
inductive Outcome (crates : Crates) (now : Timestamp) (s : Store) : EventCommand → Event → Prop
  | kept {command : EventCommand} {e e' : Event} (listed : e ∈ s.events)
      (same : e'.revision = e.revision) : Outcome crates now s command e'
  | created {tenant calendar id : Uuid} {raw : Str} {parsed : ParsedEvent} {e' : Event}
      (accepted : parseVevent crates raw = .ok parsed)
      (same : e'.revision = (Event.fresh id tenant calendar now parsed
        (computeEtag crates raw) raw).revision) :
      Outcome crates now s (.create tenant calendar raw id) e'
  | updated {tenant id : Uuid} {raw : Str} {parsed : ParsedEvent} {e e' : Event}
      (listed : e ∈ s.events) (row : e.isRow tenant id)
      (accepted : parseVevent crates raw = .ok parsed)
      (same : e'.revision = (e.replaced parsed (computeEtag crates raw) raw).revision) :
      Outcome crates now s (.update tenant id raw) e'
  | patched {tenant id : Uuid} {p : Patch} {etag : Str} {e e' : Event} (listed : e ∈ s.events)
      (row : e.isRow tenant id) (same : e'.revision = (e.patched p etag).revision) :
      Outcome crates now s (.patchFields tenant id p etag) e'
  | inserted {tenant calendar id : Uuid} {raw : Str} {parsed : ParsedEvent} {e' : Event}
      (accepted : parseVevent crates raw = .ok parsed)
      (absent : ∀ e ∈ s.events, ¬e.under calendar parsed.uid)
      (same : e'.revision = (Event.fresh id tenant calendar now parsed
        (computeEtag crates raw) raw).revision) :
      Outcome crates now s (.replaceByUid tenant calendar raw id) e'
  | replaced {tenant calendar id : Uuid} {raw : Str} {parsed : ParsedEvent} {e e' : Event}
      (listed : e ∈ s.events) (accepted : parseVevent crates raw = .ok parsed)
      (here : e.under calendar parsed.uid) (mine : e.tenantId = tenant)
      (same : e'.revision = (e.replaced parsed (computeEtag crates raw) raw).revision) :
      Outcome crates now s (.replaceByUid tenant calendar raw id) e'

section
variable {crates : Crates} {now : Timestamp} {s s' : Store} {tenant : Uuid} {e' : Event}

theorem Inserted.row {t t' : Tables} {row : Event} (inserted : Inserted tenant row t t')
    (member : e' ∈ t'.events) : e' ∈ t.events ∨ e'.revision = row.revision := by
  obtain ⟨ctag, -, events⟩ := inserted.written
  rw [events, List.mem_append, List.mem_singleton] at member
  rcases member with old | rfl
  · exact .inl old
  · exact .inr rfl

theorem Changed.row_eq {t t' : Tables} {selected : Event → Bool} {set : Event → Event}
    (changed : Changed tenant now (fun e => if selected e then some (set e) else none) t t')
    (member : e' ∈ t'.events) :
    ∃ e ∈ t.events, (¬selected e ∧ e' = e) ∨
      (selected e ∧ ∃ ctag, e' = { set e with updatedAt := now, lastCtag := ctag }) := by
  obtain ⟨middle, -, run⟩ := changed.written
  obtain ⟨e, listed, ⟨kept, rfl⟩ | ⟨row, ctag, changes, rfl, -, -⟩⟩ :=
    exists_left (updateRows_spec run) member
  · exact ⟨e', listed, .inl ⟨by simpa using kept, rfl⟩⟩
  · simp only [Option.ite_none_right_eq_some, Option.some.injEq] at changes
    obtain ⟨chosen, rfl⟩ := changes
    exact ⟨e, listed, .inr ⟨chosen, ctag, rfl⟩⟩

theorem Changed.row {t t' : Tables} {selected : Event → Bool} {set : Event → Event}
    (changed : Changed tenant now (fun e => if selected e then some (set e) else none) t t')
    (member : e' ∈ t'.events) :
    ∃ e ∈ t.events, (¬selected e ∧ e' = e) ∨ (selected e ∧ e'.revision = (set e).revision) := by
  obtain ⟨e, listed, kept | ⟨chosen, ctag, rfl⟩⟩ := changed.row_eq member
  · exact ⟨e, listed, .inl kept⟩
  · exact ⟨e, listed, .inr ⟨chosen, rfl⟩⟩

/-- What becomes of a selected row. -/
theorem Changed.image {t t' : Tables} {selected : Event → Bool} {set : Event → Event} {e : Event}
    (changed : Changed tenant now (fun e => if selected e then some (set e) else none) t t')
    (member : e ∈ t.events) (chosen : selected e) :
    ∃ ctag, { set e with updatedAt := now, lastCtag := ctag } ∈ t'.events := by
  obtain ⟨middle, -, run⟩ := changed.written
  obtain ⟨e', listed, ⟨kept, -⟩ | ⟨row, ctag, changes, rfl, -, -⟩⟩ :=
    exists_right (updateRows_spec run) member
  · simp [chosen] at kept
  · simp only [chosen, if_true, Option.some.injEq] at changes
    exact ⟨ctag, changes ▸ listed⟩

theorem Deleted.row {t t' : Tables} {selected : Event → Bool}
    (deleted : Deleted tenant now selected t t') (member : e' ∈ t'.events) : e' ∈ t.events := by
  obtain ⟨tombstones, run, -⟩ := deleted.written
  rw [(deleteRows_spec run).1] at member
  exact List.mem_of_mem_filter member

/-- An inserted row is in its calendar. -/
theorem Inserted.elsewhere {t t' : Tables} {row : Event} (inserted : Inserted tenant row t t')
    {e : Event} (other : e.calendarId ≠ row.calendarId) : e ∈ t'.events ↔ e ∈ t.events := by
  obtain ⟨ctag, -, events⟩ := inserted.written
  rw [events, List.mem_append, List.mem_singleton]
  constructor
  · rintro (old | rfl)
    · exact old
    · exact absurd rfl other
  · exact .inl

/-- Changes to rows that are and stay in one calendar. -/
theorem Changed.elsewhere {t t' : Tables} {calendar : Uuid} {selected : Event → Bool}
    {set : Event → Event}
    (changed : Changed tenant now (fun e => if selected e then some (set e) else none) t t')
    (inside : ∀ e ∈ t.events, selected e → e.calendarId = calendar ∧ (set e).calendarId = calendar)
    {e : Event} (other : e.calendarId ≠ calendar) : e ∈ t'.events ↔ e ∈ t.events := by
  obtain ⟨middle, -, run⟩ := changed.written
  constructor
  · intro member
    obtain ⟨old, listed, ⟨-, rfl⟩ | ⟨row, ctag, changes, rfl, -, -⟩⟩ :=
      exists_left (updateRows_spec run) member
    · exact listed
    · simp only [Option.ite_none_right_eq_some, Option.some.injEq] at changes
      obtain ⟨chosen, rfl⟩ := changes
      exact absurd (inside old listed chosen).2 other
  · intro member
    obtain ⟨new, listed, ⟨-, rfl⟩ | ⟨row, ctag, changes, -, -, -⟩⟩ :=
      exists_right (updateRows_spec run) member
    · exact listed
    · simp only [Option.ite_none_right_eq_some, Option.some.injEq] at changes
      exact absurd (inside e member changes.1).1 other

/-- A change that no command's revision depends on. -/
theorem Outcome.of_changed {command : EventCommand} {selected : Event → Bool}
    {set : Event → Event} (unwritten : ∀ e, (set e).revision = e.revision)
    (changed : Changed tenant now (fun e => if selected e then some (set e) else none)
      s.toTables s'.toTables) (member : e' ∈ s'.events) : Outcome crates now s command e' := by
  obtain ⟨e, listed, ⟨-, rfl⟩ | ⟨-, same⟩⟩ := changed.row member
  · exact .kept listed rfl
  · exact .kept listed (same.trans (unwritten e))

theorem RangeChange.exec_revision {calendar : Uuid} {fromAt toAt : Option Timestamp}
    {change : RangeChange} {count : Nat}
    (done : change.exec tenant calendar fromAt toAt now s = .ok (s', count)) :
    ∃ set : Event → Event, (∀ e, (set e).revision = e.revision) ∧
      Changed tenant now
        (fun e => if e.inRange tenant calendar fromAt toAt then some (set e) else none)
        s.toTables s'.toTables := by
  cases change <;> refine ⟨_, fun e => ?_, updateRange_ok done⟩ <;> rfl

theorem EventCommand.exec_row {command : EventCommand} (done : command.exec crates now s = .ok s')
    (member : e' ∈ s'.events) : Outcome crates now s command e' := by
  cases command with
  | create tenant calendar raw id =>
    obtain ⟨row, done⟩ := map_fst_ok done
    obtain ⟨parsed, accepted, inserted⟩ := create_ok done
    rcases inserted.row member with old | fresh
    · exact .kept old rfl
    · exact .created accepted fresh
  | update tenant id raw =>
    obtain ⟨row, done⟩ := map_fst_ok done
    obtain ⟨parsed, accepted, changed⟩ := update_ok done
    obtain ⟨e, listed, ⟨-, rfl⟩ | ⟨chosen, same⟩⟩ := changed.row member
    · exact .kept listed rfl
    · exact .updated listed chosen accepted same
  | patchFields tenant id p etag =>
    obtain ⟨row, done⟩ := map_fst_ok done
    obtain ⟨e, listed, ⟨-, rfl⟩ | ⟨chosen, same⟩⟩ := (patchFields_ok done).row member
    · exact .kept listed rfl
    · exact .patched listed chosen same
  | replaceByUid tenant calendar raw id =>
    obtain ⟨row, done⟩ := map_fst_ok done
    obtain ⟨parsed, accepted, ⟨absent, inserted⟩ | ⟨⟨old, here, under, mine⟩, changed⟩⟩ :=
      replaceByUid_ok done
    · rcases inserted.row member with old | fresh
      · exact .kept old rfl
      · exact .inserted accepted absent fresh
    · obtain ⟨e, listed, ⟨-, rfl⟩ | ⟨chosen, same⟩⟩ := changed.row member
      · exact .kept listed rfl
      · have one := s.eq_of_under listed here chosen under
        exact .replaced listed accepted chosen (one ▸ mine) same
  | delete tenant id => exact .kept ((delete_ok done).row member) rfl
  | deleteByUid tenant calendar uid => exact .kept ((deleteByUid_ok done).row member) rfl
  | deleteRange tenant calendar fromAt toAt =>
    obtain ⟨count, done⟩ := map_fst_ok done
    exact .kept ((deleteRange_ok done).row member) rfl
  | moveRange tenant src dst fromAt toAt =>
    obtain ⟨count, done⟩ := map_fst_ok done
    refine Outcome.of_changed (fun e => ?_) (updateRange_ok done) member
    rfl
  | setRange tenant calendar fromAt toAt change =>
    obtain ⟨count, done⟩ := map_fst_ok done
    obtain ⟨set, unwritten, changed⟩ := RangeChange.exec_revision done
    exact Outcome.of_changed unwritten changed member

/-- The commands on calendars write no event. -/
theorem Command.exec_events {command : Command} (done : command.exec crates now s = .ok s') :
    (∃ events, command = .event events ∧ events.exec crates now s = .ok s') ∨
      s'.events = s.events := by
  cases command with
  | event events => exact .inl ⟨events, rfl, done⟩
  | createCalendar id tenant owner input =>
    obtain ⟨row, done⟩ := map_fst_ok done
    rw [(CalendarRepo.createWithId_ok done).1]
    exact .inr rfl
  | updateCalendar tenant id patch =>
    rw [CalendarRepo.update_ok done]
    exact .inr rfl
  | deleteCalendar tenant id =>
    rw [(CalendarRepo.delete_ok done).2]
    exact .inr rfl
  | purge cutoff =>
    cases done
    exact .inr rfl

/-! ### The row a method returns -/

theorem Store.eq_of_id (s : Store) {e e' : Event} (member : e ∈ s.events)
    (member' : e' ∈ s.events) (same : e.id = e'.id) : e = e' :=
  List.inj_on_of_nodup_map s.constraints.2.2.2.1 member member' same

theorem returning_row {row : Event → Bool} {written : Result Store} {e : Event}
    (returned : returning row written = .ok (s', e)) : e ∈ s'.events ∧ row e := by
  simp only [returning, bind, Except.bind] at returned
  split at returned
  · cases returned
  · split at returned
    · next found =>
      simp only [Except.ok.injEq, Prod.mk.injEq] at returned
      obtain ⟨rfl, rfl⟩ := returned
      exact ⟨List.mem_of_find?_eq_some found, List.find?_some found⟩
    · cases returned

/-- A method that writes the body of one row: the row it returns. -/
structure Rewrites (tenant : Uuid) (raw : Str) (row : Event) (s s' : Store) : Prop where
  member : row ∈ s'.events
  mine : row.tenantId = tenant
  body : row.icalRaw = raw
  others : ∀ e' ∈ s'.events, e' = row ∨ e' ∈ s.events
  before : ∀ e ∈ s.events, e.id = row.id → e.tenantId = tenant

variable {calendar id : Uuid} {raw : Str} {row : Event}

/-- The rows there were have other ids than an inserted one. -/
theorem Inserted.id_ne {inserted : Event} (written : Inserted tenant inserted s.toTables
    s'.toTables) {e : Event} (listed : e ∈ s.events) : e.id ≠ inserted.id := by
  obtain ⟨ctag, -, events⟩ := written.written
  have unique := s'.constraints.2.2.2.1
  rw [events, List.map_append, List.nodup_append] at unique
  exact unique.2.2 e.id (List.mem_map_of_mem listed) inserted.id (by simp)

theorem rewrites_of_inserted {inserted : Event} (written : Inserted tenant inserted s.toTables
    s'.toTables) (mine : inserted.tenantId = tenant) (body : inserted.icalRaw = raw)
    (member : row ∈ s'.events) (new : row ∉ s.events) : Rewrites tenant raw row s s' := by
  obtain ⟨ctag, -, events⟩ := written.written
  have cases : ∀ e' ∈ s'.events, e' ∈ s.events ∨ e' = { inserted with lastCtag := ctag } := by
    intro e' listed
    rw [events, List.mem_append, List.mem_singleton] at listed
    exact listed
  have isNew := (cases row member).resolve_left new
  refine ⟨member, by rw [isNew, ← mine], by rw [isNew, ← body], ?_, ?_⟩
  · intro e' listed
    rw [isNew]
    exact (cases e' listed).symm
  · intro e listed same
    rw [isNew] at same
    exact absurd same (written.id_ne listed)

theorem create_row (done : create crates tenant calendar raw id now s = .ok (s', row)) :
    Rewrites tenant raw row s s' := by
  obtain ⟨parsed, -, inserted⟩ := create_ok done
  have returned : row ∈ s'.events ∧ row.id = id := by
    simp only [create, bind, Except.bind] at done
    split at done
    · cases done
    · simpa using returning_row done
  exact rewrites_of_inserted inserted rfl rfl returned.1
    fun listed => inserted.id_ne listed returned.2

theorem update_returned (done : update crates tenant id raw now s = .ok (s', row)) :
    row ∈ s'.events ∧ row.isRow tenant id := by
  simp only [update, bind, Except.bind] at done
  split at done
  · cases done
  · split at done
    · cases done
    · exact returning_row done

/-- The times of an updated row are those of its body. -/
theorem update_times (done : update crates tenant id raw now s = .ok (s', row)) :
    ∃ parsed, parseVevent crates raw = .ok parsed ∧
      (row.dtstart, row.dtend) =
        (parsed.dtstart.map toTimestamp, parsed.dtend.map toTimestamp) := by
  obtain ⟨parsed, accepted, changed⟩ := update_ok done
  obtain ⟨member, isRow⟩ := update_returned done
  obtain ⟨e, -, ⟨unselected, rfl⟩ | ⟨-, ctag, rfl⟩⟩ := changed.row_eq member
  · exact absurd isRow unselected
  · exact ⟨parsed, accepted, rfl⟩

theorem update_row (done : update crates tenant id raw now s = .ok (s', row)) :
    Rewrites tenant raw row s s' ∧ ∃ e ∈ s.events, e.isRow tenant id ∧ e.id = row.id := by
  obtain ⟨parsed, -, changed⟩ := update_ok done
  have returned := update_returned done
  have ids : ∀ e : Event, e.isRow tenant id → e.tenantId = tenant ∧ e.id = id := by
    intro e row
    simpa [Event.isRow] using row
  have isRow := ids row returned.2
  obtain ⟨e, listed, ⟨unselected, rfl⟩ | ⟨chosen, same⟩⟩ := changed.row returned.1
  · exact absurd returned.2 unselected
  · have old := ids e chosen
    refine ⟨⟨returned.1, isRow.1, Event.revision_body same, ?_, ?_⟩,
      e, listed, chosen, old.2.trans isRow.2.symm⟩
    · intro e' listed'
      obtain ⟨other, listed'', ⟨-, rfl⟩ | ⟨chosen', same'⟩⟩ := changed.row listed'
      · exact .inr listed''
      · refine .inl (s'.eq_of_id listed' returned.1 ?_)
        exact ((Event.revision_id same').trans (ids other chosen').2).trans isRow.2.symm
    · intro other listed' taken
      rw [s.eq_of_id listed' listed (taken.trans (isRow.2.trans old.2.symm)), old.1]

theorem replaceByUid_row
    (done : replaceByUid crates tenant calendar raw id now s = .ok (s', row)) :
    Rewrites tenant raw row s s' := by
  obtain ⟨parsed, accepted, outcome⟩ := replaceByUid_ok done
  have returned : row ∈ s'.events ∧ row.isAt tenant calendar parsed.uid := by
    simp only [replaceByUid, bind, Except.bind, accepted] at done
    exact returning_row done
  have place : row.tenantId = tenant ∧ row.calendarId = calendar ∧ row.uid = parsed.uid := by
    simpa [Event.isAt, and_assoc] using returned.2
  have under : row.under calendar parsed.uid := by simp [Event.under, place]
  rcases outcome with ⟨absent, inserted⟩ | ⟨⟨old, here, oldUnder, mine⟩, changed⟩
  · exact rewrites_of_inserted inserted rfl rfl returned.1 fun listed => absent row listed under
  · obtain ⟨e, listed, ⟨unselected, rfl⟩ | ⟨chosen, same⟩⟩ := changed.row returned.1
    · exact absurd under unselected
    · have kept : row.id = e.id := by
        have := Event.revision_id same
        exact this
      refine ⟨returned.1, place.1, Event.revision_body same, ?_, ?_⟩
      · intro e' listed'
        obtain ⟨other, listed'', ⟨-, rfl⟩ | ⟨chosen', same'⟩⟩ := changed.row listed'
        · exact .inr listed''
        · have one := s.eq_of_under listed'' listed chosen' chosen
          refine .inl (s'.eq_of_id listed' returned.1 ?_)
          rw [kept, ← one]
          have := Event.revision_id same'
          exact this
      · intro other listed' taken
        have one := s.eq_of_id listed' listed (taken.trans kept)
        rw [one, s.eq_of_under listed here chosen oldUnder, mine]

end

end Expresso.CalDav
