import Expresso.CalDav.Repo
import Expresso.CalDav.Trigger

/-! The commands of the repositories, the stores that any run of them reaches, and what holds
in all of these: rows are indexed under the UID of their body, belong to a calendar of their
tenant, and have distinct tags. -/

namespace Expresso.CalDav
open Text

/-! ### What the statements and methods write -/

theorem transaction_ok {tables : Option Tables} {s : Store}
    (written : transaction tables = .ok s) : tables = some s.toTables := by
  simp only [transaction] at written
  split at written
  · next found =>
    cases written
    obtain ⟨t, produced, committed⟩ := Option.bind_eq_some_iff.mp found
    rw [produced, commit_some committed]
  · cases written

theorem returning_ok {row : Event → Bool} {written : Result Store} {s : Store} {e : Event}
    (returned : returning row written = .ok (s, e)) : written = .ok s := by
  simp only [returning, bind, Except.bind] at returned
  split at returned
  · cases returned
  · split at returned
    · simp only [Except.ok.injEq, Prod.mk.injEq] at returned
      rw [returned.1]
    · cases returned

/-- An inserted row: the trigger fired once for it. -/
structure Inserted (tenant : Uuid) (row : Event) (t t' : Tables) : Prop where
  written : ∃ ctag, Tick tenant row.calendarId ctag t.calendars t'.calendars ∧
    t'.events = t.events ++ [{ row with lastCtag := ctag }]
  tombstones : t'.tombstones = t.tombstones

/-- Changed rows, after the trigger may have fired for a proposed row. -/
structure Changed (tenant : Uuid) (now : Timestamp) (change : Event → Option Event)
    (t t' : Tables) : Prop where
  written : ∃ middle, Ticked t.calendars middle ∧
    updateRows tenant now change t.events middle = some (t'.events, t'.calendars)
  tombstones : t'.tombstones = t.tombstones

structure Deleted (tenant : Uuid) (now : Timestamp) (selected : Event → Bool)
    (t t' : Tables) : Prop where
  written : ∃ tombstones,
    deleteRows tenant now selected t.events t.calendars =
      some (t'.events, tombstones, t'.calendars) ∧
    t'.tombstones = t.tombstones ++ tombstones

section
variable {tenant : Uuid} {now : Timestamp} {t t' : Tables}

theorem insertEvent_some {row : Event} (written : insertEvent tenant now row t = some t') :
    Inserted tenant row t t' := by
  simp only [insertEvent, Option.bind_eq_bind, Option.bind_eq_some_iff, Option.some.injEq,
    Prod.exists] at written
  obtain ⟨ctag, calendars, touched, rfl⟩ := written
  exact ⟨⟨ctag, touch_some touched, rfl⟩, rfl⟩

theorem updateEvents_some {change : Event → Option Event}
    (written : updateEvents tenant now change t = some t') : Changed tenant now change t t' := by
  simp only [updateEvents, Option.bind_eq_bind, Option.bind_eq_some_iff, Option.some.injEq,
    Prod.exists] at written
  obtain ⟨events, calendars, run, rfl⟩ := written
  exact ⟨⟨t.calendars, .refl _, run⟩, rfl⟩

theorem deleteEvents_some {selected : Event → Bool}
    (written : deleteEvents tenant now selected t = some t') :
    Deleted tenant now selected t t' := by
  simp only [deleteEvents, Option.bind_eq_bind, Option.bind_eq_some_iff, Option.some.injEq,
    Prod.exists] at written
  obtain ⟨events, tombstones, calendars, run, rfl⟩ := written
  exact ⟨⟨tombstones, run, rfl⟩⟩

theorem upsertEvent_some {row : Event} {merge : Event → Event}
    (written : upsertEvent tenant now row merge t = some t') :
    ((∀ e ∈ t.events, ¬e.under row.calendarId row.uid) ∧ Inserted tenant row t t') ∨
      (∃ old ∈ t.events, old.under row.calendarId row.uid ∧ old.tenantId = tenant) ∧
        Changed tenant now
          (fun e => if e.under row.calendarId row.uid then some (merge e) else none) t t' := by
  simp only [upsertEvent, Option.bind_eq_bind, Option.bind_eq_some_iff, Prod.exists] at written
  obtain ⟨ctag, calendars, touched, written⟩ := written
  have tick := touch_some touched
  split at written
  · next notFound =>
    cases written
    exact .inl ⟨List.find?_eq_none.mp notFound, ⟨ctag, tick, rfl⟩, rfl⟩
  · next old found =>
    split at written
    · next mine =>
      refine .inr ⟨⟨old, List.mem_of_find?_eq_some found, List.find?_some found, mine⟩, ?_⟩
      obtain ⟨⟨middle, ticked, run⟩, tombstones⟩ := updateEvents_some written
      exact ⟨⟨middle, tick.toTicked.trans ticked, run⟩, tombstones⟩
    · cases written

end

section
variable {crates : Crates} {tenant calendar id : Uuid} {raw : Str} {now : Timestamp}
  {s s' : Store} {e : Event}

theorem create_ok (done : create crates tenant calendar raw id now s = .ok (s', e)) :
    ∃ parsed, parseVevent crates raw = .ok parsed ∧
      Inserted tenant (Event.fresh id tenant calendar now parsed (computeEtag crates raw) raw)
        s.toTables s'.toTables := by
  simp only [create, bind, Except.bind] at done
  split at done
  · cases done
  · next parsed accepted =>
    exact ⟨parsed, accepted, insertEvent_some (transaction_ok (returning_ok done))⟩

theorem update_ok (done : update crates tenant id raw now s = .ok (s', e)) :
    ∃ parsed, parseVevent crates raw = .ok parsed ∧
      Changed tenant now (fun e => if e.isRow tenant id then
        some (e.replaced parsed (computeEtag crates raw) raw) else none)
        s.toTables s'.toTables := by
  simp only [update, bind, Except.bind] at done
  split at done
  · cases done
  · next parsed accepted =>
    split at done
    · cases done
    · exact ⟨parsed, accepted, updateEvents_some (transaction_ok (returning_ok done))⟩

theorem replaceByUid_ok (done : replaceByUid crates tenant calendar raw id now s = .ok (s', e)) :
    ∃ parsed, parseVevent crates raw = .ok parsed ∧
      ((∀ e ∈ s.events, ¬e.under calendar parsed.uid) ∧
        Inserted tenant (Event.fresh id tenant calendar now parsed (computeEtag crates raw) raw)
          s.toTables s'.toTables ∨
      (∃ old ∈ s.events, old.under calendar parsed.uid ∧ old.tenantId = tenant) ∧
        Changed tenant now (fun e => if e.under calendar parsed.uid then
          some (e.replaced parsed (computeEtag crates raw) raw) else none)
          s.toTables s'.toTables) := by
  simp only [replaceByUid, bind, Except.bind] at done
  split at done
  · cases done
  · next parsed accepted =>
    exact ⟨parsed, accepted, upsertEvent_some (transaction_ok (returning_ok done))⟩

theorem patchFields_ok {p : Patch} {etag : Str}
    (done : patchFields tenant id p etag now s = .ok (s', e)) :
    Changed tenant now (fun e => if e.isRow tenant id then some (e.patched p etag) else none)
      s.toTables s'.toTables := by
  simp only [patchFields, bind, Except.bind] at done
  split at done
  · cases done
  · exact updateEvents_some (transaction_ok (returning_ok done))

theorem delete_ok (done : delete tenant id now s = .ok s') :
    Deleted tenant now (·.isRow tenant id) s.toTables s'.toTables := by
  simp only [delete, bind, Except.bind] at done
  split at done
  · cases done
  · exact deleteEvents_some (transaction_ok done)

theorem deleteByUid_ok {uid : Str} (done : deleteByUid tenant calendar uid now s = .ok s') :
    Deleted tenant now (·.isAt tenant calendar uid) s.toTables s'.toTables := by
  simp only [deleteByUid, bind, Except.bind] at done
  split at done
  · cases done
  · exact deleteEvents_some (transaction_ok done)

theorem deleteRange_ok {fromAt toAt : Timestamp} {count : Nat}
    (done : deleteRange tenant calendar fromAt toAt now s = .ok (s', count)) :
    Deleted tenant now (Event.inRange tenant calendar (some fromAt) (some toAt))
      s.toTables s'.toTables := by
  simp only [deleteRange, bind, Except.bind] at done
  split at done
  · cases done
  · next written =>
    simp only [Except.ok.injEq, Prod.mk.injEq] at done
    exact deleteEvents_some (transaction_ok (done.1 ▸ written))

theorem updateRange_ok {fromAt toAt : Option Timestamp} {change : Event → Event} {count : Nat}
    (done : updateRange tenant calendar fromAt toAt now change s = .ok (s', count)) :
    Changed tenant now
      (fun e => if e.inRange tenant calendar fromAt toAt then some (change e) else none)
      s.toTables s'.toTables := by
  simp only [updateRange, bind, Except.bind] at done
  split at done
  · cases done
  · next written =>
    simp only [Except.ok.injEq, Prod.mk.injEq] at done
    exact updateEvents_some (transaction_ok (done.1 ▸ written))

end

/-! ### Calendars -/

theorem CalendarRepo.createWithId_ok {id tenant owner : Uuid} {input : NewCalendar}
    {now : Timestamp} {s s' : Store} {row : Calendar}
    (done : createWithId id tenant owner input now s = .ok (s', row)) :
    s'.toTables = { s.toTables with calendars := s.calendars ++ [row] } ∧
      row.id = id ∧ row.tenantId = tenant ∧ row.ctag = 1 := by
  simp only [createWithId, bind, Except.bind] at done
  split at done
  · cases done
  · next written =>
    simp only [Except.ok.injEq, Prod.mk.injEq] at done
    obtain ⟨rfl, rfl⟩ := done
    exact ⟨(Option.some.inj (transaction_ok written)).symm, rfl, rfl, rfl⟩

theorem CalendarRepo.update_ok {tenant id : Uuid} {patch : UpdateCalendar} {now : Timestamp}
    {s s' : Store} (done : update tenant id patch now s = .ok s') :
    s'.toTables = { s.toTables with
      calendars := s.calendars.map fun c => if c.isRow tenant id then patched patch now c else c
    } := by
  simp only [update, bind, Except.bind] at done
  split at done
  · cases done
  · exact (Option.some.inj (transaction_ok done)).symm

theorem deleteRows_of_none {tenant : Uuid} {now : Timestamp} {selected : Event → Bool}
    {rows : List Event} (unselected : ∀ e ∈ rows, selected e = false)
    (calendars : List Calendar) :
    deleteRows tenant now selected rows calendars = some (rows, [], calendars) := by
  induction rows with
  | nil => rfl
  | cons e rest ih =>
    rw [deleteRows, if_neg (by simp [unselected e List.mem_cons_self]),
      ih fun x listed => unselected x (List.mem_cons_of_mem e listed)]
    rfl

/-- The reference deletes the events of a calendar when its row is gone, and the trigger then
finds no tag for their tombstones: a calendar with events cannot be deleted. -/
theorem CalendarRepo.delete_ok {tenant id : Uuid} {now : Timestamp} {s s' : Store}
    (done : delete tenant id now s = .ok s') :
    (∀ e ∈ s.events, e.calendarId ≠ id) ∧
      s'.toTables = { s.toTables with
        calendars := s.calendars.filter fun c => !c.isRow tenant id } := by
  simp only [delete, bind, Except.bind] at done
  split at done
  · cases done
  · have written := transaction_ok done
    obtain ⟨⟨tombstones, run, -⟩⟩ := deleteEvents_some written
    obtain ⟨-, -, buried⟩ := deleteRows_spec run
    have noEvents : ∀ e ∈ s.events, e.calendarId ≠ id := by
      intro e member here
      have listed : e ∈ s.events.filter fun e => e.calendarId = id :=
        List.mem_filter.mpr ⟨member, by simpa using here⟩
      obtain ⟨t, -, -, ⟨c, remaining, row⟩, -⟩ := exists_right buried listed
      rw [here] at row
      have := (List.mem_filter.mp remaining).2
      simp [row] at this
    refine ⟨noEvents, ?_⟩
    have unselected : ∀ e ∈ s.events, decide (e.calendarId = id) = false := by
      intro e member
      simpa using noEvents e member
    rw [deleteCalendarRow, deleteEvents, deleteRows_of_none unselected] at written
    simpa using (Option.some.inj written).symm

/-! ### Commands -/

/-- The columns a bulk change sets. -/
inductive RangeChange where
  | status (status : Str)
  | classification (classification : Str)
  | transparency (transp : Str)
  | clearRrule
  | summary (summary : Str)
  | location (location : Option Str)
  | description (description : Option Str)
  | organizerEmail (organizer : Option Str)
  | rrule (rrule : Option Str)
  | textFields (summary location description organizer : Option (Option Str))

def RangeChange.exec (tenant calendar : Uuid) (fromAt toAt : Option Timestamp) (now : Timestamp) :
    RangeChange → Store → Result (Store × Nat)
  | status v => setStatusRange tenant calendar fromAt toAt now v
  | classification v => setClassRange tenant calendar fromAt toAt now v
  | transparency v => setTransparencyRange tenant calendar fromAt toAt now v
  | clearRrule => clearRruleRange tenant calendar fromAt toAt now
  | summary v => setSummaryRange tenant calendar fromAt toAt now v
  | location v => setLocationRange tenant calendar fromAt toAt now v
  | description v => setDescriptionRange tenant calendar fromAt toAt now v
  | organizerEmail v => setOrganizerEmailRange tenant calendar fromAt toAt now v
  | rrule v => setRruleRange tenant calendar fromAt toAt now v
  | textFields s l d o => setTextFieldsRange tenant calendar fromAt toAt now s l d o

/-- The methods that write events, with their arguments. -/
inductive EventCommand where
  | create (tenant calendar : Uuid) (raw : Str) (id : Uuid)
  | update (tenant id : Uuid) (raw : Str)
  | patchFields (tenant id : Uuid) (p : Patch) (etag : Str)
  | replaceByUid (tenant calendar : Uuid) (raw : Str) (id : Uuid)
  | delete (tenant id : Uuid)
  | deleteByUid (tenant calendar : Uuid) (uid : Str)
  | deleteRange (tenant calendar : Uuid) (fromAt toAt : Timestamp)
  | moveRange (tenant src dst : Uuid) (fromAt toAt : Option Timestamp)
  | setRange (tenant calendar : Uuid) (fromAt toAt : Option Timestamp) (change : RangeChange)

def EventCommand.exec (crates : Crates) (now : Timestamp) (s : Store) :
    EventCommand → Result Store
  | create tenant calendar raw id =>
      (CalDav.create crates tenant calendar raw id now s).map (·.1)
  | update tenant id raw => (CalDav.update crates tenant id raw now s).map (·.1)
  | patchFields tenant id p etag => (CalDav.patchFields tenant id p etag now s).map (·.1)
  | replaceByUid tenant calendar raw id =>
      (CalDav.replaceByUid crates tenant calendar raw id now s).map (·.1)
  | delete tenant id => CalDav.delete tenant id now s
  | deleteByUid tenant calendar uid => CalDav.deleteByUid tenant calendar uid now s
  | deleteRange tenant calendar fromAt toAt =>
      (CalDav.deleteRange tenant calendar fromAt toAt now s).map (·.1)
  | moveRange tenant src dst fromAt toAt =>
      (CalDav.moveRange tenant src fromAt toAt now dst s).map (·.1)
  | setRange tenant calendar fromAt toAt change =>
      (change.exec tenant calendar fromAt toAt now s).map (·.1)

inductive Command where
  | event (command : EventCommand)
  | createCalendar (id tenant owner : Uuid) (input : NewCalendar)
  | updateCalendar (tenant id : Uuid) (patch : UpdateCalendar)
  | deleteCalendar (tenant id : Uuid)
  | purge (cutoff : Timestamp)

def Command.exec (crates : Crates) (now : Timestamp) (s : Store) : Command → Result Store
  | event command => command.exec crates now s
  | createCalendar id tenant owner input =>
      (CalendarRepo.createWithId id tenant owner input now s).map (·.1)
  | updateCalendar tenant id patch => CalendarRepo.update tenant id patch now s
  | deleteCalendar tenant id => CalendarRepo.delete tenant id now s
  | purge cutoff => .ok (purgeOnce cutoff s)

/-- Same place, same body. -/
structure SameEntry (e e' : Event) : Prop where
  calendar : e'.calendarId = e.calendarId
  tenant : e'.tenantId = e.tenantId
  uid : e'.uid = e.uid
  body : e'.icalRaw = e.icalRaw

/-- A bulk change of columns leaves every row where it is. -/
theorem RangeChange.exec_ok {tenant calendar : Uuid} {fromAt toAt : Option Timestamp}
    {now : Timestamp} {change : RangeChange} {s s' : Store} {count : Nat}
    (done : change.exec tenant calendar fromAt toAt now s = .ok (s', count)) :
    ∃ set : Event → Event, (∀ e, SameEntry e (set e)) ∧
      Changed tenant now
        (fun e => if e.inRange tenant calendar fromAt toAt then some (set e) else none)
        s.toTables s'.toTables := by
  cases change <;> refine ⟨_, fun e => ?_, updateRange_ok done⟩ <;> exact ⟨rfl, rfl, rfl, rfl⟩

/-- A command that fails changes nothing. -/
def Command.run (crates : Crates) (now : Timestamp) (s : Store) (command : Command) : Store :=
  match command.exec crates now s with
  | .ok s' => s'
  | .error _ => s

/-- The stores that runs of commands reach from empty tables. -/
inductive Reachable (crates : Crates) : Store → Prop where
  | empty : Reachable crates Store.empty
  | step {s s' : Store} (now : Timestamp) (command : Command) (reached : Reachable crates s)
      (done : command.exec crates now s = .ok s') : Reachable crates s'

theorem Reachable.run {crates : Crates} {s : Store} (reached : Reachable crates s)
    (now : Timestamp) (commands : List Command) :
    Reachable crates (commands.foldl (Command.run crates now) s) := by
  induction commands generalizing s with
  | nil => exact reached
  | cons command rest ih =>
    apply ih
    rw [Command.run]
    split
    · next s' done => exact .step now command reached done
    · exact reached

/-! ### Coherent stores -/

/-- The columns read off the body pass the checks in any row with a sequence in range. -/
def AcceptedBody (crates : Crates) (raw : Str) (parsed : ParsedEvent) : Prop :=
  ∀ e : Event, -2 ^ 31 ≤ e.sequence → e.sequence < 2 ^ 31 →
    (e.withBody parsed (computeEtag crates raw) raw).Valid

/-- The body parses, to the UID of the row. -/
def HasBody (crates : Crates) (e : Event) : Prop :=
  ∃ parsed, parseVevent crates e.icalRaw = .ok parsed ∧ parsed.uid = e.uid ∧
    AcceptedBody crates e.icalRaw parsed

theorem hasBody_of_valid {crates : Crates} {raw : Str} {parsed : ParsedEvent} {e : Event}
    (accepted : parseVevent crates raw = .ok parsed)
    (written : e.withBody parsed (computeEtag crates raw) raw = e) (valid : e.Valid) :
    HasBody crates e := by
  rw [← written] at valid ⊢
  obtain ⟨status, classification, transp, texts, dtstart, dtend, -, -⟩ := valid
  exact ⟨parsed, accepted, rfl, fun _ lower upper =>
    ⟨status, classification, transp, texts, dtstart, dtend, lower, upper⟩⟩

structure Coherent (crates : Crates) (t : Tables) : Prop where
  bodies : ∀ e ∈ t.events, HasBody crates e
  owned : ∀ e ∈ t.events, hasCalendar t.calendars e.tenantId e.calendarId
  tagged : Tagged t.events t.calendars

section
variable {crates : Crates} {tenant : Uuid} {now : Timestamp} {t t' : Tables}

theorem Coherent.inserted {row : Event} (coherent : Coherent crates t)
    (inserted : Inserted tenant row t t') (mine : row.tenantId = tenant)
    (body : ∀ ctag, { row with lastCtag := ctag } ∈ t'.events →
      HasBody crates { row with lastCtag := ctag }) : Coherent crates t' := by
  obtain ⟨ctag, tick, events⟩ := inserted.written
  have cases : ∀ e ∈ t'.events, e ∈ t.events ∨ e = { row with lastCtag := ctag } := by
    intro e member
    rw [events, List.mem_append, List.mem_singleton] at member
    exact member
  subst mine
  refine ⟨?_, ?_, ?_⟩
  · intro e member
    rcases cases e member with old | rfl
    · exact coherent.bodies e old
    · exact body ctag member
  · intro e member
    apply (tick.rows _ _).mpr
    rcases cases e member with old | rfl
    · exact coherent.owned e old
    · exact tick.found
  · rw [events]
    exact coherent.tagged.append tick.toTicked tick.fresh

theorem Coherent.changed {change : Event → Option Event} (coherent : Coherent crates t)
    (written : Changed tenant now change t t')
    (mine : ∀ e ∈ t.events, ∀ changed, change e = some changed → changed.tenantId = tenant)
    (body : ∀ e ∈ t.events, ∀ changed, change e = some changed → ∀ ctag,
      { changed with updatedAt := now, lastCtag := ctag } ∈ t'.events →
        HasBody crates { changed with updatedAt := now, lastCtag := ctag }) :
    Coherent crates t' := by
  obtain ⟨middle, ticked, run⟩ := written.written
  have all := ticked.trans (updateRows_ticked run)
  refine ⟨?_, ?_, updateRows_tagged mine (coherent.tagged.ticked ticked) run⟩
  · intro e' member
    obtain ⟨e, listed, ⟨-, rfl⟩ | ⟨changed, ctag, changes, rfl, -, -⟩⟩ :=
      exists_left (updateRows_spec run) member
    · exact coherent.bodies e' listed
    · exact body e listed changed changes ctag member
  · intro e' member
    obtain ⟨e, listed, ⟨-, rfl⟩ | ⟨changed, ctag, changes, rfl, found, -⟩⟩ :=
      exists_left (updateRows_spec run) member
    · exact (all.rows _ _).mpr (coherent.owned e' listed)
    · rw [← mine e listed changed changes] at found
      exact ((updateRows_ticked run).rows _ _).mpr found

theorem Coherent.deleted {selected : Event → Bool} (coherent : Coherent crates t)
    (written : Deleted tenant now selected t t') : Coherent crates t' := by
  obtain ⟨tombstones, run, -⟩ := written.written
  obtain ⟨left, ticked, -⟩ := deleteRows_spec run
  refine ⟨?_, ?_, ?_⟩
  · intro e member
    rw [left] at member
    exact coherent.bodies e (List.mem_of_mem_filter member)
  · intro e member
    rw [left] at member
    exact (ticked.rows _ _).mpr (coherent.owned e (List.mem_of_mem_filter member))
  · rw [left]
    exact (coherent.tagged.filter _).ticked ticked

/-- Calendars changed, events not: every event still finds its calendar and its tag. -/
theorem Coherent.calendars {calendars : List Calendar} {tombstones : List Tombstone}
    (coherent : Coherent crates t)
    (found : ∀ e ∈ t.events, calendars.find? (·.isRow e.tenantId e.calendarId) ≠ none ∧
      ctagOf calendars e.tenantId e.calendarId = ctagOf t.calendars e.tenantId e.calendarId) :
    Coherent crates ⟨calendars, t.events, tombstones⟩ := by
  refine ⟨coherent.bodies, ?_, ?_, coherent.tagged.differ⟩
  · intro e member
    obtain ⟨c, row⟩ := Option.ne_none_iff_exists'.mp (found e member).1
    exact ⟨c, List.mem_of_find?_eq_some row, List.find?_some row⟩
  · intro e member
    exact (coherent.tagged.le e member).trans (found e member).2.ge

end

theorem Store.valid (s : Store) {e : Event} (member : e ∈ s.events) : e.Valid :=
  s.constraints.2.2.2.2.2.2 e member

/-- `UNIQUE (calendar_id, uid)`. -/
theorem Store.eq_of_under (s : Store) {calendar : Uuid} {uid : Str} {e e' : Event}
    (member : e ∈ s.events) (member' : e' ∈ s.events) (here : e.under calendar uid)
    (here' : e'.under calendar uid) : e = e' := by
  simp only [Event.under, Bool.and_eq_true, decide_eq_true_eq] at here here'
  apply List.inj_on_of_nodup_map s.constraints.2.2.2.2.1 member member'
  rw [here.1, here.2, here'.1, here'.2]

theorem map_fst_ok {α : Type} {result : Result (Store × α)} {s : Store}
    (done : result.map (·.1) = .ok s) : ∃ a, result = .ok (s, a) := by
  cases result with
  | error e => cases done
  | ok pair =>
    cases done
    exact ⟨pair.2, rfl⟩

section
variable {crates : Crates} {now : Timestamp} {s s' : Store}

theorem Coherent.created {tenant calendar id : Uuid} {raw : Str} {parsed : ParsedEvent}
    (coherent : Coherent crates s.toTables) (accepted : parseVevent crates raw = .ok parsed)
    (inserted : Inserted tenant
      (Event.fresh id tenant calendar now parsed (computeEtag crates raw) raw)
      s.toTables s'.toTables) : Coherent crates s'.toTables :=
  coherent.inserted inserted rfl fun _ member =>
    hasBody_of_valid accepted rfl (s'.valid member)

/-- Rows of the tenant that take a new body. -/
theorem Coherent.rewritten {tenant : Uuid} {raw : Str} {parsed : ParsedEvent}
    {selected : Event → Bool} (coherent : Coherent crates s.toTables)
    (accepted : parseVevent crates raw = .ok parsed)
    (mine : ∀ e ∈ s.events, selected e → e.tenantId = tenant)
    (written : Changed tenant now (fun e => if selected e then
      some (e.replaced parsed (computeEtag crates raw) raw) else none)
      s.toTables s'.toTables) : Coherent crates s'.toTables := by
  apply coherent.changed written
  · intro e member changed changes
    simp only [Option.ite_none_right_eq_some, Option.some.injEq] at changes
    obtain ⟨chosen, rfl⟩ := changes
    exact mine e member chosen
  · intro e member changed changes ctag listed
    simp only [Option.ite_none_right_eq_some, Option.some.injEq] at changes
    obtain ⟨-, rfl⟩ := changes
    exact hasBody_of_valid accepted rfl (s'.valid listed)

/-- Rows of the tenant that keep their body, wherever they go. -/
theorem Coherent.kept {tenant : Uuid} {set : Event → Event} {selected : Event → Bool}
    (coherent : Coherent crates s.toTables)
    (written : Changed tenant now (fun e => if selected e then some (set e) else none)
      s.toTables s'.toTables)
    (same : ∀ e, (set e).tenantId = e.tenantId ∧ (set e).uid = e.uid ∧
      (set e).icalRaw = e.icalRaw)
    (mine : ∀ e, selected e → e.tenantId = tenant) : Coherent crates s'.toTables := by
  apply coherent.changed written
  · intro e member changed changes
    simp only [Option.ite_none_right_eq_some, Option.some.injEq] at changes
    obtain ⟨chosen, rfl⟩ := changes
    exact (same e).1.trans (mine e chosen)
  · intro e member changed changes ctag _
    simp only [Option.ite_none_right_eq_some, Option.some.injEq] at changes
    obtain ⟨-, rfl⟩ := changes
    obtain ⟨-, uid, raw⟩ := same e
    obtain ⟨parsed, accepted, sameUid, checks⟩ := coherent.bodies e member
    exact ⟨parsed, raw ▸ accepted, sameUid.trans uid.symm, raw ▸ checks⟩

theorem Event.tenant_of_isRow {tenant id : Uuid} {e : Event} (row : e.isRow tenant id) :
    e.tenantId = tenant := by
  simp only [Event.isRow, Bool.and_eq_true, decide_eq_true_eq] at row
  exact row.1

theorem Event.of_inRange {tenant calendar : Uuid} {fromAt toAt : Option Timestamp} {e : Event}
    (selected : e.inRange tenant calendar fromAt toAt) :
    e.tenantId = tenant ∧ e.calendarId = calendar := by
  simp only [Event.inRange, Bool.and_eq_true, decide_eq_true_eq] at selected
  exact selected.1

theorem EventCommand.exec_coherent {command : EventCommand}
    (coherent : Coherent crates s.toTables) (done : command.exec crates now s = .ok s') :
    Coherent crates s'.toTables := by
  cases command with
  | create tenant calendar raw id =>
    obtain ⟨e, done⟩ := map_fst_ok done
    obtain ⟨parsed, accepted, inserted⟩ := create_ok done
    exact coherent.created accepted inserted
  | update tenant id raw =>
    obtain ⟨e, done⟩ := map_fst_ok done
    obtain ⟨parsed, accepted, written⟩ := update_ok done
    exact coherent.rewritten accepted (fun e _ row => e.tenant_of_isRow row) written
  | patchFields tenant id p etag =>
    obtain ⟨e, done⟩ := map_fst_ok done
    exact coherent.kept (patchFields_ok done) (fun e => ⟨rfl, rfl, rfl⟩)
      (fun e row => e.tenant_of_isRow row)
  | replaceByUid tenant calendar raw id =>
    obtain ⟨e, done⟩ := map_fst_ok done
    obtain ⟨parsed, accepted, ⟨-, inserted⟩ | ⟨⟨old, member, here, mine⟩, written⟩⟩ :=
      replaceByUid_ok done
    · exact coherent.created accepted inserted
    · refine coherent.rewritten accepted (fun e listed under => ?_) written
      rw [s.eq_of_under listed member under here, mine]
  | delete tenant id => exact coherent.deleted (delete_ok done)
  | deleteByUid tenant calendar uid => exact coherent.deleted (deleteByUid_ok done)
  | deleteRange tenant calendar fromAt toAt =>
    obtain ⟨count, done⟩ := map_fst_ok done
    exact coherent.deleted (deleteRange_ok done)
  | moveRange tenant src dst fromAt toAt =>
    obtain ⟨count, done⟩ := map_fst_ok done
    exact coherent.kept (updateRange_ok done) (fun e => ⟨rfl, rfl, rfl⟩)
      (fun e selected => (e.of_inRange selected).1)
  | setRange tenant calendar fromAt toAt change =>
    obtain ⟨count, done⟩ := map_fst_ok done
    obtain ⟨set, same, written⟩ := RangeChange.exec_ok done
    exact coherent.kept written (fun e => ⟨(same e).tenant, (same e).uid, (same e).body⟩)
      (fun e selected => (e.of_inRange selected).1)

theorem Coherent.find {t : Tables} (coherent : Coherent crates t) {e : Event}
    (member : e ∈ t.events) :
    ∃ c, t.calendars.find? (·.isRow e.tenantId e.calendarId) = some c := by
  obtain ⟨c, listed, row⟩ := coherent.owned e member
  exact Option.isSome_iff_exists.mp (List.find?_isSome.mpr ⟨c, listed, row⟩)

theorem Command.exec_coherent {command : Command} (coherent : Coherent crates s.toTables)
    (done : command.exec crates now s = .ok s') : Coherent crates s'.toTables := by
  cases command with
  | event command => exact EventCommand.exec_coherent coherent done
  | createCalendar id tenant owner input =>
    obtain ⟨row, done⟩ := map_fst_ok done
    rw [(CalendarRepo.createWithId_ok done).1]
    apply coherent.calendars
    intro e member
    obtain ⟨c, found⟩ := coherent.find member
    have still : (s.calendars ++ [row]).find? (·.isRow e.tenantId e.calendarId) = some c := by
      rw [List.find?_append, found, Option.some_or]
    simp [ctagOf, still, found]
  | updateCalendar tenant id patch =>
    rw [CalendarRepo.update_ok done]
    apply coherent.calendars
    intro e member
    obtain ⟨c, found⟩ := coherent.find member
    have keeps : ∀ c : Calendar,
        (if c.isRow tenant id then CalendarRepo.patched patch now c else c).isRow
          e.tenantId e.calendarId = c.isRow e.tenantId e.calendarId := by
      intro c
      split <;> rfl
    simp only [ctagOf, List.find?_map, Function.comp_def, keeps, found, Option.map_some,
      Option.getD_some]
    refine ⟨by simp, ?_⟩
    split <;> rfl
  | deleteCalendar tenant id =>
    obtain ⟨noEvents, written⟩ := CalendarRepo.delete_ok done
    rw [written]
    apply coherent.calendars
    intro e member
    obtain ⟨c, found⟩ := coherent.find member
    have still : (s.calendars.filter fun c => !c.isRow tenant id).find?
        (·.isRow e.tenantId e.calendarId) = some c := by
      rw [List.find?_filter, ← found]
      congr 1
      funext c
      have elsewhere := noEvents e member
      by_cases here : c.id = e.calendarId
      · simp [Calendar.isRow, here, elsewhere]
      · simp [Calendar.isRow, here]
    simp [ctagOf, still, found]
  | purge cutoff =>
    cases done
    exact ⟨coherent.bodies, coherent.owned, coherent.tagged⟩

/-- Every store that the commands reach is coherent. -/
theorem Reachable.coherent (reached : Reachable crates s) : Coherent crates s.toTables := by
  induction reached with
  | empty => exact ⟨by simp [Store.empty], by simp [Store.empty], by simp [Store.empty], .nil⟩
  | step now command _ done ih => exact Command.exec_coherent ih done

end

end Expresso.CalDav
