import Expresso.CalDav.Ical
import Expresso.Sql.RowNumber
import Mathlib.Data.List.Nodup

/-! The calendar tables with their constraints, the trigger `calendar_events_touch`, and the
statements the repositories run. A statement whose result breaks a constraint is refused. -/

namespace Expresso.CalDav
open Text Time

/-- `TIMESTAMPTZ`: microseconds since the first of January 2000, UTC. -/
abbrev Timestamp := Int

def toTimestamp (t : OffsetDateTime) : Timestamp :=
  (t.instant - 730120 * dayNanos).tdiv 1000

/-- A time read from the tables, in UTC. There is none outside the range of dates. -/
def ofTimestamp (t : Timestamp) : Option OffsetDateTime :=
  let total := t * 1000 + 730120 * dayNanos
  (Date.ofDays (total / dayNanos)).map fun date =>
    .assumeUtc date (total % dayNanos) (clock_range total)

/-- A row of `calendars`. -/
structure Calendar where
  id : Uuid
  tenantId : Uuid
  ownerUserId : Uuid
  name : Str
  description : Option Str
  color : Option Str
  timezone : Str
  ctag : Int
  isDefault : Bool
  createdAt : Timestamp
  updatedAt : Timestamp
  deriving DecidableEq

/-- A row of `calendar_events`. -/
structure Event where
  id : Uuid
  calendarId : Uuid
  tenantId : Uuid
  uid : Str
  etag : Str
  icalRaw : Str
  summary : Option Str
  description : Option Str
  location : Option Str
  dtstart : Option Timestamp
  dtend : Option Timestamp
  rrule : Option Str
  status : Option Str
  classification : Option Str
  transp : Option Str
  sequence : Int
  organizerEmail : Option Str
  createdAt : Timestamp
  updatedAt : Timestamp
  lastCtag : Int
  deriving DecidableEq

/-- A row of `calendar_event_tombstones`. -/
structure Tombstone where
  tenantId : Uuid
  calendarId : Uuid
  uid : Str
  deletedCtag : Int
  deletedAt : Timestamp
  deriving DecidableEq

structure Tables where
  calendars : List Calendar
  events : List Event
  tombstones : List Tombstone
  deriving DecidableEq

/-! ### Constraints -/

def statuses : List Str :=
  ["TENTATIVE".toList, "CONFIRMED".toList, "CANCELLED".toList]

def classes : List Str :=
  ["PUBLIC".toList, "PRIVATE".toList, "CONFIDENTIAL".toList]

def transparencies : List Str :=
  ["OPAQUE".toList, "TRANSPARENT".toList]

def Event.texts (e : Event) : List Str :=
  e.uid :: e.etag :: e.icalRaw ::
    [e.summary, e.description, e.location, e.rrule, e.status, e.classification, e.transp,
      e.organizerEmail].filterMap fun text => text

/-- The checks and types of the columns: the three enumerations, no text with a zero
character, no time before 4713 BC, a four-byte sequence. -/
@[reducible]
def Event.Valid (e : Event) : Prop :=
  (∀ v ∈ e.status, v ∈ statuses) ∧
  (∀ v ∈ e.classification, v ∈ classes) ∧
  (∀ v ∈ e.transp, v ∈ transparencies) ∧
  (∀ text ∈ e.texts, '\x00' ∉ text) ∧
  (∀ t ∈ e.dtstart, -211813488000000000 ≤ t) ∧
  (∀ t ∈ e.dtend, -211813488000000000 ≤ t) ∧
  -2 ^ 31 ≤ e.sequence ∧ e.sequence < 2 ^ 31

/-- Primary keys, one default calendar for each owner, `UNIQUE (calendar_id, uid)`, the
reference to the calendar, the range of `ctag`, and the checks of the event rows. -/
@[reducible]
def Tables.Constraints (t : Tables) : Prop :=
  (t.calendars.map (·.id)).Nodup ∧
  ((t.calendars.filter (·.isDefault)).map (·.ownerUserId)).Nodup ∧
  (∀ c ∈ t.calendars, -2 ^ 63 ≤ c.ctag ∧ c.ctag < 2 ^ 63) ∧
  (t.events.map (·.id)).Nodup ∧
  (t.events.map fun e => (e.calendarId, e.uid)).Nodup ∧
  (∀ e ∈ t.events, e.calendarId ∈ t.calendars.map (·.id)) ∧
  ∀ e ∈ t.events, e.Valid

structure Store extends Tables where
  constraints : toTables.Constraints

def commit (t : Tables) : Option Store :=
  if valid : t.Constraints then some ⟨t, valid⟩ else none

def Store.empty : Store := ⟨⟨[], [], []⟩, by simp [Tables.Constraints]⟩

/-! ### The trigger -/

/-- The calendar row that a transaction of the tenant sees under the id. -/
def Calendar.isRow (tenant calendar : Uuid) (c : Calendar) : Bool :=
  c.id = calendar && c.tenantId = tenant

/-- `UPDATE calendars SET ctag = ctag + 1 … RETURNING ctag`. Without a row there is no tag, and
the column that should take it is `NOT NULL`. -/
def touch (tenant calendar : Uuid) (now : Timestamp) (calendars : List Calendar) :
    Option (Int × List Calendar) :=
  (calendars.find? (·.isRow tenant calendar)).map fun row =>
    (row.ctag + 1, calendars.map fun c =>
      if c.isRow tenant calendar then { c with ctag := c.ctag + 1, updatedAt := now } else c)

/-! ### Statements -/

def insertEvent (tenant : Uuid) (now : Timestamp) (row : Event) (t : Tables) : Option Tables := do
  let (ctag, calendars) ← touch tenant row.calendarId now t.calendars
  some { t with calendars, events := t.events ++ [{ row with lastCtag := ctag }] }

/-- The rows with their changes, the trigger fired for each changed row in turn. -/
def updateRows (tenant : Uuid) (now : Timestamp) (change : Event → Option Event) :
    List Event → List Calendar → Option (List Event × List Calendar)
  | [], calendars => some ([], calendars)
  | e :: rest, calendars =>
      match change e with
      | none => do
          let (rows, calendars) ← updateRows tenant now change rest calendars
          some (e :: rows, calendars)
      | some changed => do
          let (ctag, calendars) ← touch tenant changed.calendarId now calendars
          let (rows, calendars) ← updateRows tenant now change rest calendars
          some ({ changed with updatedAt := now, lastCtag := ctag } :: rows, calendars)

example (tenant : Uuid) (now : Timestamp) (e : Event) (calendars : List Calendar) :
    updateRows tenant now (fun _ => none) [e] calendars = some ([e], calendars) := by
  simp [updateRows]

def updateEvents (tenant : Uuid) (now : Timestamp) (change : Event → Option Event) (t : Tables) :
    Option Tables := do
  let (events, calendars) ← updateRows tenant now change t.events t.calendars
  some { t with events, calendars }

/-- The row of a `(calendar_id, uid)` pair. -/
def Event.under (calendar : Uuid) (uid : Str) (e : Event) : Bool :=
  e.calendarId = calendar && e.uid = uid

/-- `INSERT … ON CONFLICT (calendar_id, uid) DO UPDATE`: the trigger fires for the proposed row,
and once more when the row in its place is updated. A row of another tenant is out of reach. -/
def upsertEvent (tenant : Uuid) (now : Timestamp) (row : Event) (merge : Event → Event)
    (t : Tables) : Option Tables := do
  let (ctag, calendars) ← touch tenant row.calendarId now t.calendars
  match t.events.find? (·.under row.calendarId row.uid) with
  | none => some { t with calendars, events := t.events ++ [{ row with lastCtag := ctag }] }
  | some old =>
      if old.tenantId = tenant then
        updateEvents tenant now
          (fun e => if e.under row.calendarId row.uid then some (merge e) else none)
          { t with calendars }
      else none

/-- The rows left and the tombstones written, the trigger fired for each deleted row in turn. -/
def deleteRows (tenant : Uuid) (now : Timestamp) (selected : Event → Bool) :
    List Event → List Calendar → Option (List Event × List Tombstone × List Calendar)
  | [], calendars => some ([], [], calendars)
  | e :: rest, calendars =>
      if selected e then do
        let (ctag, calendars) ← touch tenant e.calendarId now calendars
        let (rows, tombstones, calendars) ← deleteRows tenant now selected rest calendars
        some (rows, ⟨e.tenantId, e.calendarId, e.uid, ctag, now⟩ :: tombstones, calendars)
      else do
        let (rows, tombstones, calendars) ← deleteRows tenant now selected rest calendars
        some (e :: rows, tombstones, calendars)

def deleteEvents (tenant : Uuid) (now : Timestamp) (selected : Event → Bool) (t : Tables) :
    Option Tables := do
  let (events, tombstones, calendars) ← deleteRows tenant now selected t.events t.calendars
  some { calendars, events, tombstones := t.tombstones ++ tombstones }

/-- `DELETE FROM calendars`. The reference deletes the events after the calendar is gone. -/
def deleteCalendarRow (tenant calendar : Uuid) (now : Timestamp) (t : Tables) : Option Tables :=
  deleteEvents tenant now (fun e => e.calendarId = calendar)
    { t with calendars := t.calendars.filter fun c => !c.isRow tenant calendar }

theorem commit_some {t : Tables} {s : Store} (committed : commit t = some s) :
    s.toTables = t := by
  simp only [commit] at committed
  split at committed
  · cases committed
    rfl
  · cases committed

end Expresso.CalDav
