import Expresso.CalDav.Store
import Mathlib.Data.Prod.Lex
import Mathlib.Order.WithBot

/-! `EventRepo` and `CalendarRepo`. A method is one transaction: it returns the new store with
its result, or an error and then nothing is written. Generated ids, random tags and the
transaction's time are arguments. -/

namespace Expresso.CalDav
open Text Time

abbrev Result := Except CalendarError

/-- The outcome of the statements of a transaction. -/
def transaction (tables : Option Tables) : Result Store :=
  match tables.bind commit with
  | some s => .ok s
  | none => .error .database

/-- A transaction whose last statement returns a row. -/
def returning (row : Event → Bool) (written : Result Store) : Result (Store × Event) := do
  let s ← written
  match s.events.find? row with
  | some e => .ok (s, e)
  | none => .error .database

/-! ### Rows from iCalendar bodies -/

/-- The columns that are read off the body. -/
def Event.withBody (parsed : ParsedEvent) (etag raw : Str) (e : Event) : Event :=
  { e with
    uid := parsed.uid
    etag
    icalRaw := raw
    summary := parsed.summary
    description := parsed.description
    location := parsed.location
    dtstart := parsed.dtstart.map toTimestamp
    dtend := parsed.dtend.map toTimestamp
    rrule := parsed.rrule
    status := parsed.status
    classification := parsed.classification
    transp := parsed.transp
    organizerEmail := parsed.organizerEmail }

/-- The columns whose change raises the sequence. -/
def Event.significant (e : Event) : List (Option Str) × List (Option Timestamp) :=
  ([e.summary, e.location, e.rrule, e.status, e.classification, e.transp, e.organizerEmail],
    [e.dtstart, e.dtend])

def Event.replaced (parsed : ParsedEvent) (etag raw : Str) (e : Event) : Event :=
  let changed := e.withBody parsed etag raw
  { changed with
    sequence := if e.significant ≠ changed.significant then e.sequence + 1 else e.sequence }

def Event.fresh (id tenant calendar : Uuid) (now : Timestamp) (parsed : ParsedEvent)
    (etag raw : Str) : Event :=
  { id, calendarId := calendar, tenantId := tenant, uid := parsed.uid, etag, icalRaw := raw
    summary := parsed.summary, description := parsed.description, location := parsed.location
    dtstart := parsed.dtstart.map toTimestamp, dtend := parsed.dtend.map toTimestamp
    rrule := parsed.rrule, status := parsed.status, classification := parsed.classification
    transp := parsed.transp, sequence := parsed.sequence, organizerEmail := parsed.organizerEmail
    createdAt := now, updatedAt := now, lastCtag := 0 }

def Event.isAt (tenant calendar : Uuid) (uid : Str) (e : Event) : Bool :=
  e.tenantId = tenant && e.calendarId = calendar && e.uid = uid

def Event.isRow (tenant id : Uuid) (e : Event) : Bool :=
  e.tenantId = tenant && e.id = id

/-! ### Reading -/

def get (tenant id : Uuid) (s : Store) : Result Event :=
  match s.events.find? (·.isRow tenant id) with
  | some e => .ok e
  | none => .error (.eventNotFound id)

def uidNotFound (uid : Str) : CalendarError :=
  .badRequest ("event uid not found: ".toList ++ uid)

def getByUid (tenant calendar : Uuid) (uid : Str) (s : Store) : Result Event :=
  match s.events.find? (·.isAt tenant calendar uid) with
  | some e => .ok e
  | none => .error (uidNotFound uid)

structure EventQuery where
  fromAt : Option Timestamp := none
  toAt : Option Timestamp := none
  limit : Option Int := none

/-- `ORDER BY dtstart NULLS LAST, created_at`. -/
def Event.listKey (e : Event) : WithTop Timestamp ×ₗ Timestamp :=
  toLex ((match e.dtstart with | some t => ↑t | none => ⊤), e.createdAt)

def EventQuery.selects (q : EventQuery) (tenant calendar : Uuid) (e : Event) : Bool :=
  e.tenantId = tenant && e.calendarId = calendar &&
    (q.fromAt.all fun start => e.dtend.all (start ≤ ·)) &&
    (q.toAt.all fun stop => e.dtstart.all (· ≤ stop))

def list (tenant calendar : Uuid) (q : EventQuery) (s : Store) : List Event :=
  let limit := max 1 (min 10000 (q.limit.getD 1000))
  ((s.events.filter (q.selects tenant calendar)).insertionSort
    fun a b => a.listKey ≤ b.listKey).take limit.toNat

/-! ### Writing events -/

section
variable (crates : Crates)

def create (tenant calendar : Uuid) (raw : Str) (id : Uuid) (now : Timestamp) (s : Store) :
    Result (Store × Event) := do
  let parsed ← parseVevent crates raw
  let row := Event.fresh id tenant calendar now parsed (computeEtag crates raw) raw
  returning (·.id = id) (transaction (insertEvent tenant now row s.toTables))

def update (tenant id : Uuid) (raw : Str) (now : Timestamp) (s : Store) :
    Result (Store × Event) := do
  let parsed ← parseVevent crates raw
  let _ ← get tenant id s
  let etag := computeEtag crates raw
  returning (·.isRow tenant id) (transaction (updateEvents tenant now
    (fun e => if e.isRow tenant id then some (e.replaced parsed etag raw) else none) s.toTables))

/-- The row is found by calendar and UID, and keeps both. -/
def replaceByUid (tenant calendar : Uuid) (raw : Str) (id : Uuid) (now : Timestamp)
    (s : Store) : Result (Store × Event) := do
  let parsed ← parseVevent crates raw
  let etag := computeEtag crates raw
  let row := Event.fresh id tenant calendar now parsed etag raw
  returning (·.isAt tenant calendar parsed.uid)
    (transaction (upsertEvent tenant now row (fun e => e.replaced parsed etag raw) s.toTables))

end

/-- A column given as `Some` is set, otherwise kept. -/
structure Patch where
  summary : Option (Option Str) := none
  location : Option (Option Str) := none
  description : Option (Option Str) := none
  dtstart : Option (Option Timestamp) := none
  dtend : Option (Option Timestamp) := none
  status : Option (Option Str) := none

def Event.patched (p : Patch) (etag : Str) (e : Event) : Event :=
  let changed := { e with
    summary := p.summary.getD e.summary
    location := p.location.getD e.location
    description := p.description.getD e.description
    dtstart := p.dtstart.getD e.dtstart
    dtend := p.dtend.getD e.dtend
    status := p.status.getD e.status
    etag }
  { changed with
    sequence := if e.significant ≠ changed.significant then e.sequence + 1 else e.sequence }

/-- The body stays as it was; the tag is a random one. -/
def patchFields (tenant id : Uuid) (p : Patch) (etag : Str) (now : Timestamp) (s : Store) :
    Result (Store × Event) := do
  let _ ← get tenant id s
  returning (·.isRow tenant id) (transaction (updateEvents tenant now
    (fun e => if e.isRow tenant id then some (e.patched p etag) else none) s.toTables))

def delete (tenant id : Uuid) (now : Timestamp) (s : Store) : Result Store := do
  let _ ← get tenant id s
  transaction (deleteEvents tenant now (·.isRow tenant id) s.toTables)

def deleteByUid (tenant calendar : Uuid) (uid : Str) (now : Timestamp) (s : Store) :
    Result Store := do
  let _ ← getByUid tenant calendar uid s
  transaction (deleteEvents tenant now (·.isAt tenant calendar uid) s.toTables)

/-! ### Ranges

Events without a start are in no range. -/

def Event.inRange (tenant calendar : Uuid) (fromAt toAt : Option Timestamp) (e : Event) : Bool :=
  e.tenantId = tenant && e.calendarId = calendar &&
    e.dtstart.any fun start => fromAt.all (· ≤ start) && toAt.all (start < ·)

def deleteRange (tenant calendar : Uuid) (fromAt toAt now : Timestamp) (s : Store) :
    Result (Store × Nat) := do
  let selected := Event.inRange tenant calendar (some fromAt) (some toAt)
  let s' ← transaction (deleteEvents tenant now selected s.toTables)
  .ok (s', (s.events.filter selected).length)

/-- One `UPDATE` over a range: the new store and the number of rows. -/
def updateRange (tenant calendar : Uuid) (fromAt toAt : Option Timestamp) (now : Timestamp)
    (change : Event → Event) (s : Store) : Result (Store × Nat) := do
  let selected := Event.inRange tenant calendar fromAt toAt
  let s' ← transaction (updateEvents tenant now
    (fun e => if selected e then some (change e) else none) s.toTables)
  .ok (s', (s.events.filter selected).length)

section
variable (tenant calendar : Uuid) (fromAt toAt : Option Timestamp) (now : Timestamp)

def moveRange (dst : Uuid) : Store → Result (Store × Nat) :=
  updateRange tenant calendar fromAt toAt now fun e => { e with calendarId := dst }

def setStatusRange (status : Str) : Store → Result (Store × Nat) :=
  updateRange tenant calendar fromAt toAt now fun e => { e with status := some status }

def setClassRange (classification : Str) : Store → Result (Store × Nat) :=
  updateRange tenant calendar fromAt toAt now fun e =>
    { e with classification := some classification }

def setTransparencyRange (transp : Str) : Store → Result (Store × Nat) :=
  updateRange tenant calendar fromAt toAt now fun e => { e with transp := some transp }

def clearRruleRange : Store → Result (Store × Nat) :=
  updateRange tenant calendar fromAt toAt now fun e => { e with rrule := none }

def setSummaryRange (summary : Str) : Store → Result (Store × Nat) :=
  updateRange tenant calendar fromAt toAt now fun e => { e with summary := some summary }

def setLocationRange (location : Option Str) : Store → Result (Store × Nat) :=
  updateRange tenant calendar fromAt toAt now fun e => { e with location }

def setDescriptionRange (description : Option Str) : Store → Result (Store × Nat) :=
  updateRange tenant calendar fromAt toAt now fun e => { e with description }

def setOrganizerEmailRange (organizer : Option Str) : Store → Result (Store × Nat) :=
  updateRange tenant calendar fromAt toAt now fun e => { e with organizerEmail := organizer }

def setRruleRange (rrule : Option Str) : Store → Result (Store × Nat) :=
  updateRange tenant calendar fromAt toAt now fun e => { e with rrule }

def setTextFieldsRange (summary location description organizer : Option (Option Str)) :
    Store → Result (Store × Nat) :=
  updateRange tenant calendar fromAt toAt now fun e => { e with
    summary := summary.getD e.summary
    location := location.getD e.location
    description := description.getD e.description
    organizerEmail := organizer.getD e.organizerEmail }

end

/-! ### Calendars -/

structure NewCalendar where
  name : Str
  description : Option Str
  color : Option Str
  timezone : Option Str
  isDefault : Bool

structure UpdateCalendar where
  name : Option Str := none
  description : Option Str := none
  color : Option Str := none
  timezone : Option Str := none
  isDefault : Option Bool := none

def defaultTimezone : Str := "America/Sao_Paulo".toList

namespace CalendarRepo

def get (tenant id : Uuid) (s : Store) : Result Calendar :=
  match s.calendars.find? (·.isRow tenant id) with
  | some c => .ok c
  | none => .error (.calendarNotFound id)

def ctag (tenant id : Uuid) (s : Store) : Result Int :=
  match s.calendars.find? (·.isRow tenant id) with
  | some c => .ok c.ctag
  | none => .error (.calendarNotFound id)

/-- `create` passes a generated id. A new calendar starts at tag 1. -/
def createWithId (id tenant owner : Uuid) (input : NewCalendar) (now : Timestamp) (s : Store) :
    Result (Store × Calendar) := do
  let row : Calendar :=
    { id, tenantId := tenant, ownerUserId := owner, name := input.name
      description := input.description, color := input.color
      timezone := input.timezone.getD defaultTimezone, ctag := 1, isDefault := input.isDefault
      createdAt := now, updatedAt := now }
  let s' ← transaction (some { s.toTables with calendars := s.calendars ++ [row] })
  .ok (s', row)

def patched (patch : UpdateCalendar) (now : Timestamp) (c : Calendar) : Calendar :=
  { c with
    name := patch.name.getD c.name
    description := patch.description.or c.description
    color := patch.color.or c.color
    timezone := patch.timezone.getD c.timezone
    isDefault := patch.isDefault.getD c.isDefault
    updatedAt := now }

def update (tenant id : Uuid) (patch : UpdateCalendar) (now : Timestamp) (s : Store) :
    Result Store := do
  let _ ← get tenant id s
  transaction (some { s.toTables with
    calendars := s.calendars.map fun c => if c.isRow tenant id then patched patch now c else c })

def delete (tenant id : Uuid) (now : Timestamp) (s : Store) : Result Store := do
  let _ ← get tenant id s
  transaction (deleteCalendarRow tenant id now s.toTables)

end CalendarRepo

/-- `purge_once`: tombstones written before the cutoff go. -/
def purgeOnce (cutoff : Timestamp) (s : Store) : Store :=
  ⟨{ s.toTables with tombstones := s.tombstones.filter fun t => cutoff ≤ t.deletedAt },
    s.constraints⟩

end Expresso.CalDav
