import Expresso.CalDav.Repo
import Expresso.CalDav.Vtodo
import Expresso.Transition.Runs

/-! `TaskRepo`: the table `calendar_tasks` and the methods that write it. A method is one
transaction; the generated ids, the service's clock and the time of the transaction are
arguments. -/

namespace Expresso.CalDav
open Text Time

inductive TaskStatus where
  | needsAction | inProcess | completed | cancelled
  deriving DecidableEq

def TaskStatus.text : TaskStatus → Str
  | needsAction => "NEEDS-ACTION".toList
  | inProcess => "IN-PROCESS".toList
  | completed => "COMPLETED".toList
  | cancelled => "CANCELLED".toList

/-- `VALID_STATUS`. -/
def TaskStatus.all : List TaskStatus := [needsAction, inProcess, completed, cancelled]

/-- A row of `calendar_tasks`. -/
structure Task where
  id : Uuid
  tenantId : Uuid
  calendarId : Uuid
  uid : Str
  summary : Str
  description : Option Str
  status : TaskStatus
  priority : Int
  percentComplete : Int
  dtstart : Option Timestamp
  due : Option Timestamp
  completedAt : Option Timestamp
  rrule : Option Str
  icalRaw : Option Str
  etag : Option Str
  createdAt : Timestamp
  updatedAt : Timestamp
  deriving DecidableEq

inductive TaskError where
  | calendar (error : CalendarError)
  | taskNotFound (id : Uuid)
  /-- `CalendarNotFound` of a UID -/
  | uidNotFound (uid : Str)
  | conflict (message : Str)
  deriving DecidableEq

abbrev TaskResult := Except TaskError

def TaskError.database : TaskError := .calendar .database

def refuse {α : Type} (message : Str) : TaskResult α := .error (.calendar (.badRequest message))

/-! ### The body and its tag -/

def Task.toIcal (t : Task) : Str :=
  match t.icalRaw with
  | some raw => raw
  | none =>
      serializeVtodo
        { uid := t.uid
          summary := t.summary
          description := t.description
          status := t.status.text
          priority := t.priority
          percentComplete := t.percentComplete
          dtstart := t.dtstart.bind ofTimestamp
          due := t.due.bind ofTimestamp
          completed := t.completedAt.bind ofTimestamp
          rrule := t.rrule }

def Task.caldavEtag (crates : Crates) (t : Task) : Str :=
  match t.etag with
  | some e => e
  | none => computeEtag crates t.toIcal

/-! ### The table -/

structure TaskTables where
  /-- the ids that `calendar_id` may refer to -/
  calendars : List Uuid
  tasks : List Task
  deriving DecidableEq

def Task.texts (t : Task) : List Str :=
  t.uid :: t.summary ::
    [t.description, t.rrule, t.icalRaw, t.etag].filterMap fun text => text

def Task.times (t : Task) : List Timestamp :=
  [t.dtstart, t.due, t.completedAt].filterMap fun time => time

/-- The checks and types of the columns: the two ranges, no text with a zero character, no time
before 4713 BC. Every write returns its row, so a time that cannot be read back takes the write
with it. -/
@[reducible]
def Task.Valid (t : Task) : Prop :=
  (0 ≤ t.priority ∧ t.priority ≤ 9) ∧
  (0 ≤ t.percentComplete ∧ t.percentComplete ≤ 100) ∧
  (∀ text ∈ t.texts, '\x00' ∉ text) ∧
  ∀ time ∈ t.times, -211813488000000000 ≤ time ∧ (ofTimestamp time).isSome = true

/-- The primary key, `UNIQUE (calendar_id, uid)`, the reference to the calendar, and the checks
of the rows. -/
@[reducible]
def TaskTables.Constraints (t : TaskTables) : Prop :=
  (t.tasks.map (·.id)).Nodup ∧
  (t.tasks.map fun task => (task.calendarId, task.uid)).Nodup ∧
  (∀ task ∈ t.tasks, task.calendarId ∈ t.calendars) ∧
  ∀ task ∈ t.tasks, task.Valid

structure TaskStore extends TaskTables where
  constraints : toTaskTables.Constraints

def TaskStore.empty (calendars : List Uuid) : TaskStore :=
  ⟨⟨calendars, []⟩, by simp [TaskTables.Constraints]⟩

def commitTasks (t : TaskTables) : TaskResult TaskStore :=
  if valid : t.Constraints then .ok ⟨t, valid⟩ else .error .database

def Task.under (calendar : Uuid) (uid : Str) (t : Task) : Bool :=
  t.calendarId = calendar && t.uid = uid

def Task.isRow (tenant calendar id : Uuid) (t : Task) : Bool :=
  t.tenantId = tenant && t.calendarId = calendar && t.id = id

def Task.isAt (tenant calendar : Uuid) (uid : Str) (t : Task) : Bool :=
  t.tenantId = tenant && t.calendarId = calendar && t.uid = uid

/-! ### Checks of the fields -/

def maxSummaryBytes : Nat := 1024
def maxDescriptionBytes : Nat := 64 * 1024

def validateSummary (raw : Str) : TaskResult Str :=
  let s := trim raw
  if s.isEmpty ∨ maxSummaryBytes < len s then refuse "invalid summary".toList else .ok s

def validateDescription (raw : Option Str) : TaskResult (Option Str) :=
  match raw with
  | some d => if maxDescriptionBytes < len d then refuse "description too long".toList
      else .ok (some d)
  | none => .ok none

def validateStatus (raw : Option Str) : TaskResult TaskStatus :=
  match raw with
  | none => .ok .needsAction
  | some s =>
      match TaskStatus.all.find? fun v =>
        toAsciiLowercase v.text = toAsciiLowercase (trim s) with
      | some v => .ok v
      | none => refuse "invalid status".toList

/-- A number within `0..=most`, zero when there is none. -/
def validateRange (most : Int) (message : Str) (raw : Option Int) : TaskResult Int :=
  let n := raw.getD 0
  if 0 ≤ n ∧ n ≤ most then .ok n else refuse message

def validatePriority : Option Int → TaskResult Int :=
  validateRange 9 "priority must be 0..9".toList

def validatePercent : Option Int → TaskResult Int :=
  validateRange 100 "percent_complete must be 0..100".toList

def cleanRrule (raw : Option Str) : Option Str :=
  (raw.map trim).filter fun r => !r.isEmpty

/-- The stamp of a task that is `COMPLETED` or at 100 percent. -/
def completedNow (clock : OffsetDateTime) (status : TaskStatus) (percent : Int) :
    Option OffsetDateTime :=
  if status = .completed ∨ 100 ≤ percent then some clock else none

/-! ### The methods -/

structure NewTask where
  uid : Option Str := none
  summary : Str
  description : Option Str := none
  status : Option Str := none
  priority : Option Int := none
  percentComplete : Option Int := none
  dtstart : Option OffsetDateTime := none
  due : Option OffsetDateTime := none
  rrule : Option Str := none

/-- A field given as `Some` is set, otherwise kept. -/
structure UpdateTask where
  summary : Option Str := none
  description : Option (Option Str) := none
  status : Option Str := none
  priority : Option Int := none
  percentComplete : Option Int := none
  dtstart : Option OffsetDateTime := none
  due : Option OffsetDateTime := none
  rrule : Option (Option Str) := none

/-- The ids and times that a write is given: the row's id, the UID for a task without one, the
service's clock, the time of the transaction. -/
structure Ambient where
  id : Uuid
  generatedUid : Str
  clock : OffsetDateTime
  now : Timestamp

def taskUid (uid : Option Str) (ambient : Ambient) : Str :=
  ((uid.map trim).filter fun u => !u.isEmpty).getD ("task-".toList ++ ambient.generatedUid)

/-- The row that `create` inserts. -/
def NewTask.row (n : NewTask) (tenant calendar : Uuid) (ambient : Ambient) : TaskResult Task := do
  let summary ← validateSummary n.summary
  let description ← validateDescription n.description
  let status ← validateStatus n.status
  let priority ← validatePriority n.priority
  let percent ← validatePercent n.percentComplete
  .ok
    { id := ambient.id, tenantId := tenant, calendarId := calendar
      uid := taskUid n.uid ambient, summary, description, status, priority
      percentComplete := percent, dtstart := n.dtstart.map toTimestamp
      due := n.due.map toTimestamp
      completedAt := (completedNow ambient.clock status percent).map toTimestamp
      rrule := cleanRrule n.rrule, icalRaw := none, etag := none
      createdAt := ambient.now, updatedAt := ambient.now }

/-- The row that `update` writes in the place of the one it has read. -/
def UpdateTask.row (u : UpdateTask) (current : Task) (ambient : Ambient) : TaskResult Task := do
  let summary ← u.summary.elim (.ok current.summary) validateSummary
  let description ← u.description.elim (.ok current.description) validateDescription
  let status ← u.status.elim (.ok current.status) fun s => validateStatus (some s)
  let priority ← validatePriority (u.priority.or (some current.priority))
  let percent ← validatePercent (u.percentComplete.or (some current.percentComplete))
  let percent := if status = .completed then 100 else percent
  .ok
    { current with
      summary, description, status, priority
      percentComplete := percent
      dtstart := (u.dtstart.map toTimestamp).or current.dtstart
      due := (u.due.map toTimestamp).or current.due
      completedAt := (completedNow ambient.clock status percent).map toTimestamp
      rrule := u.rrule.elim current.rrule cleanRrule
      updatedAt := ambient.now }

/-- The columns that `replace_by_uid` takes from a body. -/
def Task.withBody (parsed : ParsedTask) (summary : Str) (status : TaskStatus)
    (clock : OffsetDateTime) (etag raw : Str) (t : Task) : Task :=
  { t with
    summary
    description := parsed.description
    status
    priority := parsed.priority
    percentComplete := parsed.percentComplete
    dtstart := parsed.dtstart.map toTimestamp
    due := parsed.due.map toTimestamp
    completedAt :=
      (parsed.completed.or (completedNow clock status parsed.percentComplete)).map toTimestamp
    rrule := cleanRrule parsed.rrule
    icalRaw := some raw
    etag := some etag }

namespace TaskRepo

def create (tenant calendar : Uuid) (n : NewTask) (ambient : Ambient) (s : TaskStore) :
    TaskResult (TaskStore × Task) := do
  let row ← n.row tenant calendar ambient
  -- the checks come before the unique indexes, the reference to the calendar after them
  if row.Valid ∧ s.tasks.any fun t => t.id = row.id || t.under calendar row.uid then
    .error (.conflict "task uid already exists in calendar".toList)
  else do
    let s' ← commitTasks { s.toTaskTables with tasks := s.tasks ++ [row] }
    .ok (s', row)

def get (tenant calendar id : Uuid) (s : TaskStore) : TaskResult Task :=
  match s.tasks.find? (·.isRow tenant calendar id) with
  | some t => .ok t
  | none => .error (.taskNotFound id)

def getByUid (tenant calendar : Uuid) (uid : Str) (s : TaskStore) : TaskResult Task :=
  match s.tasks.find? (·.isAt tenant calendar uid) with
  | some t => .ok t
  | none => .error (.uidNotFound uid)

def update (tenant calendar id : Uuid) (u : UpdateTask) (ambient : Ambient) (s : TaskStore) :
    TaskResult (TaskStore × Task) := do
  let current ← get tenant calendar id s
  let row ← u.row current ambient
  let s' ← commitTasks { s.toTaskTables with
    tasks := s.tasks.map fun t => if t.isRow tenant calendar id then row else t }
  .ok (s', row)

/-- `INSERT … ON CONFLICT (calendar_id, uid) DO UPDATE`. A row of another tenant is out of
reach. -/
def replaceByUid (crates : Crates) (tenant calendar : Uuid) (raw : Str) (ambient : Ambient)
    (s : TaskStore) : TaskResult (TaskStore × Task) := do
  let parsed ← (parseVtodo crates raw).mapError .calendar
  let etag := computeEtag crates raw
  let summary ← validateSummary (parsed.summary.getD [])
  let status ← validateStatus parsed.status
  let written := Task.withBody parsed summary status ambient.clock etag raw
  match s.tasks.find? (·.under calendar parsed.uid) with
  | none => do
      let row := written
        { id := ambient.id, tenantId := tenant, calendarId := calendar, uid := parsed.uid
          summary, description := none, status, priority := 0, percentComplete := 0
          dtstart := none, due := none, completedAt := none, rrule := none, icalRaw := none
          etag := none, createdAt := ambient.now, updatedAt := ambient.now }
      let s' ← commitTasks { s.toTaskTables with tasks := s.tasks ++ [row] }
      .ok (s', row)
  | some old =>
      if old.tenantId = tenant then do
        let row := { written old with updatedAt := ambient.now }
        let s' ← commitTasks { s.toTaskTables with
          tasks := s.tasks.map fun t => if t.under calendar parsed.uid then row else t }
        .ok (s', row)
      else .error .database

/-- `ORDER BY (status IN ('COMPLETED','CANCELLED')), due NULLS LAST, created_at`. -/
def listKey (t : Task) : Bool ×ₗ WithTop Timestamp ×ₗ Timestamp :=
  toLex (t.status = .completed || t.status = .cancelled,
    toLex ((match t.due with | some due => ↑due | none => ⊤), t.createdAt))

def maxListTasks : Nat := 5000

def list (tenant calendar : Uuid) (s : TaskStore) : List Task :=
  ((s.tasks.filter fun t => t.tenantId = tenant && t.calendarId = calendar).insertionSort
    fun a b => listKey a ≤ listKey b).take maxListTasks

def listByUids (tenant calendar : Uuid) (uids : List Str) (s : TaskStore) : List Task :=
  if uids.isEmpty then []
  else (s.tasks.filter fun t => t.tenantId = tenant && t.calendarId = calendar && uids.contains t.uid
    ).insertionSort fun a b => a.createdAt ≤ b.createdAt

def delete (tenant calendar id : Uuid) (s : TaskStore) : TaskResult TaskStore :=
  if s.tasks.any (·.isRow tenant calendar id) then
    commitTasks { s.toTaskTables with
      tasks := s.tasks.filter fun t => !t.isRow tenant calendar id }
  else .error (.taskNotFound id)

def deleteByUid (tenant calendar : Uuid) (uid : Str) (s : TaskStore) : TaskResult TaskStore :=
  if s.tasks.any (·.isAt tenant calendar uid) then
    commitTasks { s.toTaskTables with
      tasks := s.tasks.filter fun t => !t.isAt tenant calendar uid }
  else .error (.uidNotFound uid)

end TaskRepo

/-! ### Runs -/

/-- A write to the table. -/
inductive TaskWrite where
  | create (tenant calendar : Uuid) (n : NewTask) (ambient : Ambient)
  | update (tenant calendar id : Uuid) (u : UpdateTask) (ambient : Ambient)
  | replaceByUid (tenant calendar : Uuid) (raw : Str) (ambient : Ambient)
  | delete (tenant calendar id : Uuid)
  | deleteByUid (tenant calendar : Uuid) (uid : Str)

/-- The store that a method returns, or the one before when the method fails. -/
def TaskStore.after (s : TaskStore) : TaskResult TaskStore → TaskStore
  | .ok s' => s'
  | .error _ => s

def TaskStore.step (crates : Crates) (s : TaskStore) : TaskWrite → TaskStore
  | .create tenant calendar n ambient =>
      s.after ((TaskRepo.create tenant calendar n ambient s).map (·.1))
  | .update tenant calendar id u ambient =>
      s.after ((TaskRepo.update tenant calendar id u ambient s).map (·.1))
  | .replaceByUid tenant calendar raw ambient =>
      s.after ((TaskRepo.replaceByUid crates tenant calendar raw ambient s).map (·.1))
  | .delete tenant calendar id => s.after (TaskRepo.delete tenant calendar id s)
  | .deleteByUid tenant calendar uid => s.after (TaskRepo.deleteByUid tenant calendar uid s)

/-! ### What a write does to the rows -/

/-- A row that a write puts into the table, with the row that was there before. -/
inductive TaskWrite.Puts (crates : Crates) : TaskWrite → Option Task → Task → Prop
  | create {tenant calendar : Uuid} {n : NewTask} {ambient : Ambient} {row : Task}
      (built : n.row tenant calendar ambient = .ok row) :
      Puts crates (.create tenant calendar n ambient) none row
  | update {tenant calendar id : Uuid} {u : UpdateTask} {ambient : Ambient} {current row : Task}
      (found : current.isRow tenant calendar id = true)
      (built : u.row current ambient = .ok row) :
      Puts crates (.update tenant calendar id u ambient) (some current) row
  | replace {tenant calendar : Uuid} {raw : Str} {ambient : Ambient} {before : Option Task}
      {parsed : ParsedTask} {summary : Str} {status : TaskStatus} {base : Task}
      (read : parseVtodo crates raw = .ok parsed)
      (named : validateSummary (parsed.summary.getD []) = .ok summary)
      (known : validateStatus parsed.status = .ok status)
      (place : base.under calendar parsed.uid = true)
      (taken : ∀ old ∈ before, old.under calendar parsed.uid = true) :
      Puts crates (.replaceByUid tenant calendar raw ambient) before
        (base.withBody parsed summary status ambient.clock (computeEtag crates raw) raw)

section
variable {crates : Crates} {s s' : TaskStore} {w : TaskWrite}

theorem commitTasks_ok {t : TaskTables} (committed : commitTasks t = .ok s) :
    s.toTaskTables = t := by
  simp only [commitTasks] at committed
  split at committed
  · cases committed
    rfl
  · cases committed

/-- How the rows of a write's result come about. -/
def TaskWrite.Origin (crates : Crates) (s : TaskStore) (w : TaskWrite) (row : Task) : Prop :=
  row ∈ s.tasks ∨
    (w.Puts crates none row ∧ ∀ t ∈ s.tasks, t.id ≠ row.id) ∨
    ∃ old ∈ s.tasks, row.id = old.id ∧ w.Puts crates (some old) row

theorem origin_append {row : Task} (puts : w.Puts crates none row)
    (committed : commitTasks { s.toTaskTables with tasks := s.tasks ++ [row] } = .ok s') :
    ∀ t ∈ s'.tasks, w.Origin crates s t := by
  have tables := commitTasks_ok committed
  have rows : s'.tasks = s.tasks ++ [row] := by rw [tables]
  have ids := s'.constraints.1
  rw [rows, List.map_append, List.nodup_append] at ids
  intro t member
  rw [rows] at member
  rcases List.mem_append.mp member with old | new
  · exact .inl old
  · rw [List.mem_singleton.mp new]
    refine .inr (.inl ⟨puts, fun t listed => ?_⟩)
    exact ids.2.2 t.id (List.mem_map_of_mem listed) row.id (by simp)

theorem origin_map {old row : Task} {selected : Task → Bool} (listed : old ∈ s.tasks)
    (puts : w.Puts crates (some old) row) (same : row.id = old.id)
    (committed : commitTasks { s.toTaskTables with
      tasks := s.tasks.map fun t => if selected t then row else t } = .ok s') :
    ∀ t ∈ s'.tasks, w.Origin crates s t := by
  have tables := commitTasks_ok committed
  intro t member
  rw [tables] at member
  obtain ⟨t', before, rfl⟩ := List.mem_map.mp member
  split
  · exact .inr (.inr ⟨old, listed, same, puts⟩)
  · exact .inl before

theorem origin_filter {keep : Task → Bool}
    (committed : commitTasks { s.toTaskTables with tasks := s.tasks.filter keep } = .ok s') :
    ∀ t ∈ s'.tasks, w.Origin crates s t := by
  have tables := commitTasks_ok committed
  intro t member
  rw [tables] at member
  exact .inl (List.mem_filter.mp member).1

/-- The fields that an update settles on, and the row with them. -/
theorem UpdateTask.row_ok {u : UpdateTask} {current row : Task} {ambient : Ambient}
    (built : u.row current ambient = .ok row) :
    ∃ summary description status priority percent,
      u.summary.elim (.ok current.summary) validateSummary = .ok summary ∧
      u.description.elim (.ok current.description) validateDescription = .ok description ∧
      u.status.elim (.ok current.status) (fun s => validateStatus (some s)) = .ok status ∧
      validatePriority (u.priority.or (some current.priority)) = .ok priority ∧
      validatePercent (u.percentComplete.or (some current.percentComplete)) = .ok percent ∧
      row =
        { current with
          summary, description, status, priority
          percentComplete := if status = .completed then 100 else percent
          dtstart := (u.dtstart.map toTimestamp).or current.dtstart
          due := (u.due.map toTimestamp).or current.due
          completedAt := (completedNow ambient.clock status
            (if status = .completed then 100 else percent)).map toTimestamp
          rrule := u.rrule.elim current.rrule cleanRrule
          updatedAt := ambient.now } := by
  obtain ⟨summary, named, built⟩ := Transition.bind_eq_ok_iff.mp built
  obtain ⟨description, described, built⟩ := Transition.bind_eq_ok_iff.mp built
  obtain ⟨status, known, built⟩ := Transition.bind_eq_ok_iff.mp built
  obtain ⟨priority, ranked, built⟩ := Transition.bind_eq_ok_iff.mp built
  obtain ⟨percent, measured, built⟩ := Transition.bind_eq_ok_iff.mp built
  cases built
  exact ⟨summary, description, status, priority, percent, named, described, known, ranked,
    measured, rfl⟩

/-- The fields of a new task, and the row with them. -/
theorem NewTask.row_ok {n : NewTask} {tenant calendar : Uuid} {row : Task} {ambient : Ambient}
    (built : n.row tenant calendar ambient = .ok row) :
    ∃ summary description status priority percent,
      validateSummary n.summary = .ok summary ∧
      validateDescription n.description = .ok description ∧
      validateStatus n.status = .ok status ∧
      validatePriority n.priority = .ok priority ∧
      validatePercent n.percentComplete = .ok percent ∧
      row =
        { id := ambient.id, tenantId := tenant, calendarId := calendar
          uid := taskUid n.uid ambient, summary, description, status, priority
          percentComplete := percent, dtstart := n.dtstart.map toTimestamp
          due := n.due.map toTimestamp
          completedAt := (completedNow ambient.clock status percent).map toTimestamp
          rrule := cleanRrule n.rrule, icalRaw := none, etag := none
          createdAt := ambient.now, updatedAt := ambient.now } := by
  obtain ⟨summary, named, built⟩ := Transition.bind_eq_ok_iff.mp built
  obtain ⟨description, described, built⟩ := Transition.bind_eq_ok_iff.mp built
  obtain ⟨status, known, built⟩ := Transition.bind_eq_ok_iff.mp built
  obtain ⟨priority, ranked, built⟩ := Transition.bind_eq_ok_iff.mp built
  obtain ⟨percent, measured, built⟩ := Transition.bind_eq_ok_iff.mp built
  cases built
  exact ⟨summary, description, status, priority, percent, named, described, known, ranked,
    measured, rfl⟩

theorem create_origin {tenant calendar : Uuid} {n : NewTask} {ambient : Ambient} {result : Task}
    (done : TaskRepo.create tenant calendar n ambient s = .ok (s', result)) :
    ∀ t ∈ s'.tasks, (TaskWrite.create tenant calendar n ambient).Origin crates s t := by
  obtain ⟨row, built, written⟩ := Transition.bind_eq_ok_iff.mp done
  split at written
  · cases written
  · obtain ⟨_, committed, pair⟩ := Transition.bind_eq_ok_iff.mp written
    cases pair
    exact origin_append (.create built) committed

theorem update_origin {tenant calendar id : Uuid} {u : UpdateTask} {ambient : Ambient}
    {result : Task} (done : TaskRepo.update tenant calendar id u ambient s = .ok (s', result)) :
    ∀ t ∈ s'.tasks, (TaskWrite.update tenant calendar id u ambient).Origin crates s t := by
  obtain ⟨current, found, written⟩ := Transition.bind_eq_ok_iff.mp done
  obtain ⟨row, built, written⟩ := Transition.bind_eq_ok_iff.mp written
  obtain ⟨_, committed, pair⟩ := Transition.bind_eq_ok_iff.mp written
  cases pair
  simp only [TaskRepo.get] at found
  split at found
  · next stored =>
    cases found
    have same : result.id = current.id := by
      obtain ⟨_, _, _, _, _, -, -, -, -, -, rfl⟩ := UpdateTask.row_ok built
      rfl
    exact origin_map (List.mem_of_find?_eq_some stored)
      (.update (List.find?_some stored) built) same committed
  · cases found

theorem replaceByUid_origin {tenant calendar : Uuid} {raw : Str} {ambient : Ambient}
    {result : Task}
    (done : TaskRepo.replaceByUid crates tenant calendar raw ambient s = .ok (s', result)) :
    ∀ t ∈ s'.tasks, (TaskWrite.replaceByUid tenant calendar raw ambient).Origin crates s t := by
  obtain ⟨parsed, read, written⟩ := Transition.bind_eq_ok_iff.mp done
  obtain ⟨summary, named, written⟩ := Transition.bind_eq_ok_iff.mp written
  obtain ⟨status, known, written⟩ := Transition.bind_eq_ok_iff.mp written
  have read : parseVtodo crates raw = .ok parsed := by
    cases parse : parseVtodo crates raw with
    | error e => rw [parse] at read; cases read
    | ok p => rw [parse] at read; cases read; rfl
  split at written
  · obtain ⟨_, committed, pair⟩ := Transition.bind_eq_ok_iff.mp written
    cases pair
    exact origin_append (.replace read named known (by simp [Task.under]) (by simp)) committed
  · next old stored =>
    split at written
    · obtain ⟨_, committed, pair⟩ := Transition.bind_eq_ok_iff.mp written
      cases pair
      have here : old.under calendar parsed.uid = true := List.find?_some stored
      have place :
          ({ old with updatedAt := ambient.now } : Task).under calendar parsed.uid = true := here
      have puts : (TaskWrite.replaceByUid tenant calendar raw ambient).Puts crates (some old) _ :=
        .replace read named known place (by simpa using here)
      exact origin_map (List.mem_of_find?_eq_some stored) puts rfl committed
    · cases written

theorem after_origin {outcome : TaskResult TaskStore}
    (each : ∀ s', outcome = .ok s' → ∀ t ∈ s'.tasks, w.Origin crates s t) :
    ∀ t ∈ (s.after outcome).tasks, w.Origin crates s t := by
  cases outcome with
  | error e => exact fun t member => .inl member
  | ok s' => exact each s' rfl

theorem step_origin : ∀ t ∈ (s.step crates w).tasks, w.Origin crates s t := by
  cases w with
  | create tenant calendar n ambient =>
    refine after_origin fun s' done => ?_
    obtain ⟨_, created, rfl⟩ := Transition.map_eq_ok_iff.mp done
    exact create_origin created
  | update tenant calendar id u ambient =>
    refine after_origin fun s' done => ?_
    obtain ⟨_, updated, rfl⟩ := Transition.map_eq_ok_iff.mp done
    exact update_origin updated
  | replaceByUid tenant calendar raw ambient =>
    refine after_origin fun s' done => ?_
    obtain ⟨_, replaced, rfl⟩ := Transition.map_eq_ok_iff.mp done
    exact replaceByUid_origin replaced
  | delete tenant calendar id =>
    refine after_origin fun s' done => ?_
    simp only [TaskRepo.delete] at done
    split at done
    · exact origin_filter done
    · cases done
  | deleteByUid tenant calendar uid =>
    refine after_origin fun s' done => ?_
    simp only [TaskRepo.deleteByUid] at done
    split at done
    · exact origin_filter done
    · cases done

end

end Expresso.CalDav
