import Expresso.CalDav.Completion
import Expresso.Text.Trim

/-! A task as a body and as columns: when the two agree, and when the tag follows them. -/

namespace Expresso.CalDav
open Text Time Transition

/-- The instant that a stored time stands for. -/
def instantOf (t : Timestamp) : Int := t * 1000 + 730120 * dayNanos

/-- Every value that the body carries is the one in the columns. -/
structure ParsedTask.Agrees (parsed : ParsedTask) (t : Task) : Prop where
  uid : parsed.uid = t.uid
  summary : ∀ v ∈ parsed.summary, v = t.summary
  description : ∀ v ∈ parsed.description, t.description = some v
  status : ∀ v ∈ parsed.status, v = t.status.text
  priority : parsed.priority = t.priority
  percentComplete : parsed.percentComplete = t.percentComplete
  dtstart : ∀ v ∈ parsed.dtstart, t.dtstart.map instantOf = some v.instant
  due : ∀ v ∈ parsed.due, t.due.map instantOf = some v.instant
  completed : ∀ v ∈ parsed.completed, t.completedAt.map instantOf = some v.instant
  rrule : ∀ v ∈ parsed.rrule, t.rrule = some v

def Task.Agrees (crates : Crates) (t : Task) : Prop :=
  ∃ parsed, parseVtodo crates t.toIcal = .ok parsed ∧ parsed.Agrees t

/-- The columns that the body of a task shows. -/
structure Columns where
  uid : Str
  summary : Str
  description : Option Str
  status : TaskStatus
  priority : Int
  percentComplete : Int
  dtstart : Option Timestamp
  due : Option Timestamp
  completedAt : Option Timestamp
  rrule : Option Str
  deriving DecidableEq

def Task.columns (t : Task) : Columns :=
  ⟨t.uid, t.summary, t.description, t.status, t.priority, t.percentComplete, t.dtstart, t.due,
    t.completedAt, t.rrule⟩

/-- A task whose columns a step changes gets another tag. -/
def TagFollows (crates : Crates) (s : TaskStore) (w : TaskWrite) : Prop :=
  ∀ t ∈ s.tasks, ∀ t' ∈ (s.step crates w).tasks, t'.id = t.id → t'.columns ≠ t.columns →
    t'.caldavEtag crates ≠ t.caldavEtag crates

/-! ### Writes that keep body and columns together -/

/-- Two different bodies have different digests. -/
def Apart (crates : Crates) (first second : Str) : Prop :=
  first ≠ second → crates.sha256 (asBytes first) ≠ crates.sha256 (asBytes second)

/-- A text that is written as it is and read as it is written. -/
def Unescaped (text : Str) : Prop :=
  (∀ c ∈ text, isSpecial c = false) ∧ text.getLast? ≠ some '\r'

def OnSecond (t : Timestamp) : Prop := t % 1000000 = 0

structure NewTask.Plain (n : NewTask) (ambient : Ambient) : Prop where
  uid : Unescaped (taskUid n.uid ambient)
  description : ∀ d ∈ n.description, d.getLast? ≠ some '\r'
  dtstart : ∀ dt ∈ n.dtstart, OnSecond (toTimestamp dt)
  due : ∀ dt ∈ n.due, OnSecond (toTimestamp dt)
  completed : ∀ status, validateStatus n.status = .ok status →
    ∀ dt ∈ completedNow ambient.clock status (n.percentComplete.getD 0), OnSecond (toTimestamp dt)
  rrule : ∀ r ∈ cleanRrule n.rrule, Unescaped r

/-- An update of a task without a body of its own. -/
structure UpdateTask.Plain (crates : Crates) (u : UpdateTask) (current : Task)
    (ambient : Ambient) : Prop where
  description : ∀ d, u.description = some (some d) → d.getLast? ≠ some '\r'
  dtstart : ∀ dt ∈ u.dtstart, OnSecond (toTimestamp dt)
  due : ∀ dt ∈ u.due, OnSecond (toTimestamp dt)
  completed : ∀ status, u.status.elim (.ok current.status) (fun s => validateStatus (some s)) =
      .ok status →
    ∀ dt ∈ completedNow ambient.clock status (u.percentComplete.getD current.percentComplete),
      OnSecond (toTimestamp dt)
  rrule : ∀ r, u.rrule = some r → ∀ text ∈ cleanRrule r, Unescaped text
  apart : ∀ row, u.row current ambient = .ok row → Apart crates row.toIcal current.toIcal

/-- An update that gives every column the value it has. -/
structure UpdateTask.Keeps (u : UpdateTask) (current : Task) (ambient : Ambient) : Prop where
  summary : ∀ s ∈ u.summary, trim s = current.summary
  description : ∀ d ∈ u.description, d = current.description
  status : ∀ s ∈ u.status, validateStatus (some s) = .ok current.status
  priority : ∀ p ∈ u.priority, p = current.priority
  percentComplete : if current.status = .completed then current.percentComplete = 100
    else ∀ p ∈ u.percentComplete, p = current.percentComplete
  dtstart : ∀ dt ∈ u.dtstart, current.dtstart = some (toTimestamp dt)
  due : ∀ dt ∈ u.due, current.due = some (toTimestamp dt)
  completed : (completedNow ambient.clock current.status current.percentComplete).map toTimestamp =
    current.completedAt
  rrule : ∀ r ∈ u.rrule, cleanRrule r = current.rrule

/-- A body whose values the columns can hold as they are. -/
structure ParsedTask.Plain (parsed : ParsedTask) : Prop where
  summary : ∀ s ∈ parsed.summary, trim s = s
  status : ∀ s ∈ parsed.status, s ∈ TaskStatus.all.map TaskStatus.text
  times : ∀ dt, dt ∈ parsed.dtstart ∨ dt ∈ parsed.due ∨ dt ∈ parsed.completed →
    dt.instant % 1000 = 0
  rrule : ∀ r ∈ parsed.rrule, trim r = r ∧ r ≠ []

/-- A body in the place of another: the digests differ, or it is the same body and no completion
time is renewed. -/
structure Replaces (crates : Crates) (raw : Str) (parsed : ParsedTask) (clock : OffsetDateTime)
    (old : Task) : Prop where
  apart : Apart crates raw old.toIcal
  again : raw = old.toIcal → parsed.completed = none →
    (completedNow clock old.status old.percentComplete).map toTimestamp = old.completedAt

/-- A write after which the bodies and the columns still agree. -/
def KeepsTogether (crates : Crates) (s : TaskStore) : TaskWrite → Prop
  | .create _ _ n ambient => n.Plain ambient
  | .update tenant calendar id u ambient =>
      ∀ t ∈ s.tasks, t.isRow tenant calendar id = true →
        if t.icalRaw = none then u.Plain crates t ambient else u.Keeps t ambient
  | .replaceByUid _ calendar raw ambient =>
      ∀ parsed, parseVtodo crates raw = .ok parsed → parsed.Plain ∧
        ∀ t ∈ s.tasks, t.under calendar parsed.uid = true →
          Replaces crates raw parsed ambient.clock t
  | .delete _ _ _ => True
  | .deleteByUid _ _ _ => True

/-! ### Times in the columns -/

theorem ofTimestamp_spec {τ : Timestamp} {dt : OffsetDateTime} (read : ofTimestamp τ = some dt) :
    dt.offset = 0 ∧ dt.nanos = instantOf τ % dayNanos ∧ dt.instant = instantOf τ := by
  simp only [ofTimestamp] at read
  obtain ⟨date, found, rfl⟩ := Option.map_eq_some_iff.mp read
  have days := Date.toDays_of_ofDays found
  refine ⟨rfl, rfl, ?_⟩
  simp only [OffsetDateTime.instant, OffsetDateTime.assumeUtc, days, instantOf, dayNanos]
  omega

theorem toTimestamp_ofTimestamp {τ : Timestamp} {dt : OffsetDateTime}
    (read : ofTimestamp τ = some dt) : toTimestamp dt = τ := by
  obtain ⟨-, -, same⟩ := ofTimestamp_spec read
  have difference : dt.instant - 730120 * dayNanos = τ * 1000 := by
    rw [same, instantOf]
    omega
  rw [toTimestamp, difference]
  exact Int.mul_tdiv_cancel τ (by decide)

theorem wholeSecond_ofTimestamp {τ : Timestamp} {dt : OffsetDateTime}
    (read : ofTimestamp τ = some dt) (whole : OnSecond τ) : WholeSecond dt := by
  obtain ⟨utc, nanos, -⟩ := ofTimestamp_spec read
  refine ⟨utc, ?_⟩
  obtain ⟨k, rfl⟩ : ∃ k : Int, τ = 1000000 * k := Int.dvd_of_emod_eq_zero whole
  simp only [nanos, instantOf, dayNanos]
  omega

theorem instantOf_toTimestamp {dt : OffsetDateTime} (exact' : dt.instant % 1000 = 0) :
    instantOf (toTimestamp dt) = dt.instant := by
  have divides : (1000 : Int) ∣ dt.instant - 730120 * dayNanos := by
    simp only [dayNanos]
    omega
  have product := Int.tdiv_mul_cancel divides
  rw [instantOf, toTimestamp, product]
  omega

/-! ### Texts that were trimmed -/

theorem trim_noReturn (s : Str) : (trim s).getLast? ≠ some '\r' := by
  intro last
  exact absurd (trimEnd_last (trimStart s) '\r' last) (by decide)

theorem validateSummary_ok {raw summary : Str} (valid : validateSummary raw = .ok summary) :
    summary = trim raw ∧ summary ≠ [] := by
  simp only [validateSummary] at valid
  split at valid
  · cases valid
  · next nonempty =>
    cases valid
    exact ⟨rfl, by simpa using (not_or.mp nonempty).1⟩

theorem validateDescription_ok {raw description : Option Str}
    (valid : validateDescription raw = .ok description) : description = raw := by
  unfold validateDescription at valid
  split at valid
  · split at valid
    · cases valid
    · cases valid
      rfl
  · cases valid
    rfl

theorem validateRange_eq {most n : Int} {message : Str} {raw : Option Int}
    (valid : validateRange most message raw = .ok n) : n = raw.getD 0 := by
  simp only [validateRange] at valid
  split at valid
  · cases valid
    rfl
  · cases valid

theorem plain_of_all {text : Str} (plain : text.all (fun c => !isSpecial c) = true) :
    ∀ c ∈ text, isSpecial c = false := by
  simpa using plain

theorem status_facts (status : TaskStatus) :
    toAsciiUppercase status.text = status.text ∧ (∀ c ∈ status.text, isSpecial c = false) ∧
      status.text.getLast? ≠ some '\r' ∧ validateStatus (some status.text) = .ok status := by
  have checked : toAsciiUppercase status.text = status.text ∧
      status.text.all (fun c => !isSpecial c) = true ∧ status.text.getLast? ≠ some '\r' ∧
      validateStatus (some status.text) = .ok status := by
    cases status <;> decide
  exact ⟨checked.1, plain_of_all checked.2.1, checked.2.2⟩

/-! ### Columns that come from a body -/

/-- The columns are those that a body gives. -/
structure ParsedTask.Gives (parsed : ParsedTask) (t : Task) : Prop where
  uid : t.uid = parsed.uid
  summary : parsed.summary = some t.summary
  description : t.description = parsed.description
  status : validateStatus parsed.status = .ok t.status
  named : ∀ v ∈ parsed.status, v = t.status.text
  priority : t.priority = parsed.priority
  percentComplete : t.percentComplete = parsed.percentComplete
  dtstart : t.dtstart = parsed.dtstart.map toTimestamp
  due : t.due = parsed.due.map toTimestamp
  completed : ∀ dt ∈ parsed.completed, t.completedAt = some (toTimestamp dt)
  times : ∀ dt, dt ∈ parsed.dtstart ∨ dt ∈ parsed.due ∨ dt ∈ parsed.completed →
    instantOf (toTimestamp dt) = dt.instant
  rrule : t.rrule = parsed.rrule

theorem ParsedTask.Gives.agrees {parsed : ParsedTask} {t : Task} (gives : parsed.Gives t) :
    parsed.Agrees t where
  uid := gives.uid.symm
  summary v given := by
    rw [gives.summary] at given
    exact (Option.some.inj given).symm
  description v given := gives.description.trans given
  status := gives.named
  priority := gives.priority.symm
  percentComplete := gives.percentComplete.symm
  dtstart v given := by
    rw [gives.dtstart, given]
    exact congrArg some (gives.times v (.inl given))
  due v given := by
    rw [gives.due, given]
    exact congrArg some (gives.times v (.inr (.inl given)))
  completed v given := by
    rw [gives.completed v given]
    exact congrArg some (gives.times v (.inr (.inr given)))
  rrule v given := gives.rrule.trans given

/-- The fields that a task without a body is written with. -/
def Task.vtodo (t : Task) : Vtodo :=
  { uid := t.uid
    summary := t.summary
    description := t.description
    status := t.status.text
    priority := t.priority
    percentComplete := t.percentComplete
    dtstart := t.dtstart.bind ofTimestamp
    due := t.due.bind ofTimestamp
    completed := t.completedAt.bind ofTimestamp
    rrule := t.rrule }

/-- A row in step with its body: a task without one can be written and read back, and the
columns of the others are those that the body gives. -/
structure Task.InStep (crates : Crates) (t : Task) : Prop where
  written : t.icalRaw = none → t.etag = none ∧ t.vtodo.Readable
  stored : ∀ raw, t.icalRaw = some raw → t.etag = some (computeEtag crates raw) ∧
    ∃ parsed, parseVtodo crates raw = .ok parsed ∧ parsed.Gives t

theorem map_toTimestamp_bind {time : Option Timestamp}
    (readable : ∀ τ ∈ time, (ofTimestamp τ).isSome = true) :
    (time.bind ofTimestamp).map toTimestamp = time := by
  cases time with
  | none => rfl
  | some τ =>
    obtain ⟨dt, read⟩ := Option.isSome_iff_exists.mp (readable τ rfl)
    rw [Option.bind_some, read]
    exact congrArg some (toTimestamp_ofTimestamp read)

theorem Task.Valid.readTimes {t : Task} (valid : t.Valid) :
    (∀ τ ∈ t.dtstart, (ofTimestamp τ).isSome = true) ∧
      (∀ τ ∈ t.due, (ofTimestamp τ).isSome = true) ∧
      ∀ τ ∈ t.completedAt, (ofTimestamp τ).isSome = true := by
  have times := fun τ listed => (valid.2.2.2 τ listed).2
  refine ⟨fun τ given => times τ ?_, fun τ given => times τ ?_, fun τ given => times τ ?_⟩ <;>
    · rw [Option.mem_def] at given
      simp [Task.times, given]

/-- The columns of a task are those that its written form gives. -/
theorem vtodo_gives {t : Task} (valid : t.Valid) :
    t.vtodo.parsed.Gives t ∧ t.completedAt = t.vtodo.parsed.completed.map toTimestamp := by
  obtain ⟨dtstart, due, completed⟩ := valid.readTimes
  have exactly : ∀ {time : Option Timestamp} {dt}, dt ∈ time.bind ofTimestamp →
      instantOf (toTimestamp dt) = dt.instant := by
    intro time dt given
    obtain ⟨τ, -, read⟩ := Option.bind_eq_some_iff.mp given
    rw [toTimestamp_ofTimestamp read, (ofTimestamp_spec read).2.2]
  have stamp : t.completedAt = t.vtodo.parsed.completed.map toTimestamp :=
    (map_toTimestamp_bind completed).symm
  refine ⟨?_, stamp⟩
  exact
    { uid := rfl
      summary := rfl
      description := rfl
      status := (status_facts t.status).2.2.2
      named := fun v given => (Option.some.inj given).symm
      priority := rfl
      percentComplete := rfl
      dtstart := (map_toTimestamp_bind dtstart).symm
      due := (map_toTimestamp_bind due).symm
      completed := fun dt given => by rw [stamp, given]; rfl
      times := fun dt given => by
        rcases given with h | h | h <;> exact exactly h
      rrule := rfl }

section
variable {crates : Crates}

theorem toIcal_of_none {t : Task} (none : t.icalRaw = none) :
    t.toIcal = serializeVtodo t.vtodo := by
  simp only [Task.toIcal, none]
  rfl

theorem toIcal_of_some {t : Task} {raw : Str} (some : t.icalRaw = some raw) : t.toIcal = raw := by
  simp only [Task.toIcal, some]

/-- The body of a row in step gives its columns, and its tag is the body's. -/
theorem Task.InStep.body (extended : ExtendedOnly crates) {t : Task} (inStep : t.InStep crates)
    (valid : t.Valid) :
    (∃ parsed, parseVtodo crates t.toIcal = .ok parsed ∧ parsed.Gives t) ∧
      t.caldavEtag crates = computeEtag crates t.toIcal := by
  cases body : t.icalRaw with
  | none =>
    obtain ⟨noTag, readable⟩ := inStep.written body
    refine ⟨⟨t.vtodo.parsed, ?_, (vtodo_gives valid).1⟩, ?_⟩
    · rw [toIcal_of_none body]
      exact parseVtodo_serializeVtodo extended readable
    · simp only [Task.caldavEtag, noTag]
  | some raw =>
    obtain ⟨tag, parsed, read, gives⟩ := inStep.stored raw body
    rw [toIcal_of_some body]
    refine ⟨⟨parsed, read, gives⟩, ?_⟩
    simp only [Task.caldavEtag, tag]

end

/-! ### The rows that a write puts -/

section
variable {crates : Crates}

theorem wholeSecond_bind {time : Option Timestamp} (each : ∀ τ ∈ time, OnSecond τ) :
    ∀ dt ∈ time.bind ofTimestamp, WholeSecond dt := by
  intro dt given
  obtain ⟨τ, stored, read⟩ := Option.bind_eq_some_iff.mp given
  exact wholeSecond_ofTimestamp read (each τ stored)

theorem onSecond_map {time : Option OffsetDateTime}
    (each : ∀ dt ∈ time, OnSecond (toTimestamp dt)) : ∀ τ ∈ time.map toTimestamp, OnSecond τ := by
  intro τ given
  obtain ⟨dt, stored, rfl⟩ := Option.map_eq_some_iff.mp given
  exact each dt stored

theorem taskUid_ne_nil (uid : Option Str) (ambient : Ambient) : taskUid uid ambient ≠ [] := by
  unfold taskUid
  cases kept : (uid.map trim).filter fun u => !u.isEmpty with
  | none => simp
  | some u =>
    have nonempty := (Option.filter_eq_some_iff.mp kept).2
    simpa using nonempty

theorem create_inStep {n : NewTask} {tenant calendar : Uuid} {ambient : Ambient} {row : Task}
    (plain : n.Plain ambient) (built : n.row tenant calendar ambient = .ok row)
    (valid : row.Valid) : row.InStep crates := by
  obtain ⟨summary, description, status, priority, percent, named, described, known, ranked,
    measured, rfl⟩ := NewTask.row_ok built
  refine ⟨fun _ => ⟨rfl, ?_⟩, fun raw stored => by cases stored⟩
  have stamp := plain.completed status known
  rw [← validateRange_eq measured] at stamp
  exact
    { uid := ⟨taskUid_ne_nil n.uid ambient, plain.uid⟩
      summary := by
        rw [Task.vtodo, (validateSummary_ok named).1]
        exact trim_noReturn n.summary
      description := fun d given => by
        rw [Task.vtodo, validateDescription_ok described] at given
        exact plain.description d given
      status := ⟨(status_facts status).1, (status_facts status).2.1, (status_facts status).2.2.1⟩
      priority := valid.1
      percentComplete := valid.2.1
      dtstart := wholeSecond_bind (onSecond_map plain.dtstart)
      due := wholeSecond_bind (onSecond_map plain.due)
      completed := wholeSecond_bind (onSecond_map stamp)
      rrule := plain.rrule }

/-- A field of an update is the one before, or the one given after its check. -/
theorem kept_or_given {α β : Type} {given : Option α} {before value : β}
    {check : α → TaskResult β} (settled : given.elim (.ok before) check = .ok value) :
    (given = none ∧ value = before) ∨ ∃ a, given = some a ∧ check a = .ok value := by
  cases given with
  | none =>
    cases settled
    exact .inl ⟨rfl, rfl⟩
  | some a => exact .inr ⟨a, rfl, settled⟩

/-- A time given anew, or the one before. -/
theorem wholeSecond_or {given : Option OffsetDateTime} {before : Option Timestamp}
    (new : ∀ dt ∈ given, OnSecond (toTimestamp dt))
    (old : ∀ dt ∈ before.bind ofTimestamp, WholeSecond dt) :
    ∀ dt ∈ ((given.map toTimestamp).or before).bind ofTimestamp, WholeSecond dt := by
  cases given with
  | none => exact old
  | some dt => exact wholeSecond_bind (onSecond_map new)

theorem completedNow_update (clock : OffsetDateTime) (status : TaskStatus) (percent : Int) :
    completedNow clock status (if status = .completed then 100 else percent) =
      completedNow clock status percent := by
  unfold completedNow
  by_cases completed : status = .completed
  · simp [completed]
  · simp [completed]

theorem update_inStep {u : UpdateTask} {current row : Task} {ambient : Ambient}
    (plain : u.Plain crates current ambient) (built : u.row current ambient = .ok row)
    (valid : row.Valid) (bodiless : current.icalRaw = none) (inStep : current.InStep crates) :
    row.InStep crates := by
  obtain ⟨noTag, readable⟩ := inStep.written bodiless
  obtain ⟨summary, description, status, priority, percent, named, described, known, ranked,
    measured, rfl⟩ := UpdateTask.row_ok built
  refine ⟨fun _ => ⟨noTag, ?_⟩, fun raw stored => by rw [bodiless] at stored; cases stored⟩
  have percentage : percent = u.percentComplete.getD current.percentComplete := by
    rw [validateRange_eq measured]
    cases u.percentComplete <;> rfl
  have stamp := plain.completed status known
  rw [← percentage, ← completedNow_update] at stamp
  exact
    { uid := readable.uid
      summary := by
        rcases kept_or_given named with ⟨-, rfl⟩ | ⟨s, -, valid⟩
        · exact readable.summary
        · rw [Task.vtodo, (validateSummary_ok valid).1]
          exact trim_noReturn s
      description := fun d held => by
        have held : description = some d := held
        rcases kept_or_given described with ⟨-, rfl⟩ | ⟨new, given, valid⟩
        · exact readable.description d held
        · rw [validateDescription_ok valid] at held
          exact plain.description d (by rw [given, held])
      status := ⟨(status_facts status).1, (status_facts status).2.1, (status_facts status).2.2.1⟩
      priority := valid.1
      percentComplete := valid.2.1
      dtstart := wholeSecond_or plain.dtstart readable.dtstart
      due := wholeSecond_or plain.due readable.due
      completed := wholeSecond_bind (onSecond_map stamp)
      rrule := fun r held => by
        cases given : u.rrule with
        | none =>
          simp only [Task.vtodo, given, Option.elim_none] at held
          exact readable.rrule r held
        | some new =>
          simp only [Task.vtodo, given, Option.elim_some] at held
          exact plain.rrule new given r held }

/-! Updates that keep the columns -/

theorem update_keeps {u : UpdateTask} {current row : Task} {ambient : Ambient}
    (keeps : u.Keeps current ambient) (built : u.row current ambient = .ok row) :
    row.columns = current.columns ∧ row.icalRaw = current.icalRaw ∧ row.etag = current.etag := by
  obtain ⟨summary, description, status, priority, percent, named, described, known, ranked,
    measured, rfl⟩ := UpdateTask.row_ok built
  refine ⟨?_, rfl, rfl⟩
  have sameSummary : summary = current.summary := by
    rcases kept_or_given named with ⟨-, same⟩ | ⟨s, given, valid⟩
    · exact same
    · exact (validateSummary_ok valid).1.trans (keeps.summary s given)
  have sameDescription : description = current.description := by
    rcases kept_or_given described with ⟨-, same⟩ | ⟨d, given, valid⟩
    · exact same
    · exact (validateDescription_ok valid).trans (keeps.description d given)
  have sameStatus : status = current.status := by
    rcases kept_or_given known with ⟨-, same⟩ | ⟨s, given, valid⟩
    · exact same
    · rw [keeps.status s given] at valid
      exact (Except.ok.inj valid).symm
  have samePriority : priority = current.priority := by
    rw [validateRange_eq ranked]
    cases given : u.priority with
    | none => rfl
    | some p => exact keeps.priority p given
  have samePercent : (if status = .completed then 100 else percent) = current.percentComplete := by
    have kept := keeps.percentComplete
    rw [sameStatus]
    split at kept
    · next completed => rw [if_pos completed, kept]
    · next other =>
      rw [if_neg other, validateRange_eq measured]
      cases given : u.percentComplete with
      | none => rfl
      | some p => exact kept p given
  have sameDtstart : (u.dtstart.map toTimestamp).or current.dtstart = current.dtstart := by
    cases given : u.dtstart with
    | none => rfl
    | some dt => exact (keeps.dtstart dt given).symm
  have sameDue : (u.due.map toTimestamp).or current.due = current.due := by
    cases given : u.due with
    | none => rfl
    | some dt => exact (keeps.due dt given).symm
  have sameRrule : u.rrule.elim current.rrule cleanRrule = current.rrule := by
    cases given : u.rrule with
    | none => rfl
    | some r => exact keeps.rrule r given
  simp only [Task.columns, samePercent, sameDtstart, sameDue, sameRrule]
  rw [sameSummary, sameDescription, sameStatus, samePriority, keeps.completed]

theorem ParsedTask.Gives.of_columns {parsed : ParsedTask} {t t' : Task} (gives : parsed.Gives t)
    (same : t'.columns = t.columns) : parsed.Gives t' := by
  simp only [Task.columns, Columns.mk.injEq] at same
  obtain ⟨uid, summary, description, status, priority, percent, dtstart, due, completed, rrule⟩ :=
    same
  exact
    { uid := uid.trans gives.uid
      summary := summary ▸ gives.summary
      description := description.trans gives.description
      status := status ▸ gives.status
      named := status ▸ gives.named
      priority := priority.trans gives.priority
      percentComplete := percent.trans gives.percentComplete
      dtstart := dtstart.trans gives.dtstart
      due := due.trans gives.due
      completed := completed ▸ gives.completed
      times := gives.times
      rrule := rrule.trans gives.rrule }

theorem keeps_inStep {current row : Task} {raw : Str} (stored : current.icalRaw = some raw)
    (inStep : current.InStep crates)
    (same : row.columns = current.columns ∧ row.icalRaw = current.icalRaw ∧
      row.etag = current.etag) : row.InStep crates := by
  obtain ⟨columns, body, tag⟩ := same
  rw [stored] at body
  refine ⟨fun bodiless => ?_, fun raw' stored' => ?_⟩
  · rw [body] at bodiless
    cases bodiless
  · rw [body] at stored'
    cases stored'
    obtain ⟨oldTag, parsed, read, gives⟩ := inStep.stored raw stored
    exact ⟨tag.trans oldTag, parsed, read, gives.of_columns columns⟩

/-! Bodies -/

theorem cleanRrule_plain {rrule : Option Str} (plain : ∀ r ∈ rrule, trim r = r ∧ r ≠ []) :
    cleanRrule rrule = rrule := by
  cases rrule with
  | none => rfl
  | some r =>
    obtain ⟨trimmed, nonempty⟩ := plain r rfl
    simp [cleanRrule, trimmed, nonempty]

theorem withBody_gives {parsed : ParsedTask} {summary : Str} {status : TaskStatus}
    {clock : OffsetDateTime} {etag raw : Str} {base : Task} (plain : parsed.Plain)
    (named : validateSummary (parsed.summary.getD []) = .ok summary)
    (known : validateStatus parsed.status = .ok status) (uid : base.uid = parsed.uid) :
    parsed.Gives (base.withBody parsed summary status clock etag raw) := by
  obtain ⟨trimmed, nonempty⟩ := validateSummary_ok named
  have given : parsed.summary = some summary := by
    cases text : parsed.summary with
    | none =>
      rw [text] at trimmed
      exact absurd trimmed nonempty
    | some s =>
      rw [text, Option.getD_some, plain.summary s text] at trimmed
      rw [trimmed]
  exact
    { uid := uid
      summary := given
      description := rfl
      status := known
      named := fun v held => by
        obtain ⟨status', -, rfl⟩ := List.mem_map.mp (plain.status v held)
        rw [held, (status_facts status').2.2.2] at known
        cases known
        rfl
      priority := rfl
      percentComplete := rfl
      dtstart := rfl
      due := rfl
      completed := fun dt held => by
        rw [Option.mem_def] at held
        simp [Task.withBody, held]
      times := fun dt held => instantOf_toTimestamp (plain.times dt held)
      rrule := cleanRrule_plain plain.rrule }

theorem withBody_inStep {parsed : ParsedTask} {summary : Str} {status : TaskStatus}
    {clock : OffsetDateTime} {raw : Str} {base : Task} (read : parseVtodo crates raw = .ok parsed)
    (gives : parsed.Gives
      (base.withBody parsed summary status clock (computeEtag crates raw) raw)) :
    (base.withBody parsed summary status clock (computeEtag crates raw) raw).InStep crates := by
  refine ⟨fun bodiless => absurd bodiless (by simp [Task.withBody]), fun raw' stored => ?_⟩
  cases stored
  exact ⟨rfl, parsed, read, gives⟩

/-! ### The tag -/

theorem hexByte_injective {b b' : UInt8} (same : hexByte b = hexByte b') : b = b' := by
  have digit : ∀ n < 16, ∀ m < 16, hexDigit n = hexDigit m → n = m := by decide
  have bound := b.toNat_lt
  have bound' := b'.toNat_lt
  simp only [hexByte, List.cons.injEq, and_true] at same
  have high := digit _ (by omega) _ (by omega) same.1
  have low := digit _ (by omega) _ (by omega) same.2
  apply UInt8.toNat_inj.mp
  omega

theorem flatMap_hexByte_injective {bytes bytes' : List UInt8}
    (same : bytes.flatMap hexByte = bytes'.flatMap hexByte) : bytes = bytes' := by
  induction bytes generalizing bytes' with
  | nil =>
    cases bytes' with
    | nil => rfl
    | cons b' rest' => cases same
  | cons b rest ih =>
    cases bytes' with
    | nil => cases same
    | cons b' rest' =>
      rw [List.flatMap_cons, List.flatMap_cons] at same
      obtain ⟨first, later⟩ := List.append_inj same rfl
      rw [hexByte_injective first, ih later]

theorem computeEtag_apart {first second : Str} (apart : Apart crates first second)
    (differ : first ≠ second) : computeEtag crates first ≠ computeEtag crates second :=
  fun same => apart differ (flatMap_hexByte_injective same)

/-- The written forms of two tasks are the same only if their columns are. -/
theorem columns_of_serialize (extended : ExtendedOnly crates) {t t' : Task} (valid : t.Valid)
    (valid' : t'.Valid) (readable : t.vtodo.Readable) (readable' : t'.vtodo.Readable)
    (same : serializeVtodo t'.vtodo = serializeVtodo t.vtodo) : t'.columns = t.columns := by
  have read := parseVtodo_serializeVtodo extended readable
  have read' := parseVtodo_serializeVtodo extended readable'
  rw [same, read] at read'
  have parsed : t.vtodo.parsed = t'.vtodo.parsed := Except.ok.inj read'
  obtain ⟨gives, stamp⟩ := vtodo_gives valid
  obtain ⟨gives', stamp'⟩ := vtodo_gives valid'
  rw [← parsed] at gives' stamp'
  have status : t'.status = t.status := by
    have known := gives'.status
    rw [gives.status] at known
    exact (Except.ok.inj known).symm
  have summary : t'.summary = t.summary :=
    Option.some.inj (gives'.summary.symm.trans gives.summary)
  simp only [Task.columns, gives'.uid, gives.uid, summary, gives'.description, gives.description,
    status, gives'.priority, gives.priority, gives'.percentComplete, gives.percentComplete,
    gives'.dtstart, gives.dtstart, gives'.due, gives.due, stamp', stamp, gives'.rrule, gives.rrule]

/-- The columns that the same body gives again. -/
theorem columns_of_again {parsed : ParsedTask} {summary : Str} {status : TaskStatus}
    {clock : OffsetDateTime} {etag raw : Str} {old base : Task} (gives : parsed.Gives old)
    (gives' : parsed.Gives (base.withBody parsed summary status clock etag raw))
    (stamp : parsed.completed = none →
      (completedNow clock old.status old.percentComplete).map toTimestamp = old.completedAt) :
    (base.withBody parsed summary status clock etag raw).columns = old.columns := by
  have sameStatus : status = old.status := by
    have known := gives'.status
    rw [gives.status] at known
    exact (Except.ok.inj known).symm
  have sameSummary : summary = old.summary :=
    Option.some.inj (gives'.summary.symm.trans gives.summary)
  have completed : (parsed.completed.or (completedNow clock status parsed.percentComplete)).map
      toTimestamp = old.completedAt := by
    cases given : parsed.completed with
    | none =>
      rw [Option.none_or, sameStatus, ← gives.percentComplete]
      exact stamp given
    | some dt => exact (gives.completed dt given).symm
  have uid : base.uid = old.uid := gives'.uid.trans gives.uid.symm
  have rrule : cleanRrule parsed.rrule = old.rrule := gives'.rrule.trans gives.rrule.symm
  rw [sameStatus] at completed
  simp only [Task.columns, Task.withBody, completed, sameStatus, sameSummary, uid, rrule,
    gives.description, gives.priority, gives.percentComplete, gives.dtstart, gives.due]

/-- Bodies that differ have tags that differ. -/
theorem caldavEtag_ne {t t' : Task} (tag : t.caldavEtag crates = computeEtag crates t.toIcal)
    (tag' : t'.caldavEtag crates = computeEtag crates t'.toIcal)
    (apart : Apart crates t'.toIcal t.toIcal) (differ : t'.toIcal ≠ t.toIcal) :
    t'.caldavEtag crates ≠ t.caldavEtag crates := by
  rw [tag, tag']
  exact computeEtag_apart apart differ

/-! ### Runs -/

theorem puts_none_inStep {s : TaskStore} {w : TaskWrite} {row : Task}
    (together : KeepsTogether crates s w) (puts : w.Puts crates none row) (valid : row.Valid) :
    row.InStep crates := by
  cases puts with
  | create built => exact create_inStep together built valid
  | replace read named known place taken =>
    have uid : _ = _ := of_decide_eq_true (Bool.and_eq_true_iff.mp place).2
    exact withBody_inStep read (withBody_gives (together _ read).1 named known uid)

theorem puts_some_inStep (extended : ExtendedOnly crates) {s : TaskStore} {w : TaskWrite}
    {old row : Task} (together : KeepsTogether crates s w)
    (puts : w.Puts crates (some old) row) (listed : old ∈ s.tasks) (valid : row.Valid)
    (inStep : old.InStep crates) :
    row.InStep crates ∧
      (row.columns ≠ old.columns → row.caldavEtag crates ≠ old.caldavEtag crates) := by
  have oldValid := s.constraints.2.2.2 old listed
  obtain ⟨⟨oldParsed, oldRead, oldGives⟩, oldTag⟩ := inStep.body extended oldValid
  cases puts with
  | @update tenant calendar id u ambient _ _ found built =>
    have allowed := together old listed found
    split at allowed
    · next bodiless =>
      -- written from the columns before and after: other columns give another text
      have after := update_inStep allowed built valid bodiless inStep
      refine ⟨after, fun changed => ?_⟩
      have bodiless' : row.icalRaw = none := by
        obtain ⟨_, _, _, _, _, -, -, -, -, -, rfl⟩ := UpdateTask.row_ok built
        exact bodiless
      have differ : row.toIcal ≠ old.toIcal := by
        rw [toIcal_of_none bodiless, toIcal_of_none bodiless']
        intro same
        exact changed (columns_of_serialize extended oldValid valid (inStep.written bodiless).2
          (after.written bodiless').2 same)
      exact caldavEtag_ne oldTag (after.body extended valid).2 (allowed.apart row built) differ
    · next body =>
      obtain ⟨raw, stored⟩ := Option.ne_none_iff_exists'.mp body
      have same := update_keeps allowed built
      exact ⟨keeps_inStep stored inStep same, fun changed => absurd same.1 changed⟩
  | @replace tenant calendar raw ambient _ parsed summary status base read named known place
      taken =>
    have uid : base.uid = parsed.uid := of_decide_eq_true (Bool.and_eq_true_iff.mp place).2
    obtain ⟨plain, replaces⟩ := together parsed read
    have replaces := replaces old listed (taken old rfl)
    have gives : parsed.Gives
        (base.withBody parsed summary status ambient.clock (computeEtag crates raw) raw) :=
      withBody_gives plain named known uid
    have after := withBody_inStep read gives
    refine ⟨after, fun changed => ?_⟩
    by_cases again : raw = old.toIcal
    · rw [← again, read] at oldRead
      cases oldRead
      exact absurd (columns_of_again oldGives gives (replaces.again again)) changed
    · exact caldavEtag_ne oldTag (after.body extended valid).2 replaces.apart again

theorem step_inStep (extended : ExtendedOnly crates) {s : TaskStore} {w : TaskWrite}
    (together : KeepsTogether crates s w) (inStep : ∀ t ∈ s.tasks, t.InStep crates) :
    (∀ t ∈ (s.step crates w).tasks, t.InStep crates) ∧ TagFollows crates s w := by
  have valid := (s.step crates w).constraints.2.2.2
  constructor
  · intro t member
    rcases step_origin t member with kept | ⟨puts, -⟩ | ⟨old, listed, -, puts⟩
    · exact inStep t kept
    · exact puts_none_inStep together puts (valid t member)
    · exact (puts_some_inStep extended together puts listed (valid t member)
        (inStep old listed)).1
  · intro t listed t' member same changed
    have unique : ∀ other ∈ s.tasks, other.id = t.id → other = t := fun other held =>
      List.inj_on_of_nodup_map s.constraints.1 held listed
    rcases step_origin t' member with kept | ⟨-, fresh⟩ | ⟨old, held, sameId, puts⟩
    · exact absurd (congrArg Task.columns (unique t' kept same)) changed
    · exact absurd same.symm (fresh t listed)
    · cases unique old held (sameId.symm.trans same)
      exact (puts_some_inStep extended together puts listed (valid t' member)
        (inStep t listed)).2 changed

end

/-- In a run whose writes keep bodies and columns together, what can be read from the body of a
task is what its columns hold, and the tag changes with the columns. -/
theorem bodies_agree_throughout {crates : Crates} (extended : ExtendedOnly crates)
    (calendars : List Uuid) (writes : List TaskWrite)
    (together : EachStep (TaskStore.step crates) (KeepsTogether crates) (.empty calendars)
      writes) :
    Throughout (TaskStore.step crates) (fun s => ∀ t ∈ s.tasks, t.Agrees crates)
      (.empty calendars) writes ∧
    EachStep (TaskStore.step crates) (TagFollows crates) (.empty calendars) writes := by
  have start : ∀ t ∈ (TaskStore.empty calendars).tasks, t.InStep crates := by
    simp [TaskStore.empty]
  generalize TaskStore.empty calendars = s at start together
  have agrees : ∀ s : TaskStore, (∀ t ∈ s.tasks, t.InStep crates) →
      ∀ t ∈ s.tasks, t.Agrees crates := by
    intro s inStep t member
    obtain ⟨⟨parsed, read, gives⟩, -⟩ :=
      (inStep t member).body extended (s.constraints.2.2.2 t member)
    exact ⟨parsed, read, gives.agrees⟩
  induction writes generalizing s with
  | nil => exact ⟨agrees s start, trivial⟩
  | cons w rest ih =>
    obtain ⟨after, follows⟩ := step_inStep extended together.1 start
    obtain ⟨holds, each⟩ := ih (s.step crates w) after together.2
    exact ⟨⟨agrees s start, holds⟩, follows, each⟩

/-! ### A run that keeps them together -/

def callTask : Task :=
  { id := 7, tenantId := 1, calendarId := 2, uid := "1".toList, summary := "Call".toList
    description := none, status := .needsAction, priority := 0, percentComplete := 0
    dtstart := none, due := none, completedAt := none, rrule := none, icalRaw := none
    etag := none, createdAt := toTimestamp noon, updatedAt := toTimestamp noon }

def callAnn : Task := { callTask with summary := "Call Ann".toList }

def callBody : Str := "BEGIN:VTODO\nUID:1\nSUMMARY:Call Bob".toList

/-- A task made over REST, renamed there, and then stored as a body. -/
def renamedThenPut : List TaskWrite :=
  [.create 1 2 { uid := some "1".toList, summary := "Call".toList } noonAmbient,
    .update 1 2 7 { summary := some "Call Ann".toList } noonAmbient,
    .replaceByUid 1 2 callBody noonAmbient]

theorem renamedThenPut_rows :
    ((renamedThenPut.take 1).foldl (TaskStore.step sampleCrates) (.empty [2])).tasks = [callTask] ∧
    ((renamedThenPut.take 2).foldl (TaskStore.step sampleCrates) (.empty [2])).tasks =
      [callAnn] := by
  decide

theorem callBodies_apart :
    Apart sampleCrates callAnn.toIcal callTask.toIcal ∧ Apart sampleCrates callBody callAnn.toIcal ∧
      callBody ≠ callAnn.toIcal := by
  have digests : Sha256.digest (asBytes callAnn.toIcal) ≠ Sha256.digest (asBytes callTask.toIcal) ∧
      Sha256.digest (asBytes callBody) ≠ Sha256.digest (asBytes callAnn.toIcal) ∧
      callBody ≠ callAnn.toIcal := by
    decide +kernel
  exact ⟨fun _ => digests.1, fun _ => digests.2.1, digests.2.2⟩

theorem renamedThenPut_together :
    EachStep (TaskStore.step sampleCrates) (KeepsTogether sampleCrates) (.empty [2])
      renamedThenPut := by
  obtain ⟨first, second⟩ := renamedThenPut_rows
  obtain ⟨renamed, put, differ⟩ := callBodies_apart
  refine ⟨?_, ?_, ?_, trivial⟩
  · exact
      { uid := ⟨plain_of_all (by decide), by decide⟩
        description := by simp
        dtstart := by simp
        due := by simp
        completed := by
          intro status known dt stamp
          cases known
          cases stamp
        rrule := by simp [cleanRrule] }
  · intro t member _
    have row : t = callTask := by
      change t ∈ ((renamedThenPut.take 1).foldl (TaskStore.step sampleCrates) (.empty [2])).tasks
        at member
      rw [first] at member
      exact List.mem_singleton.mp member
    subst row
    have bodiless : callTask.icalRaw = none := rfl
    rw [if_pos bodiless]
    exact
      { description := by simp
        dtstart := by simp
        due := by simp
        completed := by
          intro status known dt stamp
          cases known
          cases stamp
        rrule := by simp
        apart := by
          intro row built
          have row : row = callAnn := by
            have settled : UpdateTask.row { summary := some "Call Ann".toList } callTask
                noonAmbient = .ok callAnn := by decide
            rw [settled] at built
            exact (Except.ok.inj built).symm
          rw [row]
          exact renamed }
  · intro parsed read
    have body : parseVtodo sampleCrates callBody =
        .ok { uid := "1".toList, summary := some "Call Bob".toList } := by decide
    rw [body] at read
    cases read
    refine ⟨?_, fun t member _ => ?_⟩
    · exact
        { summary := by decide
          status := by simp
          times := by simp
          rrule := by simp }
    · have row : t = callAnn := by
        change t ∈ ((renamedThenPut.take 2).foldl (TaskStore.step sampleCrates) (.empty [2])).tasks
          at member
        rw [second] at member
        exact List.mem_singleton.mp member
      subst row
      exact ⟨put, fun same => absurd same differ⟩

theorem bodies_agree_renamedThenPut :
    EachStep (TaskStore.step sampleCrates) (KeepsTogether sampleCrates) (.empty [2])
      renamedThenPut ∧
    Throughout (TaskStore.step sampleCrates) (fun s => ∀ t ∈ s.tasks, t.Agrees sampleCrates)
      (.empty [2]) renamedThenPut ∧
    EachStep (TaskStore.step sampleCrates) (TagFollows sampleCrates) (.empty [2])
      renamedThenPut :=
  ⟨renamedThenPut_together,
    bodies_agree_throughout (fun _ _ => rfl) [2] renamedThenPut renamedThenPut_together⟩

/-! ### A run that takes them apart -/

/-- A body is stored, and then the task renamed over REST. -/
def putThenRenamed : List TaskWrite :=
  [.replaceByUid 1 2 callBody noonAmbient,
    .update 1 2 7 { summary := some "Call Ann".toList } noonAmbient]

theorem bodies_disagree :
    ¬ (Throughout (TaskStore.step sampleCrates) (fun s => ∀ t ∈ s.tasks, t.Agrees sampleCrates)
        (.empty [2]) putThenRenamed ∧
      EachStep (TaskStore.step sampleCrates) (TagFollows sampleCrates) (.empty [2])
        putThenRenamed) := by
  intro ⟨holds, _⟩
  have last := throughout_iff.mp holds putThenRenamed [] (List.append_nil _).symm
  have stale : ∃ t ∈ (putThenRenamed.foldl (TaskStore.step sampleCrates) (.empty [2])).tasks,
      ∃ parsed ∈ (parseVtodo sampleCrates t.toIcal).toOption,
        parsed.summary = some "Call Bob".toList ∧ t.summary = "Call Ann".toList := by
    decide +kernel
  obtain ⟨t, member, parsed, read, body, column⟩ := stale
  obtain ⟨parsed', read', agrees⟩ := last t member
  rw [read'] at read
  cases read
  have same := agrees.summary _ body
  rw [column] at same
  exact absurd same (by decide)

end Expresso.CalDav
