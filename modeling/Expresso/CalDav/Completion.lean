import Expresso.CalDav.Tasks

/-! When a task carries a completion time. -/

namespace Expresso.CalDav
open Text Time Transition

def Task.Done (t : Task) : Prop := t.status = .completed ∨ t.percentComplete = 100

/-- The stored body of the task gives a completion time. -/
def Task.BodyCompleted (crates : Crates) (t : Task) : Prop :=
  ∃ raw parsed, t.icalRaw = some raw ∧ parseVtodo crates raw = .ok parsed ∧
    parsed.completed.isSome = true

/-- A task that is done has a completion time, and another one has none but from its body. -/
structure Task.Completion (crates : Crates) (t : Task) : Prop where
  stamped : t.Done → t.completedAt.isSome = true
  grounded : t.completedAt.isSome = true → t.Done ∨ t.BodyCompleted crates

/-- What a write makes of the completion time of a row that it puts into the table. -/
def TaskWrite.Stamps (crates : Crates) (t : Task) : TaskWrite → Prop
  | .replaceByUid _ _ raw _ =>
      ∃ parsed, parseVtodo crates raw = .ok parsed ∧
        (t.completedAt.isSome = true ↔ t.Done ∨ parsed.completed.isSome = true)
  | _ => t.completedAt.isSome = true ↔ t.Done

section
variable {crates : Crates} {s : TaskStore} {w : TaskWrite}

theorem validateRange_ok {most n : Int} {message : Str} {raw : Option Int}
    (valid : validateRange most message raw = .ok n) : 0 ≤ n ∧ n ≤ most := by
  simp only [validateRange] at valid
  split at valid
  · next range =>
    cases valid
    exact range
  · cases valid

theorem completedNow_isSome {clock : OffsetDateTime} {status : TaskStatus} {percent : Int}
    (range : percent ≤ 100) :
    (completedNow clock status percent).isSome = true ↔ status = .completed ∨ percent = 100 := by
  have most : 100 ≤ percent ↔ percent = 100 := by omega
  unfold completedNow
  rw [← most]
  split
  · next done => exact iff_of_true rfl done
  · next open' => exact iff_of_false (by simp) open'

/-- Only a `PERCENT-COMPLETE` line sets the percentage, and it is clamped. -/
theorem applyTodoProperty_percent (t : ParsedTask) (line : Str) (range : t.percentComplete ≤ 100) :
    (applyTodoProperty crates t line).percentComplete ≤ 100 := by
  unfold applyTodoProperty
  cases splitOnce ':' line with
  | none => exact range
  | some pair =>
    cases named : TodoProperty.named (splitHead pair.1).1 with
    | none => simpa [named] using range
    | some property =>
      simp only [named]
      cases property with
      | percentComplete =>
        simp only [ParsedTask.set, parseClamped]
        omega
      | _ => exact range

theorem parseTodoLines_percent (lines : List Str) (inTodo : Bool) (t : ParsedTask)
    (range : t.percentComplete ≤ 100) :
    (parseTodoLines crates lines inTodo t).percentComplete ≤ 100 := by
  induction lines generalizing inTodo t with
  | nil => exact range
  | cons line rest ih =>
    simp only [parseTodoLines]
    split
    · exact ih true t range
    · split
      · exact range
      · split
        · exact ih true _ (applyTodoProperty_percent t _ range)
        · exact ih false t range

theorem parseVtodo_percent {raw : Str} {parsed : ParsedTask}
    (read : parseVtodo crates raw = .ok parsed) : parsed.percentComplete ≤ 100 := by
  simp only [parseVtodo] at read
  split at read
  · cases read
  · cases read
    exact parseTodoLines_percent _ _ _ (by decide)

/-- Each write settles the completion time of the rows it puts. -/
theorem puts_stamps {before : Option Task} {t : Task} (puts : w.Puts crates before t) :
    w.Stamps crates t := by
  cases puts with
  | create built =>
    obtain ⟨_, _, status, _, percent, -, -, -, -, measured, rfl⟩ := NewTask.row_ok built
    have range := validateRange_ok measured
    simp only [TaskWrite.Stamps, Option.isSome_map]
    exact completedNow_isSome range.2
  | update found built =>
    obtain ⟨_, _, status, _, percent, -, -, -, -, measured, rfl⟩ := UpdateTask.row_ok built
    have range := validateRange_ok measured
    simp only [TaskWrite.Stamps, Option.isSome_map]
    apply completedNow_isSome
    split
    · exact le_refl _
    · exact range.2
  | replace read named known place taken =>
    refine ⟨_, read, ?_⟩
    have range := parseVtodo_percent read
    simp only [Task.withBody, Option.isSome_map, Option.isSome_or, Bool.or_eq_true,
      completedNow_isSome range, Task.Done]
    exact or_comm

theorem puts_completion {before : Option Task} {t : Task} (puts : w.Puts crates before t) :
    t.Completion crates := by
  have stamps := puts_stamps puts
  cases puts with
  | create built => exact ⟨stamps.mpr, fun set => .inl (stamps.mp set)⟩
  | update found built => exact ⟨stamps.mpr, fun set => .inl (stamps.mp set)⟩
  | replace read named known place taken =>
    obtain ⟨parsed, read', iff⟩ := stamps
    refine ⟨fun done => iff.mpr (.inl done), fun set => ?_⟩
    rcases iff.mp set with done | given
    · exact .inl done
    · exact .inr ⟨_, parsed, rfl, read', given⟩

theorem step_completion (kept : ∀ t ∈ s.tasks, t.Completion crates) :
    ∀ t ∈ (s.step crates w).tasks, t.Completion crates := by
  intro t member
  rcases step_origin t member with old | ⟨puts, -⟩ | ⟨_, -, -, puts⟩
  · exact kept t old
  · exact puts_completion puts
  · exact puts_completion puts

end

/-- From a table without tasks: every task that is `COMPLETED` or at 100 percent has a
completion time at all times; no other task has one, except from its body; and a write that
does not store a body leaves a completion time exactly on a task that is done. -/
theorem completion_throughout (crates : Crates) (calendars : List Uuid) (writes : List TaskWrite) :
    Throughout (TaskStore.step crates) (fun s => ∀ t ∈ s.tasks, t.Completion crates)
      (.empty calendars) writes ∧
    EachStep (TaskStore.step crates)
      (fun s w => ∀ t ∈ (s.step crates w).tasks, t ∈ s.tasks ∨ w.Stamps crates t)
      (.empty calendars) writes := by
  have start : ∀ t ∈ (TaskStore.empty calendars).tasks, t.Completion crates := by
    simp [TaskStore.empty]
  generalize TaskStore.empty calendars = s at start
  induction writes generalizing s with
  | nil => exact ⟨start, trivial⟩
  | cons w rest ih =>
    obtain ⟨holds, each⟩ := ih (s.step crates w) (step_completion start)
    refine ⟨⟨start, holds⟩, fun t member => ?_, each⟩
    rcases step_origin t member with old | ⟨puts, -⟩ | ⟨_, -, -, puts⟩
    · exact .inl old
    · exact .inr (puts_stamps puts)
    · exact .inr (puts_stamps puts)

/-! ### A task at 100 percent that is not completed -/

/-- Noon of the first of June 2026. -/
def noon : OffsetDateTime :=
  .assumeUtc ⟨2026, .june, 1, Time.year_2026, Time.june_first⟩ 43200000000000 (by decide)

def noonAmbient : Ambient := ⟨7, "7".toList, noon, toTimestamp noon⟩

/-- `POST` of a task at 100 percent that still needs action. -/
def allDoneButNamed : List TaskWrite :=
  [.create 1 2 { summary := "s".toList, percentComplete := some 100 } noonAmbient]

theorem completion_not_by_status :
    ¬ Throughout (TaskStore.step sampleCrates)
      (fun s => ∀ t ∈ s.tasks, (t.completedAt.isSome = true ↔ t.status = .completed))
      (.empty [2]) allDoneButNamed := by
  intro holds
  have last := holds.2
  have stamped : ∃ t ∈ (allDoneButNamed.foldl (TaskStore.step sampleCrates) (.empty [2])).tasks,
      t.completedAt.isSome = true ∧ t.status = .needsAction := by
    decide
  obtain ⟨t, member, set, status⟩ := stamped
  have completed := (last t member).mp set
  rw [status] at completed
  cases completed

end Expresso.CalDav
