import Expresso.CalDav.Itip
import Expresso.CalDav.Rows
import Expresso.Transition.Runs
import Mathlib.Data.List.Destutter
import Mathlib.Data.List.Sort

/-! The tables that index the bodies of the events: attachments, categories and booked
resources, with a row for each entry. They refer to the event and go with it. -/

namespace Expresso.CalDav
open Text Transition

/-- A row of an index table, apart from its own id and time. -/
structure IndexRow (α : Type) where
  tenantId : Uuid
  calendarId : Uuid
  eventId : Uuid
  value : α
  deriving DecidableEq

/-- `calendar_event_attachments`, `calendar_event_categories`, `calendar_event_resources`.
The first two have a position. -/
structure IndexTables where
  attachments : List (IndexRow (ParsedAttachment × Int))
  categories : List (IndexRow (Str × Int))
  resources : List (IndexRow Str)
  deriving DecidableEq

def IndexTables.owners (t : IndexTables) : List Uuid :=
  t.attachments.map (·.eventId) ++ t.categories.map (·.eventId) ++ t.resources.map (·.eventId)

/-- The store with its index tables, each row with its event. -/
structure Indexed extends Store, IndexTables where
  references : ∀ id ∈ toIndexTables.owners, id ∈ events.map (·.id)

def Indexed.empty : Indexed := ⟨Store.empty, ⟨[], [], []⟩, by simp [IndexTables.owners]⟩

def Indexed.commit (s : Store) (t : IndexTables) : Result Indexed :=
  if references : ∀ id ∈ t.owners, id ∈ s.events.map (·.id) then .ok ⟨s, t, references⟩
  else .error .database

/-! ### Synchronisation -/

/-- `i as i32` of each place in the list. -/
def positioned {α : Type} (values : List α) : List (α × Int) :=
  values.zipIdx.map fun (a, i) => (a, Int.bmod i (2 ^ 32))

section
variable {α : Type} (tenant calendar event : Uuid)

/-- `DELETE … WHERE tenant_id = $1 AND event_id = $2`, then an `INSERT` for each value. -/
def syncRows (values : List α) (rows : List (IndexRow α)) : List (IndexRow α) :=
  rows.filter (fun r => !(r.tenantId = tenant && r.eventId = event)) ++
    values.map fun value => ⟨tenant, calendar, event, value⟩

def syncAttachments (attachments : List ParsedAttachment) (t : IndexTables) : IndexTables :=
  { t with attachments := syncRows tenant calendar event (positioned attachments) t.attachments }

def syncCategories (categories : List Str) (t : IndexTables) : IndexTables :=
  { t with categories := syncRows tenant calendar event (positioned categories) t.categories }

def isResource (a : Itip.Attendee) : Bool :=
  a.cutype = some "ROOM".toList || a.cutype = some "RESOURCE".toList

/-- The order of texts is that of their characters' code points. -/
def bookedResourceEmails (raw : Str) : List Str :=
  ((((Itip.parseAttendees raw).filter isResource).map fun a =>
    toAsciiLowercase a.email).insertionSort fun a b => a ≤ b).destutter (· ≠ ·)

def syncResources (raw : Str) (t : IndexTables) : IndexTables :=
  { t with
    resources := syncRows tenant calendar event (bookedResourceEmails raw) t.resources }

end

/-- `ON DELETE CASCADE`. -/
def cascadeRows {α : Type} (s : Store) (rows : List (IndexRow α)) : List (IndexRow α) :=
  rows.filter fun r => r.eventId ∈ s.events.map (·.id)

def IndexTables.cascade (s : Store) (t : IndexTables) : IndexTables :=
  ⟨cascadeRows s t.attachments, cascadeRows s t.categories, cascadeRows s t.resources⟩

namespace Indexed

section
variable (crates : Crates)

/-- What follows the statement on `calendar_events` in `create` and `replace_by_uid`. -/
def synced (tenant : Uuid) (raw : Str) (parsed : ParsedEvent) (row : Event) (t : IndexTables) :
    IndexTables :=
  syncResources tenant row.calendarId row.id raw
    (syncCategories tenant row.calendarId row.id parsed.categories
      (syncAttachments tenant row.calendarId row.id parsed.attachments t))

def create (tenant calendar : Uuid) (raw : Str) (id : Uuid) (now : Timestamp) (x : Indexed) :
    Result (Indexed × Event) := do
  let parsed ← parseVevent crates raw
  let (s, row) ← CalDav.create crates tenant calendar raw id now x.toStore
  let x' ← commit s (synced tenant raw parsed row x.toIndexTables)
  .ok (x', row)

def update (tenant id : Uuid) (raw : Str) (now : Timestamp) (x : Indexed) :
    Result (Indexed × Event) := do
  let parsed ← parseVevent crates raw
  let (s, row) ← CalDav.update crates tenant id raw now x.toStore
  let x' ← commit s
    (syncCategories tenant row.calendarId row.id parsed.categories
      (syncAttachments tenant row.calendarId row.id parsed.attachments x.toIndexTables))
  .ok (x', row)

def replaceByUid (tenant calendar : Uuid) (raw : Str) (id : Uuid) (now : Timestamp)
    (x : Indexed) : Result (Indexed × Event) := do
  let parsed ← parseVevent crates raw
  let (s, row) ← CalDav.replaceByUid crates tenant calendar raw id now x.toStore
  let x' ← commit s (synced tenant raw parsed row x.toIndexTables)
  .ok (x', row)

/-- The other commands write no index row, and the database removes those of deleted events. -/
def exec (now : Timestamp) (x : Indexed) : Command → Result Indexed
  | .event (.create tenant calendar raw id) =>
      (x.create crates tenant calendar raw id now).map (·.1)
  | .event (.update tenant id raw) => (x.update crates tenant id raw now).map (·.1)
  | .event (.replaceByUid tenant calendar raw id) =>
      (x.replaceByUid crates tenant calendar raw id now).map (·.1)
  | command => do
      let s ← command.exec crates now x.toStore
      commit s (x.toIndexTables.cascade s)

/-- A command at its time; one that fails changes nothing. -/
def run (x : Indexed) (step : Timestamp × Command) : Indexed :=
  match x.exec crates step.1 step.2 with
  | .ok x' => x'
  | .error _ => x

end

end Indexed

/-! ### Indexes that match the bodies -/

/-- The tenant and the value of each row of an event, in order. -/
def rowsOf {α : Type} (event : Uuid) (rows : List (IndexRow α)) : List (Uuid × α) :=
  (rows.filter (·.eventId = event)).map fun r => (r.tenantId, r.value)

/-- The index rows of an event are what its body parses to. -/
structure Mirrored (crates : Crates) (t : IndexTables) (e : Event) : Prop where
  resources : rowsOf e.id t.resources = (bookedResourceEmails e.icalRaw).map (e.tenantId, ·)
  body : ∃ parsed, parseVevent crates e.icalRaw = .ok parsed ∧
    rowsOf e.id t.categories = (positioned parsed.categories).map (e.tenantId, ·) ∧
    rowsOf e.id t.attachments = (positioned parsed.attachments).map (e.tenantId, ·)

def Indexed.Mirrors (crates : Crates) (x : Indexed) : Prop :=
  ∀ e ∈ x.events, Mirrored crates x.toIndexTables e

/-- An update that is carried out leaves the event the bookings it had. -/
def Indexed.KeepsBookings (crates : Crates) (x : Indexed) (step : Timestamp × Command) : Prop :=
  ∀ tenant id raw, step.2 = .event (.update tenant id raw) →
    (∃ x', x.exec crates step.1 step.2 = .ok x') →
      ∀ e ∈ x.events, e.isRow tenant id →
        bookedResourceEmails raw = bookedResourceEmails e.icalRaw

section
variable {α : Type} {tenant calendar event id : Uuid} {values : List α}
  {rows : List (IndexRow α)}

theorem rowsOf_append (first second : List (IndexRow α)) :
    rowsOf id (first ++ second) = rowsOf id first ++ rowsOf id second := by
  simp [rowsOf]

theorem rowsOf_syncRows_self (owned : ∀ r ∈ rows, r.eventId = event → r.tenantId = tenant) :
    rowsOf event (syncRows tenant calendar event values rows) = values.map (tenant, ·) := by
  have cleared : rowsOf event
      (rows.filter fun r => !(r.tenantId = tenant && r.eventId = event)) = [] := by
    simp only [rowsOf, List.filter_filter, List.map_eq_nil_iff, List.filter_eq_nil_iff]
    intro r listed
    have := owned r listed
    simp
    tauto
  have written : rowsOf event (values.map fun value => (⟨tenant, calendar, event, value⟩ :
      IndexRow α)) = values.map (tenant, ·) := by
    simp [rowsOf, List.filter_map, Function.comp_def]
  rw [syncRows, rowsOf_append, cleared, written, List.nil_append]

theorem rowsOf_syncRows_other (apart : id ≠ event) :
    rowsOf id (syncRows tenant calendar event values rows) = rowsOf id rows := by
  have kept : rowsOf id (rows.filter fun r => !(r.tenantId = tenant && r.eventId = event)) =
      rowsOf id rows := by
    simp only [rowsOf, List.filter_filter]
    congr 1
    apply List.filter_congr
    intro r _
    by_cases here : r.eventId = id
    · simp [here, apart]
    · simp [here]
  have written : rowsOf id (values.map fun value => (⟨tenant, calendar, event, value⟩ :
      IndexRow α)) = [] := by
    simp [rowsOf, List.filter_map, Function.comp_def, apart.symm]
  rw [syncRows, rowsOf_append, kept, written, List.append_nil]

theorem rowsOf_cascadeRows {s : Store} (stays : id ∈ s.events.map (·.id)) :
    rowsOf id (cascadeRows s rows) = rowsOf id rows := by
  simp only [rowsOf, cascadeRows, List.filter_filter]
  congr 1
  apply List.filter_congr
  intro r _
  by_cases here : r.eventId = id
  · simpa [here] using stays
  · simp [here]

/-- Rows of an event that match its body are in its tenant. -/
theorem tenant_of_rowsOf (same : rowsOf event rows = values.map (tenant, ·))
    {r : IndexRow α} (listed : r ∈ rows) (here : r.eventId = event) : r.tenantId = tenant := by
  have member : (r.tenantId, r.value) ∈ rowsOf event rows :=
    List.mem_map.mpr ⟨r, List.mem_filter.mpr ⟨listed, by simpa using here⟩, rfl⟩
  rw [same] at member
  obtain ⟨value, -, pair⟩ := List.mem_map.mp member
  exact (congrArg Prod.fst pair).symm

end

/-! ### One step -/

/-- The tables have the same rows for an event. -/
structure SameRows (id : Uuid) (t t' : IndexTables) : Prop where
  attachments : rowsOf id t'.attachments = rowsOf id t.attachments
  categories : rowsOf id t'.categories = rowsOf id t.categories
  resources : rowsOf id t'.resources = rowsOf id t.resources

section
variable {crates : Crates} {t t' : IndexTables} {e e' : Event}

theorem Mirrored.transfer (mirrored : Mirrored crates t e) (rows : SameRows e.id t t')
    (sameId : e'.id = e.id) (sameTenant : e'.tenantId = e.tenantId)
    (sameBody : e'.icalRaw = e.icalRaw) : Mirrored crates t' e' := by
  obtain ⟨resources, parsed, accepted, categories, attachments⟩ := mirrored
  refine ⟨?_, parsed, ?_, ?_, ?_⟩
  · rw [sameId, sameTenant, sameBody, rows.resources, resources]
  · rw [sameBody, accepted]
  · rw [sameId, sameTenant, rows.categories, categories]
  · rw [sameId, sameTenant, rows.attachments, attachments]

theorem SameRows.cascade {s : Store} {id : Uuid} (stays : id ∈ s.events.map (·.id)) :
    SameRows id t (t.cascade s) :=
  ⟨rowsOf_cascadeRows stays, rowsOf_cascadeRows stays, rowsOf_cascadeRows stays⟩

end

/-- The body a command writes. -/
def EventCommand.body : EventCommand → Option Str
  | create _ _ raw _ => some raw
  | update _ _ raw => some raw
  | replaceByUid _ _ raw _ => some raw
  | _ => none

def Command.body : Command → Option Str
  | event command => command.body
  | _ => none

theorem Command.exec_bodies {crates : Crates} {now : Timestamp} {s s' : Store}
    {command : Command} (unwritten : command.body = none)
    (done : command.exec crates now s = .ok s') {e' : Event} (listed : e' ∈ s'.events) :
    ∃ e ∈ s.events, e'.id = e.id ∧ e'.tenantId = e.tenantId ∧ e'.icalRaw = e.icalRaw := by
  rcases Command.exec_events done with ⟨events, rfl, ran⟩ | same
  · cases EventCommand.exec_row ran listed with
    | kept present same =>
      exact ⟨_, present, Event.revision_id same, Event.revision_tenant same,
        Event.revision_body same⟩
    | patched present row same =>
      exact ⟨_, present, (Event.revision_id same :), (Event.revision_tenant same :),
        (Event.revision_body same :)⟩
    | created => cases unwritten
    | updated => cases unwritten
    | inserted => cases unwritten
    | replaced => cases unwritten
  · rw [same] at listed
    exact ⟨e', listed, rfl, rfl, rfl⟩

namespace Indexed

section
variable {crates : Crates} {now : Timestamp} {x x' : Indexed} {s : Store} {t : IndexTables}
  {tenant : Uuid} {raw : Str} {parsed : ParsedEvent} {row : Event}

theorem commit_ok (committed : commit s t = .ok x') : x'.toStore = s ∧ x'.toIndexTables = t := by
  simp only [commit] at committed
  split at committed
  · cases committed
    exact ⟨rfl, rfl⟩
  · cases committed

/-- Before a row is written, the index rows under its id are in its tenant. -/
theorem Mirrors.tenants (mirrors : x.Mirrors crates)
    (rewrites : Rewrites tenant raw row x.toStore s) :
    (∀ r ∈ x.attachments, r.eventId = row.id → r.tenantId = tenant) ∧
    (∀ r ∈ x.categories, r.eventId = row.id → r.tenantId = tenant) ∧
    ∀ r ∈ x.resources, r.eventId = row.id → r.tenantId = tenant := by
  have event : ∀ id ∈ x.toIndexTables.owners, id = row.id →
      ∃ e ∈ x.events, e.id = row.id ∧ e.tenantId = tenant := by
    intro id owner same
    obtain ⟨e, listed, isId⟩ := List.mem_map.mp (x.references id owner)
    exact ⟨e, listed, isId.trans same, rewrites.before e listed (isId.trans same)⟩
  refine ⟨?_, ?_, ?_⟩
  · intro r listed here
    obtain ⟨e, present, isId, mine⟩ := event r.eventId
      (by simp only [IndexTables.owners, List.mem_append]
          exact .inl (.inl (List.mem_map_of_mem listed))) here
    obtain ⟨parsed, -, -, attachments⟩ := (mirrors e present).body
    rw [← mine, tenant_of_rowsOf attachments listed (here.trans isId.symm)]
  · intro r listed here
    obtain ⟨e, present, isId, mine⟩ := event r.eventId
      (by simp only [IndexTables.owners, List.mem_append]
          exact .inl (.inr (List.mem_map_of_mem listed))) here
    obtain ⟨parsed, -, categories, -⟩ := (mirrors e present).body
    rw [← mine, tenant_of_rowsOf categories listed (here.trans isId.symm)]
  · intro r listed here
    obtain ⟨e, present, isId, mine⟩ := event r.eventId
      (by simp only [IndexTables.owners, List.mem_append]
          exact .inr (List.mem_map_of_mem listed)) here
    rw [← mine, tenant_of_rowsOf (mirrors e present).resources listed (here.trans isId.symm)]

/-- All three tables synchronised after a body was written. -/
theorem Mirrors.synced (mirrors : x.Mirrors crates)
    (rewrites : Rewrites tenant raw row x.toStore s)
    (accepted : parseVevent crates raw = .ok parsed)
    (committed : commit s (synced tenant raw parsed row x.toIndexTables) = .ok x') :
    x'.Mirrors crates := by
  obtain ⟨store, tables⟩ := commit_ok committed
  obtain ⟨attachments, categories, resources⟩ := mirrors.tenants rewrites
  intro e' listed
  rw [store] at listed
  rw [tables]
  by_cases written : e' = row
  · subst written
    refine ⟨?_, parsed, by rw [rewrites.body, accepted], ?_, ?_⟩
    · rw [rewrites.body, rewrites.mine]
      exact rowsOf_syncRows_self resources
    · rw [rewrites.mine]
      exact rowsOf_syncRows_self categories
    · rw [rewrites.mine]
      exact rowsOf_syncRows_self attachments
  · have apart : e'.id ≠ row.id := fun same =>
      written (s.eq_of_id listed rewrites.member same)
    have old := (rewrites.others e' listed).resolve_left written
    exact (mirrors e' old).transfer ⟨rowsOf_syncRows_other apart, rowsOf_syncRows_other apart,
      rowsOf_syncRows_other apart⟩ rfl rfl rfl

theorem create_mirrors {calendar id : Uuid} (mirrors : x.Mirrors crates)
    (done : x.create crates tenant calendar raw id now = .ok (x', row)) : x'.Mirrors crates := by
  simp only [create, bind_eq_ok_iff, Prod.exists, Except.ok.injEq, Prod.mk.injEq] at done
  obtain ⟨parsed, accepted, s, row', created, x'', committed, rfl, rfl⟩ := done
  exact mirrors.synced (create_row created) accepted committed

theorem replaceByUid_mirrors {calendar id : Uuid} (mirrors : x.Mirrors crates)
    (done : x.replaceByUid crates tenant calendar raw id now = .ok (x', row)) :
    x'.Mirrors crates := by
  simp only [replaceByUid, bind_eq_ok_iff, Prod.exists, Except.ok.injEq, Prod.mk.injEq] at done
  obtain ⟨parsed, accepted, s, row', replaced, x'', committed, rfl, rfl⟩ := done
  exact mirrors.synced (replaceByUid_row replaced) accepted committed

/-- The booked resources are left as they were. -/
theorem update_mirrors_iff {id : Uuid} (mirrors : x.Mirrors crates)
    (done : x.update crates tenant id raw now = .ok (x', row)) :
    x'.Mirrors crates ↔ ∀ e ∈ x.events, e.isRow tenant id →
      bookedResourceEmails raw = bookedResourceEmails e.icalRaw := by
  simp only [update, bind_eq_ok_iff, Prod.exists, Except.ok.injEq, Prod.mk.injEq] at done
  obtain ⟨parsed, accepted, s, row', updated, x'', committed, rfl, rfl⟩ := done
  obtain ⟨rewrites, old, present, isRow, sameId⟩ := update_row updated
  obtain ⟨store, tables⟩ := commit_ok committed
  have resources : rowsOf row'.id x''.resources =
      (bookedResourceEmails old.icalRaw).map (tenant, ·) := by
    rw [tables, ← sameId, ← Event.tenant_of_isRow isRow]
    exact (mirrors old present).resources
  constructor
  · intro after e listed same
    have one : e = old := by
      simp only [Event.isRow, Bool.and_eq_true, decide_eq_true_eq] at same isRow
      exact x.eq_of_id listed present (same.2.trans isRow.2.symm)
    have written := (after row' (store ▸ rewrites.member)).resources
    rw [resources, rewrites.body, rewrites.mine] at written
    rw [one]
    exact ((List.map_injective_iff.mpr (Prod.mk_right_injective tenant)) written).symm
  · intro keeps e' listed
    rw [store] at listed
    by_cases written : e' = row'
    · subst written
      obtain ⟨attachments, categories, -⟩ := mirrors.tenants rewrites
      refine ⟨?_, parsed, by rw [rewrites.body, accepted], ?_, ?_⟩
      · rw [resources, rewrites.body, rewrites.mine, keeps old present isRow]
      · rw [tables, rewrites.mine]
        exact rowsOf_syncRows_self categories
      · rw [tables, rewrites.mine]
        exact rowsOf_syncRows_self attachments
    · have apart : e'.id ≠ row'.id := fun same =>
        written (s.eq_of_id listed rewrites.member same)
      have before := (rewrites.others e' listed).resolve_left written
      rw [tables]
      exact (mirrors e' before).transfer
        ⟨rowsOf_syncRows_other apart, rowsOf_syncRows_other apart, rfl⟩ rfl rfl rfl

/-- Commands that write no body. -/
theorem cascade_mirrors (mirrors : x.Mirrors crates)
    (kept : ∀ {e'}, e' ∈ s.events → ∃ e ∈ x.events,
      e'.id = e.id ∧ e'.tenantId = e.tenantId ∧ e'.icalRaw = e.icalRaw)
    (committed : commit s (x.toIndexTables.cascade s) = .ok x') : x'.Mirrors crates := by
  obtain ⟨store, tables⟩ := commit_ok committed
  intro e' listed
  rw [store] at listed
  obtain ⟨e, present, sameId, sameTenant, sameBody⟩ := kept listed
  rw [tables]
  have stays : e.id ∈ s.events.map (·.id) := sameId ▸ List.mem_map_of_mem listed
  exact (mirrors e present).transfer (.cascade stays) sameId sameTenant sameBody

theorem exec_unwritten {command : Command} (unwritten : command.body = none) :
    x.exec crates now command =
      command.exec crates now x.toStore >>= fun s => commit s (x.toIndexTables.cascade s) := by
  cases command with
  | event command => cases command <;> first | rfl | cases unwritten
  | _ => rfl

/-- What a step that is carried out does to the indexes. -/
theorem exec_mirrors_iff {command : Command} (mirrors : x.Mirrors crates)
    (done : x.exec crates now command = .ok x') :
    x'.Mirrors crates ↔ ∀ tenant id raw, command = .event (.update tenant id raw) →
      ∀ e ∈ x.events, e.isRow tenant id →
        bookedResourceEmails raw = bookedResourceEmails e.icalRaw := by
  by_cases unwritten : command.body = none
  · rw [exec_unwritten unwritten] at done
    obtain ⟨s, ran, committed⟩ := bind_eq_ok_iff.mp done
    constructor
    · rintro - tenant id raw rfl
      cases unwritten
    · intro _
      exact cascade_mirrors mirrors (Command.exec_bodies unwritten ran) committed
  · cases command with
    | event command =>
      cases command with
      | create tenant calendar raw id =>
        obtain ⟨⟨_, row⟩, created, rfl⟩ := map_eq_ok_iff.mp done
        exact ⟨fun _ _ _ _ other => (by cases other), fun _ => create_mirrors mirrors created⟩
      | replaceByUid tenant calendar raw id =>
        obtain ⟨⟨_, row⟩, replaced, rfl⟩ := map_eq_ok_iff.mp done
        exact ⟨fun _ _ _ _ other => (by cases other),
          fun _ => replaceByUid_mirrors mirrors replaced⟩
      | update tenant id raw =>
        obtain ⟨⟨_, row⟩, updated, rfl⟩ := map_eq_ok_iff.mp done
        rw [update_mirrors_iff mirrors updated]
        constructor
        · rintro keeps _ _ _ ⟨⟩
          exact keeps
        · intro keeps
          exact keeps tenant id raw rfl
      | _ => exact absurd rfl unwritten
    | _ => exact absurd rfl unwritten

theorem run_mirrors_iff (mirrors : x.Mirrors crates) (step : Timestamp × Command) :
    x.KeepsBookings crates step ↔ (x.run crates step).Mirrors crates := by
  cases done : x.exec crates step.1 step.2 with
  | error reason =>
    have stays : x.run crates step = x := by simp only [run, done]
    rw [stays]
    refine ⟨fun _ => mirrors, fun _ tenant id raw _ carriedOut => ?_⟩
    obtain ⟨x', ok⟩ := carriedOut
    rw [done] at ok
    cases ok
  | ok x' =>
    have goes : x.run crates step = x' := by simp only [run, done]
    rw [goes, exec_mirrors_iff mirrors done]
    constructor
    · intro keeps tenant id raw isUpdate
      exact keeps tenant id raw isUpdate ⟨x', done⟩
    · intro keeps tenant id raw isUpdate _
      exact keeps tenant id raw isUpdate

end

/-! ### Whole runs -/

/-- The index tables match the bodies all along a run exactly when each of its updates leaves
the booked resources of its event as they are: `update` alone does not synchronise them. -/
theorem indexes_match_iff (crates : Crates) (steps : List (Timestamp × Command)) :
    EachStep (run crates) (KeepsBookings crates) empty steps ↔
      Throughout (run crates) (Mirrors crates) empty steps :=
  eachStep_iff_throughout (fun _ step mirrors => run_mirrors_iff mirrors step)
    (fun _ listed => by cases listed) steps

/-- An event that books a room, and its body without the room. -/
def roomReleased : List (Timestamp × Command) :=
  [(0, .createCalendar 10 1 7 ⟨"work".toList, none, none, none, false⟩),
    (1, .event (.create 1 10 ("BEGIN:VEVENT\nUID:a\n".toList ++
      "ATTENDEE;CUTYPE=ROOM:mailto:room@x.org\nEND:VEVENT\n".toList) 20)),
    (2, .event (.update 1 20 "BEGIN:VEVENT\nUID:a\nEND:VEVENT\n".toList))]

theorem indexes_stale :
    ¬ Throughout (run sampleCrates) (Mirrors sampleCrates) empty roomReleased := by
  intro holds
  have mirrors := throughout_iff.mp holds roomReleased [] (List.append_nil _).symm
  have booked : ∃ e ∈ (roomReleased.foldl (run sampleCrates) empty).events,
      rowsOf e.id (roomReleased.foldl (run sampleCrates) empty).resources ≠
        (bookedResourceEmails e.icalRaw).map (e.tenantId, ·) := by
    decide +kernel
  obtain ⟨e, listed, differs⟩ := booked
  exact differs (mirrors e listed).resources

end Indexed

end Expresso.CalDav
