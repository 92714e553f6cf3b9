import Expresso.CalDav.MoveCopy
import Expresso.CalDav.Scheduling
import Expresso.CalDav.Tasks
import Expresso.Transition.Traced

/-! The CalDAV handlers of objects, reports and the COPY and MOVE verbs, as programs over the
tables that write down which calendars' events their statements select or change. -/

namespace Expresso.CalDav.Dav
open Text Time Transition Traced

/-! ### The tables -/

structure State where
  desk : Desk
  tasks : TaskStore

/-- The rows that refer to a deleted row go with it. -/
def deskWith (d : Desk) (s : Store) : Desk where
  toStore := s
  acl := d.acl.filter fun a => a.calendarId ∈ s.calendars.map (·.id)
  proposals := d.proposals.filter fun p => p.eventId ∈ s.events.map (·.id)
  valid := by
    obtain ⟨keys, -, ids, -, texts⟩ := d.valid
    refine ⟨keys.sublist (List.filter_sublist.map _), ?_, ids.sublist (List.filter_sublist.map _),
      ?_, fun p member => texts p (List.mem_filter.mp member).1⟩
    · intro a member
      simpa using (List.mem_filter.mp member).2
    · intro p member
      simpa using (List.mem_filter.mp member).2

def tasksWith (t : TaskStore) (calendars : List Uuid) : TaskStore where
  calendars := calendars
  tasks := t.tasks.filter fun task => task.calendarId ∈ calendars
  constraints := by
    obtain ⟨ids, keys, -, valid⟩ := t.constraints
    refine ⟨ids.sublist (List.filter_sublist.map _), keys.sublist (List.filter_sublist.map _),
      fun task member => ?_, fun task member => valid task (List.mem_filter.mp member).1⟩
    simpa using (List.mem_filter.mp member).2

def State.withStore (d : State) (s : Store) : State :=
  ⟨deskWith d.desk s, tasksWith d.tasks (s.calendars.map (·.id))⟩

/-! ### Statements -/

/-- What a statement does with the events of a calendar. -/
inductive Access where
  | selects (calendar : Uuid)
  | changes (calendar : Uuid)
  deriving DecidableEq

abbrev Program := Traced State TaskError Access

section
variable {α : Type}

def eventQuery (does : List Access) (method : Store → Result α) : Program α :=
  query does fun d => (method d.desk.toStore).mapError .calendar

def eventWrite (does : List Access) (method : Store → Result (Store × α)) : Program α :=
  statement does fun d =>
    ((method d.desk.toStore).mapError .calendar).map fun r => (d.withStore r.1, r.2)

def taskQuery (method : TaskStore → TaskResult α) : Program α := query [] fun d => method d.tasks

def taskWrite (method : TaskStore → TaskResult (TaskStore × α)) : Program α :=
  statement [] fun d => (method d.tasks).map fun r => ({ d with tasks := r.1 }, r.2)

/-- A call to the database that may not get through. -/
def call (env : Env) (i : Nat) (x : Program α) : Program α :=
  if env.up i then x else value (.error .database)

end

section
variable (crates : Crates) (principal : Principal)

def getByUid (calendar : Uuid) (uid : Str) : Program Event :=
  eventQuery [.selects calendar] (CalDav.getByUid principal.tenantId calendar uid)

def list (calendar : Uuid) (q : EventQuery) : Program (List Event) :=
  eventQuery [.selects calendar] fun s => .ok (CalDav.list principal.tenantId calendar q s)

def listByUids (calendar : Uuid) (uids : List Str) : Program (List Event) :=
  if uids.isEmpty then pure []
  else eventQuery [.selects calendar] fun s =>
    .ok (s.events.filter fun e => e.isIn principal.tenantId calendar && uids.contains e.uid)

def replaceByUid (calendar : Uuid) (raw : Str) (id : Uuid) (now : Timestamp) : Program Event :=
  eventWrite [.changes calendar]
    (CalDav.replaceByUid crates principal.tenantId calendar raw id now)

def deleteByUid (calendar : Uuid) (uid : Str) (now : Timestamp) : Program Unit :=
  eventWrite [.changes calendar] fun s =>
    (CalDav.deleteByUid principal.tenantId calendar uid now s).map (·, ())

/-- Its events go with the calendar. -/
def deleteCalendar (calendar : Uuid) (now : Timestamp) : Program Unit :=
  eventWrite [.changes calendar] fun s =>
    (CalendarRepo.delete principal.tenantId calendar now s).map (·, ())

/-! ### Objects -/

/-- The properties that a report asks for. -/
structure PropRequest where
  getetag : Bool
  getcontenttype : Bool
  calendarData : Bool
  deriving DecidableEq

/-- A `response` element of a report. -/
structure Object where
  href : Href
  etag : Option Str
  component : Option Str
  data : Option Str
  deriving DecidableEq

/-- A `VFREEBUSY` with the stamps of its window and of the busy periods. -/
structure FreeBusy where
  dtstart : Str
  dtend : Str
  periods : List (Str × Str)
  deriving DecidableEq

inductive Response where
  | status (status : Status)
  | ical (etag body : Str)
  | createdWithEtag (etag : Str)
  | multistatus (objects : List Object)
  | sync (response : SyncResponse)
  | freeBusy (report : FreeBusy)
  deriving DecidableEq

def classifyObject (path : Str) : Except Response (Uuid × Str) :=
  match classify crates path with
  | .event userId calendarId uid =>
      if userId = principal.userId then .ok (calendarId, uid) else .error (.status .forbidden)
  | _ => .error (.status .notFound)

def get (path : Str) : Program Response :=
  match classifyObject crates principal path with
  | .error response => pure response
  | .ok (calendar, uid) => do
      match ← Traced.attempt (getByUid principal calendar uid) with
      | .ok ev => pure (.ical ev.etag ev.icalRaw)
      | .error _ =>
          match ← Traced.attempt (taskQuery (TaskRepo.getByUid principal.tenantId calendar uid)) with
          | .ok task => pure (.ical (task.caldavEtag crates) task.toIcal)
          | .error _ => pure (.status .notFound)

def isVtodo (body : Str) : Bool := CalDav.contains "BEGIN:VTODO".toList (toAsciiUppercase body)

def put (path body : Str) (ambient : Ambient) : Program Response :=
  match classifyObject crates principal path with
  | .error response => pure response
  | .ok (calendar, _) =>
      if isVtodo body then do
        let task ← taskWrite
          (TaskRepo.replaceByUid crates principal.tenantId calendar body ambient)
        pure (.createdWithEtag (task.caldavEtag crates))
      else do
        let ev ← replaceByUid crates principal calendar body ambient.id ambient.now
        pure (.createdWithEtag ev.etag)

def delete (path : Str) (now : Timestamp) : Program Response :=
  match classifyObject crates principal path with
  | .error response => pure response
  | .ok (calendar, uid) => do
      match ← Traced.attempt (getByUid principal calendar uid) with
      | .ok _ => do
          deleteByUid principal calendar uid now
          pure (.status .noContent)
      | .error _ =>
          let deleted ← Traced.attempt (taskWrite fun s =>
            (TaskRepo.deleteByUid principal.tenantId calendar uid s).map (·, ()))
          match deleted with
          | .ok () => pure (.status .noContent)
          | .error (.uidNotFound _) => pure (.status .notFound)
          | .error e => value (.error e)

/-! ### Reports -/

inductive ReportKind where
  | freeBusyQuery | syncCollection | calendarMultiget | calendarQuery
  deriving DecidableEq

/-- What the XML reader finds in the body of a report. -/
structure ReportBody where
  kind : Option ReportKind
  props : PropRequest
  hrefs : List Str
  timeRange : Option (Str × Str)
  compFilter : Option Str
  syncToken : Option Str

def eventObject (req : PropRequest) (calendar : Uuid) (ev : Event) : Object :=
  { href := ⟨principal.userId, calendar, ev.uid⟩
    etag := if req.getetag then some ev.etag else none
    component := if req.getcontenttype then some "VEVENT".toList else none
    data := if req.calendarData then some ev.icalRaw else none }

def taskObject (req : PropRequest) (calendar : Uuid) (task : Task) : Object :=
  { href := ⟨principal.userId, calendar, task.uid⟩
    etag := if req.getetag then some (task.caldavEtag crates) else none
    component := if req.getcontenttype then some "VTODO".toList else none
    data := if req.calendarData then some task.toIcal else none }

def objects (req : PropRequest) (calendar : Uuid) (events : List Event) (tasks : List Task) :
    Response :=
  .multistatus (events.map (eventObject principal req calendar) ++
    tasks.map (taskObject crates principal req calendar))

def maxMultigetUids : Nat := 2000

def maxQueryEvents : Int := 5000

/-- The UIDs of the references below the calendar, sorted, without repetitions, capped. -/
def multigetUids (showUuid : Uuid → Str) (calendar : Uuid) (hrefs : List Str) : List Str :=
  let base := "/caldav/".toList ++ showUuid principal.userId ++ '/' :: showUuid calendar ++ ['/']
  let uids := hrefs.filterMap fun h =>
    ((stripPrefix base h).bind (stripSuffix ".ics".toList)).map percentDecode
  ((uids.insertionSort (· ≤ ·)).destutter (· ≠ ·)).take maxMultigetUids

def multiget (showUuid : Uuid → Str) (calendar : Uuid) (body : ReportBody) : Program Response := do
  let uids := multigetUids principal showUuid calendar body.hrefs
  let events ← listByUids principal calendar uids
  let tasks ← taskQuery fun s => .ok (TaskRepo.listByUids principal.tenantId calendar uids s)
  pure (objects crates principal body.props calendar events tasks)

def parseCaldavDt (v : Str) : Option OffsetDateTime :=
  parseDateTime ((stripSuffix ['Z'] v).getD v)

/-- The rows of a component that the filter does not exclude. -/
def wanted {α : Type} (component : Str) (compFilter : Option Str) (rows : Program (List α)) :
    Program (List α) :=
  if compFilter.all (· = component) then rows else pure []

def queryRange (body : ReportBody) : Option (OffsetDateTime × OffsetDateTime) :=
  body.timeRange.bind fun range =>
    (parseCaldavDt range.1).bind fun start => (parseCaldavDt range.2).map fun stop => (start, stop)

def windowQuery (range : Option (OffsetDateTime × OffsetDateTime)) : EventQuery :=
  { fromAt := range.map fun r => toTimestamp r.1
    toAt := range.map fun r => toTimestamp r.2
    limit := some maxQueryEvents }

def calendarQuery (calendar : Uuid) (body : ReportBody) : Program Response := do
  let events ← wanted "VEVENT".toList body.compFilter
    (list principal calendar (windowQuery (queryRange body)))
  let tasks ← wanted "VTODO".toList body.compFilter
    (taskQuery fun s => .ok (TaskRepo.list principal.tenantId calendar s))
  pure (objects crates principal body.props calendar events tasks)

/-- The part of an event that lies in the window, unless the event does not block it. -/
def busyPeriod (start stop : OffsetDateTime) (ev : Event) : Result (Option (Str × Str)) := do
  let dtstart ← Desk.readTime ev.dtstart
  let dtend ← Desk.readTime ev.dtend
  .ok (if ev.status = some "CANCELLED".toList then none
    else if ev.transp = some "TRANSPARENT".toList then none
    else match dtstart, dtend with
      | some ds, some de =>
          let first := if ds.instant ≤ start.instant then start else ds
          let last := if de.instant ≤ stop.instant then de else stop
          if last.instant ≤ first.instant then none else some (Itip.fmtDt first, Itip.fmtDt last)
      | _, _ => none)

def freeBusy (calendar : Uuid) (body : ReportBody) : Program Response :=
  match body.timeRange with
  | none => pure (.status (.badRequest "missing time-range".toList))
  | some (startRaw, stopRaw) =>
      match parseCaldavDt startRaw, parseCaldavDt stopRaw with
      | some start, some stop => do
          let events ← list principal calendar (windowQuery (some (start, stop)))
          let periods ← value ((events.mapM (busyPeriod start stop)).mapError .calendar)
          pure (.freeBusy ⟨Itip.fmtDt start, Itip.fmtDt stop, periods.filterMap fun p => p⟩)
      | _, _ => pure (.status (.badRequest "invalid time-range".toList))

/-- `sync-collection`, one query after the other. -/
def sync (calendar : Uuid) (token : Option Str) : Program SyncResponse := do
  let currentCtag ← eventQuery [] (CalendarRepo.ctag principal.tenantId calendar)
  let newToken := formatToken currentCtag
  let clientCtag := token.bind parseTokenValue
  if clientCtag = some currentCtag then pure (.multistatus [] newToken)
  else match clientCtag with
    | some since =>
        if since < currentCtag then do
          let (members, last) ← eventQuery [.selects calendar] fun s =>
            .ok (writeChangedSince principal calendar since s)
          match last with
          | some last => pure (.multistatus members (formatToken last))
          | none => do
              let gone ← eventQuery [.selects calendar] fun s =>
                .ok (writeTombstonesSince principal calendar since s)
              pure (.multistatus (members ++ gone) newToken)
        else pure (.gone newToken)
    | none => do
        let events ← list principal calendar {}
        pure (.multistatus (events.map fun e => pushMember principal calendar e.uid e.etag)
          newToken)

def report (showUuid : Uuid → Str) (path : Str) (body : ReportBody) : Program Response :=
  match classify crates path with
  | .calendar userId calendar =>
      if userId = principal.userId then
        match body.kind with
        | some .freeBusyQuery => freeBusy principal calendar body
        | some .syncCollection => do
            let response ← sync principal calendar body.syncToken
            pure (.sync response)
        | some .calendarMultiget => multiget crates principal showUuid calendar body
        | some .calendarQuery => calendarQuery crates principal calendar body
        | none => pure (.status (.badRequest "unsupported REPORT variant".toList))
      else pure (.status .forbidden)
  | _ => pure (.status .notFound)

/-! ### COPY and MOVE -/

def processEvent (srcCal : Uuid) (srcUid : Str) (dstCal : Uuid) (dstUid : Str)
    (overwrite isMove : Bool) (env : Env) : Program Status := do
  let src ← call env 0 (getByUid principal srcCal srcUid)
  let dst ← Traced.attempt (call env 1 (getByUid principal dstCal dstUid))
  if dst.isOk && !overwrite then pure .preconditionFailed
  else do
    let _ ← call env 2 (replaceByUid crates principal dstCal src.icalRaw (env.id 2) (env.now 2))
    let status := if dst.isOk then .noContent else .created
    if isMove ∧ ¬(srcCal = dstCal ∧ src.uid = dstUid) then do
      call env 3 (deleteByUid principal srcCal src.uid (env.now 3))
      pure status
    else pure status

def copyEvents (dstCal : Uuid) (env : Env) : Nat → List Event → Program Unit
  | _, [] => pure ()
  | i, ev :: rest => do
      let _ ← call env i (replaceByUid crates principal dstCal ev.icalRaw (env.id i) (env.now i))
      copyEvents dstCal env (i + 1) rest

/-- The destination of a collection that is not there yet. -/
def createMissing (existed : Bool) (src : Calendar) (dstCal : Uuid) (env : Env) : Program Unit :=
  let new : NewCalendar :=
    { name := src.name, description := src.description, color := src.color
      timezone := some src.timezone, isDefault := false }
  if existed then pure ()
  else do
    let _ ← call env 2 (eventWrite [] (CalendarRepo.createWithId dstCal principal.tenantId
      principal.userId new (env.now 2)))
    pure ()

def copyCollection (srcCal dstCal : Uuid) (overwrite isMove : Bool) (env : Env) :
    Program Status := do
  let src ← call env 0 (eventQuery [] (CalendarRepo.get principal.tenantId srcCal))
  let dst ← Traced.attempt
    (call env 1 (eventQuery [] (CalendarRepo.get principal.tenantId dstCal)))
  if dst.isOk && !overwrite then pure .preconditionFailed
  else do
    createMissing principal dst.isOk src dstCal env
    let events ← call env 3 (list principal srcCal {})
    copyEvents crates principal dstCal env 4 events
    let status := if dst.isOk then .noContent else .created
    if isMove ∧ srcCal ≠ dstCal then do
      call env (4 + events.length) (deleteCalendar principal srcCal (env.now (4 + events.length)))
      pure status
    else pure status

def processCollection (srcCal : Uuid) (headers : Headers) (isMove : Bool) (env : Env) :
    Program Status :=
  match headers.destination with
  | none => pure (.badRequest "missing Destination header".toList)
  | some dest =>
      match classify crates (stripOrigin (trim dest)) with
      | .calendar userId dstCal =>
          if userId = principal.userId then
            copyCollection crates principal srcCal dstCal (allowOverwrite headers) isMove env
          else pure .forbidden
      | _ => pure (.badRequest "destination must resolve to a calendar collection".toList)

def process (path : Str) (headers : Headers) (isMove : Bool) (env : Env) : Program Status :=
  match classify crates path with
  | .calendar userId srcCal =>
      if userId = principal.userId then
        processCollection crates principal srcCal headers isMove env
      else pure .forbidden
  | .event userId srcCal srcUid =>
      if userId = principal.userId then
        match headers.destination with
        | none => pure (.badRequest "missing Destination header".toList)
        | some dest =>
            match classify crates (stripOrigin (trim dest)) with
            | .event userId dstCal dstUid =>
                if userId = principal.userId then
                  processEvent crates principal srcCal srcUid dstCal dstUid
                    (allowOverwrite headers) isMove env
                else pure .forbidden
            | _ => pure (.badRequest "destination must resolve to an event URI".toList)
      else pure .forbidden
  | _ => pure .notFound

end

/-! ### Requests -/

inductive Request where
  | get (path : Str)
  | head (path : Str)
  | put (path body : Str) (ambient : Ambient)
  | delete (path : Str) (now : Timestamp)
  | report (path : Str) (body : ReportBody)
  | copy (path : Str) (headers : Headers) (env : Env)
  | move (path : Str) (headers : Headers) (env : Env)

/-- The response to `HEAD` is that to `GET` without its body. -/
def Response.withoutBody : Response → Response
  | .ical etag _ => .ical etag []
  | response => response

def Request.run (crates : Crates) (showUuid : Uuid → Str) (principal : Principal) :
    Request → Program Response
  | .get path => Dav.get crates principal path
  | .head path => do
      let response ← Dav.get crates principal path
      pure response.withoutBody
  | .put path body ambient => Dav.put crates principal path body ambient
  | .delete path now => Dav.delete crates principal path now
  | .report path body => Dav.report crates principal showUuid path body
  | .copy path headers env => do
      let status ← process crates principal path headers false env
      pure (.status status)
  | .move path headers env => do
      let status ← process crates principal path headers true env
      pure (.status status)

/-! ### The programs and the functions on the store -/

section
variable {α β : Type}

/-- The program does to the events and calendars what the function does. -/
def Mirrors (x : Program α) (f : Store → Store × Result α) : Prop :=
  ∀ d, (x d).state.desk.toStore = (f d.desk.toStore).1 ∧
    (x d).result = (f d.desk.toStore).2.mapError .calendar

theorem mirrors_pure (a : α) : Mirrors (pure a) fun s => (s, .ok a) := fun _ => ⟨rfl, rfl⟩

theorem mirrors_call_query (env : Env) (i : Nat) (does : List Access) (method : Store → Result α) :
    Mirrors (call env i (eventQuery does method)) fun s => (s, env.call i (method s)) := by
  intro d
  unfold call Env.call
  cases env.up i with
  | false => exact ⟨rfl, rfl⟩
  | true => exact ⟨congrArg (·.desk.toStore) (query_state _ _ d), query_result _ _ d⟩

theorem mirrors_call_write (env : Env) (i : Nat) (does : List Access)
    (method : Store → Result (Store × α)) :
    Mirrors (call env i (eventWrite does method)) fun s =>
      match env.call i (method s) with
      | .ok (s', a) => (s', .ok a)
      | .error e => (s, .error e) := by
  intro d
  unfold call Env.call
  cases env.up i with
  | false => exact ⟨rfl, rfl⟩
  | true =>
    simp only [if_true, eventWrite, statement]
    cases method d.desk.toStore with
    | error e => exact ⟨rfl, rfl⟩
    | ok r => exact ⟨rfl, rfl⟩

theorem mirrors_bind {x : Program α} {f : Store → Store × Result α} {next : α → Program β}
    {g : α → Store → Store × Result β} (first : Mirrors x f) (later : ∀ a, Mirrors (next a) (g a)) :
    Mirrors (x >>= next) fun s =>
      match f s with
      | (s', .ok a) => g a s'
      | (s', .error e) => (s', .error e) := by
  intro d
  obtain ⟨state, result⟩ := first d
  change (andThen x next d).state.desk.toStore = _ ∧ (andThen x next d).result = _
  unfold andThen
  rcases outcome : f d.desk.toStore with ⟨s', r⟩
  rw [outcome] at state result
  simp only [outcome]
  cases r with
  | error e =>
    simp only [result, Except.mapError]
    exact ⟨state, trivial⟩
  | ok a =>
    have rest := later a (x d).state
    rw [state] at rest
    simp only [result, Except.mapError]
    exact rest

theorem mirrors_attempt_bind {x : Program α} {f : Store → Store × Result α}
    {next : Except TaskError α → Program β} {g : Result α → Store → Store × Result β}
    (first : Mirrors x f) (later : ∀ r, Mirrors (next (r.mapError .calendar)) (g r)) :
    Mirrors (Traced.attempt x >>= next) fun s => g (f s).2 (f s).1 := by
  intro d
  obtain ⟨state, result⟩ := first d
  change (next (x d).result (x d).state).state.desk.toStore = _ ∧
    (next (x d).result (x d).state).result = _
  rw [result]
  have rest := later (f d.desk.toStore).2 (x d).state
  rw [state] at rest
  exact rest

theorem Mirrors.congr {x : Program α} {f g : Store → Store × Result α} (mirrors : Mirrors x f)
    (same : ∀ s, f s = g s) : Mirrors x g := by
  intro d
  rw [← same]
  exact mirrors d

end

section
variable (crates : Crates) (principal : Principal)

theorem isOk_mapError {α : Type} (r : Result α) :
    (r.mapError TaskError.calendar).isOk = r.isOk := by
  cases r <;> rfl

theorem mirrors_ite {α : Type} {c : Prop} [Decidable c] {x y : Program α}
    {f g : Store → Store × Result α} (holds : c → Mirrors x f) (fails : ¬c → Mirrors y g) :
    Mirrors (if c then x else y) fun s => if c then f s else g s := by
  split
  · next h => exact holds h
  · next h => exact fails h

/-- A write whose result is the store alone, and then the answer. -/
theorem mirrors_call_then {α : Type} (env : Env) (i : Nat) (does : List Access)
    (method : Store → Result Store) (a : α) :
    Mirrors (do call env i (eventWrite does fun s => (method s).map (·, ())); pure a) fun s =>
      match env.call i (method s) with
      | .error e => (s, .error e)
      | .ok s' => (s', .ok a) := by
  refine (mirrors_bind (mirrors_call_write env i _ _) fun _ => mirrors_pure a).congr ?_
  intro s
  unfold Env.call
  cases env.up i with
  | false => rfl
  | true => cases method s <;> rfl

theorem mirrors_processEvent (srcCal : Uuid) (srcUid : Str) (dstCal : Uuid) (dstUid : Str)
    (overwrite isMove : Bool) (env : Env) :
    Mirrors (processEvent crates principal srcCal srcUid dstCal dstUid overwrite isMove env)
      (CalDav.processEvent crates principal srcCal srcUid dstCal dstUid overwrite isMove env) := by
  unfold processEvent
  have finish : ∀ (src : Event) (status : Status), Mirrors
      (if isMove ∧ ¬(srcCal = dstCal ∧ src.uid = dstUid) then do
        call env 3 (deleteByUid principal srcCal src.uid (env.now 3))
        pure status
      else pure status) _ := fun src status =>
    mirrors_ite (fun _ => mirrors_call_then env 3 _ _ status) fun _ => mirrors_pure status
  refine (mirrors_bind (mirrors_call_query env 0 _ _) fun src =>
    mirrors_attempt_bind (mirrors_call_query env 1 _ _) fun dst =>
      mirrors_ite (fun _ => mirrors_pure _) fun _ =>
        mirrors_bind (mirrors_call_write env 2 _ _) fun _ => finish src _).congr ?_
  intro s
  simp only [CalDav.processEvent, isOk_mapError]
  cases env.call 0 (CalDav.getByUid principal.tenantId srcCal srcUid s) with
  | error e => rfl
  | ok src =>
    dsimp only
    split
    · rfl
    · cases env.call 2 (CalDav.replaceByUid crates principal.tenantId dstCal src.icalRaw
        (env.id 2) (env.now 2) s) <;> rfl

theorem mirrors_copyEvents (dstCal : Uuid) (env : Env) (i : Nat) (events : List Event) :
    Mirrors (copyEvents crates principal dstCal env i events)
      (CalDav.copyEvents crates principal dstCal env i events) := by
  induction events generalizing i with
  | nil => exact mirrors_pure ()
  | cons ev rest ih =>
    refine (mirrors_bind (mirrors_call_write env i _ _) fun _ => ih (i + 1)).congr ?_
    intro s
    simp only [CalDav.copyEvents]
    cases env.call i (CalDav.replaceByUid crates principal.tenantId dstCal ev.icalRaw (env.id i)
      (env.now i) s) <;> rfl

theorem mirrors_createMissing (existed : Bool) (src : Calendar) (dstCal : Uuid) (env : Env) :
    Mirrors (createMissing principal existed src dstCal env) fun s =>
      if existed then (s, .ok ())
      else match env.call 2 (CalendarRepo.createWithId dstCal principal.tenantId principal.userId
          { name := src.name, description := src.description, color := src.color
            timezone := some src.timezone, isDefault := false } (env.now 2) s) with
        | .ok (s', _) => (s', .ok ())
        | .error e => (s, .error e) := by
  refine (mirrors_ite (fun _ => mirrors_pure ()) fun _ =>
    mirrors_bind (mirrors_call_write env 2 _ _) fun _ => mirrors_pure ()).congr ?_
  intro s
  split
  · rfl
  · cases env.call 2 (CalendarRepo.createWithId dstCal principal.tenantId principal.userId
      { name := src.name, description := src.description, color := src.color
        timezone := some src.timezone, isDefault := false } (env.now 2) s) <;> rfl

theorem mirrors_copyCollection (srcCal dstCal : Uuid) (overwrite isMove : Bool) (env : Env) :
    Mirrors (copyCollection crates principal srcCal dstCal overwrite isMove env)
      (CalDav.copyCollection crates principal srcCal dstCal overwrite isMove env) := by
  unfold copyCollection
  have finish : ∀ (events : List Event) (status : Status), Mirrors
      (if isMove ∧ srcCal ≠ dstCal then do
        call env (4 + events.length)
          (deleteCalendar principal srcCal (env.now (4 + events.length)))
        pure status
      else pure status) _ := fun events status =>
    mirrors_ite (fun _ => mirrors_call_then env _ _ _ status) fun _ => mirrors_pure status
  refine (mirrors_bind (mirrors_call_query env 0 _ _) fun src =>
    mirrors_attempt_bind (mirrors_call_query env 1 _ _) fun dst =>
      mirrors_ite (fun _ => mirrors_pure _) fun _ =>
        mirrors_bind (mirrors_createMissing principal _ src dstCal env) fun _ =>
          mirrors_bind (mirrors_call_query env 3 _ _) fun events =>
            mirrors_bind (mirrors_copyEvents crates principal dstCal env 4 events) fun _ =>
              finish events _).congr ?_
  intro s
  simp only [CalDav.copyCollection, isOk_mapError]
  cases env.call 0 (CalendarRepo.get principal.tenantId srcCal s) with
  | error e => rfl
  | ok src =>
    dsimp only
    split
    · rfl
    · cases existed : (env.call 1 (CalendarRepo.get principal.tenantId dstCal s)).isOk with
      | true =>
        simp only [if_true]
        cases env.call 3 (.ok (CalDav.list principal.tenantId srcCal {} s)) with
        | error e => rfl
        | ok events =>
          dsimp only
          rcases CalDav.copyEvents crates principal dstCal env 4 events s with ⟨s2, _ | _⟩ <;> rfl
      | false =>
        simp only [Bool.false_eq_true, if_false]
        cases env.call 2 (CalendarRepo.createWithId dstCal principal.tenantId principal.userId
          { name := src.name, description := src.description, color := src.color
            timezone := some src.timezone, isDefault := false } (env.now 2) s) with
        | error e => rfl
        | ok made =>
          rcases made with ⟨s1, row⟩
          simp only [Except.map]
          cases env.call 3 (.ok (CalDav.list principal.tenantId srcCal {} s1)) with
          | error e => rfl
          | ok events =>
            dsimp only
            rcases CalDav.copyEvents crates principal dstCal env 4 events s1 with ⟨s2, _ | _⟩ <;>
              rfl

/-- The programs of COPY and MOVE do to events and calendars what `process` does. -/
theorem mirrors_process (path : Str) (headers : Headers) (isMove : Bool) (env : Env) :
    Mirrors (process crates principal path headers isMove env)
      (CalDav.process crates principal path headers isMove env) := by
  unfold process CalDav.process processCollection CalDav.processCollection
  cases classify crates path with
  | calendar userId srcCal =>
    refine (mirrors_ite (fun _ => ?_) fun _ => mirrors_pure Status.forbidden)
    cases headers.destination with
    | none => exact mirrors_pure _
    | some dest =>
      dsimp only
      cases classify crates (stripOrigin (trim dest)) with
      | calendar userId dstCal =>
        exact mirrors_ite (fun _ => mirrors_copyCollection crates principal srcCal dstCal _ _ env)
          fun _ => mirrors_pure _
      | _ => exact mirrors_pure _
  | event userId srcCal srcUid =>
    refine (mirrors_ite (fun _ => ?_) fun _ => mirrors_pure Status.forbidden)
    cases headers.destination with
    | none => exact mirrors_pure _
    | some dest =>
      dsimp only
      cases classify crates (stripOrigin (trim dest)) with
      | event userId dstCal dstUid =>
        exact mirrors_ite
          (fun _ => mirrors_processEvent crates principal srcCal srcUid dstCal dstUid _ _ env)
          fun _ => mirrors_pure _
      | _ => exact mirrors_pure _
  | _ => exact mirrors_pure _

theorem mirrors_query {α : Type} (does : List Access) (method : Store → Result α) :
    Mirrors (eventQuery does method) fun s => (s, method s) := fun d =>
  ⟨congrArg (·.desk.toStore) (query_state _ _ d), query_result _ _ d⟩

/-- The queries of a `sync-collection` report give its answer. -/
theorem mirrors_sync (calendar : Uuid) (token : Option Str) :
    Mirrors (sync principal calendar token) fun s => (s, handle principal calendar token s) := by
  intro d
  simp only [sync, handle, eventQuery, list]
  cases tag : CalendarRepo.ctag principal.tenantId calendar d.desk.toStore with
  | error e =>
    simp [Bind.bind, andThen, query, statement, tag, Except.mapError, Except.map, Except.bind]
  | ok currentCtag =>
    simp only [Bind.bind, andThen, query_result, query_state, tag, Except.mapError, Except.bind]
    split
    · exact ⟨rfl, rfl⟩
    · cases token.bind parseTokenValue with
      | none =>
        simp only [andThen, query_result, query_state]
        exact ⟨rfl, rfl⟩
      | some since =>
        dsimp only
        split
        · rcases written : writeChangedSince principal calendar since d.desk.toStore with
            ⟨members, _ | last⟩
          · simp only [andThen, query_result, query_state, written]
            exact ⟨rfl, rfl⟩
          · simp only [andThen, query_result, query_state, written]
            exact ⟨rfl, rfl⟩
        · exact ⟨rfl, rfl⟩

end

end Expresso.CalDav.Dav
