import Expresso.CalDav.Authority
import Expresso.CalDav.Handlers

/-! Which CalDAV requests reach the events of a calendar that their principal has no right to.
The handlers compare the user in the URL with the principal, and take the calendar from the same
URL as it is. -/

namespace Expresso.CalDav.Dav
open Text Time Transition Traced

/-! ### Rights -/

def Known (principal : Principal) (calendar : Uuid) (d : State) : Prop :=
  ∃ c ∈ d.desk.calendars, c.isRow principal.tenantId calendar = true

/-- The principal owns the calendar or has a grant on it. -/
def CanRead (principal : Principal) (calendar : Uuid) (d : State) : Prop :=
  (d.desk.accessLevel principal.tenantId calendar principal.userId).isSome = true

/-- The principal owns the calendar or has a grant to write or to administer it. -/
def CanWrite (principal : Principal) (calendar : Uuid) (d : State) : Prop :=
  d.desk.assertCanWrite principal.tenantId calendar principal.userId = .ok ()

/-- What the principal may do with the events of a calendar that the tenant has. -/
def Permits (principal : Principal) (d : State) : Access → Prop
  | .selects calendar => Known principal calendar d → CanRead principal calendar d
  | .changes calendar => Known principal calendar d → CanWrite principal calendar d

/-- The request selects events only of calendars that the principal may read, and changes events
only of those that it may write. -/
def Respects (crates : Crates) (showUuid : Uuid → Str) (principal : Principal) (d : State)
    (request : Request) : Prop :=
  Within (Permits principal d) (request.run crates showUuid principal) d

/-! ### The rights that a request needs -/

section
variable (crates : Crates) (showUuid : Uuid → Str) (principal : Principal) (d : State)

abbrev MayRead (calendar : Uuid) : Prop := Permits principal d (.selects calendar)

abbrev MayWrite (calendar : Uuid) : Prop := Permits principal d (.changes calendar)

/-- The report goes through the events of its calendar. -/
def ReportBody.Selects (calendar : Uuid) (body : ReportBody) : Prop :=
  match body.kind with
  | none => False
  | some .calendarQuery => body.compFilter.all (· = "VEVENT".toList) = true
  | some .calendarMultiget => multigetUids principal showUuid calendar body.hrefs ≠ []
  | some .freeBusyQuery => (queryRange body).isSome = true
  | some .syncCollection =>
      ∃ ctag, CalendarRepo.ctag principal.tenantId calendar d.desk.toStore = .ok ctag ∧
        ∀ since, body.syncToken.bind parseTokenValue = some since → since < ctag

def destinationExists (env : Env) (dstCal : Uuid) (dstUid : Str) : Bool :=
  (env.call 1 (CalDav.getByUid principal.tenantId dstCal dstUid d.desk.toStore)).isOk

/-- An event that is copied is selected; the destination is looked up and written; and a MOVE
changes the calendar it comes from. -/
def EventRights (srcCal : Uuid) (srcUid : Str) (dstCal : Uuid) (dstUid : Str)
    (overwrite isMove : Bool) (env : Env) : Prop :=
  env.up 0 = true → MayRead principal d srcCal ∧
    ∀ src, CalDav.getByUid principal.tenantId srcCal srcUid d.desk.toStore = .ok src →
      (env.up 1 = true → MayRead principal d dstCal) ∧
      ((destinationExists principal d env dstCal dstUid && !overwrite) = false → env.up 2 = true →
        MayWrite principal d dstCal ∧
        ∀ s row, CalDav.replaceByUid crates principal.tenantId dstCal src.icalRaw (env.id 2)
            (env.now 2) d.desk.toStore = .ok (s, row) →
          isMove = true → ¬(srcCal = dstCal ∧ src.uid = dstUid) → env.up 3 = true →
            MayWrite principal d srcCal)

/-- The calendar that the events are copied to, made if it was not there. -/
def destinationMade (src : Calendar) (dstCal : Uuid) (env : Env) : Result Store :=
  if (env.call 1 (CalendarRepo.get principal.tenantId dstCal d.desk.toStore)).isOk then
    .ok d.desk.toStore
  else (env.call 2 (CalendarRepo.createWithId dstCal principal.tenantId principal.userId
    { name := src.name, description := src.description, color := src.color
      timezone := some src.timezone, isDefault := false } (env.now 2) d.desk.toStore)).map (·.1)

/-- The events of a collection that is copied are selected, and written to the destination; and
a MOVE deletes the calendar they come from. -/
def CopiedRights (srcCal dstCal : Uuid) (isMove : Bool) (env : Env) (s : Store) : Prop :=
  let events := CalDav.list principal.tenantId srcCal {} s
  MayRead principal d srcCal ∧
    (events ≠ [] → env.up 4 = true → MayWrite principal d dstCal) ∧
    ((CalDav.copyEvents crates principal dstCal env 4 events s).2 = .ok () → isMove = true →
      srcCal ≠ dstCal → env.up (4 + events.length) = true → MayWrite principal d srcCal)

def CollectionRights (srcCal dstCal : Uuid) (overwrite isMove : Bool) (env : Env) : Prop :=
  ∀ src s, env.call 0 (CalendarRepo.get principal.tenantId srcCal d.desk.toStore) = .ok src →
    ((env.call 1 (CalendarRepo.get principal.tenantId dstCal d.desk.toStore)).isOk &&
      !overwrite) = false →
    destinationMade principal d src dstCal env = .ok s → env.up 3 = true →
      CopiedRights crates principal d srcCal dstCal isMove env s

def CopyRights (path : Str) (headers : Headers) (isMove : Bool) (env : Env) : Prop :=
  ∀ dest, headers.destination = some dest →
    match classify crates path, classify crates (stripOrigin (trim dest)) with
    | .event user srcCal srcUid, .event user' dstCal dstUid =>
        user = principal.userId → user' = principal.userId →
          EventRights crates principal d srcCal srcUid dstCal dstUid (allowOverwrite headers)
            isMove env
    | .calendar user srcCal, .calendar user' dstCal =>
        user = principal.userId → user' = principal.userId →
          CollectionRights crates principal d srcCal dstCal (allowOverwrite headers) isMove env
    | _, _ => True

/-- The rights on the calendars in the URLs of a request, as far as the request gets. -/
def Rights : Request → Prop
  | .get path => ∀ calendar uid, classify crates path = .event principal.userId calendar uid →
      MayRead principal d calendar
  | .head path => ∀ calendar uid, classify crates path = .event principal.userId calendar uid →
      MayRead principal d calendar
  | .put path body _ =>
      ∀ calendar uid, classify crates path = .event principal.userId calendar uid →
        isVtodo body = false → MayWrite principal d calendar
  | .delete path _ =>
      ∀ calendar uid, classify crates path = .event principal.userId calendar uid →
        MayRead principal d calendar ∧
        ((CalDav.getByUid principal.tenantId calendar uid d.desk.toStore).isOk = true →
          MayWrite principal d calendar)
  | .report path body =>
      ∀ calendar, classify crates path = .calendar principal.userId calendar →
        body.Selects showUuid principal d calendar → MayRead principal d calendar
  | .copy path headers env => CopyRights crates principal d path headers false env
  | .move path headers env => CopyRights crates principal d path headers true env

end

/-! ### The statements of a program -/

section
variable {permits : Access → Prop} {d : State} {α β : Type}

@[simp] theorem within_taskQuery (method : TaskStore → TaskResult α) :
    Within permits (taskQuery method) d ↔ True := by
  simp [taskQuery]

@[simp] theorem within_taskWrite (method : TaskStore → TaskResult (TaskStore × α)) :
    Within permits (taskWrite method) d ↔ True := by
  simp [taskWrite]

/-- Nothing is asked for by what comes after the statements of `x`. -/
theorem within_bind_trivial (x : Program α) (next : α → Program β)
    (trivial : ∀ a d', Within permits (next a) d') :
    Within permits (x >>= next) d ↔ Within permits x d := by
  rw [within_bind]
  exact and_iff_left fun a _ => trivial a _

theorem within_eventQuery_bind (does : List Access) (method : Store → Result α)
    (next : α → Program β) :
    Within permits (eventQuery does method >>= next) d ↔
      (∀ k ∈ does, permits k) ∧
        ∀ a, method d.desk.toStore = .ok a → Within permits (next a) d := by
  rw [eventQuery, within_query_bind]
  cases method d.desk.toStore with
  | error e => simp [Except.mapError]
  | ok a => simp [Except.mapError]

theorem within_eventWrite_bind (does : List Access) (method : Store → Result (Store × α))
    (next : α → Program β) :
    Within permits (eventWrite does method >>= next) d ↔
      (∀ k ∈ does, permits k) ∧
        ∀ s a, method d.desk.toStore = .ok (s, a) → Within permits (next a) (d.withStore s) := by
  rw [within_bind, eventWrite, within_statement]
  simp only [statement]
  cases method d.desk.toStore with
  | error e => simp [Except.mapError, Except.map]
  | ok pair => simp [Except.mapError, Except.map, Prod.ext_iff]

theorem within_call_bind (env : Env) (i : Nat) (x : Program α) (next : α → Program β) :
    Within permits (call env i x >>= next) d ↔
      (env.up i = true → Within permits (x >>= next) d) := by
  unfold call
  cases env.up i with
  | true => simp
  | false => simp [within_bind, value]

theorem within_attempt_call_query_bind (env : Env) (i : Nat) (does : List Access)
    (method : Store → Result α) (next : Except TaskError α → Program β) :
    Within permits (Traced.attempt (call env i (eventQuery does method)) >>= next) d ↔
      (env.up i = true → ∀ k ∈ does, permits k) ∧
        Within permits (next ((env.call i (method d.desk.toStore)).mapError .calendar)) d := by
  unfold call Env.call
  cases env.up i with
  | true =>
    simp only [if_true, eventQuery, within_attempt_query_bind, forall_const]
  | false =>
    simp only [Bool.false_eq_true, if_false, false_implies, true_and, within_bind, within_attempt,
      within_value]
    simp only [Traced.attempt, value, Except.ok.injEq, forall_eq']
    exact Iff.rfl

end

/-! ### Each request -/

section
variable {crates : Crates} {showUuid : Uuid → Str} {principal : Principal} {d d' : State}

theorem classifyObject_ok_iff {path uid : Str} {calendar : Uuid} :
    classifyObject crates principal path = .ok (calendar, uid) ↔
      classify crates path = .event principal.userId calendar uid := by
  unfold classifyObject
  cases classify crates path with
  | event user c u =>
    by_cases same : user = principal.userId
    · simp [same]
    · simp [same]
  | _ => simp

theorem get_within_iff (path : Str) :
    Within (Permits principal d) (Dav.get crates principal path) d ↔
      ∀ calendar uid, classify crates path = .event principal.userId calendar uid →
        MayRead principal d calendar := by
  simp only [← classifyObject_ok_iff]
  unfold Dav.get
  cases classifyObject crates principal path with
  | error response => simp
  | ok place =>
    rcases place with ⟨calendar, uid⟩
    dsimp only
    rw [within_bind_trivial]
    · simp [getByUid, eventQuery]
    · intro looked later
      cases looked with
      | ok ev => exact (within_pure _).mpr trivial
      | error e =>
        dsimp only
        rw [within_bind_trivial]
        · simp
        · intro task last
          cases task <;> exact (within_pure _).mpr trivial

theorem put_within_iff (path body : Str) (ambient : Ambient) :
    Within (Permits principal d) (Dav.put crates principal path body ambient) d ↔
      ∀ calendar uid, classify crates path = .event principal.userId calendar uid →
        isVtodo body = false → MayWrite principal d calendar := by
  simp only [← classifyObject_ok_iff]
  unfold Dav.put
  cases classifyObject crates principal path with
  | error response => simp
  | ok place =>
    rcases place with ⟨calendar, uid⟩
    dsimp only
    cases isVtodo body with
    | true =>
      rw [if_pos rfl, within_bind_trivial _ _ fun _ _ => (within_pure _).mpr trivial]
      simp
    | false =>
      rw [if_neg (by decide), within_bind_trivial _ _ fun _ _ => (within_pure _).mpr trivial]
      simp [replaceByUid, eventWrite]

theorem delete_within_iff (path : Str) (now : Timestamp) :
    Within (Permits principal d) (Dav.delete crates principal path now) d ↔
      ∀ calendar uid, classify crates path = .event principal.userId calendar uid →
        MayRead principal d calendar ∧
        ((CalDav.getByUid principal.tenantId calendar uid d.desk.toStore).isOk = true →
          MayWrite principal d calendar) := by
  simp only [← classifyObject_ok_iff]
  unfold Dav.delete
  cases classifyObject crates principal path with
  | error response => simp
  | ok place =>
    rcases place with ⟨calendar, uid⟩
    dsimp only [getByUid, eventQuery]
    rw [within_attempt_query_bind]
    cases found : CalDav.getByUid principal.tenantId calendar uid d.desk.toStore with
    | ok ev =>
      simp only [Except.mapError]
      rw [within_bind_trivial _ _ fun _ _ => (within_pure _).mpr trivial]
      simp [deleteByUid, eventWrite, found, Except.isOk, Except.toBool]
    | error e =>
      simp only [Except.mapError]
      rw [within_bind_trivial]
      · simp [found, Except.isOk, Except.toBool]
      · intro deleted later
        rcases deleted with e | _
        · cases e <;> simp
        · simp

theorem freeBusy_within_iff (calendar : Uuid) (body : ReportBody) :
    Within (Permits principal d) (freeBusy principal calendar body) d ↔
      ((queryRange body).isSome = true → MayRead principal d calendar) := by
  unfold freeBusy queryRange
  rcases body.timeRange with _ | ⟨startRaw, stopRaw⟩
  · simp
  · dsimp only [Option.bind_some]
    cases parseCaldavDt startRaw with
    | none => simp
    | some start =>
      cases parseCaldavDt stopRaw with
      | none => simp
      | some stop =>
        dsimp only [list, Option.bind_some, Option.map_some]
        rw [within_eventQuery_bind]
        simp [within_bind]

theorem multiget_within_iff (calendar : Uuid) (body : ReportBody) :
    Within (Permits principal d) (multiget crates principal showUuid calendar body) d ↔
      (multigetUids principal showUuid calendar body.hrefs ≠ [] → MayRead principal d calendar) := by
  unfold multiget listByUids
  cases multigetUids principal showUuid calendar body.hrefs with
  | nil => simp [within_bind]
  | cons uid rest =>
    simp only [List.isEmpty_cons, Bool.false_eq_true, if_false]
    rw [within_eventQuery_bind]
    simp [within_bind]

theorem within_wanted {α : Type} {permits : Access → Prop} (component : Str)
    (compFilter : Option Str) (rows : Program (List α)) :
    Within permits (wanted component compFilter rows) d ↔
      (compFilter.all (· = component) = true → Within permits rows d) := by
  unfold wanted
  split
  · next holds => simp only [holds, forall_const]
  · next fails => simp only [fails, within_pure, false_implies, Bool.false_eq_true]

theorem calendarQuery_within_iff (calendar : Uuid) (body : ReportBody) :
    Within (Permits principal d) (calendarQuery crates principal calendar body) d ↔
      (body.compFilter.all (· = "VEVENT".toList) = true → MayRead principal d calendar) := by
  unfold calendarQuery
  rw [within_bind_trivial, within_wanted]
  · simp only [list, eventQuery, within_query, List.mem_singleton, forall_eq]
  · intro events later
    rw [within_bind_trivial _ _ fun _ _ => (within_pure _).mpr trivial, within_wanted]
    simp

theorem sync_within_iff (calendar : Uuid) (token : Option Str) :
    Within (Permits principal d) (sync principal calendar token) d ↔
      ((∃ ctag, CalendarRepo.ctag principal.tenantId calendar d.desk.toStore = .ok ctag ∧
          ∀ since, token.bind parseTokenValue = some since → since < ctag) →
        MayRead principal d calendar) := by
  unfold sync
  rw [within_eventQuery_bind]
  cases CalendarRepo.ctag principal.tenantId calendar d.desk.toStore with
  | error e => simp
  | ok ctag =>
    cases token.bind parseTokenValue with
    | none =>
      simp [list, within_eventQuery_bind]
    | some since =>
      simp only [Option.some.injEq, Except.ok.injEq, exists_eq_left', forall_eq']
      by_cases same : since = ctag
      · simp [same]
      · by_cases older : since < ctag
        · simp only [same, older, if_true, if_false, within_eventQuery_bind]
          rcases writeChangedSince principal calendar since d.desk.toStore with ⟨members, _ | last⟩
          · simp [within_eventQuery_bind]
          · simp
        · simp [same, older]

theorem report_within_iff (path : Str) (body : ReportBody) :
    Within (Permits principal d) (report crates principal showUuid path body) d ↔
      ∀ calendar, classify crates path = .calendar principal.userId calendar →
        body.Selects showUuid principal d calendar → MayRead principal d calendar := by
  unfold report
  cases classify crates path with
  | calendar user calendar =>
    dsimp only
    by_cases same : user = principal.userId
    · rw [if_pos same]
      simp only [Target.calendar.injEq, same, true_and, forall_eq', ReportBody.Selects]
      rcases body.kind with _ | kind
      · simp
      · cases kind with
        | freeBusyQuery => exact freeBusy_within_iff calendar body
        | syncCollection =>
          dsimp only
          rw [within_bind_trivial _ _ fun _ _ => (within_pure _).mpr trivial]
          exact sync_within_iff calendar body.syncToken
        | calendarMultiget => exact multiget_within_iff calendar body
        | calendarQuery => exact calendarQuery_within_iff calendar body
    · simp [same]
  | _ => simp

theorem processEvent_within_iff (srcCal : Uuid) (srcUid : Str) (dstCal : Uuid) (dstUid : Str)
    (overwrite isMove : Bool) (env : Env) :
    Within (Permits principal d)
        (processEvent crates principal srcCal srcUid dstCal dstUid overwrite isMove env) d ↔
      EventRights crates principal d srcCal srcUid dstCal dstUid overwrite isMove env := by
  unfold processEvent EventRights destinationExists
  simp only [getByUid, within_call_bind, within_eventQuery_bind, within_attempt_call_query_bind,
    isOk_mapError, List.mem_singleton, forall_eq]
  refine imp_congr_right fun _ => and_congr_right fun _ => forall_congr' fun src =>
    imp_congr_right fun _ => and_congr_right fun _ => ?_
  cases (env.call 1 (CalDav.getByUid principal.tenantId dstCal dstUid d.desk.toStore)).isOk &&
      !overwrite with
  | true => simp
  | false =>
    simp only [Bool.false_eq_true, if_false, replaceByUid, within_call_bind,
      within_eventWrite_bind, List.mem_singleton, forall_eq, forall_const]
    refine imp_congr_right fun _ => and_congr_right fun _ => forall_congr' fun s =>
      forall_congr' fun row => imp_congr_right fun _ => ?_
    split
    · next moves =>
      simp [moves, within_call_bind, deleteByUid, within_eventWrite_bind]
    · next stays =>
      simp only [within_pure, true_iff]
      exact fun moved apart => absurd ⟨moved, apart⟩ stays

theorem copyEvents_within_iff {permits : Access → Prop} (dstCal : Uuid) (env : Env) (i : Nat)
    (events : List Event) :
    Within permits (copyEvents crates principal dstCal env i events) d ↔
      (events ≠ [] → env.up i = true → permits (.changes dstCal)) := by
  induction events generalizing i d with
  | nil => simp [copyEvents]
  | cons ev rest ih =>
    simp only [copyEvents, replaceByUid, within_call_bind, within_eventWrite_bind, ih,
      List.mem_singleton, forall_eq]
    constructor
    · exact fun each _ up => (each up).1
    · exact fun may up => ⟨may (by simp) up, fun _ _ _ _ _ => may (by simp) up⟩

theorem destinationMade_ok_iff (src : Calendar) (dstCal : Uuid) (env : Env) (s : Store) :
    destinationMade principal d src dstCal env = .ok s ↔
      let made := createMissing principal
        (env.call 1 (CalendarRepo.get principal.tenantId dstCal d.desk.toStore)).isOk
        src dstCal env d
      made.result = .ok () ∧ made.state.desk.toStore = s := by
  obtain ⟨state, result⟩ := mirrors_createMissing principal
    (env.call 1 (CalendarRepo.get principal.tenantId dstCal d.desk.toStore)).isOk src dstCal env d
  dsimp only
  rw [state, result]
  unfold destinationMade
  cases (env.call 1 (CalendarRepo.get principal.tenantId dstCal d.desk.toStore)).isOk with
  | true => simp [Except.mapError]
  | false =>
    simp only [Bool.false_eq_true, if_false]
    cases env.call 2 (CalendarRepo.createWithId dstCal principal.tenantId principal.userId
      { name := src.name, description := src.description, color := src.color
        timezone := some src.timezone, isDefault := false } (env.now 2) d.desk.toStore) with
    | error e => simp [Except.mapError, Except.map]
    | ok made => simp [Except.mapError, Except.map]

theorem within_createMissing {permits : Access → Prop} (existed : Bool) (src : Calendar)
    (dstCal : Uuid) (env : Env) :
    Within permits (createMissing principal existed src dstCal env) d ↔ True := by
  unfold createMissing
  cases existed with
  | true => simp
  | false => simp [within_call_bind, within_eventWrite_bind]

theorem within_createMissing_bind {permits : Access → Prop} {β : Type} (src : Calendar)
    (dstCal : Uuid) (env : Env) {next : Unit → Program β} (needs : Store → Prop)
    (later : ∀ d', Within permits (next ()) d' ↔ needs d'.desk.toStore) :
    Within permits (createMissing principal
        (env.call 1 (CalendarRepo.get principal.tenantId dstCal d.desk.toStore)).isOk
        src dstCal env >>= next) d ↔
      ∀ s, destinationMade principal d src dstCal env = .ok s → needs s := by
  rw [within_bind, within_createMissing, true_and]
  simp only [destinationMade_ok_iff, and_imp, later]
  constructor
  · rintro each s done rfl
    exact each () done
  · exact fun each _ done => each _ done rfl

theorem within_ite {permits : Access → Prop} {α : Type} {blocked : Bool} {a : α} {x : Program α} :
    Within permits (if blocked = true then pure a else x) d ↔
      (blocked = false → Within permits x d) := by
  cases blocked <;> simp

/-- The copies and, after them, the deletion of the source. -/
theorem copied_within_iff (srcCal dstCal : Uuid) (isMove : Bool) (env : Env) (status : Status) :
    Within (Permits principal d) (do
        let events ← call env 3 (list principal srcCal {})
        copyEvents crates principal dstCal env 4 events
        if isMove ∧ srcCal ≠ dstCal then do
          call env (4 + events.length)
            (deleteCalendar principal srcCal (env.now (4 + events.length)))
          pure status
        else pure status) d' ↔
      (env.up 3 = true →
        CopiedRights crates principal d srcCal dstCal isMove env d'.desk.toStore) := by
  rw [within_call_bind, list, within_eventQuery_bind]
  simp only [Except.ok.injEq, forall_eq', List.mem_singleton, forall_eq, CopiedRights]
  refine imp_congr_right fun _ => and_congr_right fun _ => ?_
  rw [within_bind, copyEvents_within_iff,
    (mirrors_copyEvents crates principal dstCal env 4 _ d').2]
  refine and_congr_right fun _ => ?_
  rcases (CalDav.copyEvents crates principal dstCal env 4 _ d'.desk.toStore).2 with e | _
  · simp [Except.mapError]
  · simp only [Except.mapError, forall_const]
    split
    · next moves => simp [moves, within_call_bind, deleteCalendar, within_eventWrite_bind]
    · next stays =>
      simp only [within_pure, true_iff]
      exact fun moved apart => absurd ⟨moved, apart⟩ stays

theorem copyCollection_within_iff (srcCal dstCal : Uuid) (overwrite isMove : Bool) (env : Env) :
    Within (Permits principal d)
        (copyCollection crates principal srcCal dstCal overwrite isMove env) d ↔
      CollectionRights crates principal d srcCal dstCal overwrite isMove env := by
  unfold copyCollection CollectionRights
  simp only [within_call_bind, within_eventQuery_bind, within_attempt_call_query_bind,
    isOk_mapError, Env.call_ok, and_imp, List.not_mem_nil, false_implies, implies_true, true_and]
  simp only [within_ite]
  constructor
  · intro each src s up found goes
    have made := each up src found goes
    rw [within_createMissing_bind src dstCal env
      (fun s => env.up 3 = true → CopiedRights crates principal d srcCal dstCal isMove env s)
      fun d' => copied_within_iff srcCal dstCal isMove env _] at made
    exact made s
  · intro rights up src found goes
    rw [within_createMissing_bind src dstCal env
      (fun s => env.up 3 = true → CopiedRights crates principal d srcCal dstCal isMove env s)
      fun d' => copied_within_iff srcCal dstCal isMove env _]
    exact fun s => rights src s up found goes

theorem process_within_iff (path : Str) (headers : Headers) (isMove : Bool) (env : Env) :
    Within (Permits principal d) (process crates principal path headers isMove env) d ↔
      CopyRights crates principal d path headers isMove env := by
  unfold process processCollection CopyRights
  cases headers.destination with
  | none =>
    cases classify crates path with
    | calendar user srcCal => by_cases same : user = principal.userId <;> simp [same]
    | event user srcCal srcUid => by_cases same : user = principal.userId <;> simp [same]
    | _ => simp
  | some dest =>
    simp only [Option.some.injEq, forall_eq']
    cases classify crates path with
    | calendar user srcCal =>
      by_cases same : user = principal.userId
      · cases classify crates (stripOrigin (trim dest)) with
        | calendar user' dstCal =>
          by_cases same' : user' = principal.userId
          · simp [same, same', copyCollection_within_iff]
          · simp [same, same']
        | _ => simp [same]
      · cases classify crates (stripOrigin (trim dest)) <;> simp [same]
    | event user srcCal srcUid =>
      by_cases same : user = principal.userId
      · cases classify crates (stripOrigin (trim dest)) with
        | event user' dstCal dstUid =>
          by_cases same' : user' = principal.userId
          · simp [same, same', processEvent_within_iff]
          · simp [same, same']
        | _ => simp [same]
      · cases classify crates (stripOrigin (trim dest)) <;> simp [same]
    | _ => simp

end

theorem run_within_iff (crates : Crates) (showUuid : Uuid → Str) (principal : Principal)
    (d : State) (request : Request) :
    Within (Permits principal d) (request.run crates showUuid principal) d ↔
      Rights crates showUuid principal d request := by
  cases request with
  | get path => exact get_within_iff path
  | head path =>
    simp only [Request.run]
    rw [within_bind_trivial _ _ fun _ _ => (within_pure _).mpr trivial]
    exact get_within_iff path
  | put path body ambient => exact put_within_iff path body ambient
  | delete path now => exact delete_within_iff path now
  | report path body => exact report_within_iff path body
  | copy path headers env =>
    simp only [Request.run]
    rw [within_bind_trivial _ _ fun _ _ => (within_pure _).mpr trivial]
    exact process_within_iff path headers false env
  | move path headers env =>
    simp only [Request.run]
    rw [within_bind_trivial _ _ fun _ _ => (within_pure _).mpr trivial]
    exact process_within_iff path headers true env

/-! ### The events that a request changes -/

/-- The events of calendars that no statement changes are as before. -/
def Kept (trace : List Access) (d d' : State) : Prop :=
  ∀ e : Event, .changes e.calendarId ∉ trace → (e ∈ d'.desk.events ↔ e ∈ d.desk.events)

theorem Kept.refl (trace : List Access) (d : State) : Kept trace d d := fun _ _ => .rfl

theorem Kept.trans {first second : List Access} {d d' d'' : State} (before : Kept first d d')
    (after : Kept second d' d'') : Kept (first ++ second) d d'' := by
  intro e elsewhere
  rw [List.mem_append, not_or] at elsewhere
  exact (after e elsewhere.2).trans (before e elsewhere.1)

section
variable {α β : Type}

theorem framed_pure (a : α) : Framed Kept (pure a : Program α) :=
  Framed.value (fun _ => .refl _ _) (.ok a)

theorem framed_bind {x : Program α} {next : α → Program β} (framed : Framed Kept x)
    (later : ∀ a, Framed Kept (next a)) : Framed Kept (x >>= next) :=
  Framed.bind Kept.trans framed later

theorem framed_eventQuery (does : List Access) (method : Store → Result α) :
    Framed Kept (eventQuery does method) := Framed.query fun _ => .refl _ _

theorem framed_taskQuery (method : TaskStore → TaskResult α) : Framed Kept (taskQuery method) :=
  Framed.query fun _ => .refl _ _

theorem framed_taskWrite (method : TaskStore → TaskResult (TaskStore × α)) :
    Framed Kept (taskWrite method) := by
  refine Framed.statement (fun _ => .refl _ _) ?_
  intro d d' a done
  obtain ⟨r, -, pair⟩ := map_eq_ok_iff.mp done
  cases pair
  exact fun _ _ => .rfl

theorem framed_call (env : Env) (i : Nat) {x : Program α} (framed : Framed Kept x) :
    Framed Kept (call env i x) := by
  unfold call
  cases env.up i with
  | true => exact framed
  | false => exact Framed.value (fun _ => .refl _ _) _

theorem framed_eventWrite {does : List Access} {method : Store → Result (Store × α)}
    (elsewhere : ∀ s s' a, method s = .ok (s', a) → ∀ e : Event, .changes e.calendarId ∉ does →
      (e ∈ s'.events ↔ e ∈ s.events)) :
    Framed Kept (eventWrite does method) := by
  refine Framed.statement (fun _ => .refl _ _) ?_
  intro d d' a done
  obtain ⟨r, written, pair⟩ := map_eq_ok_iff.mp done
  cases pair
  cases outcome : method d.desk.toStore with
  | error e => simp [outcome, Except.mapError] at written
  | ok made =>
    simp only [outcome, Except.mapError, Except.ok.injEq] at written
    subst written
    exact elsewhere _ _ _ outcome

end

section
variable (crates : Crates) (principal : Principal)

theorem framed_replaceByUid (calendar : Uuid) (raw : Str) (id : Uuid) (now : Timestamp) :
    Framed Kept (replaceByUid crates principal calendar raw id now) := by
  apply framed_eventWrite
  intro s s' row done e elsewhere
  apply replaceByUid_elsewhere done
  rintro rfl
  exact elsewhere (List.mem_singleton.mpr rfl)

theorem framed_deleteByUid (calendar : Uuid) (uid : Str) (now : Timestamp) :
    Framed Kept (deleteByUid principal calendar uid now) := by
  apply framed_eventWrite
  intro s s' _ done e elsewhere
  obtain ⟨s'', deleted, pair⟩ := map_eq_ok_iff.mp done
  cases pair
  obtain ⟨_, written, -⟩ := (deleteByUid_ok deleted).written
  rw [(deleteRows_spec written).1, List.mem_filter]
  refine and_iff_left_of_imp fun _ => ?_
  have other : e.calendarId ≠ calendar := by
    rintro rfl
    exact elsewhere (List.mem_singleton.mpr rfl)
  simp [Event.isAt, other]

theorem framed_deleteCalendar (calendar : Uuid) (now : Timestamp) :
    Framed Kept (deleteCalendar principal calendar now) := by
  apply framed_eventWrite
  intro s s' _ done e _
  obtain ⟨s'', deleted, pair⟩ := map_eq_ok_iff.mp done
  cases pair
  rw [(CalendarRepo.delete_ok deleted).2]

theorem framed_createMissing (existed : Bool) (src : Calendar) (dstCal : Uuid) (env : Env) :
    Framed Kept (createMissing principal existed src dstCal env) := by
  unfold createMissing
  cases existed with
  | true => exact framed_pure ()
  | false =>
    apply framed_bind (framed_call env 2 (framed_eventWrite ?_)) fun _ => framed_pure ()
    intro s s' row done e _
    rw [(CalendarRepo.createWithId_ok done).1]

theorem framed_copyEvents (dstCal : Uuid) (env : Env) (i : Nat) (events : List Event) :
    Framed Kept (copyEvents crates principal dstCal env i events) := by
  induction events generalizing i with
  | nil => exact framed_pure ()
  | cons ev rest ih =>
    exact framed_bind (framed_call env i (framed_replaceByUid crates principal dstCal _ _ _))
      fun _ => ih (i + 1)

theorem framed_if {α : Type} {c : Prop} [Decidable c] {x y : Program α} (holds : Framed Kept x)
    (fails : Framed Kept y) : Framed Kept (if c then x else y) := by
  split
  · exact holds
  · exact fails

theorem framed_processEvent (srcCal : Uuid) (srcUid : Str) (dstCal : Uuid) (dstUid : Str)
    (overwrite isMove : Bool) (env : Env) :
    Framed Kept
      (processEvent crates principal srcCal srcUid dstCal dstUid overwrite isMove env) := by
  apply framed_bind (framed_call env 0 (framed_eventQuery _ _))
  intro src
  apply framed_bind (framed_call env 1 (framed_eventQuery _ _)).attempt
  intro dst
  apply framed_if (framed_pure _)
  apply framed_bind (framed_call env 2 (framed_replaceByUid crates principal dstCal _ _ _))
  intro _
  apply framed_if
  · exact framed_bind (framed_call env 3 (framed_deleteByUid principal srcCal _ _))
      fun _ => framed_pure _
  · exact framed_pure _

theorem framed_copyCollection (srcCal dstCal : Uuid) (overwrite isMove : Bool) (env : Env) :
    Framed Kept (copyCollection crates principal srcCal dstCal overwrite isMove env) := by
  apply framed_bind (framed_call env 0 (framed_eventQuery _ _))
  intro src
  apply framed_bind (framed_call env 1 (framed_eventQuery _ _)).attempt
  intro dst
  apply framed_if (framed_pure _)
  apply framed_bind (framed_createMissing principal _ src dstCal env)
  intro _
  apply framed_bind (framed_call env 3 (framed_eventQuery _ _))
  intro events
  apply framed_bind (framed_copyEvents crates principal dstCal env 4 events)
  intro _
  apply framed_if
  · exact framed_bind (framed_call env _ (framed_deleteCalendar principal srcCal _))
      fun _ => framed_pure _
  · exact framed_pure _

theorem framed_process (path : Str) (headers : Headers) (isMove : Bool) (env : Env) :
    Framed Kept (process crates principal path headers isMove env) := by
  unfold process processCollection
  cases classify crates path with
  | calendar user srcCal =>
    apply framed_if ?_ (framed_pure _)
    cases headers.destination with
    | none => exact framed_pure _
    | some dest =>
      dsimp only
      cases classify crates (stripOrigin (trim dest)) with
      | calendar user' dstCal =>
        exact framed_if (framed_copyCollection crates principal srcCal dstCal _ _ env)
          (framed_pure _)
      | _ => exact framed_pure _
  | event user srcCal srcUid =>
    apply framed_if ?_ (framed_pure _)
    cases headers.destination with
    | none => exact framed_pure _
    | some dest =>
      dsimp only
      cases classify crates (stripOrigin (trim dest)) with
      | event user' dstCal dstUid =>
        exact framed_if
          (framed_processEvent crates principal srcCal srcUid dstCal dstUid _ _ env)
          (framed_pure _)
      | _ => exact framed_pure _
  | _ => exact framed_pure _

theorem framed_get (path : Str) : Framed Kept (Dav.get crates principal path) := by
  unfold Dav.get
  cases classifyObject crates principal path with
  | error response => exact framed_pure response
  | ok place =>
    apply framed_bind (framed_eventQuery _ _).attempt
    intro looked
    cases looked with
    | ok ev => exact framed_pure _
    | error e =>
      apply framed_bind (framed_taskQuery _).attempt
      intro task
      cases task <;> exact framed_pure _

theorem framed_put (path body : Str) (ambient : Ambient) :
    Framed Kept (Dav.put crates principal path body ambient) := by
  unfold Dav.put
  cases classifyObject crates principal path with
  | error response => exact framed_pure response
  | ok place =>
    apply framed_if
    · exact framed_bind (framed_taskWrite _) fun _ => framed_pure _
    · exact framed_bind (framed_replaceByUid crates principal place.1 _ _ _) fun _ => framed_pure _

theorem framed_delete (path : Str) (now : Timestamp) :
    Framed Kept (Dav.delete crates principal path now) := by
  unfold Dav.delete
  cases classifyObject crates principal path with
  | error response => exact framed_pure response
  | ok place =>
    apply framed_bind (framed_eventQuery _ _).attempt
    intro looked
    cases looked with
    | ok ev => exact framed_bind (framed_deleteByUid principal _ _ now) fun _ => framed_pure _
    | error e =>
      apply framed_bind (framed_taskWrite _).attempt
      intro deleted
      rcases deleted with e | _
      · cases e with
        | uidNotFound => exact framed_pure _
        | _ => exact Framed.value (fun _ => .refl _ _) _
      · exact framed_pure _

theorem framed_sync (calendar : Uuid) (token : Option Str) :
    Framed Kept (sync principal calendar token) := by
  unfold sync
  apply framed_bind (framed_eventQuery _ _)
  intro ctag
  apply framed_if (framed_pure _)
  cases token.bind parseTokenValue with
  | none => exact framed_bind (framed_eventQuery _ _) fun _ => framed_pure _
  | some since =>
    apply framed_if ?_ (framed_pure _)
    apply framed_bind (framed_eventQuery _ _)
    intro changed
    rcases changed with ⟨members, _ | last⟩
    · exact framed_bind (framed_eventQuery _ _) fun _ => framed_pure _
    · exact framed_pure _

theorem framed_report (showUuid : Uuid → Str) (path : Str) (body : ReportBody) :
    Framed Kept (report crates principal showUuid path body) := by
  unfold report
  cases classify crates path with
  | calendar user calendar =>
    apply framed_if ?_ (framed_pure _)
    rcases body.kind with _ | kind
    · exact framed_pure _
    · cases kind with
      | freeBusyQuery =>
        dsimp only [freeBusy]
        split
        · exact framed_pure _
        · split
          · exact framed_bind (framed_eventQuery _ _) fun _ =>
              framed_bind (Framed.value (fun _ => .refl _ _) _) fun _ => framed_pure _
          · exact framed_pure _
      | syncCollection => exact framed_bind (framed_sync principal calendar _) fun _ => framed_pure _
      | calendarMultiget =>
        exact framed_bind (framed_if (framed_pure _) (framed_eventQuery _ _)) fun _ =>
          framed_bind (framed_taskQuery _) fun _ => framed_pure _
      | calendarQuery =>
        exact framed_bind (framed_if (framed_eventQuery _ _) (framed_pure _)) fun _ =>
          framed_bind (framed_if (framed_taskQuery _) (framed_pure _)) fun _ => framed_pure _
  | _ => exact framed_pure _

/-- A request changes events only of the calendars that its statements change. -/
theorem run_keeps (showUuid : Uuid → Str) (request : Request) :
    Framed Kept (request.run crates showUuid principal) := by
  cases request with
  | get path => exact framed_get crates principal path
  | head path => exact framed_bind (framed_get crates principal path) fun _ => framed_pure _
  | put path body ambient => exact framed_put crates principal path body ambient
  | delete path now => exact framed_delete crates principal path now
  | report path body => exact framed_report crates principal showUuid path body
  | copy path headers env =>
    exact framed_bind (framed_process crates principal path headers false env) fun _ =>
      framed_pure _
  | move path headers env =>
    exact framed_bind (framed_process crates principal path headers true env) fun _ =>
      framed_pure _

/-- Whoever may not write a calendar of the tenant leaves its events alone, if the rights that
the request needs are there. -/
theorem Rights.events_kept {showUuid : Uuid → Str} {d : State} {request : Request}
    (rights : Rights crates showUuid principal d request) {e : Event}
    (known : Known principal e.calendarId d) (denied : ¬CanWrite principal e.calendarId d) :
    e ∈ (request.run crates showUuid principal d).state.desk.events ↔ e ∈ d.desk.events := by
  apply run_keeps crates principal showUuid request d e
  intro changed
  exact denied ((run_within_iff crates showUuid principal d request).mpr rights _ changed known)

end

/-- A request respects the rights of its principal if and only if the principal has the rights
on the calendars in its URLs: no handler looks them up. -/
theorem respects_rights_iff (crates : Crates) (showUuid : Uuid → Str) (principal : Principal)
    (d : State) (request : Request) :
    Respects crates showUuid principal d request ↔ Rights crates showUuid principal d request :=
  run_within_iff crates showUuid principal d request

/-- The event of user 7 under a path of user 9, who has no grant. -/
theorem get_trespasses :
    let d : State := ⟨proposedDesk, .empty [10]⟩
    let request : Request := .get ("/caldav/00000000-0000-0000-0000-000000000009/".toList ++
      "00000000-0000-0000-0000-00000000000a/a.ics".toList)
    ¬Respects sampleCrates (fun _ => []) ⟨9, 1⟩ d request ∧
      ∃ ev ∈ proposedDesk.events,
        (request.run sampleCrates (fun _ => []) ⟨9, 1⟩ d).result =
          .ok (.ical ev.etag ev.icalRaw) := by
  intro d request
  have selected : .selects 10 ∈ (request.run sampleCrates (fun _ => []) ⟨9, 1⟩ d).trace ∧
      (∃ c ∈ d.desk.calendars, c.isRow 1 10 = true) ∧
      (d.desk.accessLevel 1 10 9).isSome = false ∧
      ∃ ev ∈ proposedDesk.events,
        (request.run sampleCrates (fun _ => []) ⟨9, 1⟩ d).result =
          .ok (.ical ev.etag ev.icalRaw) := by decide +kernel
  obtain ⟨reads, known, denied, answer⟩ := selected
  refine ⟨fun respects => ?_, answer⟩
  have granted : (d.desk.accessLevel 1 10 9).isSome = true := respects _ reads known
  rw [denied] at granted
  cases granted

end Expresso.CalDav.Dav
