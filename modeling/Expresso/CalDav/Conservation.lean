import Expresso.CalDav.MoveCopy

/-! What MOVE conserves, for an event and for a calendar. -/

namespace Expresso.CalDav
open Text

/-! ### Calls -/

theorem isOk_iff {α : Type} {result : Result α} : result.isOk ↔ ∃ a, result = .ok a := by
  cases result <;> simp [Except.isOk, Except.toBool]

section
variable {tenant calendar : Uuid} {uid : Str} {s : Store} {e : Event}

theorem getByUid_ok_iff :
    getByUid tenant calendar uid s = .ok e ↔ e ∈ s.events ∧ e.isAt tenant calendar uid := by
  rw [getByUid]
  constructor
  · intro read
    split at read
    · next found =>
      cases read
      exact ⟨List.mem_of_find?_eq_some found, List.find?_some found⟩
    · cases read
  · rintro ⟨member, here⟩
    obtain ⟨x, found⟩ := Option.isSome_iff_exists.mp (List.find?_isSome.mpr ⟨e, member, here⟩)
    have there : x.isAt tenant calendar uid := List.find?_some found
    rw [found, s.eq_of_under (List.mem_of_find?_eq_some found) member
      (Event.isAt_iff.mp there).2 (Event.isAt_iff.mp here).2]

end

/-! ### Moving an event -/

section
variable (crates : Crates) (principal : Principal) (srcCal : Uuid) (srcUid : Str) (dstCal : Uuid)
  (dstUid : Str) (s : Store)

/-- The destination has the body, the source no longer resolves where it is another one, and
all other events are as before. -/
structure Moved (src : Event) (s' : Store) : Prop where
  arrived : ∃ e ∈ s'.events, e.isAt principal.tenantId dstCal dstUid ∧ e.icalRaw = src.icalRaw
  gone : ¬(srcCal = dstCal ∧ srcUid = dstUid) →
    ∀ e ∈ s'.events, ¬e.isAt principal.tenantId srcCal srcUid
  others : ∀ e, ¬e.isAt principal.tenantId srcCal srcUid →
    ¬e.isAt principal.tenantId dstCal dstUid → (e ∈ s'.events ↔ e ∈ s.events)

/-- A successful request has moved the event, any other has changed nothing. -/
def Conserved : Store × Result Status → Prop
  | (s', .ok .created) | (s', .ok .noContent) =>
      ∃ src ∈ s.events, src.isAt principal.tenantId srcCal srcUid ∧
        Moved principal srcCal srcUid dstCal dstUid s src s'
  | (s', _) => s' = s

/-- The request gets as far as writing the destination: its calls get through, the source is
there, no destination is protected, and the row fits. -/
structure Writes (overwrite : Bool) (env : Env) (src : Event) : Prop where
  read : env.up 0
  source : src ∈ s.events
  here : src.isAt principal.tenantId srcCal srcUid
  free : overwrite ∨ ¬(env.up 1 ∧ ∃ e ∈ s.events, e.isAt principal.tenantId dstCal dstUid)
  call : env.up 2
  fits : ∃ parsed, parseVevent crates src.icalRaw = .ok parsed ∧
    Writable crates principal.tenantId dstCal (env.id 2) src.icalRaw s parsed

/-- A request that writes keeps the UID, and can then delete the source. -/
def KeepsUid (overwrite : Bool) (env : Env) : Prop :=
  ∀ src, Writes crates principal srcCal srcUid dstCal dstUid s overwrite env src →
    srcUid = dstUid ∧ (srcCal = dstCal ∨
      env.up 3 ∧ ctagOf s.calendars principal.tenantId srcCal + 1 < 2 ^ 63)

end

section
variable {crates : Crates} {principal : Principal} {srcCal dstCal : Uuid} {srcUid dstUid : Str}
  {s : Store} {overwrite isMove : Bool} {env : Env}

theorem not_protected_iff :
    ((env.call 1 (getByUid principal.tenantId dstCal dstUid s)).isOk && !overwrite) = false ↔
      overwrite ∨ ¬(env.up 1 ∧ ∃ e ∈ s.events, e.isAt principal.tenantId dstCal dstUid) := by
  have existed : (env.call 1 (getByUid principal.tenantId dstCal dstUid s)).isOk ↔
      env.up 1 ∧ ∃ e ∈ s.events, e.isAt principal.tenantId dstCal dstUid := by
    rw [isOk_iff]
    simp only [Env.call_ok, getByUid_ok_iff, exists_and_left]
  rw [← existed]
  cases (env.call 1 (getByUid principal.tenantId dstCal dstUid s)).isOk <;> cases overwrite <;> simp

theorem written_iff (coherent : Coherent crates s.toTables) {src : Event}
    (source : src ∈ s.events) :
    (∃ s1 e, env.call 2 (replaceByUid crates principal.tenantId dstCal src.icalRaw (env.id 2)
        (env.now 2) s) = .ok (s1, e)) ↔
      env.up 2 ∧ ∃ parsed, parseVevent crates src.icalRaw = .ok parsed ∧
        Writable crates principal.tenantId dstCal (env.id 2) src.icalRaw s parsed := by
  obtain ⟨parsed, accepted, -, body⟩ := coherent.bodies src source
  simp only [Env.call_ok, exists_and_left]
  rw [replaceByUid_ok_iff coherent body accepted, accepted]
  simp

/-- Without a write the store stays as it was. -/
theorem processEvent_reads (coherent : Coherent crates s.toTables)
    (reads : ∀ src, ¬Writes crates principal srcCal srcUid dstCal dstUid s overwrite env src) :
    Conserved principal srcCal srcUid dstCal dstUid s
      (processEvent crates principal srcCal srcUid dstCal dstUid overwrite isMove env s) := by
  rw [processEvent]
  split
  · rfl
  · next src found =>
    obtain ⟨read, found⟩ := Env.call_ok.mp found
    obtain ⟨source, here⟩ := getByUid_ok_iff.mp found
    dsimp only
    split
    · rfl
    · next free =>
      split
      · rfl
      · next s1 e written =>
        obtain ⟨call, fits⟩ := (written_iff coherent source).mp ⟨s1, e, written⟩
        exact absurd ⟨read, source, here, not_protected_iff.1 (by simpa using free), call, fits⟩
          (reads src)

/-- The state after the destination is written. -/
structure Wrote (crates : Crates) (principal : Principal) (srcUid : Str) (dstCal : Uuid)
    (env : Env) (s : Store) (src : Event) (parsed : ParsedEvent) (s1 : Store) : Prop where
  accepted : parseVevent crates src.icalRaw = .ok parsed
  uid : parsed.uid = srcUid
  known : hasCalendar s.calendars principal.tenantId dstCal
  tables : s1.toTables = upserted crates principal.tenantId dstCal (env.id 2) src.icalRaw
    (env.now 2) s parsed
  coherent : Coherent crates s1.toTables

theorem processEvent_writes (coherent : Coherent crates s.toTables) {src : Event}
    (writes : Writes crates principal srcCal srcUid dstCal dstUid s overwrite env src) :
    ∃ parsed s1 status, Wrote crates principal srcUid dstCal env s src parsed s1 ∧
      (status = .created ∨ status = .noContent) ∧
      processEvent crates principal srcCal srcUid dstCal dstUid overwrite true env s =
        if srcCal = dstCal ∧ srcUid = dstUid then (s1, .ok status)
        else match env.call 3 (deleteByUid principal.tenantId srcCal srcUid (env.now 3) s1) with
          | .error e => (s1, .error e)
          | .ok s2 => (s2, .ok status) := by
  obtain ⟨read, source, here, free, call, fits⟩ := writes
  obtain ⟨s1, e, written⟩ := (written_iff coherent source).mpr ⟨call, fits⟩
  have found : env.call 0 (getByUid principal.tenantId srcCal srcUid s) = .ok src :=
    Env.call_ok.mpr ⟨read, getByUid_ok_iff.mpr ⟨source, here⟩⟩
  obtain ⟨-, replaced⟩ := Env.call_ok.mp written
  obtain ⟨parsed, accepted, uid, -⟩ := coherent.bodies src source
  obtain ⟨known, tables⟩ := replaceByUid_tables coherent accepted replaced
  have done : (EventCommand.replaceByUid principal.tenantId dstCal src.icalRaw (env.id 2)).exec
      crates (env.now 2) s = .ok s1 := by
    simp only [EventCommand.exec, replaced, Except.map]
  have sourceUid : src.uid = srcUid := by
    simp only [Event.isAt, Bool.and_eq_true, decide_eq_true_eq] at here
    exact here.2
  refine ⟨parsed, s1, if (env.call 1 (getByUid principal.tenantId dstCal dstUid s)).isOk then
    .noContent else .created, ⟨accepted, uid.trans sourceUid, known, tables,
    EventCommand.exec_coherent coherent done⟩, ?_, ?_⟩
  · split <;> simp
  · cases delete : env.call 3 (deleteByUid principal.tenantId srcCal srcUid (env.now 3) s1) <;>
      simp only [processEvent, found, not_protected_iff.2 free, written, sourceUid, delete,
        Bool.false_eq_true, if_false, true_and, ite_not]

section
variable {src : Event} {parsed : ParsedEvent} {s1 : Store}

theorem Wrote.holds (coherent : Coherent crates s.toTables)
    (wrote : Wrote crates principal srcUid dstCal env s src parsed s1) :
    ∃ e ∈ s1.events, e.isAt principal.tenantId dstCal srcUid ∧ e.icalRaw = src.icalRaw := by
  rw [wrote.tables, ← wrote.uid]
  exact upserted_holds _ _ _ _ coherent wrote.known

theorem Wrote.others (coherent : Coherent crates s.toTables)
    (wrote : Wrote crates principal srcUid dstCal env s src parsed s1) {e : Event}
    (other : ¬e.isAt principal.tenantId dstCal srcUid) : e ∈ s1.events ↔ e ∈ s.events := by
  by_cases under : e.under dstCal parsed.uid
  · -- neither state has such a row of another tenant
    obtain ⟨c, found⟩ : ∃ c, s.calendars.find? (·.isRow principal.tenantId dstCal) = some c :=
      Option.isSome_iff_exists.mp (List.find?_isSome.mpr wrote.known)
    have place := under
    simp only [Event.under, Bool.and_eq_true, decide_eq_true_eq] at place
    rw [wrote.uid] at under
    constructor
    · intro member
      obtain ⟨x, listed, there, -⟩ := wrote.holds coherent
      rw [s1.eq_of_under member listed under (Event.isAt_iff.mp there).2] at other
      exact absurd there other
    · intro member
      exact absurd (Event.isAt_iff.mpr ⟨coherent.tenant_eq found member place.1, under⟩) other
  · rw [wrote.tables]
    exact upserted_others under

theorem Wrote.ctag (wrote : Wrote crates principal srcUid dstCal env s src parsed s1) :
    ctagOf s.calendars principal.tenantId dstCal < ctagOf s1.calendars principal.tenantId dstCal ∧
      ∀ other, other ≠ dstCal → ctagOf s1.calendars principal.tenantId other =
        ctagOf s.calendars principal.tenantId other := by
  rw [wrote.tables]
  exact upserted_ctag wrote.known

theorem Wrote.ne (wrote : Wrote crates principal srcUid dstCal env s src parsed s1) : s1 ≠ s := by
  rintro rfl
  exact absurd wrote.ctag.1 (lt_irrefl _)

/-- A body is stored under its own UID. -/
theorem uid_eq_of_body {s' : Store} {e : Event} {uid : Str} (coherent : Coherent crates s'.toTables)
    (wrote : Wrote crates principal srcUid dstCal env s src parsed s1) (member : e ∈ s'.events)
    (here : e.isAt principal.tenantId dstCal uid) (body : e.icalRaw = src.icalRaw) :
    srcUid = uid := by
  obtain ⟨parsed', accepted, own, -⟩ := coherent.bodies e member
  rw [body, wrote.accepted] at accepted
  cases accepted
  simp only [Event.isAt, Bool.and_eq_true, decide_eq_true_eq] at here
  rw [← wrote.uid, own, here.2]

theorem Wrote.moved_in_place (coherent : Coherent crates s.toTables)
    (wrote : Wrote crates principal srcUid dstCal env s src parsed s1) :
    Moved principal dstCal srcUid dstCal srcUid s src s1 where
  arrived := wrote.holds coherent
  gone different := absurd ⟨rfl, rfl⟩ different
  others _ _ away := wrote.others coherent away

theorem Wrote.moved_across {s2 : Store} (coherent : Coherent crates s.toTables)
    (wrote : Wrote crates principal srcUid dstCal env s src parsed s1) (apart : srcCal ≠ dstCal)
    {now : Timestamp}
    (deleted : s2.toTables = withoutUid principal.tenantId srcCal srcUid now s1) :
    Moved principal srcCal srcUid dstCal srcUid s src s2 where
  arrived := by
    obtain ⟨e, member, here, body⟩ := wrote.holds coherent
    refine ⟨e, ?_, here, body⟩
    rw [deleted]
    refine List.mem_filter.mpr ⟨member, ?_⟩
    simp only [Event.isAt, Bool.and_eq_true, decide_eq_true_eq] at here
    simp [Event.isAt, here.1.2, apart.symm]
  gone _ e member := by
    rw [deleted] at member
    simpa using (List.mem_filter.mp member).2
  others e away elsewhere := by
    rw [deleted, ← wrote.others coherent elsewhere]
    simp [withoutUid, away]

/-- The delete after the write goes through exactly when the tag of the source calendar could be
raised before. -/
theorem Wrote.delete_iff (wrote : Wrote crates principal srcUid dstCal env s src parsed s1)
    (coherent : Coherent crates s.toTables) (source : src ∈ s.events)
    (here : src.isAt principal.tenantId srcCal srcUid) (apart : srcCal ≠ dstCal) (now : Timestamp) :
    (∃ s2, deleteByUid principal.tenantId srcCal srcUid now s1 = .ok s2) ↔
      ctagOf s.calendars principal.tenantId srcCal + 1 < 2 ^ 63 := by
  have elsewhere : ¬src.isAt principal.tenantId dstCal srcUid := by
    simp only [Event.isAt, Bool.and_eq_true, decide_eq_true_eq] at here
    simp [Event.isAt, here.1.2, apart]
  have still := (wrote.others coherent elsewhere).mpr source
  rw [deleteByUid_ok_iff wrote.coherent still here, wrote.ctag.2 srcCal apart]

end

theorem Conserved.success {status : Status} {s' : Store}
    (success : status = .created ∨ status = .noContent) :
    Conserved principal srcCal srcUid dstCal dstUid s (s', .ok status) ↔
      ∃ src ∈ s.events, src.isAt principal.tenantId srcCal srcUid ∧
        Moved principal srcCal srcUid dstCal dstUid s src s' := by
  rcases success with rfl | rfl <;> rfl

/-- A request that writes conserves the events exactly when it keeps the UID and can delete the
source. -/
theorem processEvent_writes_iff (coherent : Coherent crates s.toTables) {src : Event}
    (writes : Writes crates principal srcCal srcUid dstCal dstUid s overwrite env src) :
    Conserved principal srcCal srcUid dstCal dstUid s
        (processEvent crates principal srcCal srcUid dstCal dstUid overwrite true env s) ↔
      srcUid = dstUid ∧ (srcCal = dstCal ∨
        env.up 3 ∧ ctagOf s.calendars principal.tenantId srcCal + 1 < 2 ^ 63) := by
  obtain ⟨parsed, s1, status, wrote, success, result⟩ := processEvent_writes coherent writes
  have source := writes.source
  have here := writes.here
  rw [result]
  by_cases same : srcCal = dstCal ∧ srcUid = dstUid
  · obtain ⟨rfl, rfl⟩ := same
    rw [if_pos ⟨rfl, rfl⟩, Conserved.success success]
    simp only [true_and, true_or, iff_true]
    exact ⟨src, source, here, wrote.moved_in_place coherent⟩
  · rw [if_neg same]
    cases call : env.call 3 (deleteByUid principal.tenantId srcCal srcUid (env.now 3) s1) with
    | error e =>
      have changed : ¬Conserved principal srcCal srcUid dstCal dstUid s (s1, .error e) := wrote.ne
      simp only [changed, false_iff]
      rintro ⟨rfl, rfl | ⟨up, room⟩⟩
      · exact same ⟨rfl, rfl⟩
      · have apart : srcCal ≠ dstCal := fun equal => same ⟨equal, rfl⟩
        obtain ⟨s2, deleted⟩ :=
          (wrote.delete_iff coherent source here apart (env.now 3)).mpr room
        rw [Env.call_ok.mpr ⟨up, deleted⟩] at call
        cases call
    | ok s2 =>
      obtain ⟨up, deleted⟩ := Env.call_ok.mp call
      rw [Conserved.success success]
      constructor
      · rintro ⟨src', source', here', moved⟩
        have one : src' = src := s.eq_of_under source' source (Event.isAt_iff.mp here').2
          (Event.isAt_iff.mp here).2
        subst one
        obtain ⟨e, member, there, body⟩ := moved.arrived
        have done : (EventCommand.deleteByUid principal.tenantId srcCal srcUid).exec crates
            (env.now 3) s1 = .ok s2 := deleted
        obtain rfl := uid_eq_of_body (EventCommand.exec_coherent wrote.coherent done) wrote member
          there body
        have apart : srcCal ≠ dstCal := fun equal => same ⟨equal, rfl⟩
        exact ⟨rfl, .inr ⟨up, (wrote.delete_iff coherent source here apart _).mp ⟨s2, deleted⟩⟩⟩
      · rintro ⟨rfl, -⟩
        have apart : srcCal ≠ dstCal := fun equal => same ⟨equal, rfl⟩
        have elsewhere : ¬src.isAt principal.tenantId dstCal srcUid := by
          simp only [Event.isAt, Bool.and_eq_true, decide_eq_true_eq] at here
          simp [Event.isAt, here.1.2, apart]
        have still := (wrote.others coherent elsewhere).mpr source
        rw [deleteByUid_eq wrote.coherent still here] at deleted
        exact ⟨src, source, here, wrote.moved_across coherent apart
          (Option.some.inj (transaction_ok deleted)).symm⟩

theorem not_conserved_of_empty {result : Store × Result Status} (status : result.2 = .ok .created)
    (events : result.1.events = []) :
    ¬Conserved principal srcCal srcUid dstCal dstUid s result := by
  obtain ⟨s', answer⟩ := result
  cases status
  rintro ⟨src, -, -, moved⟩
  obtain ⟨e, member, -⟩ := moved.arrived
  rw [events] at member
  cases member

variable (principal env) in
/-- MOVE between two event URIs of the principal conserves the events exactly when it writes
nothing, or keeps the UID and can delete the source. -/
theorem mov_conserved_iff (reached : Reachable crates s) {path dest : Str}
    (overwrite : Option Str) (source : classify crates path = .event principal.userId srcCal srcUid)
    (destination : classify crates (stripOrigin (trim dest)) =
      .event principal.userId dstCal dstUid) :
    Conserved principal srcCal srcUid dstCal dstUid s
        (mov crates principal path ⟨some dest, overwrite⟩ env s) ↔
      KeepsUid crates principal srcCal srcUid dstCal dstUid s
        (allowOverwrite ⟨some dest, overwrite⟩) env := by
  have coherent := reached.coherent
  have result : mov crates principal path ⟨some dest, overwrite⟩ env s =
      processEvent crates principal srcCal srcUid dstCal dstUid
        (allowOverwrite ⟨some dest, overwrite⟩) true env s := by
    simp only [mov, process, source, destination, if_true]
  rw [result, KeepsUid]
  by_cases writing : ∃ src, Writes crates principal srcCal srcUid dstCal dstUid s
      (allowOverwrite ⟨some dest, overwrite⟩) env src
  · obtain ⟨src, writes⟩ := writing
    rw [processEvent_writes_iff coherent writes]
    exact ⟨fun keeps _ _ => keeps, fun keeps => keeps src writes⟩
  · push Not at writing
    have stays : Conserved principal srcCal srcUid dstCal dstUid s (processEvent crates principal
        srcCal srcUid dstCal dstUid (allowOverwrite ⟨some dest, overwrite⟩) true env s) :=
      processEvent_reads coherent writing
    exact ⟨fun _ src writes => absurd writes (writing src), fun _ => stays⟩

end

/-- Calendars 10 and 11 of user 7 and tenant 1, and an event in the first. -/
def twoCalendars : Store :=
  [.createCalendar 10 1 7 ⟨"work".toList, none, none, none, false⟩,
    .createCalendar 11 1 7 ⟨"home".toList, none, none, none, false⟩,
    .event (.create 1 10 (plainBody "a".toList) 0)].foldl (Command.run sampleCrates 0) Store.empty

theorem twoCalendars_reachable : Reachable sampleCrates twoCalendars :=
  Reachable.empty.run 0 _

/-- A path of user 7. -/
def userPath (rest : String) : Str :=
  "/caldav/00000000-0000-0000-0000-000000000007/".toList ++ rest.toList

def sampleEnv : Env := ⟨fun _ => true, fun i => i, fun _ => 0⟩

/-- The moves of the samples below, run: to the other calendar, to another name, and a calendar
onto itself. -/
theorem sample_moves :
    let event := userPath "00000000-0000-0000-0000-00000000000a/a.ics"
    let across := userPath "00000000-0000-0000-0000-00000000000b/a.ics"
    let renamed := userPath "00000000-0000-0000-0000-00000000000a/b.ics"
    let calendar := userPath "00000000-0000-0000-0000-00000000000a/"
    (classify sampleCrates event = .event 7 10 "a".toList ∧
      classify sampleCrates (stripOrigin (trim across)) = .event 7 11 "a".toList ∧
      (mov sampleCrates ⟨7, 1⟩ event ⟨some across, none⟩ sampleEnv twoCalendars).2 =
        .ok .created ∧ ctagOf twoCalendars.calendars 1 10 + 1 < 2 ^ 63) ∧
    (twoCalendars.events.length = 1 ∧
      (mov sampleCrates ⟨7, 1⟩ event ⟨some renamed, none⟩ sampleEnv twoCalendars).2 =
        .ok .created ∧
      (mov sampleCrates ⟨7, 1⟩ event ⟨some renamed, none⟩ sampleEnv twoCalendars).1.events = []) ∧
    classify sampleCrates calendar = .calendar 7 10 ∧
      classify sampleCrates (stripOrigin (trim calendar)) = .calendar 7 10 ∧
      (mov sampleCrates ⟨7, 1⟩ calendar ⟨some calendar, none⟩ sampleEnv twoCalendars).2 =
        .ok .noContent ∧
      ∃ e ∈ twoCalendars.events, e.calendarId = 10 := by
  unfold userPath
  repeat rw [String.toList_ofList]
  decide +kernel

/-- From one calendar to the other under the same UID. -/
theorem mov_conserved_across :
    let result := mov sampleCrates ⟨7, 1⟩
      (userPath "00000000-0000-0000-0000-00000000000a/a.ics")
      ⟨some (userPath "00000000-0000-0000-0000-00000000000b/a.ics"), none⟩ sampleEnv twoCalendars
    result.2 = .ok .created ∧
      Conserved ⟨7, 1⟩ 10 "a".toList 11 "a".toList twoCalendars result := by
  obtain ⟨⟨source, destination, status, counted⟩, -⟩ := sample_moves
  have conserved :=
    mov_conserved_iff ⟨7, 1⟩ sampleEnv twoCalendars_reachable none source destination
  refine ⟨status, ?_⟩
  rw [conserved]
  intro src writes
  exact ⟨rfl, .inr ⟨rfl, counted⟩⟩

/-- To another name in its calendar: the row is written under its own UID, then deleted. -/
theorem mov_loses_event :
    let result := mov sampleCrates ⟨7, 1⟩
      (userPath "00000000-0000-0000-0000-00000000000a/a.ics")
      ⟨some (userPath "00000000-0000-0000-0000-00000000000a/b.ics"), none⟩ sampleEnv twoCalendars
    twoCalendars.events.length = 1 ∧ result.2 = .ok .created ∧ result.1.events = [] ∧
      ¬Conserved ⟨7, 1⟩ 10 "a".toList 10 "b".toList twoCalendars result := by
  obtain ⟨-, ⟨single, status, events⟩, -⟩ := sample_moves
  exact ⟨single, status, events, not_conserved_of_empty status events⟩

/-! ### Moving a calendar -/

section
variable {crates : Crates} {principal : Principal} {srcCal dstCal : Uuid} {s s' : Store}
  {env : Env} {overwrite : Bool}

theorem replaceByUid_spec {tenant calendar id : Uuid} {raw : Str} {now : Timestamp} {e : Event}
    (coherent : Coherent crates s.toTables)
    (done : replaceByUid crates tenant calendar raw id now s = .ok (s', e)) :
    Coherent crates s'.toTables ∧ ∃ parsed, parseVevent crates raw = .ok parsed ∧
      (∃ x ∈ s'.events, x.isAt tenant calendar parsed.uid ∧ x.icalRaw = raw) ∧
      ∀ x, ¬x.under calendar parsed.uid → (x ∈ s'.events ↔ x ∈ s.events) := by
  obtain ⟨parsed, accepted, -⟩ := replaceByUid_ok done
  obtain ⟨known, tables⟩ := replaceByUid_tables coherent accepted done
  have exec : (EventCommand.replaceByUid tenant calendar raw id).exec crates now s = .ok s' := by
    simp only [EventCommand.exec, done, Except.map]
  refine ⟨EventCommand.exec_coherent coherent exec, parsed, accepted, ?_, ?_⟩
  · rw [tables]
    exact upserted_holds _ _ _ _ coherent known
  · intro x other
    rw [tables]
    exact upserted_others other

theorem copyEvents_cons {i : Nat} {ev : Event} {rest : List Event}
    (copied : copyEvents crates principal dstCal env i (ev :: rest) s = (s', .ok ())) :
    ∃ s1 e, replaceByUid crates principal.tenantId dstCal ev.icalRaw (env.id i) (env.now i) s =
        .ok (s1, e) ∧ copyEvents crates principal dstCal env (i + 1) rest s1 = (s', .ok ()) := by
  simp only [copyEvents] at copied
  split at copied
  · cases copied
  · next s1 e call => exact ⟨s1, e, (Env.call_ok.mp call).2, copied⟩

/-- Copying leaves the other calendars alone. -/
theorem copyEvents_elsewhere {i : Nat} {events : List Event} (coherent : Coherent crates s.toTables)
    (copied : copyEvents crates principal dstCal env i events s = (s', .ok ())) {e : Event}
    (elsewhere : e.calendarId ≠ dstCal) : e ∈ s'.events ↔ e ∈ s.events := by
  induction events generalizing i s with
  | nil =>
    cases copied
    rfl
  | cons ev rest ih =>
    obtain ⟨s1, _, done, later⟩ := copyEvents_cons copied
    obtain ⟨coherent1, parsed, -, -, others⟩ := replaceByUid_spec coherent done
    rw [ih coherent1 later, others e (by simp [Event.under, elsewhere])]

/-- The events of the calendar, as they were, are under their UIDs. -/
def Holds (calendar : Uuid) (first s : Store) : Prop :=
  ∀ e ∈ first.events, e.calendarId = calendar →
    ∃ e' ∈ s.events, e'.under calendar e.uid ∧ e'.icalRaw = e.icalRaw

/-- Copying a calendar onto itself keeps its events. -/
theorem copyEvents_holds {first : Store} {i : Nat} {events : List Event}
    (original : Coherent crates first.toTables) (coherent : Coherent crates s.toTables)
    (listed : ∀ ev ∈ events, ev ∈ first.events ∧ ev.calendarId = dstCal)
    (holds : Holds dstCal first s)
    (copied : copyEvents crates principal dstCal env i events s = (s', .ok ())) :
    Holds dstCal first s' := by
  induction events generalizing i s with
  | nil =>
    cases copied
    exact holds
  | cons ev rest ih =>
    obtain ⟨s1, _, done, later⟩ := copyEvents_cons copied
    obtain ⟨coherent1, parsed, accepted, ⟨x, new, there, body⟩, others⟩ :=
      replaceByUid_spec coherent done
    obtain ⟨member, place⟩ := listed ev List.mem_cons_self
    obtain ⟨parsed', accepted', uid, -⟩ := original.bodies ev member
    rw [accepted] at accepted'
    cases accepted'
    refine ih coherent1 (fun ev' inRest => listed ev' (List.mem_cons_of_mem ev inRest)) ?_ later
    intro e inFirst here
    by_cases same : e.uid = ev.uid
    · have underE : e.under dstCal ev.uid := by simp [Event.under, here, same]
      have underEv : ev.under dstCal ev.uid := by simp [Event.under, place]
      rw [first.eq_of_under inFirst member underE underEv]
      exact ⟨x, new, uid ▸ (Event.isAt_iff.mp there).2, body⟩
    · obtain ⟨e', held, under, body'⟩ := holds e inFirst here
      refine ⟨e', (others e' ?_).mpr held, under, body'⟩
      intro replaced
      simp only [Event.under, Bool.and_eq_true, decide_eq_true_eq] at under replaced
      exact same (under.2.symm.trans (replaced.2.trans uid))

theorem Coherent.calendarCreated {id tenant owner : Uuid} {input : NewCalendar} {now : Timestamp}
    {row : Calendar} (coherent : Coherent crates s.toTables)
    (created : CalendarRepo.createWithId id tenant owner input now s = .ok (s', row)) :
    Coherent crates s'.toTables := by
  have exec : (Command.createCalendar id tenant owner input).exec crates now s = .ok s' := by
    simp only [Command.exec, created, Except.map]
  exact Command.exec_coherent coherent exec

/-- The steps of a calendar MOVE that succeeds. -/
theorem copyCollection_ok {status : Status} (success : status = .created ∨ status = .noContent)
    (coherent : Coherent crates s.toTables)
    (done : copyCollection crates principal srcCal dstCal overwrite true env s =
      (s', .ok status)) :
    ∃ s1 s2, s1.events = s.events ∧ Coherent crates s1.toTables ∧
      copyEvents crates principal dstCal env 4 (list principal.tenantId srcCal {} s1) s1 =
        (s2, .ok ()) ∧
      ((srcCal = dstCal ∧ s' = s2) ∨ srcCal ≠ dstCal ∧
        ∃ now, CalendarRepo.delete principal.tenantId srcCal now s2 = .ok s') := by
  simp only [copyCollection] at done
  split at done
  · cases done
  · split at done
    · cases done
      rcases success with success | success <;> cases success
    · split at done
      · cases done
      · next s1 made =>
        have first : s1.events = s.events ∧ Coherent crates s1.toTables := by
          split at made
          · cases made
            exact ⟨rfl, coherent⟩
          · obtain ⟨row, created⟩ := map_fst_ok made
            obtain ⟨-, created⟩ := Env.call_ok.mp created
            exact ⟨by rw [(CalendarRepo.createWithId_ok created).1],
              coherent.calendarCreated created⟩
        split at done
        · cases done
        · next events call =>
          obtain ⟨-, listed⟩ := Env.call_ok.mp call
          cases listed
          split at done
          · cases done
          · next s2 copied =>
            refine ⟨s1, s2, first.1, first.2, copied, ?_⟩
            split at done
            · next different =>
              split at done
              · cases done
              · next s3 deleted =>
                cases done
                exact .inr ⟨different.2, _, (Env.call_ok.mp deleted).2⟩
            · next same =>
              cases done
              exact .inl ⟨by simpa using same, rfl⟩

/-- A calendar MOVE that succeeds keeps every event: onto itself it rewrites each in its place,
and another destination is reached only when the source has no events, since a calendar with
events cannot be deleted. -/
theorem mov_collection_conserves (reached : Reachable crates s) {path dest : Str}
    {overwrite : Option Str} {status : Status}
    (source : classify crates path = .calendar principal.userId srcCal)
    (destination : classify crates (stripOrigin (trim dest)) = .calendar principal.userId dstCal)
    (success : status = .created ∨ status = .noContent)
    (answered : (mov crates principal path ⟨some dest, overwrite⟩ env s).2 = .ok status) :
    ∀ e ∈ s.events, e.calendarId = srcCal →
      ∃ e' ∈ (mov crates principal path ⟨some dest, overwrite⟩ env s).1.events,
        e'.calendarId = dstCal ∧ e'.uid = e.uid ∧ e'.icalRaw = e.icalRaw := by
  intro e member here
  have coherent := reached.coherent
  obtain ⟨s', done⟩ : ∃ s', mov crates principal path ⟨some dest, overwrite⟩ env s =
      (s', .ok status) := ⟨_, Prod.ext rfl answered⟩
  rw [done]
  simp only [mov, process, processCollection, source, destination, if_true] at done
  obtain ⟨s1, s2, events, coherent1, copied, rest⟩ := copyCollection_ok success coherent done
  rcases rest with ⟨rfl, rfl⟩ | ⟨apart, now, deleted⟩
  · have listed : ∀ ev ∈ list principal.tenantId srcCal {} s1,
        ev ∈ s1.events ∧ ev.calendarId = srcCal := by
      intro ev inList
      obtain ⟨inEvents, place⟩ := mem_list inList
      exact ⟨inEvents, (Event.isIn_iff.mp place).2⟩
    have before : Holds srcCal s1 s1 := fun x inEvents place =>
      ⟨x, inEvents, by simp [Event.under, place], rfl⟩
    obtain ⟨e', held, under, body⟩ :=
      copyEvents_holds coherent1 coherent1 listed before copied e (events ▸ member) here
    simp only [Event.under, Bool.and_eq_true, decide_eq_true_eq] at under
    exact ⟨e', held, under.1, under.2, body⟩
  · obtain ⟨noEvents, -⟩ := CalendarRepo.delete_ok deleted
    have still := (copyEvents_elsewhere coherent1 copied (here ▸ apart)).mpr (events ▸ member)
    exact absurd here (noEvents e still)

end

/-- A calendar with an event, onto itself. -/
theorem mov_collection_conserves_itself :
    let result := mov sampleCrates ⟨7, 1⟩ (userPath "00000000-0000-0000-0000-00000000000a/")
      ⟨some (userPath "00000000-0000-0000-0000-00000000000a/"), none⟩ sampleEnv twoCalendars
    result.2 = .ok .noContent ∧ (∃ e ∈ twoCalendars.events, e.calendarId = 10) ∧
      ∀ e ∈ twoCalendars.events, e.calendarId = 10 →
        ∃ e' ∈ result.1.events, e'.calendarId = 10 ∧ e'.uid = e.uid ∧ e'.icalRaw = e.icalRaw := by
  obtain ⟨-, -, source, destination, status, listed⟩ := sample_moves
  exact ⟨status, listed,
    mov_collection_conserves twoCalendars_reachable source destination (.inr rfl) status⟩

end Expresso.CalDav
