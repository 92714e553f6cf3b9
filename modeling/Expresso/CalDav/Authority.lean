import Expresso.CalDav.Scheduling

/-! Which scheduling requests change rows of a calendar that their user may not write. -/

namespace Expresso.CalDav
open Text Time Transition

/-- The owner of a calendar of the tenant, and those with a grant to write or to administer. -/
def WriteAccess (ctx : RequestCtx) (calendar : Uuid) (d : Desk) : Prop :=
  ∃ c ∈ d.calendars, c.id = calendar ∧ c.tenantId = ctx.tenantId ∧
    (c.ownerUserId = ctx.userId ∨
      ∃ a ∈ d.acl, a.calendarId = calendar ∧ a.tenantId = ctx.tenantId ∧
        a.granteeId = ctx.userId ∧ a.privilege ≠ .read)

/-- The rows of the calendar's events, and of the proposals for them, are as before. -/
def Untouched (calendar : Uuid) (d d' : Desk) : Prop :=
  (∀ e : Event, e.calendarId = calendar → (e ∈ d'.events ↔ e ∈ d.events)) ∧
  ∀ p : CounterProposal, (∃ e ∈ d.events, e.id = p.eventId ∧ e.calendarId = calendar) →
    (p ∈ d'.proposals ↔ p ∈ d.proposals)

/-- A request to the scheduling endpoints that may write, with the ids and times it is given. -/
inductive SchedulingRequest where
  | inbox (body : Str) (pick : Picker) (id : Uuid) (now : Timestamp) (jetstream : Bool)
  | acceptCounter (id : Uuid) (now resolvedAt : Timestamp)
  | rejectCounter (id : Uuid) (resolvedAt : Timestamp)

/-- The tables after a request. -/
def SchedulingRequest.effect (crates : Crates) (formats : Formats) (ctx : RequestCtx) (d : Desk) :
    SchedulingRequest → Desk
  | inbox body pick id now jetstream =>
      ((CalDav.inbox crates formats ctx pick body id now jetstream).run d).1
  | acceptCounter id now resolvedAt =>
      ((CalDav.acceptCounter formats ctx id crates now resolvedAt).run d).1
  | rejectCounter id resolvedAt => ((CalDav.rejectCounter formats ctx id resolvedAt).run d).1

/-- A request leaves the calendars alone that its user may not write. -/
def RespectsAccess (crates : Crates) (formats : Formats) (ctx : RequestCtx) (d : Desk)
    (request : SchedulingRequest) : Prop :=
  ∀ calendar, ¬ WriteAccess ctx calendar d →
    Untouched calendar d (request.effect crates formats ctx d)

section
variable {ctx : RequestCtx} {calendar : Uuid} {d : Desk}

theorem accessLevel_of_row {c : Calendar} (member : c ∈ d.calendars) (same : c.id = calendar)
    (mine : c.tenantId = ctx.tenantId) :
    d.calendars.find? (·.isRow ctx.tenantId calendar) = some c := by
  have row : c.isRow ctx.tenantId calendar := by simp [Calendar.isRow, same, mine]
  obtain ⟨c', found⟩ := Option.isSome_iff_exists.mp (List.find?_isSome.mpr ⟨c, member, row⟩)
  have row' := List.find?_some found
  simp only [Calendar.isRow, Bool.and_eq_true, decide_eq_true_eq] at row'
  rw [found, List.inj_on_of_nodup_map d.constraints.1 (List.mem_of_find?_eq_some found) member
    (row'.1.trans same.symm)]

theorem grant_find {a : AclEntry} (member : a ∈ d.acl) (here : a.calendarId = calendar)
    (mine : a.tenantId = ctx.tenantId) (grantee : a.granteeId = ctx.userId) :
    d.acl.find? (fun a => a.calendarId = calendar && a.tenantId = ctx.tenantId &&
      a.granteeId = ctx.userId) = some a := by
  obtain ⟨a', found⟩ := Option.isSome_iff_exists.mp (List.find?_isSome.mpr
    ⟨a, member, by simp [here, mine, grantee]⟩ :
      (d.acl.find? (fun a => a.calendarId = calendar && a.tenantId = ctx.tenantId &&
        a.granteeId = ctx.userId)).isSome)
  have row := List.find?_some found
  simp only [Bool.and_eq_true, decide_eq_true_eq] at row
  have same : (a'.calendarId, a'.granteeId) = (a.calendarId, a.granteeId) :=
    Prod.ext (row.1.1.trans here.symm) (row.2.trans grantee.symm)
  rw [found, List.inj_on_of_nodup_map d.valid.1 (List.mem_of_find?_eq_some found) member same]

/-- The check of the handlers is the access right. -/
theorem assertCanWrite_ok_iff :
    d.assertCanWrite ctx.tenantId calendar ctx.userId = .ok () ↔ WriteAccess ctx calendar d := by
  constructor
  · intro granted
    simp only [Desk.assertCanWrite, Desk.accessLevel] at granted
    cases found : d.calendars.find? (·.isRow ctx.tenantId calendar) with
    | none => simp [found] at granted
    | some c =>
      have row := List.find?_some found
      simp only [Calendar.isRow, Bool.and_eq_true, decide_eq_true_eq] at row
      refine ⟨c, List.mem_of_find?_eq_some found, row.1, row.2, ?_⟩
      rw [found] at granted
      by_cases owner : c.ownerUserId = ctx.userId
      · exact .inl owner
      · right
        simp only [owner, if_false] at granted
        cases entry : d.acl.find? (fun a => a.calendarId = calendar && a.tenantId = ctx.tenantId &&
            a.granteeId = ctx.userId) with
        | none => simp [entry] at granted
        | some a =>
          have match_ := List.find?_some entry
          simp only [Bool.and_eq_true, decide_eq_true_eq] at match_
          refine ⟨a, List.mem_of_find?_eq_some entry, match_.1.1, match_.1.2, match_.2, ?_⟩
          intro reads
          simp [entry, reads] at granted
  · rintro ⟨c, member, same, mine, owner | ⟨a, listed, here, mine', grantee, writes⟩⟩
    · simp [Desk.assertCanWrite, Desk.accessLevel, accessLevel_of_row member same mine, owner]
    · simp only [Desk.assertCanWrite, Desk.accessLevel, accessLevel_of_row member same mine,
        grant_find listed here mine' grantee]
      by_cases owner : c.ownerUserId = ctx.userId
      · simp [owner]
      · cases privilege : a.privilege with
        | read => exact absurd privilege writes
        | write => simp [owner, privilege]
        | admin => simp [owner, privilege]

end

/-! ### Writes to a calendar -/

/-- The calendars of the tenant that its user may not write are as before. -/
def Confined (ctx : RequestCtx) (d d' : Desk) : Prop :=
  ∀ calendar, ¬ WriteAccess ctx calendar d → Untouched calendar d d'

section
variable {ctx : RequestCtx} {calendar : Uuid} {d d' : Desk}

theorem Confined.refl (ctx : RequestCtx) (d : Desk) : Confined ctx d d :=
  fun _ _ => ⟨fun _ _ => .rfl, fun _ _ => .rfl⟩

theorem commit_desk_ok {s : Store} {acl : List AclEntry} {proposals : List CounterProposal}
    (committed : Desk.commit s acl proposals = .ok d') :
    d'.toStore = s ∧ d'.acl = acl ∧ d'.proposals = proposals := by
  simp only [Desk.commit] at committed
  split at committed
  · cases committed
    exact ⟨rfl, rfl, rfl⟩
  · cases committed

theorem onStore_ok {α : Type} {method : Store → Result (Store × α)} {a : α}
    (done : Desk.onStore method d = .ok (d', a)) :
    method d.toStore = .ok (d'.toStore, a) ∧ d'.acl = d.acl ∧ d'.proposals = d.proposals := by
  simp only [Desk.onStore, bind_eq_ok_iff, Prod.exists, Except.ok.injEq, Prod.mk.injEq] at done
  obtain ⟨s, _, written, _, committed, rfl, rfl⟩ := done
  obtain ⟨rfl, acl, proposals⟩ := commit_desk_ok committed
  exact ⟨written, acl, proposals⟩

/-- Event rows written in a calendar that the user may write. -/
theorem Confined.events (access : WriteAccess ctx calendar d)
    (elsewhere : ∀ e : Event, e.calendarId ≠ calendar → (e ∈ d'.events ↔ e ∈ d.events))
    (proposals : d'.proposals = d.proposals) : Confined ctx d d' := by
  intro other denied
  refine ⟨?_, fun p _ => by rw [proposals]⟩
  intro e here
  apply elsewhere e
  rintro rfl
  exact denied (here ▸ access)

theorem replaceByUid_elsewhere {crates : Crates} {tenant id : Uuid} {raw : Str} {now : Timestamp}
    {s s' : Store} {row e : Event}
    (done : replaceByUid crates tenant calendar raw id now s = .ok (s', row))
    (other : e.calendarId ≠ calendar) : e ∈ s'.events ↔ e ∈ s.events := by
  obtain ⟨parsed, -, ⟨-, inserted⟩ | ⟨-, changed⟩⟩ := replaceByUid_ok done
  · exact inserted.elsewhere other
  · refine changed.elsewhere (fun e _ under => ?_) other
    simp only [Event.under, Bool.and_eq_true, decide_eq_true_eq] at under
    exact ⟨under.1, under.1⟩

theorem update_elsewhere {crates : Crates} {tenant id : Uuid} {raw : Str} {now : Timestamp}
    {s s' : Store} {row old e : Event} (listed : old ∈ s.events) (isRow : old.isRow tenant id)
    (done : update crates tenant id raw now s = .ok (s', row))
    (other : e.calendarId ≠ old.calendarId) : e ∈ s'.events ↔ e ∈ s.events := by
  obtain ⟨parsed, -, changed⟩ := update_ok done
  refine changed.elsewhere (fun e member chosen => ?_) other
  simp only [Event.isRow, Bool.and_eq_true, decide_eq_true_eq] at chosen isRow
  have same := s.eq_of_id member listed (chosen.2.trans isRow.2.symm)
  subst same
  exact ⟨rfl, rfl⟩

theorem Confined.replaced {crates : Crates} {tenant id : Uuid} {raw : Str} {now : Timestamp}
    {row : Event} (access : WriteAccess ctx calendar d)
    (done : Desk.onStore (replaceByUid crates tenant calendar raw id now) d = .ok (d', row)) :
    Confined ctx d d' := by
  obtain ⟨written, -, proposals⟩ := onStore_ok done
  exact .events access (fun e => replaceByUid_elsewhere written) proposals

/-- A proposal for an event of a calendar that the user may write. -/
theorem Confined.proposed {ev : Event} {row : CounterProposal}
    (access : WriteAccess ctx ev.calendarId d) (listed : ev ∈ d.events)
    (about : row.eventId = ev.id) (store : d'.toStore = d.toStore)
    (proposals : d'.proposals = d.proposals ++ [row]) : Confined ctx d d' := by
  intro other denied
  refine ⟨fun e _ => by rw [store], ?_⟩
  rintro p ⟨e, member, isEvent, here⟩
  rw [proposals, List.mem_append, List.mem_singleton]
  constructor
  · rintro (old | rfl)
    · exact old
    · have same := d.eq_of_id member listed (isEvent.trans about)
      rw [same] at here
      exact absurd (here ▸ access) denied
  · exact .inl

/-! ### The inbox -/

variable {α β : Type} {next : β → Handler α}

theorem Confined.lift {x : Result β}
    (rest : ∀ b, x = .ok b → Confined ctx d ((next b).run d).1) :
    Confined ctx d ((CalDav.lift x next).run d).1 := by
  cases outcome : x with
  | error e => exact .refl ctx d
  | ok b => exact rest b outcome

theorem Confined.read {method : Desk → Result β}
    (rest : ∀ b, method d = .ok b → Confined ctx d ((next b).run d).1) :
    Confined ctx d ((CalDav.read method next).run d).1 := by
  rw [run_read]
  exact .lift rest

theorem Confined.call {method : Desk → Result (Desk × β)}
    (rest : ∀ d' b, method d = .ok (d', b) → Confined ctx d ((next b).run d').1) :
    Confined ctx d ((CalDav.call method next).run d).1 := by
  cases outcome : method d with
  | error e =>
    rw [run_call_error outcome]
    exact .refl ctx d
  | ok written =>
    rw [run_call_ok outcome]
    exact rest _ _ outcome

theorem findByUid_mem {pick : Picker} {tenant : Uuid} {uid : Str} {ev : Event}
    (found : findByUidInTenant pick tenant uid d = .ok (some ev)) :
    ev ∈ d.events ∧ ev.tenantId = tenant ∧ ev.uid = uid := by
  have listed := pick.among _ ev (Except.ok.inj found)
  simpa using List.mem_filter.mp listed

variable {crates : Crates} {formats : Formats} {pick : Picker} {parsed : ParsedEvent} {body : Str}
  {id : Uuid} {now : Timestamp}

theorem handleReply_confined :
    Confined ctx d ((handleReply crates formats ctx pick parsed body id now).run d).1 := by
  rw [handleReply]
  split
  · exact .refl ctx d
  · refine .read fun event found => ?_
    cases event with
    | none => exact .refl ctx d
    | some ev =>
      refine .read fun _ granted => .lift fun stored _ => ?_
      split
      · exact .refl ctx d
      · refine .lift fun newRaw _ => ?_
        split
        · exact .refl ctx d
        · exact .call fun d' row written => .replaced (assertCanWrite_ok_iff.mp granted) written

theorem handleCancel_confined :
    Confined ctx d ((handleCancel crates ctx pick parsed id now).run d).1 := by
  rw [handleCancel]
  refine .read fun event found => ?_
  cases event with
  | none => exact .refl ctx d
  | some ev =>
    refine .read fun _ granted => .lift fun stored _ => ?_
    split
    · exact .refl ctx d
    · refine .lift fun newRaw _ => ?_
      split
      · exact .refl ctx d
      · exact .call fun d' row written => .replaced (assertCanWrite_ok_iff.mp granted) written

theorem handleCounter_confined :
    Confined ctx d ((handleCounter formats ctx pick parsed body id now).run d).1 := by
  rw [handleCounter]
  refine .read fun event found => ?_
  split
  · next ev a attends =>
    refine .read fun _ granted => ?_
    cases inserted : Desk.insertProposal ctx.tenantId ev.id a.email parsed.dtstart parsed.dtend
        (Itip.parseComment body) (some parsed.sequence) (some body) id now d with
    | error e =>
      simp only [attempt, Request.run, inserted]
      exact .refl ctx d
    | ok written =>
      obtain ⟨d', row⟩ := written
      simp only [attempt, Request.run, inserted]
      simp only [Desk.insertProposal, bind_eq_ok_iff, Except.ok.injEq, Prod.mk.injEq] at inserted
      obtain ⟨_, committed, rfl, rfl⟩ := inserted
      obtain ⟨store, -, proposals⟩ := commit_desk_ok committed
      exact .proposed (assertCanWrite_ok_iff.mp granted) (findByUid_mem found).1 rfl store proposals
  · exact .refl ctx d

theorem handleRefresh_confined {jetstream : Bool} :
    Confined ctx d ((handleRefresh ctx pick parsed jetstream).run d).1 := by
  rw [handleRefresh]
  refine .read fun event found => ?_
  cases event with
  | none => exact .refl ctx d
  | some ev => exact .read fun _ _ => .refl ctx d

theorem inbox_confined {jetstream : Bool} :
    Confined ctx d ((inbox crates formats ctx pick body id now jetstream).run d).1 := by
  rw [inbox]
  split
  · exact .refl ctx d
  · next method _ =>
    refine .lift fun parsed _ => ?_
    by_cases reply : method = "REPLY".toList
    · rw [if_pos reply]
      exact handleReply_confined
    rw [if_neg reply]
    by_cases counter : method = "COUNTER".toList
    · rw [if_pos counter]
      exact handleCounter_confined
    rw [if_neg counter]
    by_cases refresh : method = "REFRESH".toList
    · rw [if_pos refresh]
      exact handleRefresh_confined
    rw [if_neg refresh]
    by_cases cancel : method = "CANCEL".toList
    · rw [if_pos cancel]
      exact handleCancel_confined
    · rw [if_neg cancel]
      exact .refl ctx d

end

/-! ### Decisions -/

/-- The proposal that a decision is about can be read and is pending. -/
def Decides (ctx : RequestCtx) (id : Uuid) (d : Desk) (p : CounterProposal)
    (start stop : Option OffsetDateTime) : Prop :=
  d.getProposal ctx.tenantId id = .ok (some (p, start, stop)) ∧ p.status = .pending

section
variable {ctx : RequestCtx} {tenant id : Uuid} {d d' : Desk} {p : CounterProposal}
  {start stop : Option OffsetDateTime} {status : ProposalStatus} {decidedBy : Option Uuid}
  {now : Timestamp}

theorem getProposal_mem (found : d.getProposal tenant id = .ok (some (p, start, stop))) :
    p ∈ d.proposals ∧ p.tenantId = tenant ∧ p.id = id := by
  simp only [Desk.getProposal] at found
  cases listed : d.proposals.find? (fun p => p.tenantId = tenant && p.id = id) with
  | none => simp [listed] at found
  | some q =>
    simp only [listed, bind_eq_ok_iff, Except.ok.injEq, Option.some.injEq, Prod.mk.injEq] at found
    obtain ⟨_, -, _, -, rfl, -, -⟩ := found
    have row := List.find?_some listed
    simp only [Bool.and_eq_true, decide_eq_true_eq] at row
    exact ⟨List.mem_of_find?_eq_some listed, row.1, row.2⟩

theorem resolved_id (p : CounterProposal) :
    (Desk.resolved tenant id status decidedBy now p).id = p.id := by
  rw [Desk.resolved]
  split <;> rfl

theorem resolved_eventId (p : CounterProposal) :
    (Desk.resolved tenant id status decidedBy now p).eventId = p.eventId := by
  rw [Desk.resolved]
  split <;> rfl

theorem resolve_valid (d : Desk) :
    DeskConstraints d.toStore d.acl
      (d.proposals.map (Desk.resolved tenant id status decidedBy now)) := by
  obtain ⟨grants, calendars, ids, references, texts⟩ := d.valid
  refine ⟨grants, calendars, ?_, ?_, ?_⟩
  · have same : (d.proposals.map (Desk.resolved tenant id status decidedBy now)).map (·.id) =
        d.proposals.map (·.id) := by
      rw [List.map_map]
      exact List.map_congr_left fun p _ => resolved_id p
    rw [same]
    exact ids
  · intro p member
    obtain ⟨q, listed, rfl⟩ := List.mem_map.mp member
    rw [resolved_eventId]
    exact references q listed
  · intro p member
    obtain ⟨q, listed, rfl⟩ := List.mem_map.mp member
    have same : (Desk.resolved tenant id status decidedBy now q).attendeeEmail = q.attendeeEmail ∧
        (Desk.resolved tenant id status decidedBy now q).comment = q.comment ∧
        (Desk.resolved tenant id status decidedBy now q).rawIcal = q.rawIcal := by
      rw [Desk.resolved]
      split <;> exact ⟨rfl, rfl, rfl⟩
    rw [same.1, same.2.1, same.2.2]
    exact texts q listed

/-- `resolve` succeeds whether or not there is a pending row. -/
theorem resolve_ok (d : Desk) : ∃ d',
    d.resolve tenant id status decidedBy now = .ok (d', ()) ∧ d'.toStore = d.toStore ∧
      d'.proposals = d.proposals.map (Desk.resolved tenant id status decidedBy now) := by
  refine ⟨⟨d.toStore, d.acl, _, resolve_valid d⟩, ?_, rfl, rfl⟩
  simp only [Desk.resolve, Desk.commit, dif_pos (resolve_valid d)]
  rfl

theorem mem_resolved_iff {proposals : List CounterProposal} (other : p.id ≠ id) :
    p ∈ proposals.map (Desk.resolved tenant id status decidedBy now) ↔ p ∈ proposals := by
  have kept : ∀ q : CounterProposal, q.id ≠ id →
      Desk.resolved tenant id status decidedBy now q = q := by
    intro q different
    rw [Desk.resolved, if_neg fun all => different all.2.1]
  constructor
  · intro member
    obtain ⟨q, listed, rfl⟩ := List.mem_map.mp member
    rw [resolved_id] at other
    rwa [kept q other]
  · intro member
    exact List.mem_map.mpr ⟨p, member, kept p other⟩

/-- A pending row does not survive its resolution. -/
theorem not_mem_resolved (member : p ∈ d.proposals) (mine : p.tenantId = tenant) (same : p.id = id)
    (pending : p.status = .pending) (decided : status ≠ .pending) :
    p ∉ d.proposals.map (Desk.resolved tenant id status decidedBy now) := by
  intro still
  obtain ⟨q, listed, isP⟩ := List.mem_map.mp still
  have isQ : q = p := by
    apply List.inj_on_of_nodup_map d.valid.2.2.1 listed member
    rw [← isP, resolved_id]
  subst isQ
  rw [Desk.resolved, if_pos ⟨mine, same, pending⟩] at isP
  exact decided (by rw [← pending, ← isP])

theorem run_finish (resolvedAt : Timestamp) : ∃ d',
    (finish ctx id status resolvedAt).run d = (d', .ok ()) ∧ d'.toStore = d.toStore ∧
      d'.proposals = d.proposals.map
        (Desk.resolved ctx.tenantId id status (some ctx.userId) resolvedAt) := by
  obtain ⟨d', done, store, proposals⟩ :=
    @resolve_ok ctx.tenantId id status (some ctx.userId) resolvedAt d
  exact ⟨d', by rw [finish, run_call_ok done, run_done], store, proposals⟩

section
variable {formats : Formats}
  {next : CounterProposal → Option OffsetDateTime → Option OffsetDateTime → Handler Unit}

/-- A decision that is not about a pending proposal stops with an error. -/
theorem checkPending_undecided (undecided : ∀ p start stop, ¬ Decides ctx id d p start stop) :
    ∃ e, lift (d.getProposal ctx.tenantId id) (checkPending formats id next) =
      .done (.error e) := by
  cases found : d.getProposal ctx.tenantId id with
  | error e => exact ⟨e, rfl⟩
  | ok row =>
    match row with
    | none => exact ⟨_, rfl⟩
    | some (p, start, stop) =>
      rw [lift, checkPending, if_neg fun pending => undecided p start stop ⟨found, pending⟩]
      exact ⟨_, rfl⟩

theorem checkPending_decides (decides : Decides ctx id d p start stop) :
    lift (d.getProposal ctx.tenantId id) (checkPending formats id next) = next p start stop := by
  rw [decides.1, lift, checkPending, if_pos decides.2]

theorem run_pendingProposal_undecided
    (undecided : ∀ p start stop, ¬ Decides ctx id d p start stop) :
    ((pendingProposal formats ctx id next).run d).1 = d := by
  obtain ⟨e, stops⟩ := @checkPending_undecided ctx id d formats next undecided
  rw [pendingProposal, run_read, stops, run_done]

theorem run_pendingProposal (decides : Decides ctx id d p start stop) :
    (pendingProposal formats ctx id next).run d = (next p start stop).run d := by
  rw [pendingProposal, run_read, checkPending_decides decides]

end

/-- The resolution of a proposal for an event of a calendar that the user may write. -/
theorem Confined.resolves {ev : Event} {d'' : Desk} {resolvedAt : Timestamp}
    (confined : Confined ctx d d') (decides : Decides ctx id d p start stop)
    (access : WriteAccess ctx ev.calendarId d) (listed : ev ∈ d.events)
    (about : ev.id = p.eventId) (store : d''.toStore = d'.toStore)
    (proposals : d''.proposals = d.proposals.map
      (Desk.resolved ctx.tenantId id status (some ctx.userId) resolvedAt)) :
    Confined ctx d d'' := by
  intro calendar denied
  refine ⟨fun e here => by rw [store]; exact (confined calendar denied).1 e here, ?_⟩
  rintro q ⟨e, member, isEvent, here⟩
  rw [proposals]
  by_cases other : q.id = id
  · obtain ⟨present, -, isId⟩ := getProposal_mem decides.1
    have keeps : q ∈ d.proposals → False := by
      intro known
      have isP := List.inj_on_of_nodup_map d.valid.2.2.1 known present (other.trans isId.symm)
      rw [isP] at isEvent
      have same := d.eq_of_id member listed (isEvent.trans about.symm)
      rw [same] at here
      exact denied (here ▸ access)
    refine iff_of_false (fun still => ?_) keeps
    obtain ⟨q', known, rfl⟩ := List.mem_map.mp still
    rw [resolved_id] at other
    rw [resolved_eventId] at isEvent
    have isP := List.inj_on_of_nodup_map d.valid.2.2.1 known present (other.trans isId.symm)
    rw [isP] at isEvent
    have same := d.eq_of_id member listed (isEvent.trans about.symm)
    rw [same] at here
    exact denied (here ▸ access)
  · exact mem_resolved_iff other

/-- A decision that goes through is seen in the calendar of the event. -/
theorem not_untouched_of_resolved {ev : Event} {resolvedAt : Timestamp}
    (decides : Decides ctx id d p start stop) (listed : ev ∈ d.events) (about : ev.id = p.eventId)
    (decided : status ≠ .pending)
    (proposals : d'.proposals = d.proposals.map
      (Desk.resolved ctx.tenantId id status (some ctx.userId) resolvedAt)) :
    ¬ Untouched ev.calendarId d d' := by
  intro untouched
  obtain ⟨present, mine, isId⟩ := getProposal_mem decides.1
  have still := (untouched.2 p ⟨ev, listed, about, rfl⟩).mpr present
  rw [proposals] at still
  exact not_mem_resolved present mine isId decides.2 decided still

end

/-! ### All requests -/

/-- A rejection needs the right to write the calendar of the proposal's event, if the proposal
can be read and is pending; an acceptance, if also the event takes the proposed times. -/
def Permitted (crates : Crates) (ctx : RequestCtx) (d : Desk) : SchedulingRequest → Prop
  | .inbox _ _ _ _ _ => True
  | .rejectCounter id _ => ∀ p start stop, Decides ctx id d p start stop →
      ∀ ev ∈ d.events, ev.id = p.eventId → WriteAccess ctx ev.calendarId d
  | .acceptCounter id now _ => ∀ p start stop, Decides ctx id d p start stop →
      ∀ ev, get ctx.tenantId p.eventId d.toStore = .ok ev →
      ∀ raw, Itip.applyProposedTimes ev.icalRaw start stop = .ok raw →
        (∃ updated, Desk.onStore (update crates ctx.tenantId ev.id raw now) d = .ok updated) →
          WriteAccess ctx ev.calendarId d

section
variable {crates : Crates} {formats : Formats} {ctx : RequestCtx} {d : Desk} {id : Uuid}
  {now resolvedAt : Timestamp}

theorem get_ok {tenant id : Uuid} {s : Store} {e : Event} (found : get tenant id s = .ok e) :
    e ∈ s.events ∧ e.isRow tenant id := by
  simp only [get] at found
  split at found
  · next row listed =>
    cases found
    exact ⟨List.mem_of_find?_eq_some listed, List.find?_some listed⟩
  · cases found

theorem rejectCounter_respects_iff :
    RespectsAccess crates formats ctx d (.rejectCounter id resolvedAt) ↔
      Permitted crates ctx d (.rejectCounter id resolvedAt) := by
  constructor
  · intro respects p start stop decides ev listed about
    by_contra denied
    obtain ⟨d', ran, -, proposals⟩ :=
      @run_finish ctx id d .rejected resolvedAt
    have effect : (SchedulingRequest.rejectCounter id resolvedAt).effect crates formats ctx d =
        d' := by
      simp only [SchedulingRequest.effect, rejectCounter, run_pendingProposal decides, ran]
    have untouched := respects ev.calendarId denied
    rw [effect] at untouched
    exact not_untouched_of_resolved decides listed about (by decide) proposals untouched
  · intro permitted
    change Confined ctx d ((rejectCounter formats ctx id resolvedAt).run d).1
    by_cases decided : ∃ p start stop, Decides ctx id d p start stop
    · obtain ⟨p, start, stop, decides⟩ := decided
      obtain ⟨d', ran, store, proposals⟩ := @run_finish ctx id d .rejected resolvedAt
      rw [rejectCounter, run_pendingProposal decides, ran]
      have present := (getProposal_mem decides.1).1
      obtain ⟨ev, listed, about⟩ := List.mem_map.mp (d.valid.2.2.2.1 p present)
      exact (Confined.refl ctx d).resolves decides
        (permitted p start stop decides ev listed about) listed about store proposals
    · rw [rejectCounter, run_pendingProposal_undecided
        fun p start stop decides => decided ⟨p, start, stop, decides⟩]
      exact .refl ctx d

/-- An acceptance, past the check that the proposal is pending. -/
theorem run_acceptCounter {p : CounterProposal} {start stop : Option OffsetDateTime}
    (decides : Decides ctx id d p start stop) :
    (acceptCounter formats ctx id crates now resolvedAt).run d =
      match get ctx.tenantId p.eventId d.toStore with
      | .error _ => (d, .error (.eventNotFound p.eventId))
      | .ok ev =>
          (lift (Itip.applyProposedTimes ev.icalRaw start stop) fun raw =>
            call (Desk.onStore (update crates ctx.tenantId ev.id raw now)) fun _ =>
              finish ctx id .accepted resolvedAt).run d := by
  rw [acceptCounter, run_pendingProposal decides, eventOf, Request.run]
  cases get ctx.tenantId p.eventId d.toStore <;> rfl

theorem acceptCounter_respects_iff :
    RespectsAccess crates formats ctx d (.acceptCounter id now resolvedAt) ↔
      Permitted crates ctx d (.acceptCounter id now resolvedAt) := by
  constructor
  · rintro respects p start stop decides ev found raw applied ⟨⟨d₁, row⟩, updated⟩
    by_contra denied
    obtain ⟨-, -, proposals₁⟩ := onStore_ok updated
    obtain ⟨d₂, ran, -, proposals⟩ := @run_finish ctx id d₁ .accepted resolvedAt
    have effect : (SchedulingRequest.acceptCounter id now resolvedAt).effect crates formats ctx d =
        d₂ := by
      simp only [SchedulingRequest.effect, run_acceptCounter decides, found, run_lift_ok applied,
        run_call_ok updated, ran]
    have untouched := respects ev.calendarId denied
    rw [effect] at untouched
    obtain ⟨listed, isRow⟩ := get_ok found
    simp only [Event.isRow, Bool.and_eq_true, decide_eq_true_eq] at isRow
    rw [proposals₁] at proposals
    exact not_untouched_of_resolved decides listed isRow.2 (by decide) proposals untouched
  · intro permitted
    change Confined ctx d ((acceptCounter formats ctx id crates now resolvedAt).run d).1
    by_cases decided : ∃ p start stop, Decides ctx id d p start stop
    · obtain ⟨p, start, stop, decides⟩ := decided
      rw [run_acceptCounter decides]
      cases found : get ctx.tenantId p.eventId d.toStore with
      | error e => exact .refl ctx d
      | ok ev =>
        obtain ⟨listed, isRow⟩ := get_ok found
        have ids : ev.tenantId = ctx.tenantId ∧ ev.id = p.eventId := by
          simpa [Event.isRow] using isRow
        refine .lift fun raw applied => .call fun d₁ row updated => ?_
        have access := permitted p start stop decides ev found raw applied ⟨_, updated⟩
        obtain ⟨written, -, proposals₁⟩ := onStore_ok updated
        have isOld : ev.isRow ctx.tenantId ev.id := by simp [Event.isRow, ids.1]
        have confined : Confined ctx d d₁ :=
          .events access (fun e => update_elsewhere listed isOld written) proposals₁
        obtain ⟨d₂, ran, store, proposals⟩ := @run_finish ctx id d₁ .accepted resolvedAt
        rw [proposals₁] at proposals
        rw [ran]
        exact confined.resolves decides access listed ids.2 store proposals
    · rw [acceptCounter, run_pendingProposal_undecided
        fun p start stop decides => decided ⟨p, start, stop, decides⟩]
      exact .refl ctx d

end

/-- The inbox checks the right to write before it writes; the decisions on proposals do not. -/
theorem scheduling_respects_access_iff (crates : Crates) (formats : Formats) (ctx : RequestCtx)
    (d : Desk) (request : SchedulingRequest) :
    RespectsAccess crates formats ctx d request ↔ Permitted crates ctx d request := by
  cases request with
  | inbox body pick id now jetstream => exact ⟨fun _ => trivial, fun _ => inbox_confined⟩
  | acceptCounter id now resolvedAt => exact acceptCounter_respects_iff
  | rejectCounter id resolvedAt => exact rejectCounter_respects_iff

/-- A calendar of user 7 with one event, and a proposal to move it. -/
def proposedDesk : Desk where
  toStore := [.createCalendar 10 1 7 ⟨"work".toList, none, none, none, false⟩,
    .event (.create 1 10 ("BEGIN:VEVENT\nUID:a\nDTSTART:20260518T090000Z\n".toList ++
      "DTEND:20260518T100000Z\nEND:VEVENT\n".toList) 20)].foldl
      (Command.run sampleCrates 0) Store.empty
  acl := []
  proposals := [⟨30, 1, 20, "ann@x.org".toList, some 832417200000000, some 832420800000000, none,
    .pending, some 0, none, 0, none, none⟩]
  valid := by decide +kernel

def plainFormats : Formats := ⟨fun _ => [], fun _ => []⟩

/-- User 9, who has no right to the calendar, accepts the proposal. -/
theorem acceptCounter_trespasses :
    ¬ RespectsAccess sampleCrates plainFormats ⟨1, 9⟩ proposedDesk (.acceptCounter 30 1 1) := by
  have moved : ¬ WriteAccess ⟨1, 9⟩ 10 proposedDesk ∧
      ∃ e ∈ proposedDesk.events, e.calendarId = 10 ∧
        e ∉ ((SchedulingRequest.acceptCounter 30 1 1).effect sampleCrates plainFormats ⟨1, 9⟩
          proposedDesk).events := by
    unfold WriteAccess
    decide +kernel
  intro respects
  obtain ⟨denied, e, listed, here, gone⟩ := moved
  exact gone (((respects 10 denied).1 e here).mpr listed)

end Expresso.CalDav
