import Expresso.CalDav.Itip
import Expresso.CalDav.Rows
import Expresso.Transition.Interleave
import Expresso.Transition.Runs

/-! The scheduling endpoints. A handler is a request to the tables: each of its calls is a
transaction, and other requests may come between two of them. -/

namespace Expresso.CalDav
open Text Time Transition

structure RequestCtx where
  tenantId : Uuid
  userId : Uuid
  deriving DecidableEq

inductive Privilege where
  | read | write | admin
  deriving DecidableEq

/-- A row of `calendar_acl`. -/
structure AclEntry where
  calendarId : Uuid
  tenantId : Uuid
  granteeId : Uuid
  privilege : Privilege
  deriving DecidableEq

inductive ProposalStatus where
  | pending | accepted | rejected
  deriving DecidableEq

def ProposalStatus.text : ProposalStatus → Str
  | pending => "pending".toList
  | accepted => "accepted".toList
  | rejected => "rejected".toList

/-- A row of `scheduling_counter_proposals`. -/
structure CounterProposal where
  id : Uuid
  tenantId : Uuid
  eventId : Uuid
  attendeeEmail : Str
  proposedDtstart : Option Timestamp
  proposedDtend : Option Timestamp
  comment : Option Str
  status : ProposalStatus
  receivedSequence : Option Int
  rawIcal : Option Str
  createdAt : Timestamp
  resolvedAt : Option Timestamp
  resolvedBy : Option Uuid
  deriving DecidableEq

/-- Primary keys, the references, and no text with a zero character. -/
@[reducible]
def DeskConstraints (s : Store) (acl : List AclEntry) (proposals : List CounterProposal) : Prop :=
  (acl.map fun a => (a.calendarId, a.granteeId)).Nodup ∧
  (∀ a ∈ acl, a.calendarId ∈ s.calendars.map (·.id)) ∧
  (proposals.map (·.id)).Nodup ∧
  (∀ p ∈ proposals, p.eventId ∈ s.events.map (·.id)) ∧
  ∀ p ∈ proposals, ∀ text ∈ p.attendeeEmail :: [p.comment, p.rawIcal].filterMap fun t => t,
    '\x00' ∉ text

/-- The store with the access rights and the proposals. -/
structure Desk extends Store where
  acl : List AclEntry
  proposals : List CounterProposal
  valid : DeskConstraints toStore acl proposals

namespace Desk

def commit (s : Store) (acl : List AclEntry) (proposals : List CounterProposal) : Result Desk :=
  if valid : DeskConstraints s acl proposals then .ok ⟨s, acl, proposals, valid⟩
  else .error .database

/-- A method of `EventRepo`. -/
def onStore {α : Type} (method : Store → Result (Store × α)) (d : Desk) : Result (Desk × α) := do
  let (s, a) ← method d.toStore
  let d' ← commit s d.acl d.proposals
  .ok (d', a)

/-! ### Access -/

inductive AccessLevel where
  | owner
  | granted (privilege : Privilege)
  deriving DecidableEq

def accessLevel (tenant calendar user : Uuid) (d : Desk) : Option AccessLevel :=
  match d.calendars.find? (·.isRow tenant calendar) with
  | none => none
  | some c =>
      if c.ownerUserId = user then some .owner
      else (d.acl.find? fun a =>
        a.calendarId = calendar && a.tenantId = tenant && a.granteeId = user).map
          fun a => .granted a.privilege

def assertCanWrite (tenant calendar user : Uuid) (d : Desk) : Result Unit :=
  match d.accessLevel tenant calendar user with
  | some .owner => .ok ()
  | some (.granted .write) => .ok ()
  | some (.granted .admin) => .ok ()
  | some (.granted .read) => .error .forbidden
  | none => .error (.calendarNotFound calendar)

/-! ### `CounterRepo` -/

/-- `insert` with the generated id and the time of the transaction. -/
def insertProposal (tenant event : Uuid) (email : Str) (start stop : Option OffsetDateTime)
    (comment : Option Str) (sequence : Option Int) (raw : Option Str) (id : Uuid)
    (now : Timestamp) (d : Desk) : Result (Desk × CounterProposal) := do
  let row : CounterProposal :=
    { id, tenantId := tenant, eventId := event, attendeeEmail := email
      proposedDtstart := start.map toTimestamp, proposedDtend := stop.map toTimestamp, comment
      status := .pending, receivedSequence := sequence, rawIcal := raw, createdAt := now
      resolvedAt := none, resolvedBy := none }
  let d' ← commit d.toStore d.acl (d.proposals ++ [row])
  .ok (d', row)

/-- A time column as it is read. -/
def readTime : Option Timestamp → Result (Option OffsetDateTime)
  | none => .ok none
  | some t =>
      match ofTimestamp t with
      | some time => .ok (some time)
      | none => .error .database

/-- `get`: the row with its times. -/
def getProposal (tenant id : Uuid) (d : Desk) :
    Result (Option (CounterProposal × Option OffsetDateTime × Option OffsetDateTime)) :=
  match d.proposals.find? fun p => p.tenantId = tenant && p.id = id with
  | none => .ok none
  | some p => do
      let start ← readTime p.proposedDtstart
      let stop ← readTime p.proposedDtend
      .ok (some (p, start, stop))

/-- `resolve`: the rows it changes may be none. -/
def resolved (tenant id : Uuid) (status : ProposalStatus) (decidedBy : Option Uuid)
    (now : Timestamp) (p : CounterProposal) : CounterProposal :=
  if p.tenantId = tenant ∧ p.id = id ∧ p.status = .pending then
    { p with status, resolvedAt := some now, resolvedBy := decidedBy }
  else p

def resolve (tenant id : Uuid) (status : ProposalStatus) (decidedBy : Option Uuid) (now : Timestamp)
    (d : Desk) : Result (Desk × Unit) := do
  let d' ← commit d.toStore d.acl (d.proposals.map (resolved tenant id status decidedBy now))
  .ok (d', ())

end Desk

/-! ### Handlers -/

abbrev Handler (α : Type) := Request Desk (Result α)

section
variable {α β : Type}

/-- `?` on a value. -/
def lift (x : Result β) (next : β → Handler α) : Handler α :=
  match x with
  | .ok b => next b
  | .error e => .done (.error e)

/-- A call that only reads, with `?`. -/
def read (method : Desk → Result β) (next : β → Handler α) : Handler α :=
  .call id (fun d => lift (method d) next) (.done (.error .database))

/-- A call whose result the handler looks at itself. -/
def attempt (method : Desk → Result (Desk × β)) (next : Result β → Handler α) : Handler α :=
  .call (fun d => match method d with | .ok (d', _) => d' | .error _ => d)
    (fun d => next ((method d).map (·.2))) (next (.error .database))

/-- A call with `?`. -/
def call (method : Desk → Result (Desk × β)) (next : β → Handler α) : Handler α :=
  attempt method (lift · next)

variable {d : Desk} {next : β → Handler α}

@[simp]
theorem run_done (result : Result α) : (Request.done result : Handler α).run d = (d, result) := rfl

theorem run_lift_ok {x : Result β} {b : β} (ok : x = .ok b) :
    (lift x next).run d = (next b).run d := by
  rw [ok, lift]

theorem run_lift_error {x : Result β} {e : CalendarError} (failed : x = .error e) :
    (lift x next).run d = (d, .error e) := by
  rw [failed, lift, run_done]

theorem run_read (method : Desk → Result β) :
    (read method next).run d = (lift (method d) next).run d := rfl

theorem run_call_ok {method : Desk → Result (Desk × β)} {d' : Desk} {b : β}
    (ok : method d = .ok (d', b)) : (call method next).run d = (next b).run d' := by
  simp only [call, attempt, Request.run, ok, Except.map, lift]

theorem run_call_error {method : Desk → Result (Desk × β)} {e : CalendarError}
    (failed : method d = .error e) : (call method next).run d = (d, .error e) := by
  simp only [call, attempt, Request.run, failed, Except.map, lift]

theorem step_read (method : Desk → Result β) :
    (read method next).step true d = (d, lift (method d) next) := rfl

theorem step_call_ok {method : Desk → Result (Desk × β)} {d' : Desk} {b : β}
    (ok : method d = .ok (d', b)) : (call method next).step true d = (d', next b) := by
  simp only [call, attempt, Request.step, if_true, ok, Except.map, lift]

theorem step_call_error {method : Desk → Result (Desk × β)} {e : CalendarError}
    (failed : method d = .error e) :
    (call method next).step true d = (d, .done (.error e)) := by
  simp only [call, attempt, Request.step, if_true, failed, Except.map, lift]

theorem step_call_failed (method : Desk → Result (Desk × β)) :
    (call method next).step false d = (d, .done (.error .database)) := rfl

end

/-- `LIMIT 1` without an order: any of the rows. -/
structure Picker where
  choose : List Event → Option Event
  among : ∀ rows, ∀ e ∈ choose rows, e ∈ rows
  total : ∀ rows, choose rows = none → rows = []

def Picker.first : Picker where
  choose := List.head?
  among _ _ listed := List.mem_of_mem_head? listed
  total _ none := List.head?_eq_none_iff.mp none

/-- The row with this id if it is among them. -/
def Picker.prefer (id : Uuid) : Picker where
  choose rows := (rows.find? fun e => e.id = id).or rows.head?
  among rows e chosen := by
    rcases Option.or_eq_some_iff.mp chosen with found | ⟨-, first⟩
    · exact List.mem_of_find?_eq_some found
    · exact List.mem_of_mem_head? first
  total rows none := List.head?_eq_none_iff.mp (Option.or_eq_none_iff.mp none).2

theorem Picker.prefer_id {id : Uuid} {rows : List Event} {e : Event} (among : e ∈ rows)
    (same : e.id = id) : ∃ e ∈ (Picker.prefer id).choose rows, e.id = id := by
  cases found : rows.find? fun e => e.id = id with
  | none =>
    have other := List.find?_eq_none.mp found e among
    simp [same] at other
  | some first =>
    exact ⟨first, Option.or_eq_some_iff.mpr (.inl found), by simpa using List.find?_some found⟩

def findByUidInTenant (pick : Picker) (tenant : Uuid) (uid : Str) (d : Desk) :
    Result (Option Event) :=
  .ok (pick.choose (d.events.filter fun e => e.tenantId = tenant && e.uid = uid))

structure InboxResp where
  method : Option Str
  uid : Option Str
  attendee : Option Str
  partstat : Option Str
  matched : Bool := false
  updated : Bool := false
  stale : Bool := false
  cancelled : Bool := false
  message : Str := []
  deriving DecidableEq

def InboxResp.skeleton (method uid : Str) (attendee partstat : Option Str) : InboxResp :=
  { method := some method, uid := some uid, attendee, partstat }

/-- Texts that other crates write: a time for debugging, an id. -/
structure Formats where
  debugTime : Option OffsetDateTime → Str
  uuid : Uuid → Str

/-- A lower sequence, or the same with an older stamp. -/
def staleReply (reply stored : ParsedEvent) : Bool :=
  reply.sequence < stored.sequence ||
    (reply.sequence = stored.sequence &&
      match reply.dtstamp, stored.dtstamp with
      | some r, some s => r.instant < s.instant
      | _, _ => false)

def staleCancel (reply stored : ParsedEvent) : Bool := reply.sequence < stored.sequence

section
variable (crates : Crates) (formats : Formats) (ctx : RequestCtx) (pick : Picker)
  (parsed : ParsedEvent) (body : Str) (id : Uuid) (now : Timestamp)

/-- From the event on that the reply is about. -/
def replyTo (att : Itip.Attendee) (partstat : Str) (ev : Event) : Handler InboxResp :=
  let response := { InboxResp.skeleton "REPLY".toList parsed.uid (some att.email) (some partstat)
    with matched := true }
  read (Desk.assertCanWrite ctx.tenantId ev.calendarId ctx.userId) fun _ =>
  lift (parseVevent crates ev.icalRaw) fun stored =>
  if staleReply parsed stored then
    .done (.ok { response with
      stale := true
      message := "stale REPLY ignored (reply SEQUENCE=".toList ++ display parsed.sequence ++
        " DTSTAMP=".toList ++ formats.debugTime parsed.dtstamp ++ " < stored SEQUENCE=".toList ++
        display stored.sequence ++ " DTSTAMP=".toList ++ formats.debugTime stored.dtstamp ++
        ")".toList })
  else
    lift (Itip.applyRsvp ev.icalRaw att.email partstat) fun newRaw =>
    if newRaw = ev.icalRaw then
      .done (.ok { response with message := "no change".toList })
    else
      call (Desk.onStore (replaceByUid crates ctx.tenantId ev.calendarId newRaw id now)) fun _ =>
      .done (.ok { response with updated := true, message := "PARTSTAT updated".toList })

def handleReply : Handler InboxResp :=
  match (Itip.parseAttendees body).find? (·.partstat.isSome) with
  | none => .done (.error (.badRequest "REPLY has no ATTENDEE with PARTSTAT".toList))
  | some att =>
      let partstat := att.partstat.getD "NEEDS-ACTION".toList
      read (findByUidInTenant pick ctx.tenantId parsed.uid) fun
        | none =>
            .done (.ok { InboxResp.skeleton "REPLY".toList parsed.uid (some att.email)
              (some partstat) with message := "uid not found in tenant".toList })
        | some ev => replyTo crates formats ctx parsed id now att partstat ev

def counterResponse (att : Option Itip.Attendee) (matched : Bool) (proposal : Option Uuid) :
    InboxResp :=
  { InboxResp.skeleton "COUNTER".toList parsed.uid (att.map (·.email)) (att.bind (·.partstat)) with
    matched
    message :=
      if matched then
        "COUNTER received (proposal_id=".toList ++ (proposal.elim "none".toList formats.uuid) ++
          "); organizer must decide (RFC 5546 §3.2.7)".toList
      else "uid not found in tenant; COUNTER ignored".toList }

/-- A proposal that cannot be written is left out of the response. -/
def handleCounter : Handler InboxResp :=
  let att := (Itip.parseAttendees body).head?
  read (findByUidInTenant pick ctx.tenantId parsed.uid) fun event =>
  match event, att with
  | some ev, some a =>
      read (Desk.assertCanWrite ctx.tenantId ev.calendarId ctx.userId) fun _ =>
      attempt (Desk.insertProposal ctx.tenantId ev.id a.email parsed.dtstart parsed.dtend
        (Itip.parseComment body) (some parsed.sequence) (some body) id now) fun written =>
      .done (.ok (counterResponse formats parsed att true (written.toOption.map (·.id))))
  | event, att => .done (.ok (counterResponse formats parsed att event.isSome none))

/-- `jetstream`: whether there is a stream to publish to. -/
def handleRefresh (jetstream : Bool) : Handler InboxResp :=
  let response := InboxResp.skeleton "REFRESH".toList parsed.uid none none
  read (findByUidInTenant pick ctx.tenantId parsed.uid) fun
    | none => .done (.ok { response with message := "uid not found in tenant".toList })
    | some ev =>
        read (Desk.assertCanWrite ctx.tenantId ev.calendarId ctx.userId) fun _ =>
        .done (.ok { response with
          matched := true
          message :=
            if jetstream then "REFRESH acknowledged; REQUEST re-published to attendees".toList
            else "REFRESH matched but republish skipped (no JetStream)".toList })

/-- From the event on that the cancellation is about. -/
def cancelEvent (ev : Event) : Handler InboxResp :=
  let response := { InboxResp.skeleton "CANCEL".toList parsed.uid none none with matched := true }
  read (Desk.assertCanWrite ctx.tenantId ev.calendarId ctx.userId) fun _ =>
  lift (parseVevent crates ev.icalRaw) fun stored =>
  if staleCancel parsed stored then
    .done (.ok { response with
      stale := true
      message := "stale CANCEL ignored (reply SEQUENCE=".toList ++ display parsed.sequence ++
        " < stored SEQUENCE=".toList ++ display stored.sequence ++ ")".toList })
  else
    lift (Itip.setStatus ev.icalRaw "CANCELLED".toList) fun newRaw =>
    if newRaw = ev.icalRaw then
      .done (.ok { response with cancelled := true, message := "already cancelled".toList })
    else
      call (Desk.onStore (replaceByUid crates ctx.tenantId ev.calendarId newRaw id now)) fun _ =>
      .done (.ok { response with
        updated := true, cancelled := true, message := "STATUS:CANCELLED applied".toList })

def handleCancel : Handler InboxResp :=
  read (findByUidInTenant pick ctx.tenantId parsed.uid) fun
    | none =>
        .done (.ok { InboxResp.skeleton "CANCEL".toList parsed.uid none none with
          message := "uid not found in tenant".toList })
    | some ev => cancelEvent crates ctx parsed id now ev

/-- The value of the first line that starts with `METHOD:`. -/
def methodOf (body : Str) : Option Str :=
  (Itip.physicalLines body).findSome? fun line =>
    (stripPrefix "METHOD:".toList (toAsciiUppercase line)).map fun value =>
      toAsciiUppercase (trim value)

def inbox (jetstream : Bool) : Handler InboxResp :=
  match methodOf body with
  | none => .done (.error (.badRequest "missing METHOD".toList))
  | some method =>
      lift (parseVevent crates body) fun parsed =>
      if method = "REPLY".toList then handleReply crates formats ctx pick parsed body id now
      else if method = "COUNTER".toList then handleCounter formats ctx pick parsed body id now
      else if method = "REFRESH".toList then handleRefresh ctx pick parsed jetstream
      else if method = "CANCEL".toList then handleCancel crates ctx pick parsed id now
      else .done (.error (.badRequest ("unsupported METHOD: ".toList ++ method ++
        " (expected REPLY|COUNTER|REFRESH|CANCEL)".toList)))

end

/-! ### Decisions on proposals -/

section
variable (formats : Formats) (ctx : RequestCtx) (id : Uuid)

/-- The proposal as it was read, if it is pending. -/
def checkPending
    (next : CounterProposal → Option OffsetDateTime → Option OffsetDateTime → Handler Unit) :
    Option (CounterProposal × Option OffsetDateTime × Option OffsetDateTime) → Handler Unit
  | none =>
      .done (.error (.badRequest ("counter proposal ".toList ++ formats.uuid id ++
        " not found".toList)))
  | some (prop, start, stop) =>
      if prop.status = .pending then next prop start stop
      else .done (.error (.badRequest ("proposal is already ".toList ++ prop.status.text)))

/-- What `accept_counter` and `reject_counter` begin with. -/
def pendingProposal
    (next : CounterProposal → Option OffsetDateTime → Option OffsetDateTime → Handler Unit) :
    Handler Unit :=
  read (Desk.getProposal ctx.tenantId id) (checkPending formats id next)

/-- `get` of the event, whose errors all become "not found". -/
def eventOf (prop : CounterProposal) (next : Event → Handler Unit) : Handler Unit :=
  .call (fun d => d)
    (fun d => match get ctx.tenantId prop.eventId d.toStore with
      | .ok ev => next ev
      | .error _ => .done (.error (.eventNotFound prop.eventId)))
    (.done (.error (.eventNotFound prop.eventId)))

def finish (status : ProposalStatus) (resolvedAt : Timestamp) : Handler Unit :=
  call (Desk.resolve ctx.tenantId id status (some ctx.userId) resolvedAt) fun _ => .done (.ok ())

def acceptCounter (crates : Crates) (now resolvedAt : Timestamp) : Handler Unit :=
  pendingProposal formats ctx id fun prop start stop =>
  eventOf ctx prop fun event =>
  lift (Itip.applyProposedTimes event.icalRaw start stop) fun newRaw =>
  call (Desk.onStore (update crates ctx.tenantId event.id newRaw now)) fun _ =>
  finish ctx id .accepted resolvedAt

def rejectCounter (resolvedAt : Timestamp) : Handler Unit :=
  pendingProposal formats ctx id fun _ _ _ => finish ctx id .rejected resolvedAt

end

end Expresso.CalDav
