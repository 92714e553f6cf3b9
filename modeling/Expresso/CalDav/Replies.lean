import Expresso.CalDav.Authority
import Expresso.CalDav.Rsvp

/-! Two replies to one event at the same time. A reply reads the body, edits it and writes it
back; nothing tells it that another reply was written in between. -/

namespace Expresso.CalDav
open Text Time Transition Itip

/-- The arguments of `handle_reply`. -/
structure Reply where
  ctx : RequestCtx
  pick : Picker
  parsed : ParsedEvent
  body : Str
  id : Uuid
  now : Timestamp

namespace Reply

def handler (crates : Crates) (formats : Formats) (r : Reply) : Handler InboxResp :=
  handleReply crates formats r.ctx r.pick r.parsed r.body r.id r.now

/-- The attendee who replies. -/
def attendee (r : Reply) : Option Attendee := (parseAttendees r.body).find? (·.partstat.isSome)

/-- The reply is an attendee's, to this event. -/
structure To (r : Reply) (event : Event) (att : Attendee) : Prop where
  attendee : r.attendee = some att
  tenant : r.ctx.tenantId = event.tenantId
  uid : r.parsed.uid = event.uid
  picks : ∀ rows, (∃ e ∈ rows, e.id = event.id) → ∃ e ∈ r.pick.choose rows, e.id = event.id

end Reply

/-- The answer that a reply gives. -/
def answerOf (att : Attendee) : Str := toAsciiUppercase (att.partstat.getD "NEEDS-ACTION".toList)

/-- The body lists the attendee with this answer. -/
def Answers (att : Attendee) (raw : Str) : Prop :=
  (∃ a ∈ parseAttendees raw, a.email = toAsciiLowercase att.email) ∧
    ∀ a ∈ parseAttendees raw, a.email = toAsciiLowercase att.email →
      a.partstat = some (answerOf att)

/-- The body after the reply of an attendee. -/
def replied (att : Attendee) (raw : Str) : Except CalendarError Str :=
  applyRsvp raw att.email (att.partstat.getD "NEEDS-ACTION".toList)

/-- The reply of an attendee changes its answer in the body and nothing else. -/
def Exact (crates : Crates) (att : Attendee) (raw : Str) : Prop :=
  ExactReply crates raw att.email (att.partstat.getD "NEEDS-ACTION".toList)

/-- A reply of the attendee to this body edits, or inserts, a line that is the attendee's for the
reader too. -/
structure Editable (crates : Crates) (att : Attendee) (raw : Str) : Prop where
  reading : parseAttendees (normalised raw) = parseAttendees raw
  edits : EditsAttendee crates raw (toAsciiLowercase att.email)
  inserts : InsertsAttendee crates raw (toAsciiLowercase att.email)

theorem Editable.exact {crates : Crates} {att : Attendee} {raw : Str}
    (editable : Editable crates att raw) : Exact crates att raw :=
  exactReply_of_edits editable.reading editable.edits editable.inserts _

/-- The response of a reply that was matched and not found stale. -/
def Took (request : Handler InboxResp) : Prop :=
  ∃ response, request = .done (.ok response) ∧ response.matched = true ∧ response.stale = false

/-! ### Answers in the body -/

section
variable {crates : Crates} {att other : Attendee} {raw new : Str}

theorem answers_replied (exact_ : Exact crates att raw) (done : replied att raw = .ok new) :
    Answers att new := by
  obtain ⟨attendees, -, -⟩ := exact_ new done
  rw [Answers, attendees]
  constructor
  · obtain ⟨a, member, same, -⟩ := email_mem_answered (parseAttendees raw)
      (toAsciiLowercase att.email) (answerOf att)
    exact ⟨a, member, same⟩
  · exact fun a member same => answered_partstat member same

/-- Who is somebody else keeps the answer. -/
theorem mem_answered_other {attendees : List Attendee} {email partstat : Str} {a : Attendee}
    (different : a.email ≠ email) : a ∈ answered attendees email partstat ↔ a ∈ attendees := by
  rw [answered]
  split
  · constructor
    · intro member
      obtain ⟨old, listed, rfl⟩ := List.mem_map.mp member
      by_cases same : old.email = email
      · rw [if_pos same] at different
        exact absurd same different
      · rwa [if_neg same]
    · intro member
      exact List.mem_map.mpr ⟨a, member, if_neg different⟩
  · rw [List.mem_append, List.mem_singleton]
    constructor
    · rintro (old | rfl)
      · exact old
      · exact absurd rfl different
    · exact .inl

theorem answers_other_iff (exact_ : Exact crates att raw) (done : replied att raw = .ok new)
    (distinct : toAsciiLowercase other.email ≠ toAsciiLowercase att.email) :
    Answers other new ↔ Answers other raw := by
  obtain ⟨attendees, -, -⟩ := exact_ new done
  have members : ∀ a : Attendee, a.email = toAsciiLowercase other.email →
      (a ∈ parseAttendees new ↔ a ∈ parseAttendees raw) := by
    intro a same
    rw [attendees]
    exact mem_answered_other (same ▸ distinct)
  constructor
  · rintro ⟨⟨a, listed, same⟩, all⟩
    exact ⟨⟨a, (members a same).mp listed, same⟩,
      fun a listed same => all a ((members a same).mpr listed) same⟩
  · rintro ⟨⟨a, listed, same⟩, all⟩
    exact ⟨⟨a, (members a same).mpr listed, same⟩,
      fun a listed same => all a ((members a same).mp listed) same⟩

end

/-! ### One reply -/

/-- The row of the event, whatever its body is. -/
structure SamePlace (event e : Event) : Prop where
  id : e.id = event.id
  tenant : e.tenantId = event.tenantId
  calendar : e.calendarId = event.calendarId
  uid : e.uid = event.uid

/-- The tables with this body for the event. -/
structure Shows (crates : Crates) (event : Event) (raw : Str) (d : Desk) : Prop where
  coherent : Coherent crates d.toTables
  row : ∃ e ∈ d.events, SamePlace event e ∧ e.icalRaw = raw

/-- The event as it was read, with this body. -/
structure Seen (crates : Crates) (event : Event) (raw : Str) (ev : Event) : Prop where
  place : SamePlace event ev
  body : ev.icalRaw = raw
  parses : ∃ parsed, parseVevent crates raw = .ok parsed ∧ parsed.uid = event.uid

section
variable {crates : Crates} {formats : Formats} {event : Event} {att : Attendee} {r : Reply}
  {raw body : Str} {d : Desk}

theorem Shows.find (shows : Shows crates event raw d) (ours : r.To event att) :
    ∃ ev, findByUidInTenant r.pick r.ctx.tenantId r.parsed.uid d = .ok (some ev) ∧
      Seen crates event raw ev := by
  obtain ⟨e, listed, place, isBody⟩ := shows.row
  have among : e ∈ d.events.filter fun e =>
      e.tenantId = r.ctx.tenantId && e.uid = r.parsed.uid := by
    rw [List.mem_filter]
    exact ⟨listed, by simp [place.tenant, place.uid, ours.tenant, ours.uid]⟩
  obtain ⟨ev, chosen, isId⟩ := ours.picks _ ⟨e, among, place.id⟩
  have same : ev = e := d.eq_of_id (List.mem_of_mem_filter (r.pick.among _ ev chosen)) listed
    (isId.trans place.id.symm)
  subst same
  refine ⟨ev, by rw [findByUidInTenant, Option.mem_def.mp chosen], place, isBody, ?_⟩
  obtain ⟨parsed, accepted, isUid, -⟩ := shows.coherent.bodies ev listed
  exact ⟨parsed, isBody ▸ accepted, isUid.trans place.uid⟩

/-- The body written by a reply that read another one, or the same. -/
theorem Shows.write {seen new : Str} {ev row : Event} {d' : Desk}
    (shows : Shows crates event body d) (saw : Seen crates event seen ev)
    (same : parseVevent crates new = parseVevent crates seen)
    (written : Desk.onStore
      (replaceByUid crates r.ctx.tenantId ev.calendarId new r.id r.now) d = .ok (d', row)) :
    Shows crates event new d' := by
  obtain ⟨stored, -, -⟩ := onStore_ok written
  obtain ⟨e, listed, place, -⟩ := shows.row
  obtain ⟨parsed, accepted, isUid⟩ := saw.parses
  refine ⟨?_, ?_⟩
  · have ran : (EventCommand.replaceByUid r.ctx.tenantId ev.calendarId new r.id).exec crates r.now
        d.toStore = .ok d'.toStore := by
      rw [EventCommand.exec, stored]
      rfl
    exact EventCommand.exec_coherent shows.coherent ran
  · obtain ⟨parsed', accepted', outcome⟩ := replaceByUid_ok stored
    have isParsed : parsed' = parsed := by
      rw [same, accepted] at accepted'
      exact (Except.ok.inj accepted').symm
    subst isParsed
    have under : e.under ev.calendarId parsed'.uid := by
      simp [Event.under, place.calendar, saw.place.calendar, place.uid, isUid]
    rcases outcome with ⟨absent, -⟩ | ⟨-, changed⟩
    · exact absurd under (absent e listed)
    · obtain ⟨ctag, member⟩ := changed.image listed under
      exact ⟨_, member, ⟨place.id, place.tenant, place.calendar, isUid⟩, rfl⟩

/-- The calls that a reply still has to make after it has read the event with this body. -/
inductive Editing (crates : Crates) (formats : Formats) (event : Event) (att : Attendee)
    (r : Reply) (raw : Str) : Handler InboxResp → Prop
  | read {ev : Event} (saw : Seen crates event raw ev) :
      Editing crates formats event att r raw (replyTo crates formats r.ctx r.parsed r.id r.now att
        (att.partstat.getD "NEEDS-ACTION".toList) ev)
  | edited {ev : Event} {new : Str} {response : InboxResp} (saw : Seen crates event raw ev)
      (done : replied att raw = .ok new) (changed : new ≠ raw) (matched : response.matched = true)
      (fresh : response.stale = false) :
      Editing crates formats event att r raw
        (call (Desk.onStore (replaceByUid crates r.ctx.tenantId ev.calendarId new r.id r.now))
          fun _ => .done (.ok response))

theorem not_took_error (e : CalendarError) : ¬ Took (.done (.error e)) := by
  rintro ⟨response, isOk, -⟩
  cases isOk

theorem took_done {response : InboxResp} (matched : response.matched = true)
    (fresh : response.stale = false) : Took (.done (.ok response)) :=
  ⟨response, rfl, matched, fresh⟩

/-- What a call of a reply does that has read a body. -/
inductive Edit (crates : Crates) (formats : Formats) (event : Event) (att : Attendee) (r : Reply)
    (raw : Str) (d d' : Desk) (request : Handler InboxResp) : Prop
  | goesOn (state : d' = d) (editing : Editing crates formats event att r raw request)
  | unchanged (state : d' = d) (done : replied att raw = .ok raw) (took : Took request)
  | written {new : Str} (done : replied att raw = .ok new) (changed : new ≠ raw)
      (shows : Shows crates event new d') (took : Took request)
  | failed {result : Result InboxResp} (finished : request = .done result) (not_ : ¬ Took request)

theorem Editing.step {request : Handler InboxResp} (exact_ : Exact crates att raw)
    (editing : Editing crates formats event att r raw request)
    (shows : Shows crates event body d) (through : Bool) :
    Edit crates formats event att r raw d (request.step through d).1
      (request.step through d).2 := by
  have error : ∀ e, Edit crates formats event att r raw d d (.done (.error e)) :=
    fun e => .failed rfl (not_took_error e)
  cases editing with
  | read saw =>
    cases through with
    | false => exact error _
    | true =>
      rw [replyTo, step_read]
      cases d.assertCanWrite r.ctx.tenantId _ r.ctx.userId with
      | error e => exact error e
      | ok u =>
        simp only [lift]
        obtain ⟨stored, accepted, -⟩ := saw.parses
        rw [saw.body, accepted]
        simp only
        by_cases stale : staleReply r.parsed stored
        · rw [if_pos stale]
          refine .failed rfl ?_
          rintro ⟨response, isOk, -, fresh⟩
          cases isOk
          cases fresh
        · rw [if_neg stale]
          cases done : applyRsvp raw att.email (att.partstat.getD "NEEDS-ACTION".toList) with
          | error e => exact error e
          | ok new =>
            simp only
            by_cases same : new = raw
            · rw [if_pos same]
              exact .unchanged rfl (same ▸ done) (took_done rfl rfl)
            · rw [if_neg same]
              exact .goesOn rfl (.edited saw done same rfl rfl)
  | edited saw done changed matched fresh =>
    cases through with
    | false => exact error _
    | true =>
      cases written : Desk.onStore (replaceByUid crates r.ctx.tenantId _ _ r.id r.now) d with
      | error e =>
        rw [step_call_error written]
        exact error e
      | ok result =>
        rw [step_call_ok written]
        obtain ⟨-, -, same⟩ := exact_ _ done
        exact .written done changed (shows.write saw same written)
          (took_done matched fresh)

/-- The first call of a reply. -/
theorem handler_reads (ours : r.To event att) (shows : Shows crates event raw d) (through : Bool) :
    ((r.handler crates formats).step through d).1 = d ∧
      (Editing crates formats event att r raw ((r.handler crates formats).step through d).2 ∨
        ((r.handler crates formats).step through d).2 = .done (.error .database)) := by
  have attends := ours.attendee
  rw [Reply.attendee] at attends
  rw [Reply.handler, handleReply, attends]
  simp only
  cases through with
  | false => exact ⟨rfl, .inr rfl⟩
  | true =>
    obtain ⟨ev, found, saw⟩ := shows.find ours
    rw [step_read, found]
    exact ⟨rfl, .inl (.read saw)⟩

end

/-! ### Two replies -/

def replyPool (crates : Crates) (formats : Formats) (d : Desk) (replies : Bool → Reply) :
    Pool Bool Desk (Result InboxResp) :=
  ⟨d, fun i => (replies i).handler crates formats⟩

section
variable (crates : Crates) (formats : Formats) (event : Event) (atts : Bool → Attendee)
  (replies : Bool → Reply) (raw : Str)

/-- How far two replies have come, with the body that each has read and that the event has. -/
inductive Course : Pool Bool Desk (Result InboxResp) × List (Bool × Pool.Mark) → Prop
  | fresh {pool : Pool Bool Desk (Result InboxResp)} (shows_ : Shows crates event raw pool.state)
      (waiting : ∀ i, pool.requests i = (replies i).handler crates formats) : Course (pool, [])
  | alone {pool : Pool Bool Desk (Result InboxResp)} (i : Bool)
      (shows_ : Shows crates event raw pool.state)
      (editing : Editing crates formats event (atts i) (replies i) raw (pool.requests i))
      (waiting : pool.requests (!i) = (replies !i).handler crates formats) :
      Course (pool, [(i, .began)])
  | first {pool : Pool Bool Desk (Result InboxResp)} (i : Bool) {new : Str}
      (done : replied (atts i) raw = .ok new) (shows_ : Shows crates event new pool.state)
      (took : Took (pool.requests i))
      (waiting : pool.requests (!i) = (replies !i).handler crates formats) :
      Course (pool, [(i, .began), (i, .ended)])
  | second {pool : Pool Bool Desk (Result InboxResp)} (i : Bool) {new : Str}
      (done : replied (atts i) raw = .ok new) (shows_ : Shows crates event new pool.state)
      (took : Took (pool.requests i))
      (editing : Editing crates formats event (atts !i) (replies !i) new (pool.requests !i)) :
      Course (pool, [(i, .began), (i, .ended), (!i, .began)])
  | serial {pool : Pool Bool Desk (Result InboxResp)} (i : Bool) {new last : Str}
      (done : replied (atts i) raw = .ok new) (done' : replied (atts !i) new = .ok last)
      (shows_ : Shows crates event last pool.state) (took : ∀ i, Took (pool.requests i)) :
      Course (pool, [(i, .began), (i, .ended), (!i, .began), (!i, .ended)])
  | both {pool : Pool Bool Desk (Result InboxResp)} (k : Bool)
      (shows_ : Shows crates event raw pool.state)
      (editing : ∀ i, Editing crates formats event (atts i) (replies i) raw (pool.requests i)) :
      Course (pool, [(k, .began), (!k, .began)])
  | ahead {pool : Pool Bool Desk (Result InboxResp)} (k i : Bool) {new : Str}
      (done : replied (atts i) raw = .ok new) (shows_ : Shows crates event new pool.state)
      (took : Took (pool.requests i))
      (editing : Editing crates formats event (atts !i) (replies !i) raw (pool.requests !i)) :
      Course (pool, [(k, .began), (!k, .began), (i, .ended)])
  | crossed {pool : Pool Bool Desk (Result InboxResp)} (k i : Bool) {new last : Str}
      (done : replied (atts i) raw = .ok new) (done' : replied (atts !i) raw = .ok last)
      (shows_ : Shows crates event (if last = raw then new else last) pool.state)
      (took : ∀ i, Took (pool.requests i)) :
      Course (pool, [(k, .began), (!k, .began), (i, .ended), (!i, .ended)])
  | failed {pool : Pool Bool Desk (Result InboxResp)} {history : List (Bool × Pool.Mark)} (i : Bool)
      {result : Result InboxResp} (finished : pool.requests i = .done result)
      (not_ : ¬ Took (pool.requests i)) : Course (pool, history)

end

section
variable {crates : Crates} {formats : Formats} {event : Event} {atts : Bool → Attendee}
  {replies : Bool → Reply} {raw seen body : Str} {pool : Pool Bool Desk (Result InboxResp)}

theorem Editing.calls {att : Attendee} {r : Reply} {request : Handler InboxResp}
    (editing : Editing crates formats event att r seen request) :
    ∃ write next failed, request = .call write next failed := by
  cases editing <;> exact ⟨_, _, _, rfl⟩

theorem Took.finished {request : Handler InboxResp} (took : Took request) :
    ∃ result, request = .done result := by
  obtain ⟨response, isOk, -⟩ := took
  exact ⟨_, isOk⟩

theorem Editing.result {att : Attendee} {r : Reply} {request : Handler InboxResp}
    (editing : Editing crates formats event att r seen request) : request.result = none := by
  obtain ⟨write, next, failed, calls⟩ := editing.calls
  rw [calls, Request.result]

theorem Took.result {request : Handler InboxResp} (took : Took request) :
    request.result.isSome := by
  obtain ⟨result, finished⟩ := took.finished
  rw [finished, Request.result]
  rfl

/-- The first turn of a reply: it has read the body, or failed. -/
theorem record_begin (history : List (Bool × Pool.Mark)) {t : Bool} (through : Bool)
    (ours : (replies t).To event (atts t))
    (waiting : pool.requests t = (replies t).handler crates formats)
    (shows_ : Shows crates event body pool.state) (new : (t, .began) ∉ history) :
    (∃ pool', Pool.record (pool, history) (t, through) = (pool', history ++ [(t, .began)]) ∧
      pool'.state = pool.state ∧ pool'.requests (!t) = pool.requests (!t) ∧
      Editing crates formats event (atts t) (replies t) body (pool'.requests t)) ∨
    Course crates formats event atts replies raw (Pool.record (pool, history) (t, through)) := by
  obtain ⟨state, next⟩ :=
    @handler_reads crates formats event (atts t) (replies t) body pool.state ours shows_ through
  have own : (pool.step (t, through)).requests t =
      (((replies t).handler crates formats).step through pool.state).2 := by
    rw [← waiting]
    exact Pool.step_own
  rcases next with editing | failed
  · left
    rw [← own] at editing
    have calls : ∃ write next failed, pool.requests t = .call write next failed := by
      rw [waiting, Reply.handler, handleReply, show (parseAttendees _).find? _ = _ from ours.attendee]
      exact ⟨_, _, _, rfl⟩
    obtain ⟨write, next, failed, calls⟩ := calls
    refine ⟨pool.step (t, through), ?_, ?_, Pool.step_other (Bool.not_ne_self t), editing⟩
    · rw [Pool.record_first calls new, editing.result]
      simp
    · rw [Pool.step_state, waiting]
      exact state
  · right
    rw [← own] at failed
    exact .failed t failed (failed ▸ not_took_error _)

/-- What a later turn of a reply comes to. -/
theorem record_edit (history : List (Bool × Pool.Mark)) {t : Bool} (through : Bool)
    (exact_ : Exact crates (atts t) seen)
    (editing : Editing crates formats event (atts t) (replies t) seen (pool.requests t))
    (shows_ : Shows crates event body pool.state) (known : (t, .began) ∈ history) :
    (∃ pool', Pool.record (pool, history) (t, through) = (pool', history) ∧
      pool'.state = pool.state ∧ pool'.requests (!t) = pool.requests (!t) ∧
      Editing crates formats event (atts t) (replies t) seen (pool'.requests t)) ∨
    (∃ pool' new, Pool.record (pool, history) (t, through) =
        (pool', history ++ [(t, .ended)]) ∧
      pool'.requests (!t) = pool.requests (!t) ∧ Took (pool'.requests t) ∧
      replied (atts t) seen = .ok new ∧
      Shows crates event (if new = seen then body else new) pool'.state) ∨
    Course crates formats event atts replies raw (Pool.record (pool, history) (t, through)) := by
  obtain ⟨write, next, failed, calls⟩ := editing.calls
  have own : (pool.step (t, through)).requests t =
      ((pool.requests t).step through pool.state).2 := Pool.step_own
  have state : (pool.step (t, through)).state =
      ((pool.requests t).step through pool.state).1 := Pool.step_state
  have other : (pool.step (t, through)).requests (!t) = pool.requests (!t) :=
    Pool.step_other (Bool.not_ne_self t)
  have edit := editing.step exact_ shows_ through
  rw [← own, ← state] at edit
  cases edit with
  | goesOn same editing =>
    refine .inl ⟨pool.step (t, through), ?_, same, other, editing⟩
    rw [Pool.record_later calls known, editing.result]
    simp
  | unchanged same done took =>
    refine .inr (.inl ⟨pool.step (t, through), seen, ?_, other, took, done, ?_⟩)
    · rw [Pool.record_later calls known, if_pos took.result]
    · rw [if_pos rfl, same]
      exact shows_
  | written done changed shows' took =>
    refine .inr (.inl ⟨pool.step (t, through), _, ?_, other, took, done, ?_⟩)
    · rw [Pool.record_later calls known, if_pos took.result]
    · rw [if_neg changed]
      exact shows'
  | failed finished not_ => exact .inr (.inr (.failed t finished not_))

/-- Every turn leads from one of the courses to another. -/
theorem Course.step {run : Pool Bool Desk (Result InboxResp) × List (Bool × Pool.Mark)}
    (ours : ∀ i, (replies i).To event (atts i)) (exact_ : ∀ i, Exact crates (atts i) raw)
    (exact' : ∀ i new, replied (atts i) raw = .ok new → Exact crates (atts !i) new)
    (course : Course crates formats event atts replies raw run) (turn : Bool × Bool) :
    Course crates formats event atts replies raw (Pool.record run turn) := by
  obtain ⟨t, through⟩ := turn
  have own : ∀ i, t = i ∨ t = !i := by
    intro i
    cases t <;> cases i <;> simp
  have stay : ∀ new body : Str, (if new = body then body else new) = new := by
    intro new body
    split
    · exact Eq.symm ‹_›
    · rfl
  cases course with
  | fresh shows_ waiting =>
    rcases record_begin [] through (ours t) (waiting t) shows_ (List.not_mem_nil) with
      ⟨pool', recorded, state, other, editing⟩ | failed
    · rw [recorded]
      exact .alone t (state ▸ shows_) editing (other.trans (waiting _))
    · exact failed
  | alone i shows_ editing waiting =>
    obtain rfl | rfl := own i
    · rcases record_edit [(t, .began)] through (exact_ t) editing shows_
          (List.mem_singleton_self _) with
        ⟨pool', recorded, state, other, editing⟩ |
        ⟨pool', new, recorded, other, took, done, shows'⟩ | failed
      · rw [recorded]
        exact .alone t (state ▸ shows_) editing (other.trans waiting)
      · rw [recorded]
        rw [stay] at shows'
        exact .first t done shows' took (other.trans waiting)
      · exact failed
    · rcases record_begin [(i, .began)] through (ours !i) waiting shows_ (by simp) with
        ⟨pool', recorded, state, other, editing'⟩ | failed
      · rw [recorded]
        rw [Bool.not_not] at other
        refine .both i (state ▸ shows_) fun j => ?_
        obtain rfl | rfl : j = i ∨ j = !i := by cases j <;> cases i <;> simp
        · exact other ▸ editing
        · exact editing'
      · exact failed
  | first i done shows_ took waiting =>
    obtain rfl | rfl := own i
    · obtain ⟨result, finished⟩ := took.finished
      rw [Pool.record_done finished (by simp)]
      exact .first t done shows_ took waiting
    · rcases record_begin [(i, .began), (i, .ended)] through (ours !i) waiting shows_ (by simp) with
        ⟨pool', recorded, state, other, editing⟩ | failed
      · rw [recorded]
        rw [Bool.not_not] at other
        exact .second i done (state ▸ shows_) (other ▸ took) editing
      · exact failed
  | second i done shows_ took editing =>
    obtain rfl | rfl := own i
    · obtain ⟨result, finished⟩ := took.finished
      rw [Pool.record_done finished (by simp)]
      exact .second t done shows_ took editing
    · rcases record_edit [(i, .began), (i, .ended), (!i, .began)] through (exact' i _ done)
          editing shows_ (by simp) with
        ⟨pool', recorded, state, other, editing⟩ |
        ⟨pool', last, recorded, other, took', done', shows'⟩ | failed
      · rw [recorded]
        rw [Bool.not_not] at other
        exact .second i done (state ▸ shows_) (other ▸ took) editing
      · rw [recorded]
        rw [Bool.not_not] at other
        rw [stay] at shows'
        refine .serial i done done' shows' fun j => ?_
        obtain rfl | rfl : j = i ∨ j = !i := by cases j <;> cases i <;> simp
        · exact other ▸ took
        · exact took'
      · exact failed
  | serial i done done' shows_ took =>
    obtain ⟨result, finished⟩ := (took t).finished
    rw [Pool.record_done finished (by cases t <;> cases i <;> simp)]
    exact .serial i done done' shows_ took
  | both k shows_ editing =>
    rcases record_edit [(k, .began), (!k, .began)] through (exact_ t) (editing t) shows_
        (by cases t <;> cases k <;> simp) with
      ⟨pool', recorded, state, other, editing'⟩ |
      ⟨pool', new, recorded, other, took, done, shows'⟩ | failed
    · rw [recorded]
      refine .both k (state ▸ shows_) fun j => ?_
      obtain rfl | rfl : j = t ∨ j = !t := by cases j <;> cases t <;> simp
      · exact editing'
      · exact other ▸ editing _
    · rw [recorded]
      rw [stay] at shows'
      exact .ahead k t done shows' took (other ▸ editing _)
    · exact failed
  | ahead k i done shows_ took editing =>
    obtain rfl | rfl := own i
    · obtain ⟨result, finished⟩ := took.finished
      rw [Pool.record_done finished (by cases t <;> cases k <;> simp)]
      exact .ahead k t done shows_ took editing
    · rcases record_edit [(k, .began), (!k, .began), (i, .ended)] through (exact_ !i) editing
          shows_ (by cases i <;> cases k <;> simp) with
        ⟨pool', recorded, state, other, editing⟩ |
        ⟨pool', last, recorded, other, took', done', shows'⟩ | failed
      · rw [recorded]
        rw [Bool.not_not] at other
        exact .ahead k i done (state ▸ shows_) (other ▸ took) editing
      · rw [recorded]
        rw [Bool.not_not] at other
        refine .crossed k i done done' shows' fun j => ?_
        obtain rfl | rfl : j = i ∨ j = !i := by cases j <;> cases i <;> simp
        · exact other ▸ took
        · exact took'
      · exact failed
  | crossed k i done done' shows_ took =>
    obtain ⟨result, finished⟩ := (took t).finished
    rw [Pool.record_done finished (by cases t <;> cases k <;> simp)]
    exact .crossed k i done done' shows_ took
  | @failed pool history i result finished not_ =>
    have still : (pool.step (t, through)).requests i = .done result :=
      Pool.foldl_done [(t, through)] finished
    exact .failed i still (by rw [still]; rwa [finished] at not_)

theorem run_course (d : Desk) (shows_ : Shows crates event raw d)
    (ours : ∀ i, (replies i).To event (atts i)) (exact_ : ∀ i, Exact crates (atts i) raw)
    (exact' : ∀ i new, replied (atts i) raw = .ok new → Exact crates (atts !i) new)
    (turns : List (Bool × Bool)) :
    Course crates formats event atts replies raw
      (turns.foldl Pool.record (replyPool crates formats d replies, [])) := by
  have steps : ∀ run, Course crates formats event atts replies raw run →
      Course crates formats event atts replies raw (turns.foldl Pool.record run) := by
    induction turns with
    | nil => exact fun _ course => course
    | cons turn rest ih => exact fun run course => ih _ (course.step ours exact_ exact' turn)
  exact steps _ (.fresh shows_ fun _ => rfl)

theorem not_took_handler {i : Bool} (ours : (replies i).To event (atts i)) :
    ¬ Took ((replies i).handler crates formats) := by
  rintro ⟨response, done, -⟩
  rw [Reply.handler, handleReply, show (parseAttendees _).find? _ = _ from ours.attendee] at done
  cases done

theorem Editing.not_took {att : Attendee} {r : Reply} {request : Handler InboxResp}
    (editing : Editing crates formats event att r seen request) : ¬ Took request := by
  rintro took
  obtain ⟨result, finished⟩ := took.finished
  have none := editing.result
  rw [finished] at none
  cases none

/-- The row of the event has both answers. -/
def BothAnswered (atts : Bool → Attendee) (event : Event) (d : Desk) : Prop :=
  ∃ e ∈ d.events, e.id = event.id ∧ ∀ i, Answers (atts i) e.icalRaw

theorem Shows.bothAnswered_iff {d : Desk} (shows_ : Shows crates event body d) (i : Bool) :
    BothAnswered atts event d ↔ Answers (atts i) body ∧ Answers (atts !i) body := by
  obtain ⟨e, listed, place, isBody⟩ := shows_.row
  constructor
  · rintro ⟨e', listed', same, all⟩
    rw [d.eq_of_id listed' listed (same.trans place.id.symm), isBody] at all
    exact ⟨all i, all !i⟩
  · rintro ⟨own, other⟩
    refine ⟨e, listed, place.id, fun j => ?_⟩
    rw [isBody]
    obtain rfl | rfl : j = i ∨ j = !i := by cases j <;> cases i <;> simp
    · exact own
    · exact other

/-- One of the replies makes its first call when the other is done. -/
def InTurn (history : List (Bool × Pool.Mark)) : Prop :=
  ∃ i, history = [(i, .began), (i, .ended), (!i, .began), (!i, .ended)]

/-- The reply that is done last has nothing to change in the body, or the answer of the other
was in it already. -/
def NothingToLose (atts : Bool → Attendee) (raw : Str) (history : List (Bool × Pool.Mark)) : Prop :=
  ∃ i, history.getLast? = some (!i, .ended) ∧
    (replied (atts !i) raw = .ok raw ∨ Answers (atts i) raw)

/-- Two replies that are successful, in whatever order they read and write: both answers are
stored if and only if one read the event after the other was done, or nothing could be lost. -/
theorem replies_kept_iff {d : Desk} (reached : Reachable crates d.toStore)
    (listed : event ∈ d.events) (ours : ∀ i, (replies i).To event (atts i))
    (distinct : toAsciiLowercase (atts true).email ≠ toAsciiLowercase (atts false).email)
    (editable : ∀ i, Editable crates (atts i) event.icalRaw)
    (editable' : ∀ i new, replied (atts i) event.icalRaw = .ok new → Editable crates (atts !i) new)
    (turns : List (Bool × Bool))
    (took : ∀ i, Took ((turns.foldl Pool.step (replyPool crates formats d replies)).requests i)) :
    BothAnswered atts event (turns.foldl Pool.step (replyPool crates formats d replies)).state ↔
      InTurn (turns.foldl Pool.record (replyPool crates formats d replies, [])).2 ∨
        NothingToLose atts event.icalRaw
          (turns.foldl Pool.record (replyPool crates formats d replies, [])).2 := by
  have apart : ∀ i, toAsciiLowercase (atts i).email ≠ toAsciiLowercase (atts !i).email := by
    intro i
    cases i
    · exact distinct.symm
    · exact distinct
  have shows_ : Shows crates event event.icalRaw d :=
    ⟨reached.coherent, event, listed, ⟨rfl, rfl, rfl, rfl⟩, rfl⟩
  have course := @run_course crates formats event atts replies event.icalRaw d shows_ ours
    (fun i => (editable i).exact) (fun i new done => (editable' i new done).exact) turns
  rw [← Pool.foldl_record_fst turns (replyPool crates formats d replies, [])] at took ⊢
  generalize turns.foldl Pool.record (replyPool crates formats d replies, []) = run at *
  cases course with
  | fresh shows_ waiting => exact absurd (waiting true ▸ took true) (not_took_handler (ours true))
  | alone i shows_ editing waiting => exact absurd (took i) editing.not_took
  | first i done shows_ _ waiting => exact absurd (waiting ▸ took !i) (not_took_handler (ours !i))
  | second i done shows_ _ editing => exact absurd (took !i) editing.not_took
  | both k shows_ editing => exact absurd (took k) (editing k).not_took
  | ahead k i done shows_ _ editing => exact absurd (took !i) editing.not_took
  | failed i finished not_ => exact absurd (took i) not_
  | serial i done done' shows_ _ =>
    refine iff_of_true ((shows_.bothAnswered_iff i).mpr ⟨?_, ?_⟩) (.inl ⟨i, rfl⟩)
    · exact (answers_other_iff (editable' i _ done).exact done' (apart i)).mpr
        (answers_replied (editable i).exact done)
    · exact answers_replied (editable' i _ done).exact done'
  | @crossed pool k i new last done done' shows_ _ =>
    have isFirst := answers_replied (editable i).exact done
    have isLast := answers_replied (editable !i).exact done'
    rw [shows_.bothAnswered_iff i]
    have notInTurn : ¬ InTurn [(k, .began), (!k, .began), (i, .ended), (!i, .ended)] := by
      rintro ⟨j, same⟩
      simp at same
    have ends : NothingToLose atts event.icalRaw
          [(k, .began), (!k, .began), (i, .ended), (!i, .ended)] ↔
        last = event.icalRaw ∨ Answers (atts i) event.icalRaw := by
      constructor
      · rintro ⟨j, isEnd, either⟩
        obtain rfl : i = j := by simpa using isEnd
        exact either.imp_left fun same => Except.ok.inj (done'.symm.trans same)
      · intro either
        refine ⟨i, rfl, either.imp_left fun (same : last = event.icalRaw) => ?_⟩
        rw [done', same]
    rw [ends, or_iff_right notInTurn]
    by_cases same : last = event.icalRaw
    · rw [if_pos same]
      refine iff_of_true ⟨isFirst, ?_⟩ (.inl same)
      rw [answers_other_iff (editable i).exact done (Ne.symm (apart i)), ← same]
      exact isLast
    · rw [if_neg same, or_iff_right same]
      rw [answers_other_iff (editable !i).exact done' (apart i)]
      exact ⟨fun all => all.1, fun kept => ⟨kept, isLast⟩⟩

end

/-! ### Two replies to one invitation -/

/-- The first line taken for the attendee's is this one, and the reader takes it so too. -/
def EditsAt (crates : Crates) (att : Attendee) (raw : Str) (before : List Str) (line : Str)
    (after : List Str) : Prop :=
  physicalLines raw = before ++ line :: after ∧
    parseAttendees (normalised raw) = parseAttendees raw ∧
    (∀ l ∈ before, takenFor (toAsciiLowercase att.email) l = false) ∧
    takenFor (toAsciiLowercase att.email) line = true ∧
    readState (refold before) false = some true ∧
    ((refold (line :: after)).head?.bind attendeeOf).map (·.email) =
      some (toAsciiLowercase att.email) ∧
    ((parseAttendees raw).map (·.email)).Nodup ∧
    parseVevent crates (normalised raw) = parseVevent crates raw

instance (crates : Crates) (att : Attendee) (raw : Str) (before : List Str) (line : Str)
    (after : List Str) : Decidable (EditsAt crates att raw before line after) :=
  inferInstanceAs (Decidable (_ ∧ _))

theorem EditsAt.editable {crates : Crates} {att : Attendee} {raw line : Str}
    {before after : List Str} (edits : EditsAt crates att raw before line after) :
    Editable crates att raw := by
  obtain ⟨whole, reading, none, taken, inside, reads, nodup, fields⟩ := edits
  refine ⟨reading, ?_, ?_⟩
  · intro before' line' after' whole' none' taken'
    obtain ⟨rfl, rfl, rfl⟩ := first_unique (whole'.symm.trans whole) none' taken' none taken
    obtain ⟨a, isAttendee, same⟩ := Option.map_eq_some_iff.mp reads
    obtain ⟨logical, first, isAttendee⟩ := Option.bind_eq_some_iff.mp isAttendee
    obtain ⟨rest, folded⟩ := List.head?_eq_some_iff.mp first
    exact ⟨inside, ⟨logical, rest, a, folded, isAttendee, same⟩, nodup, fields⟩
  · intro untaken
    have absent := untaken line (by rw [whole]; simp)
    rw [taken] at absent
    cases absent

def invited : Str :=
  textOf ["BEGIN:VEVENT", "UID:1", "ATTENDEE:mailto:a@x", "ATTENDEE:mailto:b@x", "END:VEVENT"]

def invitedDesk : Desk where
  toStore := [.createCalendar 10 1 7 ⟨"work".toList, none, none, none, false⟩,
    .event (.create 1 10 invited 20)].foldl (Command.run sampleCrates 0) Store.empty
  acl := []
  proposals := []
  valid := by decide +kernel

/-- One attendee accepts, the other declines. -/
def answering (i : Bool) : Attendee :=
  if i then { email := "a@x".toList, partstat := some "ACCEPTED".toList }
  else { email := "b@x".toList, partstat := some "DECLINED".toList }

def twoReplies (i : Bool) : Reply where
  ctx := ⟨1, 7⟩
  pick := .prefer 20
  parsed := { uid := "1".toList }
  body := textOf ["BEGIN:VEVENT", "UID:1"] ++ "ATTENDEE;PARTSTAT=".toList ++
    answerOf (answering i) ++ ":mailto:".toList ++ (answering i).email ++ "\n".toList
  id := 21
  now := 5

theorem answering_edits :
    (∀ i, EditsAt sampleCrates (answering i) invited
      ((physicalLines invited).take (if i then 2 else 3))
      (if i then "ATTENDEE:mailto:a@x".toList else "ATTENDEE:mailto:b@x".toList)
      ((physicalLines invited).drop (if i then 3 else 4))) ∧
    ∀ i, ∃ new ∈ (replied (answering i) invited).toOption, EditsAt sampleCrates (answering !i) new
      ((physicalLines new).take (if i then 3 else 2))
      (if i then "ATTENDEE:mailto:b@x".toList else "ATTENDEE:mailto:a@x".toList)
      ((physicalLines new).drop (if i then 4 else 3)) := by
  decide +kernel

theorem answering_editable (i : Bool) : Editable sampleCrates (answering i) invited :=
  (answering_edits.1 i).editable

theorem answering_editable_after (i : Bool) (new : Str)
    (done : replied (answering i) invited = .ok new) :
    Editable sampleCrates (answering !i) new := by
  obtain ⟨new', isNew, edits⟩ := answering_edits.2 i
  rw [done] at isNew
  obtain rfl := Option.some.inj isNew
  exact edits.editable

def oneByOne : List (Bool × Bool) :=
  [(true, true), (true, true), (true, true), (false, true), (false, true), (false, true)]

/-- Both replies read the event before one of them writes. -/
def atOnce : List (Bool × Bool) :=
  [(true, true), (false, true), (true, true), (false, true), (true, true), (false, true)]

/-- The two replies after these turns, with the order of their ends. -/
def afterTurns (turns : List (Bool × Bool)) :
    Pool Bool Desk (Result InboxResp) × List (Bool × Pool.Mark) :=
  turns.foldl Pool.record (replyPool sampleCrates plainFormats invitedDesk twoReplies, [])

/-- The reply was matched and not stale. -/
def tookFlags (request : Handler InboxResp) : Option (Option (Bool × Bool)) :=
  request.result.map (·.toOption.map fun r => (r.matched, r.stale))

theorem took_of_flags {request : Handler InboxResp}
    (shown : tookFlags request = some (some (true, false))) : Took request := by
  obtain ⟨result, isResult, shown⟩ := Option.map_eq_some_iff.mp shown
  obtain ⟨response, isOk, flags⟩ := Option.map_eq_some_iff.mp shown
  obtain ⟨matched, fresh⟩ := Prod.mk.inj flags
  refine ⟨response, ?_, matched, fresh⟩
  rw [Request.result_eq_some_iff.mp isResult]
  cases result with
  | error e => cases isOk
  | ok r => rw [Option.some.inj isOk]

/-- The event that both answer, and the two replies run in these orders. -/
theorem sample_runs :
    ((∀ e ∈ invitedDesk.events, e.tenantId = 1 ∧ e.uid = "1".toList ∧ e.id = 20) ∧
      ∃ e ∈ invitedDesk.events, e.icalRaw = invited) ∧
    (∀ i, (twoReplies i).attendee = some (answering i)) ∧
    ((∀ i, tookFlags ((afterTurns oneByOne).1.requests i) = some (some (true, false))) ∧
      (afterTurns oneByOne).2 =
        [(true, .began), (true, .ended), (false, .began), (false, .ended)]) ∧
    (∀ i, tookFlags ((afterTurns atOnce).1.requests i) = some (some (true, false))) ∧
      ∀ e ∈ (afterTurns atOnce).1.state.events, ∃ a ∈ parseAttendees e.icalRaw,
        a.email = toAsciiLowercase (answering true).email ∧
          a.partstat ≠ some (answerOf (answering true)) := by
  decide +kernel

theorem twoReplies_to {event : Event} (listed : event ∈ invitedDesk.events) (i : Bool) :
    (twoReplies i).To event (answering i) := by
  obtain ⟨⟨row, -⟩, attends, -⟩ := sample_runs
  obtain ⟨tenant, uid, isId⟩ := row event listed
  refine ⟨attends i, tenant.symm, uid.symm, ?_⟩
  rintro rows ⟨e, among, same⟩
  rw [isId] at same ⊢
  exact Picker.prefer_id among same

theorem replies_kept_oneByOne :
    ∃ event ∈ invitedDesk.events, BothAnswered answering event (afterTurns oneByOne).1.state := by
  obtain ⟨⟨-, event, listed, isBody⟩, -, ran, -⟩ := sample_runs
  rw [afterTurns, Pool.foldl_record_fst] at ran ⊢
  refine ⟨event, listed, (replies_kept_iff (Reachable.run .empty 0 _) listed
    (twoReplies_to listed) (by decide +kernel) ?_ ?_ oneByOne
    fun i => took_of_flags (ran.1 i)).mpr (.inl ⟨true, ran.2⟩)⟩
  · rw [isBody]
    exact answering_editable
  · rw [isBody]
    exact answering_editable_after

/-- Both replies are successful, and the first answer is lost. -/
theorem replies_lost_atOnce :
    (∀ i, Took ((afterTurns atOnce).1.requests i)) ∧
      ¬ ∃ event ∈ invitedDesk.events, BothAnswered answering event (afterTurns atOnce).1.state := by
  obtain ⟨-, -, -, ran⟩ := sample_runs
  refine ⟨fun i => took_of_flags (ran.1 i), ?_⟩
  rintro ⟨event, -, e, listed, -, all⟩
  obtain ⟨a, member, same, other⟩ := ran.2 e listed
  exact other ((all true).2 a member same)

end Expresso.CalDav
