import Expresso.CalDav.Authority
import Expresso.CalDav.Upsert

/-! Invitations and the answers to them. An invitation carries the sequence of the event's row;
an answer is compared with the sequence in the event's body. -/

namespace Expresso.CalDav
open Text Time Transition Itip

/-! ### Invitations -/

inductive PublishMethod where
  | request | cancel
  deriving DecidableEq

def PublishMethod.text : PublishMethod → Str
  | .request => "REQUEST".toList
  | .cancel => "CANCEL".toList

structure AttendeeWire where
  email : Str
  commonName : Option Str
  rsvp : Bool
  deriving DecidableEq

structure InviteWire where
  uid : Str
  sequence : Nat
  summary : Str
  description : Option Str
  location : Option Str
  dtstart : Str
  dtend : Str
  organizerEmail : Str
  organizerCn : Option Str
  attendees : List AttendeeWire
  deriving DecidableEq

structure Envelope where
  method : PublishMethod
  invite : InviteWire
  subjectHint : Option Str
  deriving DecidableEq

/-- `build_envelope_bytes`, before the envelope is serialised. Events without attendees, times or
an organizer have none. -/
def buildEnvelope (rfc3339 : Timestamp → Str) (ev : Event) (method : PublishMethod) :
    Option Envelope :=
  let attendees := parseAttendees ev.icalRaw
  if attendees.isEmpty then none
  else
    match ev.dtstart, ev.dtend, ev.organizerEmail with
    | some dtstart, some dtend, some organizerEmail =>
        let summary := ev.summary.getD "(sem título)".toList
        let hint := match method with
          | .cancel => "Cancelado: ".toList ++ summary
          | .request => "Convite: ".toList ++ summary
        some {
          method
          invite :=
            { uid := ev.uid, sequence := (max ev.sequence 0).toNat, summary
              description := ev.description, location := ev.location
              dtstart := rfc3339 dtstart, dtend := rfc3339 dtend, organizerEmail
              organizerCn := none
              attendees := attendees.map fun a => ⟨a.email, a.cn, a.rsvp.getD true⟩ }
          subjectHint := some hint }
    | _, _, _ => none

theorem buildEnvelope_some {rfc3339 : Timestamp → Str} {ev : Event} {method : PublishMethod}
    {envelope : Envelope} (built : buildEnvelope rfc3339 ev method = some envelope) :
    envelope.method = method ∧ envelope.invite.sequence = (max ev.sequence 0).toNat := by
  simp only [buildEnvelope] at built
  split at built
  · cases built
  · split at built
    · cases built
      exact ⟨rfl, rfl⟩
    · cases built

/-! ### Runs of an organizer -/

/-- The tables, and the envelopes that were published for the rows, the latest first. -/
structure Mailroom where
  desk : Desk
  published : List (Uuid × Envelope)

/-- The sequences in the invitations to an event, the latest first. -/
def Mailroom.invitations (m : Mailroom) (event : Uuid) : List Nat :=
  (m.published.filter fun p => p.1 = event && p.2.method = .request).map (·.2.invite.sequence)

inductive OrganizerStep where
  | create (tenant calendar : Uuid) (raw : Str) (id : Uuid) (now : Timestamp)
  | update (tenant id : Uuid) (raw : Str) (now : Timestamp)
  | replaceByUid (tenant calendar : Uuid) (raw : Str) (id : Uuid) (now : Timestamp)
  | publish (tenant id : Uuid) (method : PublishMethod)

section
variable (crates : Crates)

/-- A method of `EventRepo`; one that fails changes nothing. -/
def Mailroom.write {α : Type} (m : Mailroom) (method : Store → Result (Store × α)) : Mailroom :=
  match Desk.onStore method m.desk with
  | .ok (desk, _) => { m with desk }
  | .error _ => m

def Mailroom.step (rfc3339 : Timestamp → Str) (m : Mailroom) : OrganizerStep → Mailroom
  | .create tenant calendar raw id now =>
      m.write (CalDav.create crates tenant calendar raw id now)
  | .update tenant id raw now => m.write (CalDav.update crates tenant id raw now)
  | .replaceByUid tenant calendar raw id now =>
      m.write (CalDav.replaceByUid crates tenant calendar raw id now)
  | .publish tenant id method =>
      match get tenant id m.desk.toStore with
      | .error _ => m
      | .ok ev =>
          match buildEnvelope rfc3339 ev method with
          | none => m
          | some envelope => { m with published := (ev.id, envelope) :: m.published }

/-- The body has the sequence of the row, as the organizer of RFC 5546 writes it. -/
def InStep (e : Event) : Prop :=
  ∃ parsed, parseVevent crates e.icalRaw = .ok parsed ∧ parsed.sequence = e.sequence ∧
    0 ≤ e.sequence

/-- A new body has the sequence that the row is given: one more if another column changes. -/
def Advances (parsed : ParsedEvent) (raw : Str) (e : Event) : Prop :=
  parsed.sequence = e.sequence +
    if e.significant ≠ (e.withBody parsed (computeEtag crates raw) raw).significant then 1 else 0

/-- The body that a step brings keeps in step with the row that it is for. -/
def KeepsStep (m : Mailroom) : OrganizerStep → Prop
  | .create _ _ raw _ _ => ∀ parsed, parseVevent crates raw = .ok parsed → 0 ≤ parsed.sequence
  | .update tenant id raw _ => ∀ parsed, parseVevent crates raw = .ok parsed →
      ∀ e ∈ m.desk.events, e.isRow tenant id → Advances crates parsed raw e
  | .replaceByUid _ calendar raw _ _ => ∀ parsed, parseVevent crates raw = .ok parsed →
      0 ≤ parsed.sequence ∧
        ∀ e ∈ m.desk.events, e.under calendar parsed.uid → Advances crates parsed raw e
  | .publish _ _ _ => True

/-- The handler answers that what it was sent is stale. -/
def AnswersStale (handler : Handler InboxResp) (d : Desk) : Prop :=
  ∃ response, (handler.run d).2 = .ok response ∧ response.stale = true

/-- A stamp that is older than the one of the body. -/
def OlderStamp (parsed : ParsedEvent) (ev : Event) : Prop :=
  ∃ stored r s, parseVevent crates ev.icalRaw = .ok stored ∧ parsed.dtstamp = some r ∧
    stored.dtstamp = some s ∧ r.instant < s.instant

/-- What the gate makes of an answer, sent by who may write the calendar of the event: it takes
the sequence of the last invitation, if the event has it still, and no lower one that an
invitation had before. -/
def Gated (formats : Formats) (m : Mailroom) : Prop :=
  ∀ (ctx : RequestCtx) (pick : Picker) (parsed : ParsedEvent) (body : Str) (id : Uuid)
    (now : Timestamp) (ev : Event),
    findByUidInTenant pick ctx.tenantId parsed.uid m.desk = .ok (some ev) →
    m.desk.assertCanWrite ctx.tenantId ev.calendarId ctx.userId = .ok () →
    ∀ (latest : Nat) (before : List Nat), m.invitations ev.id = latest :: before →
      (parsed.sequence = latest → ev.sequence = latest →
        ¬ AnswersStale (handleCancel crates ctx pick parsed id now) m.desk ∧
        (¬ OlderStamp crates parsed ev →
          ¬ AnswersStale (handleReply crates formats ctx pick parsed body id now) m.desk)) ∧
      ∀ earlier ∈ before, earlier < latest → parsed.sequence = earlier →
        AnswersStale (handleCancel crates ctx pick parsed id now) m.desk ∧
        (((parseAttendees body).find? (·.partstat.isSome)).isSome →
          AnswersStale (handleReply crates formats ctx pick parsed body id now) m.desk)

end

/-! ### The gate of one answer -/

section
variable {crates : Crates} {formats : Formats} {ctx : RequestCtx} {pick : Picker}
  {parsed stored : ParsedEvent} {body : Str} {id : Uuid} {now : Timestamp} {d : Desk} {ev : Event}

theorem answersStale_done {response : InboxResp} :
    AnswersStale (.done (.ok response)) d ↔ response.stale = true := by
  constructor
  · rintro ⟨_, same, stale⟩
    rw [run_done] at same
    rw [Except.ok.inj same]
    exact stale
  · exact fun stale => ⟨response, rfl, stale⟩

theorem not_answersStale_error (e : CalendarError) : ¬ AnswersStale (.done (.error e)) d := by
  rintro ⟨_, same, -⟩
  cases same

theorem answersStale_read {β : Type} {method : Desk → Result β} {b : β}
    {next : β → Handler InboxResp} (ok : method d = .ok b) :
    AnswersStale (read method next) d ↔ AnswersStale (next b) d := by
  rw [AnswersStale, run_read, ok]
  rfl

theorem not_answersStale_lift {β : Type} {x : Result β} {next : β → Handler InboxResp}
    (rest : ∀ b, x = .ok b → ¬ AnswersStale (next b) d) : ¬ AnswersStale (lift x next) d := by
  cases outcome : x with
  | error e => exact not_answersStale_error e
  | ok b => exact rest b outcome

/-- What is written in the end decides no answer. -/
theorem not_answersStale_call {β : Type} {method : Desk → Result (Desk × β)}
    {response : InboxResp} (fresh : response.stale = false) :
    ¬ AnswersStale (call method fun _ => .done (.ok response)) d := by
  rintro ⟨answer, same, stale⟩
  cases outcome : method d with
  | error e =>
    rw [run_call_error outcome] at same
    cases same
  | ok written =>
    rw [run_call_ok outcome, run_done] at same
    cases same
    rw [fresh] at stale
    cases stale

theorem handleCancel_stale_iff
    (found : findByUidInTenant pick ctx.tenantId parsed.uid d = .ok (some ev))
    (granted : d.assertCanWrite ctx.tenantId ev.calendarId ctx.userId = .ok ())
    (accepted : parseVevent crates ev.icalRaw = .ok stored) :
    AnswersStale (handleCancel crates ctx pick parsed id now) d ↔
      parsed.sequence < stored.sequence := by
  rw [handleCancel, answersStale_read found]
  simp only [cancelEvent]
  rw [answersStale_read granted, accepted, lift]
  by_cases stale : parsed.sequence < stored.sequence
  · rw [if_pos (by simpa [staleCancel] using stale), answersStale_done]
    exact iff_of_true rfl stale
  · rw [if_neg (by simpa [staleCancel] using stale)]
    refine iff_of_false (not_answersStale_lift fun newRaw _ => ?_) stale
    split
    · rw [answersStale_done]
      exact Bool.false_ne_true
    · exact not_answersStale_call rfl

theorem handleReply_stale_iff {att : Attendee}
    (attends : (parseAttendees body).find? (·.partstat.isSome) = some att)
    (found : findByUidInTenant pick ctx.tenantId parsed.uid d = .ok (some ev))
    (granted : d.assertCanWrite ctx.tenantId ev.calendarId ctx.userId = .ok ())
    (accepted : parseVevent crates ev.icalRaw = .ok stored) :
    AnswersStale (handleReply crates formats ctx pick parsed body id now) d ↔
      staleReply parsed stored := by
  rw [handleReply, attends]
  simp only
  rw [answersStale_read found]
  simp only [replyTo]
  rw [answersStale_read granted, accepted, lift]
  by_cases stale : staleReply parsed stored
  · rw [if_pos stale, answersStale_done]
    exact iff_of_true rfl stale
  · rw [if_neg stale]
    refine iff_of_false (not_answersStale_lift fun newRaw _ => ?_) stale
    split
    · rw [answersStale_done]
      exact Bool.false_ne_true
    · exact not_answersStale_call rfl

theorem staleReply_of_lt (lower : parsed.sequence < stored.sequence) :
    staleReply parsed stored := by
  simp [staleReply, lower]

/-- At the same sequence the stamps decide. -/
theorem olderStamp_of_stale (accepted : parseVevent crates ev.icalRaw = .ok stored)
    (same : parsed.sequence = stored.sequence) (stale : staleReply parsed stored) :
    OlderStamp crates parsed ev := by
  simp only [staleReply, same, lt_irrefl, decide_false, Bool.false_or, decide_true,
    Bool.true_and] at stale
  split at stale
  · next r s isReply isStored =>
    exact ⟨stored, r, s, accepted, isReply, isStored, of_decide_eq_true stale⟩
  · cases stale

end

/-! ### Runs -/

/-- The rows are in step with their bodies, and none has a lower sequence than was published. -/
structure Consistent (crates : Crates) (m : Mailroom) : Prop where
  rows : ∀ e ∈ m.desk.events, InStep crates e
  published : ∀ p ∈ m.published, ∃ e ∈ m.desk.events,
    e.id = p.1 ∧ (p.2.invite.sequence : Int) ≤ e.sequence

/-- The rows that there were are there, with no lower sequence, and all are in step. -/
structure Advanced (crates : Crates) (s s' : Store) : Prop where
  rows : ∀ e ∈ s'.events, InStep crates e
  kept : ∀ e ∈ s.events, ∃ e' ∈ s'.events, e'.id = e.id ∧ e.sequence ≤ e'.sequence

section
variable {crates : Crates} {tenant calendar id : Uuid} {raw : Str} {now : Timestamp}
  {s s' : Store} {row e e' : Event} {parsed : ParsedEvent}

theorem InStep.of_revision (inStep : InStep crates e) (same : e'.revision = e.revision) :
    InStep crates e' := by
  rw [InStep, e.revision_body same, e.revision_sequence same]
  exact inStep

theorem inStep_fresh (accepted : parseVevent crates raw = .ok parsed)
    (nonneg : 0 ≤ parsed.sequence) :
    InStep crates (Event.fresh id tenant calendar now parsed (computeEtag crates raw) raw) :=
  ⟨parsed, accepted, rfl, nonneg⟩

theorem InStep.replaced (inStep : InStep crates e) (accepted : parseVevent crates raw = .ok parsed)
    (advances : Advances crates parsed raw e) :
    InStep crates (e.replaced parsed (computeEtag crates raw) raw) := by
  have same : parsed.sequence = (e.replaced parsed (computeEtag crates raw) raw).sequence := by
    rw [advances, Event.replaced]
    simp only
    split
    · rfl
    · exact add_zero _
  obtain ⟨-, -, -, nonneg⟩ := inStep
  exact ⟨parsed, accepted, same, nonneg.trans (e.sequence_le_replaced _ _ _)⟩

theorem Advanced.of_inserted (rows : ∀ e ∈ s.events, InStep crates e)
    (inserted : Inserted tenant row s.toTables s'.toTables) (fresh : InStep crates row) :
    Advanced crates s s' := by
  constructor
  · intro e listed
    rcases inserted.row listed with old | same
    · exact rows e old
    · exact fresh.of_revision same
  · intro e listed
    obtain ⟨ctag, -, events⟩ := inserted.written
    exact ⟨e, by rw [events]; exact List.mem_append_left _ listed, rfl, le_rfl⟩

/-- Rows that take a body which keeps in step with them. -/
theorem Advanced.of_changed {selected : Event → Bool} (rows : ∀ e ∈ s.events, InStep crates e)
    (accepted : parseVevent crates raw = .ok parsed)
    (changed : Changed tenant now (fun e => if selected e then
      some (e.replaced parsed (computeEtag crates raw) raw) else none) s.toTables s'.toTables)
    (advances : ∀ e ∈ s.events, selected e → Advances crates parsed raw e) :
    Advanced crates s s' := by
  constructor
  · intro e' listed'
    obtain ⟨e, listed, ⟨-, rfl⟩ | ⟨chosen, same⟩⟩ := changed.row listed'
    · exact rows e' listed
    · exact ((rows e listed).replaced accepted (advances e listed chosen)).of_revision same
  · intro e listed
    by_cases chosen : selected e
    · obtain ⟨ctag, listed'⟩ := changed.image listed chosen
      exact ⟨_, listed', rfl, e.sequence_le_replaced _ _ _⟩
    · obtain ⟨middle, -, run⟩ := changed.written
      obtain ⟨e', listed', ⟨-, rfl⟩ | ⟨_, _, changes, -⟩⟩ :=
        exists_right (updateRows_spec run) listed
      · exact ⟨e', listed', rfl, le_rfl⟩
      · simp [chosen] at changes

theorem create_advanced (rows : ∀ e ∈ s.events, InStep crates e)
    (nonneg : ∀ parsed, parseVevent crates raw = .ok parsed → 0 ≤ parsed.sequence)
    (done : create crates tenant calendar raw id now s = .ok (s', row)) :
    Advanced crates s s' := by
  obtain ⟨parsed, accepted, inserted⟩ := create_ok done
  exact .of_inserted rows inserted (inStep_fresh accepted (nonneg parsed accepted))

theorem update_advanced (rows : ∀ e ∈ s.events, InStep crates e)
    (advances : ∀ parsed, parseVevent crates raw = .ok parsed →
      ∀ e ∈ s.events, e.isRow tenant id → Advances crates parsed raw e)
    (done : update crates tenant id raw now s = .ok (s', row)) : Advanced crates s s' := by
  obtain ⟨parsed, accepted, changed⟩ := update_ok done
  exact .of_changed rows accepted changed (advances parsed accepted)

theorem replaceByUid_advanced (rows : ∀ e ∈ s.events, InStep crates e)
    (advances : ∀ parsed, parseVevent crates raw = .ok parsed → 0 ≤ parsed.sequence ∧
      ∀ e ∈ s.events, e.under calendar parsed.uid → Advances crates parsed raw e)
    (done : replaceByUid crates tenant calendar raw id now s = .ok (s', row)) :
    Advanced crates s s' := by
  obtain ⟨parsed, accepted, ⟨-, inserted⟩ | ⟨-, changed⟩⟩ := replaceByUid_ok done
  · exact .of_inserted rows inserted (inStep_fresh accepted (advances parsed accepted).1)
  · exact .of_changed rows accepted changed (advances parsed accepted).2

variable {m : Mailroom} {rfc3339 : Timestamp → Str}

theorem Consistent.write {method : Store → Result (Store × Event)}
    (consistent : Consistent crates m)
    (advances : ∀ s' row, method m.desk.toStore = .ok (s', row) →
      Advanced crates m.desk.toStore s') : Consistent crates (m.write method) := by
  rw [Mailroom.write]
  split
  · next desk row done =>
    have advanced := advances _ _ (onStore_ok done).1
    refine ⟨advanced.rows, fun p listed => ?_⟩
    obtain ⟨e, member, same, below⟩ := consistent.published p listed
    obtain ⟨e', member', same', raised⟩ := advanced.kept e member
    exact ⟨e', member', same'.trans same, below.trans raised⟩
  · exact consistent

theorem Consistent.publish {method : PublishMethod} {envelope : Envelope}
    (consistent : Consistent crates m) (listed : e ∈ m.desk.events)
    (built : buildEnvelope rfc3339 e method = some envelope) :
    Consistent crates { m with published := (e.id, envelope) :: m.published } := by
  refine ⟨consistent.rows, fun p member => ?_⟩
  rcases List.mem_cons.mp member with rfl | old
  · obtain ⟨_, -, -, nonneg⟩ := consistent.rows e listed
    refine ⟨e, listed, rfl, ?_⟩
    rw [(buildEnvelope_some built).2]
    omega
  · exact consistent.published p old

theorem Consistent.step {step : OrganizerStep} (consistent : Consistent crates m)
    (keeps : KeepsStep crates m step) : Consistent crates (m.step crates rfc3339 step) := by
  cases step with
  | create tenant calendar raw id now =>
    exact consistent.write fun _ _ => create_advanced consistent.rows keeps
  | update tenant id raw now =>
    exact consistent.write fun _ _ => update_advanced consistent.rows keeps
  | replaceByUid tenant calendar raw id now =>
    exact consistent.write fun _ _ => replaceByUid_advanced consistent.rows keeps
  | publish tenant id method =>
    rw [Mailroom.step]
    split
    · exact consistent
    · next ev found =>
      split
      · exact consistent
      · next envelope built => exact consistent.publish (get_ok found).1 built

theorem Consistent.invitation_le {sequence : Nat} (consistent : Consistent crates m)
    (listed : e ∈ m.desk.events) (invited : sequence ∈ m.invitations e.id) :
    (sequence : Int) ≤ e.sequence := by
  obtain ⟨p, among, rfl⟩ := List.mem_map.mp invited
  obtain ⟨published, about⟩ := List.mem_filter.mp among
  obtain ⟨e', listed', same, below⟩ := consistent.published p published
  simp only [Bool.and_eq_true, decide_eq_true_eq] at about
  rwa [m.desk.eq_of_id listed' listed (same.trans about.1)] at below

theorem Consistent.gated (formats : Formats) (consistent : Consistent crates m) :
    Gated crates formats m := by
  intro ctx pick parsed body id now ev found granted latest before invitations
  have listed := (findByUid_mem found).1
  obtain ⟨stored, accepted, same, -⟩ := consistent.rows ev listed
  constructor
  · intro isLatest still
    have level : parsed.sequence = stored.sequence := isLatest.trans (still.symm.trans same.symm)
    constructor
    · rw [handleCancel_stale_iff found granted accepted]
      exact level.not_lt
    · intro recent
      cases attends : (parseAttendees body).find? (·.partstat.isSome) with
      | none =>
        rw [handleReply, attends]
        exact not_answersStale_error _
      | some att =>
        rw [handleReply_stale_iff attends found granted accepted]
        exact fun stale => recent (olderStamp_of_stale accepted level stale)
  · intro earlier _ lower carries
    have invited : latest ∈ m.invitations ev.id := by
      rw [invitations]
      exact List.mem_cons_self
    have below : parsed.sequence < stored.sequence := by
      calc parsed.sequence = earlier := carries
        _ < latest := by exact_mod_cast lower
        _ ≤ ev.sequence := consistent.invitation_le listed invited
        _ = stored.sequence := same.symm
    refine ⟨(handleCancel_stale_iff found granted accepted).mpr below, fun attends => ?_⟩
    obtain ⟨att, attends⟩ := Option.isSome_iff_exists.mp attends
    exact (handleReply_stale_iff attends found granted accepted).mpr (staleReply_of_lt below)

end

/-- Where every body that is written keeps in step with its row, the gate is right all along. -/
theorem gated_throughout (crates : Crates) (formats : Formats) (rfc3339 : Timestamp → Str)
    (desk : Desk) (rows : ∀ e ∈ desk.events, InStep crates e) (steps : List OrganizerStep)
    (keeps : EachStep (Mailroom.step crates rfc3339) (KeepsStep crates) ⟨desk, []⟩ steps) :
    Throughout (Mailroom.step crates rfc3339) (Gated crates formats) ⟨desk, []⟩ steps := by
  have initial : Consistent crates ⟨desk, []⟩ := ⟨rows, by simp⟩
  have along := keeps.throughout (fun _ _ consistent => consistent.step) initial
  exact along.imp fun _ consistent => consistent.gated formats

/-! ### One event, invited twice -/

instance Result.decidableOnOk {α : Type} {x : Result α} {p : α → Prop} [DecidablePred p] :
    Decidable (∀ a, x = .ok a → p a) :=
  match x with
  | .ok a => decidable_of_iff (p a) ⟨fun holds _ same => Except.ok.inj same ▸ holds, (· a rfl)⟩
  | .error _ => .isTrue nofun

instance (crates : Crates) (parsed : ParsedEvent) (raw : Str) (e : Event) :
    Decidable (Advances crates parsed raw e) :=
  inferInstanceAs (Decidable (_ = _))

instance (crates : Crates) (m : Mailroom) : ∀ step, Decidable (KeepsStep crates m step)
  | .create _ _ raw _ _ =>
      inferInstanceAs (Decidable (∀ parsed, parseVevent crates raw = .ok parsed → _))
  | .update _ _ raw _ =>
      inferInstanceAs (Decidable (∀ parsed, parseVevent crates raw = .ok parsed → _))
  | .replaceByUid _ _ raw _ _ =>
      inferInstanceAs (Decidable (∀ parsed, parseVevent crates raw = .ok parsed → _))
  | .publish _ _ _ => .isTrue trivial

theorem answersStale_iff {handler : Handler InboxResp} {d : Desk} :
    AnswersStale handler d ↔ ((handler.run d).2.toOption.any (·.stale)) = true := by
  rw [AnswersStale]
  cases (handler.run d).2 with
  | error e => simp [Except.toOption]
  | ok response => simp [Except.toOption]

instance (handler : Handler InboxResp) (d : Desk) : Decidable (AnswersStale handler d) :=
  decidable_of_iff _ answersStale_iff.symm

/-- User 7's calendar 10. -/
def organizerDesk : Desk where
  toStore := [.createCalendar 10 1 7 ⟨"work".toList, none, none, none, false⟩].foldl
    (Command.run sampleCrates 0) Store.empty
  acl := []
  proposals := []
  valid := by decide

def meeting (summary sequence : String) : Str :=
  textOf ["BEGIN:VEVENT", "UID:1", "DTSTAMP:20260501T090000Z", "SUMMARY:" ++ summary,
    "SEQUENCE:" ++ sequence, "DTSTART:20260518T090000Z", "DTEND:20260518T100000Z",
    "ORGANIZER:mailto:o@x", "ATTENDEE:mailto:a@x", "END:VEVENT"]

/-- An event that is created, changed with this body, and published each time. -/
def invitedTwice (body : Str) : List OrganizerStep :=
  [.create 1 10 (meeting "a" "0") 20 5, .publish 1 20 .request, .update 1 20 body 6,
    .publish 1 20 .request]

def mailroomAfter (steps : List OrganizerStep) : Mailroom :=
  steps.foldl (Mailroom.step sampleCrates fun _ => []) ⟨organizerDesk, []⟩

/-- A reply stamped before the event was. -/
def earlyReply : Str :=
  textOf ["BEGIN:VEVENT", "UID:1", "DTSTAMP:20260430T090000Z", "SEQUENCE:0",
    "ATTENDEE;PARTSTAT=ACCEPTED:mailto:a@x", "END:VEVENT"]

theorem gated_invitedTwice :
    Throughout (Mailroom.step sampleCrates fun _ => []) (Gated sampleCrates plainFormats)
      ⟨organizerDesk, []⟩ (invitedTwice (meeting "b" "1")) := by
  have facts : organizerDesk.events = [] ∧
      EachStep (Mailroom.step sampleCrates fun _ => []) (KeepsStep sampleCrates)
        ⟨organizerDesk, []⟩ (invitedTwice (meeting "b" "1")) := by
    decide +kernel
  refine gated_throughout sampleCrates plainFormats (fun _ => []) organizerDesk ?_ _ facts.2
  rw [facts.1]
  exact fun _ listed => absurd listed List.not_mem_nil

/-- After the first invitation, a reply with its sequence and an older stamp is stale. After the
second, for a body that kept the old sequence, a cancellation with the first one is taken. -/
theorem invitedTwice_gate_fails :
    ((mailroomAfter ((invitedTwice []).take 2)).invitations 20 = [0] ∧
      ∃ parsed ∈ (parseVevent sampleCrates earlyReply).toOption, parsed.sequence = 0 ∧
        AnswersStale (handleReply sampleCrates plainFormats ⟨1, 7⟩ .first parsed earlyReply 21 7)
          (mailroomAfter ((invitedTwice []).take 2)).desk) ∧
    (mailroomAfter (invitedTwice (meeting "b" "0"))).invitations 20 = [1, 0] ∧
      ∃ parsed ∈ (parseVevent sampleCrates (meeting "a" "0")).toOption, parsed.sequence = 0 ∧
        ∃ response ∈ ((handleCancel sampleCrates ⟨1, 7⟩ .first parsed 21 7).run
          (mailroomAfter (invitedTwice (meeting "b" "0"))).desk).2.toOption,
          response.stale = false ∧ response.cancelled = true := by
  decide +kernel

end Expresso.CalDav
