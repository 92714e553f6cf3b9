import Expresso.Compose.Outbox

/-! Whether a mail that is stored for a later time goes to the recipients that it would have gone
to at once. -/

namespace Expresso.Compose
open Text Transition Query
open Imap (Uuid)

/-- The envelope of the row that is stored under an id. -/
def storedEnvelope (services : Services) (stored : Store × Uuid) : Option Envelope :=
  (stored.1.messages.find? fun row => row.id = stored.2).bind (dispatchEnvelope services)

section
variable (services : Services) (ctx : RequestCtx) (dir : Directory)
  (thread : Uuid → Option (Str × List Str)) (req : SendRequest) (deliverAt : Int) (s : Store)
  (new : NewIds s)

/-- The request is accepted for later where it is accepted now, and reaches the same addresses. -/
structure Agrees : Prop where
  accepts : (∃ stored, persistForDelivery services ctx req deliverAt s new = .ok stored) ↔
    ∃ m, sendMessage services ctx dir thread req = .ok m
  recipients : ∀ m stored, sendMessage services ctx dir thread req = .ok m →
    persistForDelivery services ctx req deliverAt s new = .ok stored →
      ∃ envelope, storedEnvelope services stored = some envelope ∧
        ∀ a, a ∈ envelope.toAddrs ↔ a ∈ m.envelope.toAddrs

/-- An address that one of the three lists reaches. -/
def Receives (a : Str) : Prop :=
  Reached services ctx dir req.toAddrs a ∨ Reached services ctx dir (req.cc.getD []) a ∨
    Reached services ctx dir (req.bcc.getD []) a

/-- What it takes for a request to be sent: the sender and every address that is reached can be
read, every group is named by an id, and there is someone to send to. -/
structure Sendable : Prop where
  sender : services.reads req.fromAddr
  groups : GroupsNamed services req.recipients
  readable : ∀ a, Receives services ctx dir req a → services.reads a
  present : ∃ a, Receives services ctx dir req a

/-- The user has a folder for drafts, or no other folder of its name. -/
def DraftsOpen : Prop :=
  (∃ mb ∈ s.mailboxes, isDrafts ctx mb) ∨ ∀ mb ∈ s.mailboxes, ¬nameTaken ctx mb

/-- A request without groups, all of whose entries can be read, whose copies go to nobody else, and
whose `to` repeats no address in other letters. -/
structure Simple : Prop where
  plain : ∀ entry ∈ req.recipients, groupId entry = none
  readable : ∀ entry ∈ req.recipients, services.reads entry
  copies : ∀ a, Leads toAsciiLowercase (req.cc.getD []) a ∨
    Leads toAsciiLowercase (req.bcc.getD []) a → a ∈ req.toAddrs
  spelling : ∀ a ∈ req.toAddrs, Leads toAsciiLowercase req.toAddrs a ∨
    Leads toAsciiLowercase (req.cc.getD []) a ∨ Leads toAsciiLowercase (req.bcc.getD []) a
  drafts : DraftsOpen ctx s

end

variable {services : Services} {ctx : RequestCtx} {dir : Directory}
  {thread : Uuid → Option (Str × List Str)} {req : SendRequest} {deliverAt : Int} {s : Store}
  {new : NewIds s}

/-! ### Sending now -/

theorem groupsNamed_append {first second : List Str} :
    GroupsNamed services (first ++ second) ↔
      GroupsNamed services first ∧ GroupsNamed services second :=
  List.forall_mem_append

variable (ctx dir) in
theorem expandRecipients_of_named {entries : List Str} (known : GroupsNamed services entries) :
    ∃ addresses, expandRecipients services ctx dir entries = .ok addresses :=
  ⟨_, expandRecipients_ok_iff.mpr ⟨known, rfl⟩⟩

theorem mem_lists {toAddrs cc bcc : List Str}
    (first : expandRecipients services ctx dir req.toAddrs = .ok toAddrs)
    (second : expandRecipients services ctx dir (req.cc.getD []) = .ok cc)
    (third : expandRecipients services ctx dir (req.bcc.getD []) = .ok bcc) (a : Str) :
    a ∈ toAddrs ++ cc ++ bcc ↔ Receives services ctx dir req a := by
  rw [List.mem_append, List.mem_append, mem_expanded first, mem_expanded second,
    mem_expanded third, or_assoc]
  rfl

theorem sendMessage_ok {m : Message} (sent : sendMessage services ctx dir thread req = .ok m) :
    Sendable services ctx dir req ∧
      ∀ a, a ∈ m.envelope.toAddrs ↔ Receives services ctx dir req a := by
  simp only [sendMessage, bind_eq_ok_iff] at sent
  obtain ⟨toAddrs, first, cc, second, bcc, third, built⟩ := sent
  obtain ⟨⟨sender, readable, present⟩, envelope⟩ := build_ok built
  have receives := mem_lists first second third
  refine ⟨⟨sender, ?_, ?_, ?_⟩, ?_⟩
  · unfold SendRequest.recipients
    rw [groupsNamed_append, groupsNamed_append]
    exact ⟨⟨(expandRecipients_ok_iff.mp first).1, (expandRecipients_ok_iff.mp second).1⟩,
      (expandRecipients_ok_iff.mp third).1⟩
  · intro a reached
    exact readable a ((receives a).mpr reached)
  · obtain ⟨a, inside⟩ := List.exists_mem_of_ne_nil _ present
    exact ⟨a, (receives a).mp inside⟩
  · rw [envelope]
    exact receives

theorem exists_sendMessage_iff :
    (∃ m, sendMessage services ctx dir thread req = .ok m) ↔ Sendable services ctx dir req := by
  constructor
  · intro ⟨m, sent⟩
    exact (sendMessage_ok sent).1
  · intro can
    have groups := can.groups
    unfold SendRequest.recipients at groups
    rw [groupsNamed_append, groupsNamed_append] at groups
    obtain ⟨toAddrs, first⟩ := expandRecipients_of_named ctx dir groups.1.1
    obtain ⟨cc, second⟩ := expandRecipients_of_named ctx dir groups.1.2
    obtain ⟨bcc, third⟩ := expandRecipients_of_named ctx dir groups.2
    have receives := mem_lists first second third
    have buildable : Buildable services req (toAddrs ++ cc ++ bcc) := by
      refine ⟨can.sender, fun a inside => can.readable a ((receives a).mp inside), ?_⟩
      obtain ⟨a, reached⟩ := can.present
      exact List.ne_nil_of_mem ((receives a).mpr reached)
    obtain ⟨m, built⟩ := exists_build_iff.mpr buildable
    refine ⟨m, ?_⟩
    simp only [sendMessage, bind_eq_ok_iff]
    exact ⟨toAddrs, first, cc, second, bcc, third, built⟩

/-! ### Storing for later -/

theorem find_insertRow (row : MessageRow) (absent : row.id ∉ s.messages.map (·.id)) :
    ((insertRow row s absent).messages.find? fun r => r.id = row.id) = some row := by
  have none : (s.messages.find? fun r => decide (r.id = row.id)) = none := by
    rw [List.find?_eq_none]
    intro r inside same
    exact absent (List.mem_map.mpr ⟨r, inside, of_decide_eq_true same⟩)
  rw [insertRow, List.find?_append, none]
  simp

/-- The row that is stored has the sender and the `to` of the request. -/
theorem persist_ok {stored : Store × Uuid}
    (done : persistForDelivery services ctx req deliverAt s new = .ok stored) :
    Buildable services req req.recipients ∧ DraftsOpen ctx s ∧
      ∃ row : MessageRow, row.fromAddr = some req.fromAddr ∧ row.toAddrs = req.toAddrs ∧
        (stored.1.messages.find? fun r => r.id = stored.2) = some row := by
  simp only [persistForDelivery, bind_eq_ok_iff] at done
  obtain ⟨m, built, kept⟩ := done
  refine ⟨(build_ok built).1, ?_⟩
  cases found : s.mailboxes.find? (isDrafts ctx) with
  | some mb =>
    rw [found] at kept
    cases kept
    have drafts : DraftsOpen ctx s :=
      .inl ⟨mb, List.mem_of_find?_eq_some found, List.find?_some found⟩
    let row := scheduledRow ctx req deliverAt mb.id new.message m
    exact ⟨drafts, row, rfl, rfl, find_insertRow row new.messageNew⟩
  | none =>
    rw [found] at kept
    by_cases taken : s.mailboxes.any (nameTaken ctx)
    · simp only [if_pos taken] at kept
      cases kept
    · simp only [if_neg taken] at kept
      cases kept
      let row := scheduledRow ctx req deliverAt new.mailbox new.message m
      refine ⟨.inr ?_, row, rfl, rfl, find_insertRow row new.messageNew⟩
      intro mb inside named
      exact taken (List.any_eq_true.mpr ⟨mb, inside, named⟩)

theorem exists_persist_iff :
    (∃ stored, persistForDelivery services ctx req deliverAt s new = .ok stored) ↔
      Buildable services req req.recipients ∧ DraftsOpen ctx s := by
  constructor
  · rintro ⟨stored, done⟩
    obtain ⟨buildable, drafts, _⟩ := persist_ok done
    exact ⟨buildable, drafts⟩
  · rintro ⟨buildable, drafts⟩
    obtain ⟨m, built⟩ := exists_build_iff.mpr buildable
    unfold persistForDelivery
    rw [built]
    dsimp only [bind, Except.bind]
    cases found : s.mailboxes.find? (isDrafts ctx) with
    | some mb => exact ⟨_, rfl⟩
    | none =>
      rcases drafts with ⟨mb, inside, own⟩ | free
      · exact absurd own (List.find?_eq_none.mp found mb inside)
      · have untaken : ¬s.mailboxes.any (nameTaken ctx) := by
          intro taken
          obtain ⟨mb, inside, named⟩ := List.any_eq_true.mp taken
          exact free mb inside named
        simp only [if_neg untaken]
        exact ⟨_, rfl⟩

/-! ### Agreement -/

section
variable {entries : List Str} (plain : ∀ entry ∈ entries, groupId entry = none)
include plain

theorem flatMap_named : entries.flatMap (named services ctx dir) = entries := by
  induction entries with
  | nil => rfl
  | cons entry rest ih =>
    have own : named services ctx dir entry = [entry] := by
      unfold named
      rw [plain entry List.mem_cons_self]
    rw [List.flatMap_cons, own, ih fun e inside => plain e (List.mem_cons_of_mem _ inside)]
    rfl

theorem reached_iff (a : Str) :
    Reached services ctx dir entries a ↔ Leads toAsciiLowercase entries a := by
  unfold Reached
  rw [flatMap_named plain]

end

theorem receives_iff (plain : ∀ entry ∈ req.recipients, groupId entry = none) (a : Str) :
    Receives services ctx dir req a ↔ Leads toAsciiLowercase req.toAddrs a ∨
      Leads toAsciiLowercase (req.cc.getD []) a ∨ Leads toAsciiLowercase (req.bcc.getD []) a := by
  unfold SendRequest.recipients at plain
  unfold Receives
  rw [reached_iff fun e inside => plain e (by simp [inside]),
    reached_iff fun e inside => plain e (by simp [inside]),
    reached_iff fun e inside => plain e (by simp [inside])]

/-- The library reads no address in an entry for a group. -/
theorem plain_of_readable (unread : ∀ text, services.reads (groupPrefix ++ text) = false)
    {entry : Str} (readable : services.reads entry) : groupId entry = none := by
  cases starts : groupPrefix.isPrefixOf entry with
  | true =>
    obtain ⟨text, rfl⟩ := List.isPrefixOf_iff_prefix.mp starts
    rw [unread] at readable
    cases readable
  | false => simp [groupId, stripPrefix, starts]

theorem sendable_of_buildable (unread : ∀ text, services.reads (groupPrefix ++ text) = false)
    (buildable : Buildable services req req.recipients) : Sendable services ctx dir req := by
  obtain ⟨sender, readable, present⟩ := buildable
  have plain : ∀ entry ∈ req.recipients, groupId entry = none :=
    fun entry inside => plain_of_readable unread (readable entry inside)
  have lists (a : Str) := @receives_iff services ctx dir req plain a
  refine ⟨sender, ?_, ?_, ?_⟩
  · intro entry inside id group
    rw [plain entry inside] at group
    cases group
  · intro a receives
    apply readable
    unfold SendRequest.recipients
    simp only [List.mem_append]
    rcases (lists a).mp receives with first | second | third
    · exact .inl (.inl first.mem)
    · exact .inl (.inr second.mem)
    · exact .inr third.mem
  · simp only [lists]
    by_cases first : req.toAddrs = []
    · by_cases second : req.cc.getD [] = []
      · have third : req.bcc.getD [] ≠ [] := by
          simpa [SendRequest.recipients, first, second] using present
        obtain ⟨a, leads⟩ := exists_leads third
        exact ⟨a, .inr (.inr leads)⟩
      · obtain ⟨a, leads⟩ := exists_leads second
        exact ⟨a, .inr (.inl leads)⟩
    · obtain ⟨a, leads⟩ := exists_leads first
      exact ⟨a, .inl leads⟩

/-- The envelope of a row whose addresses can all be read. -/
theorem dispatchEnvelope_readable {row : MessageRow}
    (readable : ∀ a ∈ row.toAddrs, services.reads a) (present : row.toAddrs ≠ []) :
    dispatchEnvelope services row = some ⟨row.fromAddr.filter services.reads, row.toAddrs⟩ := by
  unfold dispatchEnvelope
  rw [List.filter_eq_self.mpr readable]
  exact if_neg present

/-- Where the two agree, a message goes to just the entries of `to`. -/
theorem Agrees.addresses {m : Message}
    (agrees : Agrees services ctx dir thread req deliverAt s new)
    (sent : sendMessage services ctx dir thread req = .ok m) (a : Str) :
    a ∈ req.toAddrs ↔ a ∈ m.envelope.toAddrs := by
  obtain ⟨stored, kept⟩ := agrees.accepts.mpr ⟨m, sent⟩
  obtain ⟨⟨_, readable, _⟩, _, row, _, same, found⟩ := persist_ok kept
  obtain ⟨envelope, relayed, members⟩ := agrees.recipients m stored sent kept
  rw [← members]
  have all : req.toAddrs.filter services.reads = req.toAddrs :=
    List.filter_eq_self.mpr fun entry inside =>
      readable entry (List.mem_append_left _ (List.mem_append_left _ inside))
  simp only [storedEnvelope, found, Option.bind_some, dispatchEnvelope, same, all] at relayed
  split_ifs at relayed
  cases relayed
  rfl

/-- Sending later agrees with sending now just where a request that can be sent has only plain
recipients, each of them in `to`. -/
theorem deferred_agrees_iff (unread : ∀ text, services.reads (groupPrefix ++ text) = false) :
    Agrees services ctx dir thread req deliverAt s new ↔
      (Sendable services ctx dir req → Simple services ctx req s) := by
  constructor
  · intro agrees can
    obtain ⟨m, sent⟩ := (@exists_sendMessage_iff services ctx dir thread req).mpr can
    obtain ⟨stored, kept⟩ := agrees.accepts.mpr ⟨m, sent⟩
    obtain ⟨⟨_, readable, _⟩, drafts, _⟩ := persist_ok kept
    have plain : ∀ entry ∈ req.recipients, groupId entry = none :=
      fun entry inside => plain_of_readable unread (readable entry inside)
    have addresses : ∀ a, a ∈ req.toAddrs ↔ Receives services ctx dir req a := by
      intro a
      rw [agrees.addresses sent, (sendMessage_ok sent).2]
    refine ⟨plain, readable, ?_, ?_, drafts⟩
    · intro a copy
      exact (addresses a).mpr ((receives_iff plain a).mpr (.inr copy))
    · intro a inside
      exact (receives_iff plain a).mp ((addresses a).mp inside)
  · intro simple
    have accepts : (∃ stored, persistForDelivery services ctx req deliverAt s new = .ok stored) ↔
        ∃ m, sendMessage services ctx dir thread req = .ok m := by
      rw [exists_persist_iff, exists_sendMessage_iff]
      constructor
      · intro ⟨buildable, _⟩
        exact sendable_of_buildable unread buildable
      · intro can
        obtain ⟨plain, readable, copies, _, drafts⟩ := simple can
        obtain ⟨a, receives⟩ := can.present
        have present : a ∈ req.toAddrs := by
          rcases (receives_iff plain a).mp receives with first | copy
          · exact first.mem
          · exact copies a copy
        have some : req.recipients ≠ [] :=
          List.ne_nil_of_mem (List.mem_append_left _ (List.mem_append_left _ present))
        exact ⟨⟨can.sender, readable, some⟩, drafts⟩
    refine ⟨accepts, ?_⟩
    intro m stored sent kept
    obtain ⟨can, members⟩ := sendMessage_ok sent
    obtain ⟨plain, readable, copies, spelling, _⟩ := simple can
    obtain ⟨_, _, row, _, same, found⟩ := persist_ok kept
    have addresses : ∀ a, a ∈ req.toAddrs ↔ a ∈ m.envelope.toAddrs := by
      intro a
      rw [members, receives_iff plain]
      constructor
      · exact spelling a
      · rintro (first | copy)
        · exact first.mem
        · exact copies a copy
    obtain ⟨a, receives⟩ := can.present
    have present : req.toAddrs ≠ [] :=
      List.ne_nil_of_mem ((addresses a).mpr ((members a).mpr receives))
    refine ⟨⟨row.fromAddr.filter services.reads, row.toAddrs⟩, ?_, ?_⟩
    · rw [storedEnvelope, found]
      apply dispatchEnvelope_readable
      · rw [same]
        intro entry inside
        exact readable entry (List.mem_append_left _ (List.mem_append_left _ inside))
      · rw [same]
        exact present
    · rw [same]
      exact addresses

section Sample

def sampleServices : Services where
  reads := fun text => '@' ∈ text && ':' ∉ text
  missingTo := "missing destination address".toList
  parseUuid := fun _ => none
  collate := fun _ _ => true

def sampleStore : Store := ⟨⟨[], []⟩, by decide⟩

def sampleIds : NewIds sampleStore := ⟨1, 2, by decide, by decide⟩

def plainRequest : SendRequest where
  fromAddr := "a@x.org".toList
  toAddrs := ["b@x.org".toList]

/-- One recipient in `to` and one in `cc`. -/
def copiedRequest : SendRequest := { plainRequest with cc := some ["c@x.org".toList] }

theorem deferred_agrees_plain :
    Agrees sampleServices ⟨1, 7⟩ ⟨[], [], []⟩ (fun _ => none) plainRequest 60 sampleStore
      sampleIds := by
  have unread : ∀ text, sampleServices.reads (groupPrefix ++ text) = false := by
    intro text
    have colon : ':' ∈ groupPrefix ++ text := List.mem_append_left _ (by decide)
    change (decide ('@' ∈ groupPrefix ++ text) && decide (':' ∉ groupPrefix ++ text)) = false
    rw [decide_eq_false (not_not.mpr colon), Bool.and_false]
  refine (deferred_agrees_iff unread).mpr fun _ => ⟨?_, ?_, ?_, ?_, ?_⟩
  · decide
  · decide
  · intro a copy
    exact absurd copy (not_or.mpr ⟨leads_nil, leads_nil⟩)
  · intro a inside
    rw [List.mem_singleton.mp inside]
    exact .inl ⟨[], [], rfl, fun b absent => nomatch absent⟩
  · exact .inr fun mb absent => nomatch absent

def copiedMessage : Message where
  sender := "a@x.org".toList
  subject := []
  dispositionNotificationTo := none
  toAddrs := ["b@x.org".toList]
  cc := ["c@x.org".toList]
  bcc := []
  inReplyTo := none
  references := none
  body := .plain []

/-- The address in `cc` gets nothing from the stored message. -/
theorem copy_lost :
    validateSendRequest copiedRequest = .ok () ∧
      ¬Agrees sampleServices ⟨1, 7⟩ ⟨[], [], []⟩ (fun _ => none) copiedRequest 60 sampleStore
        sampleIds := by
  refine ⟨by decide, fun agrees => ?_⟩
  have sent : sendMessage sampleServices ⟨1, 7⟩ ⟨[], [], []⟩ (fun _ => none) copiedRequest =
      .ok copiedMessage := by decide
  have copied : "c@x.org".toList ∈ copiedRequest.toAddrs :=
    (agrees.addresses sent _).mpr (by decide)
  exact absurd copied (by decide)

end Sample

end Expresso.Compose
