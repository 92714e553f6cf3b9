import Expresso.Imap.Store
import Expresso.Query.Distinct
import Expresso.Text.Trim
import Expresso.Transition.Runs

/-! A request to send a mail: its limits, the contact groups among its recipients, and the message
that is built of it. -/

namespace Expresso.Compose
open Text Transition Query
open Imap (Uuid)

structure RequestCtx where
  tenantId : Uuid
  userId : Uuid
  deriving DecidableEq

inductive MailError where
  | invalidMessage (text : Str)
  | messageNotFound (id : Uuid)
  | conflict (text : Str)
  | forbidden
  | database
  deriving DecidableEq

/-- What the service uses of others. The mail library reads addresses and keeps them as they are
written; it refuses a mail without recipients. Member addresses come in the order of the
database. -/
structure Services where
  reads : Str → Bool
  missingTo : Str
  parseUuid : Str → Option Uuid
  collate : Str → Str → Bool

structure SendRequest where
  fromAddr : Str
  toAddrs : List Str
  cc : Option (List Str) := none
  bcc : Option (List Str) := none
  subject : Str := []
  bodyText : Option Str := none
  bodyHtml : Option Str := none
  replyToId : Option Uuid := none
  requestReadReceipt : Bool := false
  deriving DecidableEq

/-- Every entry that names recipients. -/
def SendRequest.recipients (req : SendRequest) : List Str :=
  req.toAddrs ++ req.cc.getD [] ++ req.bcc.getD []

/-! ### Limits -/

def maxRecipientsPerMessage : Nat := 100
def maxBodyBytes : Nat := 1024 * 1024
def maxSubjectBytes : Nat := 998

def tooLarge (what : String) (size max : Nat) (unit : String) : MailError :=
  .invalidMessage (what.toList ++ display size ++ unit.toList ++ " (max ".toList ++ display max ++
    ")".toList)

def validateSendRequest (req : SendRequest) : Except MailError Unit :=
  let recipientCount := req.recipients.length
  let bodyTotal := req.bodyText.elim 0 len + req.bodyHtml.elim 0 len
  if len req.subject > maxSubjectBytes then
    .error (tooLarge "subject too large: " (len req.subject) maxSubjectBytes " bytes")
  else if '\r' ∈ req.subject ∨ '\n' ∈ req.subject then
    .error (.invalidMessage "subject must not contain CR or LF".toList)
  else if recipientCount = 0 then .error (.invalidMessage "no recipients".toList)
  else if recipientCount > maxRecipientsPerMessage then
    .error (tooLarge "too many recipients: " recipientCount maxRecipientsPerMessage "")
  else if bodyTotal > maxBodyBytes then
    .error (tooLarge "body too large: " bodyTotal maxBodyBytes " bytes")
  else .ok ()

/-! ### Contact groups -/

structure GroupMember where
  groupId : Uuid
  contactId : Uuid
  tenantId : Uuid
  deriving DecidableEq

structure ContactGroup where
  id : Uuid
  ownerUserId : Uuid
  deriving DecidableEq

structure Contact where
  id : Uuid
  emailPrimary : Option Str
  deriving DecidableEq

structure Directory where
  members : List GroupMember
  groups : List ContactGroup
  contacts : List Contact

section
variable (services : Services) (ctx : RequestCtx) (dir : Directory)

def groupMemberEmails (group : Uuid) : List Str :=
  let emails := dir.members.flatMap fun m => dir.groups.flatMap fun g => dir.contacts.flatMap
    fun c =>
      if g.id = m.groupId ∧ c.id = m.contactId ∧ m.tenantId = ctx.tenantId ∧ m.groupId = group ∧
          g.ownerUserId = ctx.userId ∧ c.emailPrimary ≠ some [] then c.emailPrimary.toList
      else []
  emails.mergeSort services.collate

def groupPrefix : Str := "group:".toList

/-- The id of the group that an entry names. -/
def groupId (entry : Str) : Option Str := (stripPrefix groupPrefix entry).map trim

abbrev Expansion := Distinct Str Str

def Expansion.insert (e : Expansion) (email : Str) : Expansion :=
  Distinct.push toAsciiLowercase e email

def expandEntry (e : Expansion) (entry : Str) : Except MailError Expansion :=
  match groupId entry with
  | some id =>
      match services.parseUuid id with
      | none => .error (.invalidMessage ("invalid group id: ".toList ++ id))
      | some group => .ok ((groupMemberEmails services ctx dir group).foldl Expansion.insert e)
  | none => .ok (e.insert entry)

def expandRecipients (entries : List Str) : Except MailError (List Str) :=
  (entries.foldlM (expandEntry services ctx dir) ⟨[], []⟩).map (·.kept)

end

/-! ### The message -/

inductive Body where
  | alternative (plain html : Str)
  | html (text : Str)
  | plain (text : Str)
  deriving DecidableEq

abbrev Address := Str

/-- The headers and the body of a mail. -/
structure Message where
  sender : Address
  subject : Str
  dispositionNotificationTo : Option Str
  toAddrs : List Address
  cc : List Address
  bcc : List Address
  inReplyTo : Option Str
  references : Option Str
  body : Body
  deriving DecidableEq

structure Envelope where
  sender : Option Address
  toAddrs : List Address
  deriving DecidableEq

def Message.envelope (m : Message) : Envelope := ⟨some m.sender, m.toAddrs ++ m.cc ++ m.bcc⟩

def SendRequest.body (req : SendRequest) : Body :=
  match req.bodyHtml, req.bodyText with
  | some html, some plain => .alternative plain html
  | some html, none => .html html
  | none, plain => .plain (plain.getD [])

section
variable (services : Services)

def parseAddress (field : String) (text : Str) : Except MailError Address :=
  if services.reads text then .ok text
  else .error (.invalidMessage ("invalid ".toList ++ field.toList ++ ": ".toList ++ text))

def parseAddresses (field : String) : List Str → Except MailError (List Address)
  | [] => .ok []
  | text :: rest => do
      let address ← parseAddress services field text
      let others ← parseAddresses field rest
      .ok (address :: others)

/-- The message for the recipients, an answer to `thread` if there is one. -/
def build (req : SendRequest) (toAddrs cc bcc : List Str) (thread : Option (Str × List Str)) :
    Except MailError Message := do
  let sender ← parseAddress services "from" req.fromAddr
  let toAddrs ← parseAddresses services "to" toAddrs
  let cc ← parseAddresses services "cc" cc
  let bcc ← parseAddresses services "bcc" bcc
  if toAddrs ++ cc ++ bcc = [] then .error (.invalidMessage services.missingTo)
  else .ok {
    sender := sender
    subject := req.subject
    dispositionNotificationTo := if req.requestReadReceipt then some req.fromAddr else none
    toAddrs := toAddrs
    cc := cc
    bcc := bcc
    inReplyTo := thread.map (·.1)
    references := thread.map fun original =>
      [' '].intercalate (original.2 ++ [original.1])
    body := req.body }

/-- The message that `send_message` relays. The thread is that of the message which is answered. -/
def sendMessage (ctx : RequestCtx) (dir : Directory) (thread : Uuid → Option (Str × List Str))
    (req : SendRequest) : Except MailError Message := do
  let toAddrs ← expandRecipients services ctx dir req.toAddrs
  let cc ← expandRecipients services ctx dir (req.cc.getD [])
  let bcc ← expandRecipients services ctx dir (req.bcc.getD [])
  build services req toAddrs cc bcc (req.replyToId.bind thread)

end

/-! ### What a message is built of -/

variable {services : Services} {ctx : RequestCtx} {dir : Directory} {req : SendRequest}

theorem parseAddress_ok_iff {field : String} {text address : Str} :
    parseAddress services field text = .ok address ↔ services.reads text ∧ text = address := by
  unfold parseAddress
  split_ifs with reads
  · simp [reads]
  · simp [reads]

theorem parseAddresses_ok_iff {field : String} {entries addresses : List Str} :
    parseAddresses services field entries = .ok addresses ↔
      (∀ entry ∈ entries, services.reads entry) ∧ entries = addresses := by
  induction entries generalizing addresses with
  | nil => simp [parseAddresses]
  | cons text rest ih =>
    simp only [parseAddresses, bind_eq_ok_iff, parseAddress_ok_iff, ih, Except.ok.injEq,
      List.forall_mem_cons]
    constructor
    · rintro ⟨_, ⟨reads, rfl⟩, _, ⟨others, rfl⟩, rfl⟩
      exact ⟨⟨reads, others⟩, rfl⟩
    · rintro ⟨⟨reads, others⟩, rfl⟩
      exact ⟨text, ⟨reads, rfl⟩, rest, ⟨others, rfl⟩, rfl⟩

section
variable {toAddrs cc bcc : List Str} {thread : Option (Str × List Str)} {m : Message}

/-- What has to be read for a message to be built, and that it has a recipient. -/
def Buildable (services : Services) (req : SendRequest) (addresses : List Str) : Prop :=
  services.reads req.fromAddr ∧ (∀ a ∈ addresses, services.reads a) ∧ addresses ≠ []

theorem build_ok (built : build services req toAddrs cc bcc thread = .ok m) :
    Buildable services req (toAddrs ++ cc ++ bcc) ∧
      m.envelope = ⟨some req.fromAddr, toAddrs ++ cc ++ bcc⟩ := by
  simp only [build, bind_eq_ok_iff, parseAddress_ok_iff, parseAddresses_ok_iff] at built
  obtain ⟨_, ⟨sender, rfl⟩, _, ⟨first, rfl⟩, _, ⟨second, rfl⟩, _, ⟨third, rfl⟩, made⟩ := built
  by_cases empty : toAddrs ++ cc ++ bcc = []
  · rw [if_pos empty] at made
    cases made
  rw [if_neg empty] at made
  cases made
  refine ⟨⟨sender, ?_, empty⟩, rfl⟩
  simp only [List.mem_append]
  rintro a ((inside | inside) | inside)
  · exact first a inside
  · exact second a inside
  · exact third a inside

theorem exists_build_iff :
    (∃ m, build services req toAddrs cc bcc thread = .ok m) ↔
      Buildable services req (toAddrs ++ cc ++ bcc) := by
  constructor
  · intro ⟨m, built⟩
    exact (build_ok built).1
  · intro ⟨sender, readable, present⟩
    have first : ∀ a ∈ toAddrs, services.reads a := fun a inside => readable a (by simp [inside])
    have second : ∀ a ∈ cc, services.reads a := fun a inside => readable a (by simp [inside])
    have third : ∀ a ∈ bcc, services.reads a := fun a inside => readable a (by simp [inside])
    simp only [build, bind_eq_ok_iff, parseAddress_ok_iff, parseAddresses_ok_iff]
    exact ⟨_, _, ⟨sender, rfl⟩, _, ⟨first, rfl⟩, _, ⟨second, rfl⟩, _, ⟨third, rfl⟩,
      if_neg present⟩

end

/-! ### What the recipients of a request stand for -/

/-- The addresses an entry stands for. -/
def named (services : Services) (ctx : RequestCtx) (dir : Directory) (entry : Str) : List Str :=
  match groupId entry with
  | some id => ((services.parseUuid id).map (groupMemberEmails services ctx dir)).getD []
  | none => [entry]

/-- Every group among the entries is named by an id. -/
def GroupsNamed (services : Services) (entries : List Str) : Prop :=
  ∀ entry ∈ entries, ∀ id ∈ groupId entry, (services.parseUuid id).isSome

theorem expandEntry_ok_iff {e e' : Expansion} {entry : Str} :
    expandEntry services ctx dir e entry = .ok e' ↔
      GroupsNamed services [entry] ∧
        (named services ctx dir entry).foldl Expansion.insert e = e' := by
  unfold expandEntry
  cases group : groupId entry with
  | none => simp [named, group, GroupsNamed]
  | some id =>
    cases parsed : services.parseUuid id with
    | none => simp [group, GroupsNamed, parsed]
    | some uuid => simp [named, group, GroupsNamed, parsed]

theorem expandRecipients_ok_iff {entries addresses : List Str} :
    expandRecipients services ctx dir entries = .ok addresses ↔
      GroupsNamed services entries ∧
        ((entries.flatMap (named services ctx dir)).foldl Expansion.insert ⟨[], []⟩).kept =
          addresses := by
  unfold expandRecipients
  generalize (⟨[], []⟩ : Expansion) = start
  rw [map_eq_ok_iff]
  induction entries generalizing start with
  | nil => simp [GroupsNamed, pure, Except.pure]
  | cons entry rest ih =>
    have split : GroupsNamed services (entry :: rest) ↔
        GroupsNamed services [entry] ∧ GroupsNamed services rest := by
      simp [GroupsNamed]
    simp only [List.foldlM_cons, bind_eq_ok_iff, expandEntry_ok_iff, List.flatMap_cons,
      List.foldl_append, split]
    constructor
    · rintro ⟨e, ⟨_, ⟨first, rfl⟩, folded⟩, rfl⟩
      have later := (ih _).mp ⟨e, folded, rfl⟩
      exact ⟨⟨first, later.1⟩, later.2⟩
    · rintro ⟨⟨first, later⟩, rfl⟩
      obtain ⟨e, folded, same⟩ := (ih _).mpr ⟨later, rfl⟩
      exact ⟨e, ⟨_, ⟨first, rfl⟩, folded⟩, same⟩

/-- The address stands first among those of the list that differ from it in case only. -/
def Reached (services : Services) (ctx : RequestCtx) (dir : Directory) (entries : List Str)
    (address : Str) : Prop :=
  Leads toAsciiLowercase (entries.flatMap (named services ctx dir)) address

theorem mem_expanded {entries addresses : List Str}
    (expanded : expandRecipients services ctx dir entries = .ok addresses) (a : Str) :
    a ∈ addresses ↔ Reached services ctx dir entries a := by
  obtain ⟨_, rfl⟩ := expandRecipients_ok_iff.1 expanded
  exact (Distinct.of_nil.pushAll (entries.flatMap (named services ctx dir))).kept a

end Expresso.Compose
