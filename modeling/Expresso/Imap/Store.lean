import Expresso.Text.Utf8
import Mathlib.Data.List.Nodup

/-! The mail tables with their constraints and triggers, and the statements the IMAP
commands run on them. A statement whose result breaks a constraint is refused. -/

namespace Expresso.Imap
open Text

abbrev Uuid := Nat

/-- An entry of an address column: its `addr` and its `name`, each if it is a string. -/
structure AddrEntry where
  addr : Option Str
  name : Option Str
  deriving DecidableEq

/-- The columns that are read from the headers of a message, with the defaults of the table.
An address column holds an array of entries or some other JSON. -/
structure Envelope where
  subject : Option Str := none
  fromName : Option Str := none
  toAddrs : Option (List AddrEntry) := some []
  ccAddrs : Option (List AddrEntry) := some []
  replyTo : Option Str := none
  messageId : Option Str := none
  inReplyTo : Option Str := none
  date : Option Int := none
  deriving DecidableEq

/-- A row of `messages`. Times are in microseconds. -/
structure Message where
  id : Uuid
  mailboxId : Uuid
  tenantId : Uuid
  uid : Int
  flags : List Str
  sizeBytes : Int
  bodyPath : Str
  fromAddr : Option Str
  receivedAt : Int
  modSequence : Int
  envelope : Envelope := {}
  deriving DecidableEq

/-- A row of `mailboxes`. -/
structure Mailbox where
  id : Uuid
  userId : Uuid
  tenantId : Uuid
  folderName : Str
  uidValidity : Int
  nextUid : Int
  messageCount : Int
  unseenCount : Int
  sizeBytes : Int
  deriving DecidableEq

structure Tables where
  mailboxes : List Mailbox
  messages : List Message
  /-- the sequence `messages_modseq_seq` -/
  modseq : Int
  deriving DecidableEq

def deletedFlag : Str := ['\\', 'D', 'e', 'l', 'e', 't', 'e', 'd']
def seenFlag : Str := ['\\', 'S', 'e', 'e', 'n']

/-! ### Statistics -/

/-- `COALESCE(MAX(uid) + 1, 1)` over the rows of a mailbox. -/
def nextUidOf (messages : List Message) (mailbox : Uuid) : Int :=
  match ((messages.filter fun m => m.mailboxId = mailbox).map (·.uid)).max? with
  | some uid => uid + 1
  | none => 1

def refreshed (messages : List Message) (mb : Mailbox) : Mailbox :=
  let rows := messages.filter fun m => m.mailboxId = mb.id
  { mb with
    messageCount := rows.length
    unseenCount := (rows.filter fun m => seenFlag ∉ m.flags).length
    sizeBytes := (rows.map (·.sizeBytes)).sum
    nextUid := nextUidOf messages mb.id }

def refreshMailboxStats (target : Uuid) (t : Tables) : Tables :=
  { t with mailboxes := t.mailboxes.map fun mb =>
      if mb.id = target then refreshed t.messages mb else mb }

/-- The row trigger, once for every mailbox named by an affected row. -/
def messagesSyncMailboxStats (targets : List Uuid) (t : Tables) : Tables :=
  targets.foldl (fun t target => refreshMailboxStats target t) t

/-! ### Constraints -/

/-- Primary keys, `UNIQUE (user_id, folder_name)`, `UNIQUE (mailbox_id, uid)`, the reference
to the mailbox, and the ranges that `COUNT(*)::INT` and `MAX(uid) + 1` impose. -/
@[reducible]
def Tables.Constraints (t : Tables) : Prop :=
  (t.mailboxes.map (·.id)).Nodup ∧
  (t.mailboxes.map fun mb => (mb.userId, mb.folderName)).Nodup ∧
  (t.messages.map (·.id)).Nodup ∧
  (t.messages.map fun m => (m.mailboxId, m.uid)).Nodup ∧
  (∀ m ∈ t.messages, m.mailboxId ∈ t.mailboxes.map (·.id)) ∧
  (∀ mb ∈ t.mailboxes, (t.messages.filter fun m => m.mailboxId = mb.id).length < 2 ^ 31) ∧
  ∀ m ∈ t.messages, m.uid < 2 ^ 63 - 1

structure Store extends Tables where
  constraints : toTables.Constraints

def commit (t : Tables) : Option Store :=
  if valid : t.Constraints then some ⟨t, valid⟩ else none

/-! ### Statements -/

def insertMessage (m : Message) (s : Store) : Option Store :=
  commit (messagesSyncMailboxStats [m.mailboxId]
    { s.toTables with
      messages := s.messages ++ [{ m with modSequence := s.modseq }]
      modseq := s.modseq + 1 })

def deleteMessages (selected : Message → Bool) (s : Store) : Option Store :=
  commit (messagesSyncMailboxStats ((s.messages.filter selected).map (·.mailboxId))
    { s.toTables with messages := s.messages.filter fun m => !selected m })

/-- The rows with their changes, each changed row under a new mod-sequence. -/
def changeRows (change : Message → Option Message) : Int → List Message → List Message
  | _, [] => []
  | modseq, m :: rest =>
      match change m with
      | none => m :: changeRows change modseq rest
      | some m' => { m' with modSequence := modseq } :: changeRows change (modseq + 1) rest

/-- The mailboxes the row trigger refreshes for a changed row: the new one, and the old one
when it differs. -/
def touchedBy (change : Message → Option Message) (m : Message) : List Uuid :=
  match change m with
  | none => []
  | some m' =>
      if m'.mailboxId = m.mailboxId then [m'.mailboxId] else [m'.mailboxId, m.mailboxId]

def updateMessages (change : Message → Option Message) (s : Store) : Option Store :=
  commit (messagesSyncMailboxStats (s.messages.flatMap (touchedBy change))
    { s.toTables with
      messages := changeRows change s.modseq s.messages
      modseq := s.modseq + (s.messages.filter fun m => (change m).isSome).length })

def findMailbox (userId tenantId : Uuid) (folder : Str) (s : Store) : Option Mailbox :=
  s.mailboxes.find? fun mb =>
    mb.userId = userId && mb.folderName = folder && mb.tenantId = tenantId

/-! ### Facts about statistics and statements -/

theorem commit_some {t : Tables} {s : Store} (committed : commit t = some s) :
    s.toTables = t := by
  simp only [commit] at committed
  split at committed
  · cases committed
    rfl
  · cases committed

theorem messagesSyncMailboxStats_eq (targets : List Uuid) (t : Tables) :
    messagesSyncMailboxStats targets t =
      { t with mailboxes := t.mailboxes.map fun mb =>
          if mb.id ∈ targets then refreshed t.messages mb else mb } := by
  induction targets generalizing t with
  | nil => simp [messagesSyncMailboxStats]
  | cons target rest ih =>
    rw [messagesSyncMailboxStats, List.foldl_cons]
    change messagesSyncMailboxStats rest (refreshMailboxStats target t) = _
    rw [ih]
    simp only [refreshMailboxStats, List.map_map]
    congr 1
    apply List.map_congr_left
    intro mb _
    by_cases here : mb.id = target
    · by_cases again : mb.id ∈ rest <;> simp [here, refreshed]
    · simp [here]

theorem lt_nextUidOf {messages : List Message} {m : Message} (member : m ∈ messages) :
    m.uid < nextUidOf messages m.mailboxId := by
  have listed : m.uid ∈ (messages.filter fun x => x.mailboxId = m.mailboxId).map (·.uid) :=
    List.mem_map_of_mem (List.mem_filter.mpr ⟨member, by simp⟩)
  simp only [nextUidOf]
  cases top : ((messages.filter fun x => x.mailboxId = m.mailboxId).map (·.uid)).max? with
  | none => simp [List.max?_eq_none_iff.mp top] at listed
  | some uid =>
    have bound := (List.max?_eq_some_iff.mp top).2 m.uid listed
    simp only
    omega

/-- The next UID is one, or one above a row of the mailbox. -/
theorem nextUidOf_cases (messages : List Message) (mailbox : Uuid) :
    (nextUidOf messages mailbox = 1 ∧ ∀ m ∈ messages, m.mailboxId ≠ mailbox) ∨
      ∃ m ∈ messages, m.mailboxId = mailbox ∧ nextUidOf messages mailbox = m.uid + 1 := by
  simp only [nextUidOf]
  cases top : ((messages.filter fun x => x.mailboxId = mailbox).map (·.uid)).max? with
  | none =>
    have empty := List.map_eq_nil_iff.mp (List.max?_eq_none_iff.mp top)
    refine .inl ⟨rfl, ?_⟩
    intro m member
    simpa using List.filter_eq_nil_iff.mp empty m member
  | some uid =>
    obtain ⟨m, kept, value⟩ := List.mem_map.mp (List.max?_eq_some_iff.mp top).1
    obtain ⟨member, here⟩ := List.mem_filter.mp kept
    exact .inr ⟨m, member, by simpa using here, by rw [← value]⟩

end Expresso.Imap
