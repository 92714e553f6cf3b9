import Expresso.Ingest.Recipients
import Expresso.Sql.RowNumber

/-! `ingest::process`: one transaction for each recipient of a message. -/

namespace Expresso.Ingest
open Text Imap Sql

/-! ### Tables -/

/-- The columns of `messages` that the IMAP commands do not read. -/
structure Columns where
  references : List Str
  threadId : Option Uuid
  hasAttachments : Bool
  previewText : Option Str
  deriving DecidableEq

structure Db where
  directory : Directory
  store : Store
  /-- by the id of the row -/
  columns : List (Uuid × Columns)

def Db.threadOf (db : Db) (m : Message) : Option Uuid := do
  let row ← db.columns.find? fun row => row.1 = m.id
  row.2.threadId

/-! ### Statements -/

section
variable (db : Db)

/-- The messages in the mailboxes of a user. -/
def storedFor (user : User) (m : Message) : Bool :=
  m.tenantId = user.tenantId &&
    db.store.mailboxes.any fun mb => mb.id = m.mailboxId && mb.userId = user.id

def usedBytes (user : User) : Int :=
  ((db.store.messages.filter (storedFor db user)).map (·.sizeBytes)).sum

def quotaOf (user : User) : Option Int :=
  (db.directory.users.find? fun row => row.id = user.id && row.tenantId = user.tenantId).bind
    (·.quotaBytes)

/-- The sum saturates. -/
def quotaExceeded (user : User) (incoming : Int) : Bool :=
  (quotaOf db user).any fun quota => quota < min (usedBytes db user + incoming) (2 ^ 63 - 1)

/-- The sum is read only if there is a quota. -/
def checkQuota (fails : Statement → Bool) (user : User) : Except Unit Unit := do
  check fails .quota
  if (quotaOf db user).isSome then check fails .used else .ok ()

def candidates (parsed : ParsedMessage) : List Str :=
  parsed.references.foldl (fun known r => if r ∈ known then known else known ++ [r])
    parsed.inReplyTo.toList

/-- The thread of the earliest message that is referred to, or a new one. -/
def resolveThreadId (tenantId : Uuid) (parsed : ParsedMessage) (fresh : Uuid) : Uuid :=
  let referredTo := db.store.messages.filter fun m =>
    m.tenantId = tenantId && m.envelope.messageId.any ((candidates parsed).contains ·) &&
      (db.threadOf m).isSome
  ((orderBy (·.receivedAt) referredTo).head?.bind db.threadOf).getD fresh

end

/-- A row that is new, with the defaults of the table. -/
def insertInbox (user : User) (id : Uuid) (uidValidity : Int) (s : Store) :
    Except Unit (Store × Uuid × Int) :=
  match Imap.commit { s.toTables with
    mailboxes := s.mailboxes ++
      [⟨id, user.id, user.tenantId, "INBOX".toList, uidValidity, 1, 0, 0, 0⟩] } with
  | some s' => .ok (s', id, 1)
  | none => .error ()

/-- The id and the next UID of the mailbox. -/
def lockOrCreateMailbox (fails : Statement → Bool) (user : User) (target : Str) (inboxId : Uuid)
    (uidValidity : Int) (s : Store) : Except Unit (Store × Uuid × Int) := do
  check fails .lock
  match findMailbox user.id user.tenantId target s with
  | some mb => .ok (s, mb.id, mb.nextUid)
  | none =>
      if toAsciiUppercase target = "INBOX".toList then
        check fails .insertInbox
        insertInbox user inboxId uidValidity s
      else
        check fails .lockInbox
        match findMailbox user.id user.tenantId "INBOX".toList s with
        | some mb => .ok (s, mb.id, mb.nextUid)
        | none =>
            check fails .insertInbox
            insertInbox user inboxId uidValidity s

/-- `GREATEST(next_uid, …)` -/
def raiseNextUid (mailbox : Uuid) (next : Int) (s : Store) : Option Store :=
  Imap.commit { s.toTables with
    mailboxes := s.mailboxes.map fun mb =>
      if mb.id = mailbox then { mb with nextUid := max mb.nextUid next } else mb }

/-! ### Flow rules -/

inductive FlowAction where
  | moveToFolder (folder : Option Str)
  | addFlag (flag : Option Str)
  | discard
  /-- a call to another host, or a type that is not known -/
  | other
  deriving DecidableEq

/-- The row of a message, as long as it is in a mailbox of the user. -/
def ownRow (user : User) (row : Uuid) (s : Store) (m : Message) : Bool :=
  m.id = row && m.tenantId = user.tenantId &&
    s.mailboxes.any fun mb =>
      mb.id = m.mailboxId && mb.userId = user.id && mb.tenantId = user.tenantId

/-- A statement that is refused leaves the row, as does a folder that is missing. -/
def applyFlowAction (user : User) (row : Uuid) (s : Store) : FlowAction → Store
  | .moveToFolder folder =>
      match folder.bind fun folder => findMailbox user.id user.tenantId folder s with
      | some mb => (updateMessages (fun m =>
          if ownRow user row s m then some { m with mailboxId := mb.id } else none) s).getD s
      | none => s
  | .addFlag flag =>
      match flag with
      | some flag => (updateMessages (fun m =>
          if ownRow user row s m && !m.flags.contains flag
          then some { m with flags := m.flags ++ [flag] } else none) s).getD s
      | none => s
  | .discard => (deleteMessages (ownRow user row s) s).getD s
  | .other => s

def applyFlowActions (user : User) (row : Uuid) (actions : List FlowAction) (s : Store) : Store :=
  actions.foldl (applyFlowAction user row) s

/-! ### A recipient -/

inductive SieveDecision where
  | deliver (folder : Str)
  | discard
  | reject (reason : Str)
  deriving DecidableEq

/-- What a delivery is told: which of its statements fail, what the relay, the filter, the lists
of senders and the flow rules say, and the values that are new. -/
structure Answers where
  fails : Statement → Bool
  relay : Str → Bool
  applySieve : User → Str → SieveDecision
  isSafe : User → Str → Bool
  isBlocked : User → Str → Bool
  flowActions : List FlowAction
  now : Int
  rowId : Uuid
  inboxId : Uuid
  threadId : Uuid
  uidValidity : Int

/-- A message in the form in which it is stored. -/
structure Mail where
  raw : Str
  parsed : ParsedMessage
  bodyPath : Str

def Mail.sizeBytes (mail : Mail) : Int := min (len mail.raw) (2 ^ 31 - 1 : Nat)

/-- A safe sender wins over a blocked one, and both win over the filter. -/
def targetFolder (answers : Answers) (user : User) (mail : Mail) (folder : Str) : Str :=
  match mail.parsed.fromAddr with
  | none => folder
  | some sender =>
      if answers.isSafe user sender then "INBOX".toList
      else if answers.isBlocked user sender then "Spam".toList
      else folder

def messageRow (answers : Answers) (user : User) (mail : Mail) (mailbox : Uuid) (uid : Int) :
    Message where
  id := answers.rowId
  mailboxId := mailbox
  tenantId := user.tenantId
  uid := uid
  flags := []
  sizeBytes := mail.sizeBytes
  bodyPath := mail.bodyPath
  fromAddr := mail.parsed.fromAddr
  receivedAt := answers.now
  modSequence := 0
  envelope :=
    { subject := mail.parsed.subject, fromName := mail.parsed.fromName
      toAddrs := some mail.parsed.toAddrs, ccAddrs := some mail.parsed.ccAddrs
      replyTo := mail.parsed.replyTo, messageId := mail.parsed.messageId
      inReplyTo := mail.parsed.inReplyTo, date := mail.parsed.date }

/-- What became of a message for one recipient. -/
inductive Disposition where
  | stored (user : User) (row : Uuid)
  | relayed
  | discarded
  | overQuota
  | dropped
  deriving DecidableEq

def Disposition.delivered : Disposition → Nat
  | stored _ _ | relayed => 1
  | discarded | overQuota | dropped => 0

def columnsOf (db : Db) (answers : Answers) (user : User) (mail : Mail) : Columns where
  references := mail.parsed.references
  threadId := some (resolveThreadId db user.tenantId mail.parsed answers.threadId)
  hasAttachments := mail.parsed.hasAttachments
  previewText := mail.parsed.previewText

/-- The row goes into the mailbox that is locked, and the transaction is committed. -/
def insertLocked (answers : Answers) (user : User) (mail : Mail) (db : Db)
    (locked : Store × Uuid × Int) : Except Unit Db := do
  let (s, mailbox, uid) := locked
  check answers.fails .thread
  check answers.fails .insertMessage
  let some s' := insertMessage (messageRow answers user mail mailbox uid) s | .error ()
  check answers.fails .nextUid
  let some s'' := raiseNextUid mailbox (uid + 1) s' | .error ()
  check answers.fails .commit
  .ok { db with
    store := s'', columns := (answers.rowId, columnsOf db answers user mail) :: db.columns }

/-- From the lock of the mailbox to the commit. -/
def storeMessage (answers : Answers) (user : User) (mail : Mail) (folder : Str) (db : Db) :
    Except Unit (Db × Disposition) := do
  let locked ← lockOrCreateMailbox answers.fails user (targetFolder answers user mail folder)
    answers.inboxId answers.uidValidity db.store
  let db' ← insertLocked answers user mail db locked
  .ok (db', .stored user answers.rowId)

/-- A rejection is an error after the commit. -/
def deliver (answers : Answers) (user : User) (mail : Mail) (db : Db) :
    Except Unit (Db × Disposition) := do
  check answers.fails .begin
  checkQuota db answers.fails user
  if quotaExceeded db user mail.sizeBytes then
    check answers.fails .commit
    .ok (db, .overQuota)
  else match answers.applySieve user mail.raw with
    | .deliver folder => storeMessage answers user mail folder db
    | .discard => do
        check answers.fails .commit
        .ok (db, .discarded)
    | .reject _ => .error ()

/-- One pass through the loop, up to the commit. -/
def turn (cfg : Config) (answers : Answers) (mail : Mail) (db : Db) (rcpt : Str) :
    Except Unit (Db × Disposition) := do
  match ← resolveRecipient cfg db.directory answers.fails answers.relay rcpt mail.raw with
  | .onServer user => deliver answers user mail db
  | .relayed => .ok (db, .relayed)
  | .drop => .ok (db, .dropped)

/-- The flow rules come after the commit of a message that was stored. -/
def afterwards (cfg : Config) (answers : Answers) (db : Db) : Disposition → Db
  | .stored user row =>
      if cfg.flowsUrl = [] then db
      else { db with store := applyFlowActions user row answers.flowActions db.store }
  | _ => db

/-! ### All recipients -/

/-- What a call leaves: the tables, what became of each recipient, and the result. -/
structure Processed where
  db : Db
  dispositions : List (Str × Disposition)
  result : Except Unit Nat

def deliverEach (cfg : Config) (answers : Str → Answers) (mail : Mail) :
    List Str → Db → Processed
  | [], db => ⟨db, [], .ok 0⟩
  | rcpt :: rest, db =>
      match turn cfg (answers rcpt) mail db rcpt with
      | .error () => ⟨db, [], .error ()⟩
      | .ok (db, disposition) =>
          let later := deliverEach cfg answers mail rest
            (afterwards cfg (answers rcpt) db disposition)
          { later with
            dispositions := (rcpt, disposition) :: later.dispositions
            result := later.result.map (· + disposition.delivered) }

/-- What a call is told before its loop: what the scanner says, and where the text is kept. -/
structure Intake where
  rejects : Bool
  scanHeaders : Str
  bodyPath : Option Str
  answers : Str → Answers

def process (cfg : Config) (intake : Intake) (db : Db) (mailFrom : Option Str) (rcpts : List Str)
    (raw : Str) : Processed :=
  if rcpts = [] then ⟨db, [], .ok 0⟩
  else if intake.rejects then ⟨db, [], .error ()⟩
  else match intake.bodyPath with
    | none => ⟨db, [], .error ()⟩
    | some bodyPath =>
        let raw := intake.scanHeaders ++ raw
        deliverEach cfg intake.answers
          ⟨raw, parseMessage cfg.formats mailFrom rcpts raw, bodyPath⟩
          (normalizedRecipients rcpts) db

end Expresso.Ingest
