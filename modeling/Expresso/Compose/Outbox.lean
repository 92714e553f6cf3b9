import Expresso.Compose.Message

/-! The rows of scheduled mail: how they are stored, selected, marked as sent and cancelled. -/

namespace Expresso.Compose
open Text Transition
open Imap (Uuid)

structure Mailbox where
  id : Uuid
  userId : Uuid
  tenantId : Uuid
  folderName : Str
  specialUse : Option Str
  deriving DecidableEq

/-- A row of `messages` with the file that its `body_path` names. -/
structure MessageRow where
  id : Uuid
  mailboxId : Uuid
  tenantId : Uuid
  flags : List Str
  deliverAt : Option Int
  fromAddr : Option Str
  toAddrs : List Str
  body : Message
  deriving DecidableEq

structure Tables where
  mailboxes : List Mailbox
  messages : List MessageRow
  deriving DecidableEq

@[reducible]
def Tables.Constraints (t : Tables) : Prop :=
  (t.mailboxes.map (·.id)).Nodup ∧ (t.messages.map (·.id)).Nodup

structure Store extends Tables where
  constraints : toTables.Constraints

/-- Ids that are generated: no row has them. -/
structure NewIds (s : Store) where
  mailbox : Uuid
  message : Uuid
  mailboxNew : mailbox ∉ s.mailboxes.map (·.id)
  messageNew : message ∉ s.messages.map (·.id)

def draftsName : Str := "Drafts".toList
def draftsUse : Str := '\\' :: draftsName
def draftFlag : Str := "\\Draft".toList
def seenFlag : Str := "\\Seen".toList

/-! ### Scheduling -/

def isDrafts (ctx : RequestCtx) (mb : Mailbox) : Bool :=
  mb.userId = ctx.userId && mb.tenantId = ctx.tenantId && mb.specialUse = some draftsUse

/-- A user has no two folders of one name. -/
def nameTaken (ctx : RequestCtx) (mb : Mailbox) : Bool :=
  mb.userId = ctx.userId && mb.folderName = draftsName

def insertMailbox (mb : Mailbox) (s : Store) (new : mb.id ∉ s.mailboxes.map (·.id)) : Store where
  mailboxes := s.mailboxes ++ [mb]
  messages := s.messages
  constraints := by
    refine ⟨?_, s.constraints.2⟩
    rw [List.map_append, List.map_singleton]
    exact List.nodup_append_comm.mp (List.nodup_cons.mpr ⟨new, s.constraints.1⟩)

def insertRow (row : MessageRow) (s : Store) (new : row.id ∉ s.messages.map (·.id)) : Store where
  mailboxes := s.mailboxes
  messages := s.messages ++ [row]
  constraints := by
    refine ⟨s.constraints.1, ?_⟩
    rw [List.map_append, List.map_singleton]
    exact List.nodup_append_comm.mp (List.nodup_cons.mpr ⟨new, s.constraints.2⟩)

def scheduledRow (ctx : RequestCtx) (req : SendRequest) (deliverAt : Int) (mailbox id : Uuid)
    (m : Message) : MessageRow where
  id := id
  mailboxId := mailbox
  tenantId := ctx.tenantId
  flags := [draftFlag]
  deliverAt := some deliverAt
  fromAddr := some req.fromAddr
  toAddrs := req.toAddrs
  body := m

def persistForDelivery (services : Services) (ctx : RequestCtx) (req : SendRequest)
    (deliverAt : Int) (s : Store) (new : NewIds s) : Except MailError (Store × Uuid) := do
  let m ← build services req req.toAddrs (req.cc.getD []) (req.bcc.getD []) none
  match s.mailboxes.find? (isDrafts ctx) with
  | some mb =>
      .ok (insertRow (scheduledRow ctx req deliverAt mb.id new.message m) s new.messageNew,
        new.message)
  | none =>
      if s.mailboxes.any (nameTaken ctx) then .error .database
      else
        let created : Mailbox :=
          ⟨new.mailbox, ctx.userId, ctx.tenantId, draftsName, some draftsUse⟩
        .ok (insertRow (scheduledRow ctx req deliverAt new.mailbox new.message m)
          (insertMailbox created s new.mailboxNew) new.messageNew, new.message)

/-! ### Dispatch -/

def batchLimit : Nat := 50

def due (now : Int) (s : Store) : List MessageRow :=
  s.messages.filter fun m => m.deliverAt.any (· ≤ now)

/-- The rows that a selection may return: rows of one time come in any order. -/
def Selects (now : Int) (s : Store) (rows : List MessageRow) : Prop :=
  rows.Perm (due now s) ∧
    rows.Pairwise fun first second => first.deliverAt.getD 0 ≤ second.deliverAt.getD 0

instance (now : Int) (s : Store) (rows : List MessageRow) : Decidable (Selects now s rows) :=
  inferInstanceAs (Decidable (_ ∧ _))

/-- The envelope that a row is relayed under. A row without a recipient is passed over. -/
def dispatchEnvelope (services : Services) (row : MessageRow) : Option Envelope :=
  let recipients := row.toAddrs.filter services.reads
  if recipients = [] then none else some ⟨row.fromAddr.filter services.reads, recipients⟩

/-! ### Updates of the time -/

def unscheduled (flags : List Str → List Str) (row : MessageRow) : MessageRow :=
  { row with deliverAt := none, flags := flags row.flags }

/-- `UPDATE messages SET deliver_at = NULL`. -/
def unschedule (selected : MessageRow → Bool) (flags : List Str → List Str) (s : Store) :
    Store where
  mailboxes := s.mailboxes
  messages := s.messages.map fun row => if selected row then unscheduled flags row else row
  constraints := by
    have ids : ((s.messages.map fun row => if selected row then unscheduled flags row else row).map
        (·.id)) = s.messages.map (·.id) := by
      rw [List.map_map]
      apply List.map_congr_left
      intro row _
      rw [Function.comp_apply]
      split_ifs <;> rfl
    refine ⟨s.constraints.1, ?_⟩
    rw [ids]
    exact s.constraints.2

def markSent (id : Uuid) : Store → Store :=
  unschedule (fun row => row.id = id) fun flags => (flags ++ [seenFlag]).dedup

/-- Whether the row is in a mailbox of the user. -/
def ownedBy (ctx : RequestCtx) (s : Store) (row : MessageRow) : Bool :=
  s.mailboxes.any fun mb => mb.id = row.mailboxId && mb.userId = ctx.userId

/-- What `cancel_send` finds before it writes. -/
def checkScheduled (ctx : RequestCtx) (id : Uuid) (s : Store) : Except MailError Unit :=
  match s.messages.find? fun row =>
      row.id = id && row.tenantId = ctx.tenantId && ownedBy ctx s row with
  | none => .error (.messageNotFound id)
  | some row =>
      if row.deliverAt.isSome then .ok ()
      else .error (.conflict "message already sent".toList)

def cancelWrite (id : Uuid) : Store → Store :=
  unschedule (fun row => row.id = id) fun flags => flags

/-- The rows that `cancel_all_scheduled` selects. -/
def cancellable (ctx : RequestCtx) (s : Store) (row : MessageRow) : Bool :=
  row.tenantId = ctx.tenantId && row.deliverAt.isSome && s.mailboxes.any fun mb =>
    mb.id = row.mailboxId && mb.tenantId = ctx.tenantId && mb.userId = ctx.userId

/-- The rows that have been cancelled, and the store after it. -/
def cancelAllScheduled (ctx : RequestCtx) (s : Store) : List MessageRow × Store :=
  (s.messages.filter (cancellable ctx s), unschedule (cancellable ctx s) (fun flags => flags) s)

end Expresso.Compose
