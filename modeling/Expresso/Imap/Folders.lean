import Expresso.Imap.Session
import Expresso.Sql.Like

/-! `CREATE`, `DELETE` and `RENAME`. -/

namespace Expresso.Imap
open Text Sql

/-- The hierarchy delimiter that `LIST` announces. -/
def delimiter : Str := ['.']

/-- The mailboxes that a user's command can name. -/
def ownedBy (userId tenantId : Uuid) (mb : Mailbox) : Bool :=
  mb.userId = userId && mb.tenantId = tenantId

section
variable {Item : Type}

/-- `INSERT … ON CONFLICT DO NOTHING`, with the defaults of the table. -/
def cmdCreate (userId tenantId : Uuid) (folder : Str) (id : Uuid) (uidValidity : Int) (s : Store) :
    Store × List (Response Item) :=
  let conflict := s.mailboxes.any fun mb => mb.userId = userId && mb.folderName = folder
  let inserted := commit { s.toTables with
    mailboxes := s.mailboxes ++ [⟨id, userId, tenantId, folder, uidValidity, 1, 0, 0, 0⟩] }
  match if conflict then none else inserted with
  | none => (s, [.no "mailbox already exists"])
  | some s' => (s', [.ok none "CREATE completed"])

/-- `ON DELETE CASCADE` takes the messages along. -/
def deleteMailboxes (selected : Mailbox → Bool) (s : Store) : Option Store :=
  let gone := (s.mailboxes.filter selected).map (·.id)
  commit { s.toTables with
    mailboxes := s.mailboxes.filter fun mb => !selected mb
    messages := s.messages.filter fun m => !gone.contains m.mailboxId }

def isInbox (folder : Str) : Bool := toAsciiUppercase folder = "INBOX".toList

/-- The row that a user's command means by a folder name. -/
def namedBy (userId tenantId : Uuid) (folder : Str) (mb : Mailbox) : Bool :=
  ownedBy userId tenantId mb && mb.folderName = folder

def cmdDelete (userId tenantId : Uuid) (folder : Str) (s : Store) : Store × List (Response Item) :=
  if isInbox folder then (s, [.no "cannot delete INBOX"])
  else if s.mailboxes.any (namedBy userId tenantId folder) then
    match deleteMailboxes (namedBy userId tenantId folder) s with
    | none => (s, [.no "no such mailbox"])
    | some s' => (s', [.ok none "DELETE completed"])
  else (s, [.no "no such mailbox"])

/-! ### `RENAME` -/

/-- One `UPDATE … SET folder_name` on the rows. -/
def renameRows (userId tenantId : Uuid) (old new : Str) (rows : List Mailbox) : List Mailbox :=
  rows.map fun mb =>
    if namedBy userId tenantId old mb then { mb with folderName := new } else mb

/-- A statement that is refused aborts the transaction. -/
def renameFolder (userId tenantId : Uuid) (s : Store) (names : Str × Str) : Option Store :=
  commit { s.toTables with
    mailboxes := renameRows userId tenantId names.1 names.2 s.mailboxes }

/-- The folders under the source, longest names first. -/
def childrenOf (userId tenantId : Uuid) (src : Str) (s : Store) : List Str :=
  orderBy (fun name => -(name.length : Int))
    (((s.mailboxes.filter (ownedBy userId tenantId)).map (·.folderName)).filter
      (like (src ++ ['/', '%'])))

/-- `&child[src_prefix.len()..]` behind the new name. -/
def childName (src dst child : Str) : Except Panic Str :=
  (splitAt (len (src ++ ['/'])) child).map fun halves => dst ++ ['/'] ++ halves.2

/-- All names that the transaction changes, in its order. -/
def renamings (userId tenantId : Uuid) (src dst : Str) (s : Store) :
    Except Panic (List (Str × Str)) :=
  (childrenOf userId tenantId src s).mapM fun child => (childName src dst child).map (child, ·)

/-- An aborted transaction changes nothing; otherwise it is committed, whether the source was there
or not. -/
def cmdRename (userId tenantId : Uuid) (src dst : Str) (s : Store) :
    Except Panic (Store × List (Response Item)) :=
  if isInbox src then .ok (s, [.no "RENAME INBOX not supported"])
  else do
    let children ← renamings userId tenantId src dst s
    match children.foldlM (renameFolder userId tenantId) s with
    | none => .ok (s, [.no "no such mailbox"])
    | some s' =>
        let affected := s'.mailboxes.any (namedBy userId tenantId src)
        match renameFolder userId tenantId s' (src, dst) with
        | none => .ok (s, [.no "no such mailbox"])
        | some s'' =>
            if affected then .ok (s'', [.ok none "RENAME completed"])
            else .ok (s'', [.no "no such mailbox"])

end

end Expresso.Imap
