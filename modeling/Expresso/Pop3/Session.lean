import Expresso.Ingest.Parse
import Expresso.Sql.RowNumber
import Expresso.Text.Wire

/-! A POP3 session: its commands, the maildrop that it takes at the login, and its replies. -/

namespace Expresso.Pop3
open Text Imap Ingest

/-! ### Commands -/

inductive Pop3Command where
  | user (name : Str)
  | pass (pass : Str)
  | stat
  | list (num : Option UInt32)
  | uidl (num : Option UInt32)
  | retr (num : UInt32)
  | dele (num : UInt32)
  | top (num lines : UInt32)
  | noop
  | rset
  | quit
  | capa
  | invalid (keyword : Str)
  | unknown
  deriving DecidableEq

/-- `line.trim_end().split_once(char::is_whitespace)` and the second part. -/
def afterBlank (line : Str) : Option Str :=
  match (trimEnd line).dropWhile fun c => !isWhitespace c with
  | [] => none
  | _ :: rest => some rest

def parse (line : Str) : Pop3Command :=
  let parts := splitWhitespace line
  match parts[0]? with
  | none => .unknown
  | some keyword =>
      let arg1 := parts[1]?
      let num1 := arg1.bind parseU32
      let keyword := toAsciiUppercase keyword
      if keyword = "USER".toList then
        match arg1.filter (!·.isEmpty) with
        | some name => .user name
        | none => .invalid "USER".toList
      else if keyword = "PASS".toList then
        match (afterBlank line).filter (!·.isEmpty) with
        | some rest => .pass rest
        | none => .invalid "PASS".toList
      else if keyword = "STAT".toList then .stat
      else if keyword = "LIST".toList then .list num1
      else if keyword = "UIDL".toList then .uidl num1
      else if keyword = "RETR".toList then num1.elim (.invalid "RETR".toList) .retr
      else if keyword = "DELE".toList then num1.elim (.invalid "DELE".toList) .dele
      else if keyword = "TOP".toList then
        match num1, parts[2]?.bind parseU32 with
        | some n, some lines => .top n lines
        | _, _ => .invalid "TOP".toList
      else if keyword = "NOOP".toList then .noop
      else if keyword = "RSET".toList then .rset
      else if keyword = "QUIT".toList then .quit
      else if keyword = "CAPA".toList then .capa
      else .unknown

example : parse "retr 1".toList = .retr 1 := by decide
example : parse "PASS my secret pw".toList = .pass "my secret pw".toList := by decide
example : parse "TOP 1".toList = .invalid "TOP".toList := by decide

/-! ### The maildrop -/

structure Pop3Message where
  id : Uuid
  size : Int
  bodyPath : Option Str
  deriving DecidableEq

def inbox : Str := "INBOX".toList

/-- `ORDER BY received_at ASC, uid ASC` -/
def scanOrder (a b : Message) : Prop :=
  a.receivedAt < b.receivedAt ∨ (a.receivedAt = b.receivedAt ∧ a.uid ≤ b.uid)

instance : DecidableRel scanOrder := fun _ _ => inferInstanceAs (Decidable (_ ∨ _))

def loadInbox (userId tenantId : Uuid) (s : Store) : List Pop3Message :=
  match s.mailboxes.find? fun mb =>
      mb.userId = userId && mb.folderName = inbox && mb.tenantId = tenantId with
  | none => []
  | some mb =>
      ((s.messages.filter fun m : Message => m.mailboxId = mb.id && m.tenantId = tenantId).insertionSort
        scanOrder).map fun m => ⟨m.id, m.sizeBytes, some m.bodyPath⟩

/-- `delete_messages`: without ids there is no statement, and nothing that can fail. -/
def deleteIds (served : Bool) (ids : List Uuid) (tenantId : Uuid) (s : Store) : Option Store :=
  if ids.isEmpty then some s
  else if served then deleteMessages (fun m => ids.contains m.id && m.tenantId = tenantId) s
  else none

structure Slot where
  msg : Pop3Message
  deleted : Bool
  deriving DecidableEq

structure Maildrop where
  userId : Uuid
  tenantId : Uuid
  slots : List Slot
  deriving DecidableEq

namespace Maildrop

/-- As it is after the login. -/
def fresh (userId tenantId : Uuid) (messages : List Pop3Message) : Maildrop :=
  ⟨userId, tenantId, messages.map fun msg => ⟨msg, false⟩⟩

def totalSize (md : Maildrop) : Int := ((md.slots.filter (!·.deleted)).map (·.msg.size)).sum

def count (md : Maildrop) : Nat := (md.slots.filter (!·.deleted)).length

/-- The index of a message that is not deleted. -/
def live (md : Maildrop) (num : UInt32) : Option Nat :=
  if num.toNat = 0 then none
  else match md.slots[num.toNat - 1]? with
    | some slot => if slot.deleted then none else some (num.toNat - 1)
    | none => none

end Maildrop

/-! ### Replies -/

abbrev Replies := List Octets

def ok (text : Str) : Replies :=
  [asBytes (if text.isEmpty then "+OK\r\n".toList else "+OK ".toList ++ text ++ "\r\n".toList)]

def err (text : Str) : Replies := [asBytes ("-ERR ".toList ++ text ++ "\r\n".toList)]

def capa : Replies :=
  [asBytes "+OK capability list follows\r\nUSER\r\nUIDL\r\nTOP\r\n.\r\n".toList]

/-- An extra dot before a line that begins with one. -/
def dotStuffFrom : Bool → Octets → Octets
  | _, [] => []
  | atLineStart, b :: rest =>
      if atLineStart && b = 46 then 46 :: b :: dotStuffFrom (b = 10) rest
      else b :: dotStuffFrom (b = 10) rest

def dotStuff (raw : Octets) : Octets := dotStuffFrom true raw

example : dotStuff [46, 10, 46] = [46, 46, 10, 46, 46] := by simp [dotStuff, dotStuffFrom]

/-- The loop of `top_bytes`: what it has written and counted, and the body from `start` on. -/
def topLoop (bodyLines : Nat) : Nat → Octets → Octets → Octets → Octets × Nat × Octets
  | taken, line, out, [] => (out, taken, line)
  | taken, line, out, b :: rest =>
      if b = 10 then
        if bodyLines ≤ taken + 1 then (out ++ (line ++ [b]), taken + 1, rest)
        else topLoop bodyLines (taken + 1) [] (out ++ (line ++ [b])) rest
      else topLoop bodyLines taken (line ++ [b]) out rest

def topBytes (raw : Octets) (bodyLines : Nat) : Octets :=
  match position separator raw with
  | none => raw
  | some pos =>
      let head := raw.take (pos + 4)
      if bodyLines = 0 then head
      else
        let (out, taken, left) := topLoop bodyLines 0 [] head (raw.drop (pos + 4))
        if taken < bodyLines ∧ left ≠ [] then out ++ left else out

section
variable (showSimple : Uuid → Str)

/-- The size of a message, or its id without hyphens. -/
def scanValue (slot : Slot) (uidl : Bool) : Str :=
  if uidl then showSimple slot.msg.id else display slot.msg.size

/-- The lines of a listing, from a scan number on. -/
def scanLines (uidl : Bool) : Nat → List Slot → Octets
  | _, [] => []
  | num, slot :: rest =>
      (if slot.deleted then []
        else asBytes (display num ++ ' ' :: (scanValue showSimple slot uidl ++ "\r\n".toList))) ++
      scanLines uidl (num + 1) rest

def list (md : Maildrop) (num : Option UInt32) (uidl : Bool) : Replies :=
  match num with
  | some n =>
      match (md.live n).bind (md.slots[·]?) with
      | none => err "no such message".toList
      | some slot => ok (display n.toNat ++ ' ' :: scanValue showSimple slot uidl)
  | none =>
      [asBytes ("+OK ".toList ++ display md.count ++ " messages\r\n".toList) ++
        scanLines showSimple uidl 1 md.slots ++ asBytes ".\r\n".toList]

end

/-- The whole message, or the top of it. -/
def retr (fetchBody : Str → Option Octets) (md : Maildrop) (num : UInt32)
    (topLines : Option UInt32) : Replies :=
  match (md.live num).bind (md.slots[·]?) with
  | none => err "no such message".toList
  | some slot =>
      match slot.msg.bodyPath with
      | none => err "message body unavailable".toList
      | some path =>
          match fetchBody path with
          | none => err "message body unavailable".toList
          | some raw =>
              let payload := match topLines with
                | some n => topBytes raw n.toNat
                | none => raw
              let status := match topLines with
                | some _ => "+OK top of message follows\r\n".toList
                | none => "+OK ".toList ++ display payload.length ++ " octets\r\n".toList
              [asBytes status ++ dotStuff payload ++ asBytes "\r\n.\r\n".toList]

def dele (md : Maildrop) (num : UInt32) : Maildrop × Replies :=
  match md.live num with
  | some idx =>
      ({ md with slots := md.slots.modify idx fun slot => { slot with deleted := true } },
        ok ("message ".toList ++ display num.toNat ++ " deleted".toList))
  | none => (md, err "no such message".toList)

/-! ### Dispatch -/

/-- What the session is told while it does a command. -/
structure Answers where
  lockedOut : Bool
  verifyLogin : Str → Str → Option (Uuid × Uuid)
  /-- whether the database serves the statement -/
  served : Bool
  fetchBody : Str → Option Octets

structure Session where
  authUser : Option Str
  drop : Option Maildrop

section
variable (answers : Answers)

def login (s : Session) (pass : Str) (db : Store) : Session × Replies :=
  match s.authUser with
  | none => (s, err "USER required before PASS".toList)
  | some user =>
      let s := { s with authUser := none }
      if answers.lockedOut then (s, err "authentication failed".toList)
      else match answers.verifyLogin user pass with
        | none => (s, err "authentication failed".toList)
        | some (userId, tenantId) =>
            if answers.served then
              ({ s with drop := some (.fresh userId tenantId (loadInbox userId tenantId db)) },
                ok "mailbox ready".toList)
            else (s, err "maildrop unavailable".toList)

def dispatchAuth (s : Session) (db : Store) : Pop3Command → Session × Replies
  | .user name => ({ s with authUser := some name }, ok "send PASS".toList)
  | .pass pass => login answers s pass db
  | .capa => (s, capa)
  | .noop => (s, ok [])
  | .rset => (s, ok [])
  | .quit => (s, ok "bye".toList)
  | _ => (s, err "command invalid in AUTHORIZATION state".toList)

def dispatchTxn (showSimple : Uuid → Str) (md : Maildrop) : Pop3Command → Maildrop × Replies
  | .stat => (md, ok (display md.count ++ ' ' :: display md.totalSize))
  | .list num => (md, list showSimple md num false)
  | .uidl num => (md, list showSimple md num true)
  | .retr num => (md, retr answers.fetchBody md num none)
  | .top num lines => (md, retr answers.fetchBody md num (some lines))
  | .dele num => dele md num
  | .noop => (md, ok [])
  | .rset =>
      ({ md with slots := md.slots.map fun slot => { slot with deleted := false } },
        ok "maildrop reset".toList)
  | .capa => (md, capa)
  | .user _ => (md, err "already authenticated".toList)
  | .pass _ => (md, err "already authenticated".toList)
  | .invalid _ => (md, err "invalid arguments".toList)
  | .quit => (md, err "unknown command".toList)
  | .unknown => (md, err "unknown command".toList)

end

/-! ### The loop -/

/-- What comes of reading a line, and whether the reply to it can be written. -/
inductive Turn where
  | timedOut
  | failed
  | eof
  | tooLong (written : Bool)
  | line (buf : Octets) (answers : Answers) (written : Bool)

/-- A turn, and the tables as other sessions have left them by then. -/
structure Round where
  turn : Turn
  db : Store

inductive Ending where
  | quit
  | autologout
  | closed
  | broken
  deriving DecidableEq

structure State where
  session : Session
  ending : Option Ending

def Maildrop.marked (md : Maildrop) : List Uuid := (md.slots.filter (·.deleted)).map (·.msg.id)

/-- The tables after the deletion, and the number of messages that the reply names. -/
def commitQuit (served : Bool) (drop : Option Maildrop) (db : Store) : Store × Nat :=
  match drop with
  | none => (db, 0)
  | some md =>
      match deleteIds served md.marked md.tenantId db with
      | some db' => (db', md.marked.length)
      | none => (db, 0)

def command (buf : Octets) : Pop3Command := parse (fromUtf8Lossy buf)

section
variable (showSimple : Uuid → Str)

/-- One round of the loop: the state, the replies and the tables after it. Nothing is read after
the end. -/
def step (st : State) (round : Round) : State × Replies × Store :=
  match st.ending with
  | some _ => (st, [], round.db)
  | none =>
      match round.turn with
      | .timedOut =>
          ({ st with ending := some .autologout },
            [asBytes "-ERR autologout; idle too long\r\n".toList], round.db)
      | .failed => ({ st with ending := some .broken }, [], round.db)
      | .eof => ({ st with ending := some .closed }, [], round.db)
      | .tooLong written =>
          ({ st with ending := if written then none else some .broken },
            err "line too long".toList, round.db)
      | .line buf answers written =>
          if command buf = .quit then
            let (db', removed) := commitQuit answers.served st.session.drop round.db
            ({ st with ending := some .quit },
              [asBytes ("+OK ".toList ++ display removed ++ " messages deleted; bye\r\n".toList)],
              db')
          else
            let (session, replies) := match st.session.drop with
              | none => dispatchAuth answers st.session round.db (command buf)
              | some md =>
                  let (md', replies) := dispatchTxn answers showSimple md (command buf)
                  ({ st.session with drop := some md' }, replies)
            (⟨session, if written then none else some .broken⟩, replies, round.db)

def next (st : State) (round : Round) : State := (step showSimple st round).1

/-- The state after some rounds. -/
def run (st : State) (rounds : List Round) : State := rounds.foldl (next showSimple) st

end

end Expresso.Pop3
