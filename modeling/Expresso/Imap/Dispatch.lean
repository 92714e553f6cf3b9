import Expresso.Imap.Folders

/-! One connection: what a command does to the session and to the tables, whatever state it comes
in. -/

namespace Expresso.Imap
open Text Sql

inductive SessionState where
  | notAuthenticated
  | authenticated
  | selected
  deriving DecidableEq

/-- The variables of the connection's loop. -/
structure Session where
  state : SessionState
  userId : Option Uuid
  tenantId : Option Uuid
  selected : Option SelectedMailbox
  deriving DecidableEq

/-- The responses of the commands on messages, and those of `SELECT` and of the dispatch. -/
inductive Reply (Item : Type) where
  | response (response : Response Item)
  | flags (flags : List Str)
  | recent (n : Nat)
  | uidValidity (n : Nat)
  | uidNext (n : Nat)
  /-- the list ends in `\*` unless the mailbox is read-only -/
  | permanentFlags (flags : List Str)
  | unseen (seq : Nat)
  | highestModSeq (n : Nat)
  | access (readOnly : Bool) (text : String)
  | bye (text : String)
  | bad (text : String)

section
variable {Item : Type}

def no (text : String) : List (Reply Item) := [.response (.no text)]

def completed (text : String) : List (Reply Item) := [.response (.ok none text)]

/-! ### `LOGIN` and `AUTHENTICATE` -/

/-- The row of the table of users, if the lockout lets the request through and the password is
right. -/
abbrev Identity := Option (Uuid × Uuid)

def cmdLogin (row : Identity) (x : Session) : Session × List (Reply Item) :=
  match row with
  | some (userId, tenantId) =>
      ({ x with state := .authenticated, userId := some userId, tenantId := some tenantId },
        completed "LOGIN completed")
  | none => (x, no "LOGIN failed")

/-- `plain` is false for a mechanism other than `PLAIN`. The client may cancel instead of sending
a message, and a message that cannot be read has no row. -/
def cmdAuthenticate (plain : Bool) (message : Option Identity) (x : Session) :
    Session × List (Reply Item) :=
  if x.state ≠ .notAuthenticated then (x, no "already authenticated")
  else if !plain then (x, no "unsupported mechanism")
  else match message with
    | some (some (userId, tenantId)) =>
        ({ x with state := .authenticated, userId := some userId, tenantId := some tenantId },
          completed "AUTHENTICATE completed")
    | some none => (x, no "AUTHENTICATE failed")
    | none => (x, [.bad "AUTHENTICATE cancelled"])

/-! ### `SELECT` and `EXAMINE` -/

def systemFlags : List Str :=
  [seenFlag, "\\Answered".toList, "\\Flagged".toList, deletedFlag, "\\Draft".toList]

def flagsSnapshot (mailboxId tenantId : Uuid) (s : Store) : List (Nat × List Str) :=
  (rowNumbered (mailboxRows mailboxId tenantId s)).map fun row => (row.2, row.1.flags)

/-- One more than the messages before the oldest without `\Seen`. -/
def firstUnseen (mailboxId tenantId : Uuid) (s : Store) : Nat :=
  let rows := s.messages.filter (inMailbox mailboxId tenantId)
  let unseen := (rows.filter fun m => !m.flags.contains seenFlag).map (·.receivedAt)
  (rows.filter fun m => unseen.min?.all (m.receivedAt < ·)).length + 1

def highestModseq (mailboxId tenantId : Uuid) (s : Store) : Option Int :=
  ((s.messages.filter (inMailbox mailboxId tenantId)).map (·.modSequence)).max?

def selectReplies (mb : Mailbox) (tenantId : Uuid) (existing : Nat) (readOnly : Bool) (s : Store) :
    List (Reply Item) :=
  let unseen := firstUnseen mb.id tenantId s
  ([.flags systemFlags, .response (.existing existing), .recent 0,
    .uidValidity (nonZeroU32 mb.uidValidity), .uidNext (nonZeroU32 mb.nextUid),
    .permanentFlags (if readOnly then [] else systemFlags ++ ["\\*".toList])] :
      List (Reply Item)) ++
    (if unseen ≤ existing then [.unseen unseen] else [] : List (Reply Item)) ++
    (match highestModseq mb.id tenantId s with
      | some n => if n = 0 then [] else [.highestModSeq n.toNat]
      | none => [] : List (Reply Item)) ++
    ([.access readOnly (if readOnly then "EXAMINE completed" else "SELECT completed")] :
      List (Reply Item))

/-- A folder that is not found leaves the session as it is. -/
def cmdSelect (folder : Str) (userId tenantId : Uuid) (readOnly : Bool) (x : Session) (s : Store) :
    Session × List (Reply Item) :=
  match findMailbox userId tenantId folder s with
  | some mb =>
      let existing := (mb.messageCount % 2 ^ 32).toNat
      let sel := ⟨mb.id, existing, readOnly, flagsSnapshot mb.id tenantId s⟩
      ({ x with state := .selected, selected := some sel },
        selectReplies mb tenantId existing readOnly s)
  | none => (x, no "mailbox not found")

/-! ### `NOOP`, `CHECK` and `IDLE` -/

/-- The count and the flags that have changed since they were last reported. -/
def poll (flagsItem : List Str → Item) (sel : SelectedMailbox) (tenantId : Uuid) (s : Store) :
    SelectedMailbox × List (Reply Item) :=
  let count := (s.mailboxes.find? fun mb => mb.id = sel.mailboxId && mb.tenantId = tenantId).map
    fun mb => (mb.messageCount % 2 ^ 32).toNat
  let existing := count.getD sel.existing
  let current := rowNumbered (mailboxRows sel.mailboxId tenantId s)
  let changed := current.filter fun row => sel.flagsSnapshot.lookup row.2 ≠ some row.1.flags
  ({ sel with existing, flagsSnapshot := flagsSnapshot sel.mailboxId tenantId s },
    (if existing = sel.existing then [] else [.response (.existing existing)] :
      List (Reply Item)) ++ changed.map fun row => .response (.fetch row.2 row.1 [flagsItem row.1.flags]))

def pollSession (flagsItem : List Str → Item) (x : Session) (s : Store) :
    Session × List (Reply Item) :=
  match x.selected, x.tenantId with
  | some sel, some tenantId =>
      let (sel', replies) := poll flagsItem sel tenantId s
      ({ x with selected := some sel' }, replies)
  | _, _ => (x, [])

def cmdNoop (flagsItem : List Str → Item) (text : String) (x : Session) (s : Store) :
    Session × List (Reply Item) :=
  let (x', replies) := pollSession flagsItem x s
  (x', replies ++ completed text)

def timeoutTicks : Nat := 65

/-- The polls until `DONE`, or until the limit is reached. -/
def handleIdle (flagsItem : List Str → Item) : Nat → Nat → Session → Store →
    Session × List (Reply Item)
  | _, 0, x, _ => (x, completed "IDLE done")
  | ticks, more + 1, x, s =>
      if timeoutTicks ≤ ticks + 1 then (x, [.bye "IDLE timeout - reconnect"])
      else
        let (x', replies) := pollSession flagsItem x s
        let (x'', later) := handleIdle flagsItem (ticks + 1) more x' s
        (x'', replies ++ later)

/-! ### `CLOSE` and `UNSELECT` -/

def Session.leave (x : Session) : Session :=
  { x with selected := none
           state := if x.state = .selected then .authenticated else x.state }

def cmdClose (x : Session) (s : Store) : Store × Session × List (Reply Item) :=
  let s' := match x.selected, x.tenantId with
    | some sel, some tenantId =>
        if sel.readOnly then s
        else (deleteMessages (expunged sel.mailboxId tenantId fun _ => true) s).getD s
    | _, _ => s
  (s', x.leave, completed "CLOSE completed")

def cmdUnselect (x : Session) : Session × List (Reply Item) :=
  if x.selected.isNone then (x, no "no mailbox selected")
  else (x.leave, completed "UNSELECT completed")

/-! ### The dispatch -/

/-- The commands that change neither the session nor a column modelled here. -/
inductive Inquiry where
  | capability | list | lsub | subscribe | unsubscribe | status | enable | namespaces
  | search | sort | thread | unimplemented
  deriving DecidableEq

inductive Requirement where
  | nothing | login | identity | mailbox
  deriving DecidableEq

def Inquiry.requirement : Inquiry → Requirement
  | .capability | .unimplemented => .nothing
  | .enable | .namespaces => .login
  | .list | .lsub | .subscribe | .unsubscribe | .status => .identity
  | .search | .sort | .thread => .mailbox

/-- A command with what it meets: the row of the user, the ids and the time of new rows, and the
answer of an inquiry. -/
inductive CommandBody (Item : Type) where
  | inquire (kind : Inquiry) (answer : List (Reply Item))
  | logout
  | login (row : Identity)
  | authenticate (plain : Bool) (message : Option Identity)
  | select (folder : Str) (readOnly : Bool)
  | noop (flagsItem : List Str → Item)
  | check (flagsItem : List Str → Item)
  | idle (flagsItem : List Str → Item) (ticks : Nat)
  | append (folder : Str) (draft : Option Draft)
  | fetch (set : SequenceSet) (request : FetchPlan Item) (uid : Bool) (changedsince : Option Nat)
  | store (set : SequenceSet) (kind : StoreType) (answer : Bool) (flags : List Str) (uid : Bool)
      (flagsItem : List Str → Item)
  | copy (set : SequenceSet) (folder : Str) (uid : Bool) (newId : Nat → Uuid) (now : Int)
  | move (set : SequenceSet) (folder : Str) (uid : Bool) (newId : Nat → Uuid) (now : Int)
  | expunge
  | expungeUid (set : SequenceSet)
  | close
  | unselect
  | create (folder : Str) (id : Uuid) (uidValidity : Int)
  | delete (folder : Str)
  | rename (src dst : Str)

/-- The tables, the session unless the connection is over, and the responses. -/
abbrev Outcome (Item : Type) := Store × Option Session × List (Reply Item)

section
variable (x : Session) (s : Store)

/-- The guard of the commands that need a login. -/
def withLogin (command : Outcome Item) : Outcome Item :=
  if x.state = .notAuthenticated then (s, some x, no "not authenticated") else command

/-- `unwrap` ends the connection if there is no identity. -/
def withIdentity (command : Uuid → Uuid → Outcome Item) : Outcome Item :=
  withLogin x s (match x.userId, x.tenantId with
    | some userId, some tenantId => command userId tenantId
    | _, _ => (s, none, []))

/-- The guard of the commands on the selected mailbox. -/
def withMailbox (command : SelectedMailbox → Uuid → Outcome Item) : Outcome Item :=
  match x.selected with
  | none => (s, some x, no "no mailbox selected")
  | some sel =>
      match x.tenantId with
      | some tenantId => command sel tenantId
      | none => (s, none, [])

def withMailboxAndUser (command : SelectedMailbox → Uuid → Uuid → Outcome Item) : Outcome Item :=
  withMailbox x s fun sel tenantId => match x.userId with
    | some userId => command sel userId tenantId
    | none => (s, none, [])

/-- What a command on messages returns, in the session. -/
def onSelected (result : Store × SelectedMailbox × List (Response Item)) : Outcome Item :=
  (result.1, some { x with selected := some result.2.1 }, result.2.2.map .response)

def inStore (result : Store × List (Response Item)) : Outcome Item :=
  (result.1, some x, result.2.map .response)

def inSession (result : Session × List (Reply Item)) : Outcome Item :=
  (s, some result.1, result.2)

def dispatch : CommandBody Item → Outcome Item
  | .inquire kind answer =>
      match kind.requirement with
      | .nothing => (s, some x, answer)
      | .login => withLogin x s (s, some x, answer)
      | .identity => withIdentity x s fun _ _ => (s, some x, answer)
      | .mailbox => withMailbox x s fun _ _ => (s, some x, answer)
  | .logout => (s, none, .bye "server logging out" :: completed "LOGOUT completed")
  | .login row => inSession s (cmdLogin row x)
  | .authenticate plain message => inSession s (cmdAuthenticate plain message x)
  | .select folder readOnly => withIdentity x s fun userId tenantId =>
      inSession s (cmdSelect folder userId tenantId readOnly x s)
  | .noop flagsItem => inSession s (cmdNoop flagsItem "NOOP completed" x s)
  | .check flagsItem => withLogin x s (inSession s (cmdNoop flagsItem "CHECK completed" x s))
  | .idle flagsItem ticks => withLogin x s (inSession s (handleIdle flagsItem 0 ticks x s))
  | .append folder draft => withIdentity x s fun userId tenantId =>
      let (s', selected, responses) := cmdAppend userId tenantId folder draft x.selected s
      (s', some { x with selected }, responses.map .response)
  | .fetch set request uid changedsince => withMailbox x s fun sel tenantId =>
      inStore x (cmdFetch set request uid sel tenantId changedsince s)
  | .store set kind answer flags uid flagsItem => withMailbox x s fun sel tenantId =>
      onSelected x (cmdStore set kind answer flags uid flagsItem sel tenantId s)
  | .copy set folder uid newId now => withMailboxAndUser x s fun sel userId tenantId =>
      onSelected x (cmdCopy set userId tenantId folder uid newId now sel s)
  | .move set folder uid newId now => withMailboxAndUser x s fun sel userId tenantId =>
      onSelected x (cmdMove set userId tenantId folder uid newId now sel s)
  | .expunge => withMailbox x s fun sel tenantId => onSelected x (cmdExpunge sel tenantId s)
  | .expungeUid set => withMailbox x s fun sel tenantId =>
      onSelected x (cmdExpungeUid set sel tenantId s)
  | .close =>
      let (s', x', replies) := cmdClose x s
      (s', some x', replies)
  | .unselect => inSession s (cmdUnselect x)
  | .create folder id uidValidity => withIdentity x s fun userId tenantId =>
      inStore x (cmdCreate userId tenantId folder id uidValidity s)
  | .delete folder => withIdentity x s fun userId tenantId =>
      inStore x (cmdDelete userId tenantId folder s)
  | .rename src dst => withIdentity x s fun userId tenantId =>
      match cmdRename userId tenantId src dst s with
      | .ok result => inStore x result
      | .error _ => (s, none, [])

end

/-! ### Rules for the guards -/

section
variable {x : Session} {s : Store} {P : Outcome Item → Prop}

/-- A guard keeps what holds of the command and of an answer that changes nothing. -/
theorem withLogin_rule {command : Outcome Item} (same : ∀ replies, P (s, some x, replies))
    (holds : P command) : P (withLogin x s command) := by
  rw [withLogin]
  split
  · exact same _
  · exact holds

theorem withIdentity_rule {command : Uuid → Uuid → Outcome Item}
    (same : ∀ replies, P (s, some x, replies)) (finished : ∀ replies, P (s, none, replies))
    (holds : ∀ userId ∈ x.userId, ∀ tenantId ∈ x.tenantId, P (command userId tenantId)) :
    P (withIdentity x s command) := by
  apply withLogin_rule same
  split
  · next user tenant => exact holds _ user _ tenant
  · exact finished _

theorem withMailbox_rule {command : SelectedMailbox → Uuid → Outcome Item}
    (same : ∀ replies, P (s, some x, replies)) (finished : ∀ replies, P (s, none, replies))
    (holds : ∀ sel ∈ x.selected, ∀ tenantId ∈ x.tenantId, P (command sel tenantId)) :
    P (withMailbox x s command) := by
  rw [withMailbox]
  split
  · exact same _
  · next sel selected =>
    split
    · next tenant => exact holds sel selected _ tenant
    · exact finished _

theorem withMailboxAndUser_rule {command : SelectedMailbox → Uuid → Uuid → Outcome Item}
    (same : ∀ replies, P (s, some x, replies)) (finished : ∀ replies, P (s, none, replies))
    (holds : ∀ sel ∈ x.selected, ∀ userId ∈ x.userId, ∀ tenantId ∈ x.tenantId,
      P (command sel userId tenantId)) :
    P (withMailboxAndUser x s command) := by
  apply withMailbox_rule same finished
  intro sel selected tenantId tenant
  split
  · next user => exact holds sel selected _ user tenantId tenant
  · exact finished _

end

end

end Expresso.Imap
