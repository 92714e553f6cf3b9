import Expresso.Imap.Store
import Expresso.Sql.RowNumber
import Expresso.Text.Str

/-! The IMAP commands that read or change messages, and the background sweep. The tables
are passed along; the rows a command has read are an argument of the transaction that
writes, because other sessions may have written in between. -/

namespace Expresso.Imap
open Text Sql

/-! ### Sequence sets -/

inductive SeqOrUid where
  | value (n : Nat)
  | asterisk
  deriving DecidableEq

inductive Sequence where
  | single (val : SeqOrUid)
  | range (first last : SeqOrUid)
  deriving DecidableEq

abbrev SequenceSet := List Sequence

def u32Max : Nat := 2 ^ 32 - 1

def seqOrUidVal (val : SeqOrUid) (existing : Nat) : Nat :=
  match val with
  | .value n => n
  | .asterisk => existing

def sequenceRanges (set : SequenceSet) (existing : Nat) : List (Nat × Nat) :=
  set.map fun
    | .single val =>
        let n := min (max (seqOrUidVal val existing) 1) existing
        (n, n)
    | .range first last =>
        let a := seqOrUidVal first existing
        let b := seqOrUidVal last existing
        (max (min a b) 1, min (max a b) existing)

/-- `uid_clause`: the UID lies in one of the ranges. -/
def uidClause (ranges : List (Nat × Nat)) (m : Message) : Bool :=
  ranges.any fun (s, e) => (s : Int) ≤ m.uid && m.uid ≤ (e : Int)

/-- `seq_clause`: the row number lies in one of the ranges. -/
def seqClause (ranges : List (Nat × Nat)) (seq : Nat) : Bool :=
  ranges.any fun (s, e) => s ≤ seq && seq ≤ e

/-- `NonZeroU32::new(n as u32).unwrap_or(NonZeroU32::MIN)`. -/
def nonZeroU32 (n : Int) : Nat :=
  let k := (n % 2 ^ 32).toNat
  if k = 0 then 1 else k

/-! ### Sessions -/

structure SelectedMailbox where
  mailboxId : Uuid
  existing : Nat
  readOnly : Bool
  /-- row number and flags as last reported -/
  flagsSnapshot : List (Nat × List Str)
  deriving DecidableEq

inductive Code where
  | appendUid (uidValidity uid : Nat)
  | copyUid (uidValidity : Nat) (source destination : List Nat)
  deriving DecidableEq

/-- The responses of the commands modelled here. A `FETCH` keeps the row it was made from
beside its items. -/
inductive Response (Item : Type) where
  | existing (n : Nat)
  | fetch (seq : Nat) (row : Message) (items : List Item)
  | expunge (n : Nat)
  | ok (code : Option Code) (text : String)
  | no (text : String)

/-- The rows of the selected mailbox that the tenant sees. -/
def inMailbox (mailboxId tenantId : Uuid) (m : Message) : Bool :=
  m.mailboxId = mailboxId && m.tenantId = tenantId

/-- The messages of the mailbox in mailbox order. -/
def mailboxRows (mailboxId tenantId : Uuid) (s : Store) : List Message :=
  orderBy (·.receivedAt) (s.messages.filter (inMailbox mailboxId tenantId))

/-- The rows a command names with their `ROW_NUMBER()`, in mailbox order. By UID the rows are
numbered after the selection; by position the whole mailbox (narrowed by `extra`) is
numbered first. -/
def numberedRows (set : SequenceSet) (uid : Bool) (sel : SelectedMailbox) (tenantId : Uuid)
    (extra : Message → Bool) (s : Store) : List (Message × Nat) :=
  if uid then
    let ranges := sequenceRanges set u32Max
    rowNumbered (orderBy (·.receivedAt) (s.messages.filter fun m =>
      inMailbox sel.mailboxId tenantId m && uidClause ranges m && extra m))
  else
    let ranges := sequenceRanges set sel.existing
    (rowNumbered (orderBy (·.receivedAt) (s.messages.filter fun m =>
      inMailbox sel.mailboxId tenantId m && extra m))).filter fun row => seqClause ranges row.2

/-! ### Transactions -/

/-- A UID given to a message in a mailbox. -/
structure Assignment where
  mailbox : Uuid
  uid : Int
  message : Uuid
  deriving DecidableEq

/-- What `APPEND` writes. -/
structure Draft where
  id : Uuid
  flags : List Str
  sizeBytes : Int
  bodyPath : Str
  fromAddr : Option Str
  now : Int
  envelope : Envelope := {}
  deriving DecidableEq

def appendMessage (dst : Mailbox) (tenantId : Uuid) (draft : Draft) (s : Store) :
    Option (Store × Assignment) :=
  (insertMessage
    { id := draft.id, mailboxId := dst.id, tenantId, uid := dst.nextUid, flags := draft.flags,
      sizeBytes := draft.sizeBytes, bodyPath := draft.bodyPath, fromAddr := draft.fromAddr,
      receivedAt := draft.now, modSequence := 0, envelope := draft.envelope } s).map
    fun s' => (s', ⟨dst.id, dst.nextUid, draft.id⟩)

/-- The row `COPY` and `MOVE` insert for a source row. -/
def copyOf (dst : Mailbox) (tenantId : Uuid) (now : Int) (id : Uuid) (uid : Int) (row : Message) :
    Message :=
  { id, mailboxId := dst.id, tenantId, uid, flags := row.flags, sizeBytes := row.sizeBytes,
    bodyPath := row.bodyPath, fromAddr := none, receivedAt := now, modSequence := 0 }

/-- The insert loop of `COPY` and `MOVE`: the i-th row gets `initial_next_uid + i`. -/
def insertCopies (dst : Mailbox) (tenantId : Uuid) (now : Int) (newId : Nat → Uuid) :
    Nat → List Message → Store → Option (Store × List Assignment)
  | _, [], s => some (s, [])
  | i, row :: rest, s => do
      let uid := dst.nextUid + i
      let s' ← insertMessage (copyOf dst tenantId now (newId i) uid row) s
      let (s'', later) ← insertCopies dst tenantId now newId (i + 1) rest s'
      some (s'', ⟨dst.id, uid, newId i⟩ :: later)

/-- The rows `MOVE` deletes from the selected mailbox. -/
def moved (rows : List Message) (mailboxId tenantId : Uuid) (m : Message) : Bool :=
  (rows.map (·.id)).contains m.id && inMailbox mailboxId tenantId m

def moveMessages (mailboxId : Uuid) (dst : Mailbox) (tenantId : Uuid) (now : Int)
    (newId : Nat → Uuid) (rows : List Message) (s : Store) :
    Option (Store × List Assignment) := do
  let (s', assigned) ← insertCopies dst tenantId now newId 0 rows s
  let s'' ← deleteMessages (moved rows mailboxId tenantId) s'
  some (s'', assigned)

/-- The rows `EXPUNGE` and `CLOSE` delete; `UID EXPUNGE` narrows them by UID. -/
def expunged (mailboxId tenantId : Uuid) (narrowed : Message → Bool) (m : Message) : Bool :=
  inMailbox mailboxId tenantId m && m.flags.contains deletedFlag && narrowed m

inductive StoreType where
  | add | remove | replace
  deriving DecidableEq

def storeFlags (kind : StoreType) (flags old : List Str) : List Str :=
  match kind with
  | .add => old ++ flags
  | .remove => old.filter fun f => !flags.contains f
  | .replace => flags

/-- The `UPDATE` of `STORE`. Removing the last flag of a row makes `array_agg` return null,
which the column refuses. -/
def storeMessages (kind : StoreType) (flags : List Str) (selected : Message → Bool) (s : Store) :
    Option Store :=
  if kind = .remove ∧ (s.messages.any fun m => selected m && (storeFlags kind flags m.flags).isEmpty)
  then none
  else updateMessages (fun m =>
    if selected m then some { m with flags := storeFlags kind flags m.flags } else none) s

/-- A row of `mail_sweep_rules`. -/
structure SweepRule where
  tenantId : Uuid
  userId : Uuid
  senderAddress : Str
  olderThanDays : Int
  targetFolder : Str
  enabled : Bool
  deriving DecidableEq

def dayMicros : Int := 86400000000

/-- The mailbox a sweep moves the message to: that of the first rule that matches. -/
def sweepTarget (lower : Str → Str) (rules : List SweepRule) (now : Int)
    (mailboxes : List Mailbox) (m : Message) : Option Uuid :=
  rules.findSome? fun r =>
    if r.enabled && m.fromAddr.map lower = some r.senderAddress &&
        m.receivedAt < now - r.olderThanDays * dayMicros then do
      let tgt ← mailboxes.find? fun mb =>
        mb.tenantId = r.tenantId && mb.userId = r.userId && mb.folderName = r.targetFolder
      let src ← mailboxes.find? fun mb => mb.id = m.mailboxId
      if src.tenantId = r.tenantId ∧ src.userId = r.userId ∧ m.mailboxId ≠ tgt.id then some tgt.id
      else none
    else none

/-- `run_sweep`: one `UPDATE` that changes the mailbox of a row and leaves its UID. -/
def runSweep (lower : Str → Str) (rules : List SweepRule) (now : Int) (s : Store) :
    Option Store :=
  updateMessages (fun m => (sweepTarget lower rules now s.mailboxes m).map fun target =>
    { m with mailboxId := target }) s

/-! ### `FETCH` -/

section Commands

variable {Item : Type}

/-- What `fetch_plan` makes of the request: which of the items modelled here are wanted, how
they are built, and all other items. -/
structure FetchPlan (Item : Type) where
  wUid : Bool
  wModseq : Bool
  wFlags : Bool
  setSeen : Bool
  uidItem : Nat → Item
  modSeqItem : Int → Item
  flagsItem : List Str → Item
  others : Message → List Item

/-- `UID` is always wanted by `UID FETCH`, `MODSEQ` always with `CHANGEDSINCE`. -/
def fetchPlan (request : FetchPlan Item) (uid : Bool) (changedsince : Option Nat) :
    FetchPlan Item :=
  { request with wUid := uid || request.wUid, wModseq := changedsince.isSome || request.wModseq }

/-- The `CHANGEDSINCE` clause. -/
def changedSince (changedsince : Option Nat) (m : Message) : Bool :=
  changedsince.all fun v => (v : Int) < m.modSequence

/-- The store and the flags after the implicit `\Seen`, and whether it was newly set. -/
def applyImplicitSeen (setSeen : Bool) (m : Message) (s : Store) : Store × List Str × Bool :=
  if !setSeen || m.flags.contains seenFlag then (s, m.flags, false)
  else
    ((updateMessages (fun x => if x.id = m.id && !x.flags.contains seenFlag
        then some { x with flags := x.flags ++ [seenFlag] } else none) s).getD s,
      m.flags ++ [seenFlag], true)

def fetchItems (plan : FetchPlan Item) (m : Message) (flags : List Str) (seenWasSet : Bool) :
    List Item :=
  (if plan.wUid then [plan.uidItem (nonZeroU32 m.uid)] else []) ++
    (if plan.wModseq && m.modSequence ≠ 0 then [plan.modSeqItem m.modSequence] else []) ++
    (if plan.wFlags || seenWasSet then [plan.flagsItem flags] else []) ++ plan.others m

/-- A row without items gets no response. -/
def fetchLoop (plan : FetchPlan Item) : List (Message × Nat) → Store → Store × List (Response Item)
  | [], s => (s, [.ok none "FETCH completed"])
  | (m, seq) :: rows, s =>
      let (s', flags, seenWasSet) := applyImplicitSeen plan.setSeen m s
      let items := fetchItems plan m flags seenWasSet
      let (s'', later) := fetchLoop plan rows s'
      (s'', if items.isEmpty then later else .fetch (nonZeroU32 seq) m items :: later)

example (plan : FetchPlan Item) (s : Store) :
    fetchLoop plan [] s = (s, [.ok none "FETCH completed"]) := by
  simp only [fetchLoop]

def cmdFetch (set : SequenceSet) (request : FetchPlan Item) (uid : Bool) (sel : SelectedMailbox)
    (tenantId : Uuid) (changedsince : Option Nat) (s : Store) : Store × List (Response Item) :=
  fetchLoop (fetchPlan request uid changedsince)
    (numberedRows set uid sel tenantId (changedSince changedsince) s) s

/-! ### `STORE` -/

/-- The rows the `UPDATE` of `STORE` changes. -/
def storeSelects (set : SequenceSet) (uid : Bool) (sel : SelectedMailbox) (tenantId : Uuid)
    (s : Store) (m : Message) : Bool :=
  if uid then
    inMailbox sel.mailboxId tenantId m && uidClause (sequenceRanges set u32Max) m
  else
    ((numberedRows set false sel tenantId (fun _ => true) s).map fun row => row.1.id).contains m.id

def cmdStore (set : SequenceSet) (kind : StoreType) (answer : Bool) (flags : List Str) (uid : Bool)
    (flagsItem : List Str → Item) (sel : SelectedMailbox) (tenantId : Uuid) (s : Store) :
    Store × SelectedMailbox × List (Response Item) :=
  if sel.readOnly then (s, sel, [.no "mailbox is read-only (opened via EXAMINE)"])
  else
    let s' := (storeMessages kind flags (storeSelects set uid sel tenantId s) s).getD s
    let rows := numberedRows set uid sel tenantId (fun _ => true) s'
    let snapshot := rows.foldl (fun known row =>
      (row.2, row.1.flags) :: known.filter fun entry => entry.1 ≠ row.2) sel.flagsSnapshot
    let responses := if answer then
      rows.map fun row => .fetch (nonZeroU32 row.2) row.1 [flagsItem row.1.flags] else []
    (s', { sel with flagsSnapshot := snapshot }, responses ++ [.ok none "STORE completed"])

/-! ### `APPEND`, `COPY` and `MOVE` -/

/-- The body path is missing when the object store refuses the message. -/
def cmdAppend (userId tenantId : Uuid) (folder : Str) (draft : Option Draft)
    (selected : Option SelectedMailbox) (s : Store) :
    Store × Option SelectedMailbox × List (Response Item) :=
  match findMailbox userId tenantId folder s with
  | none => (s, selected, [.no "mailbox not found"])
  | some dst =>
      match draft with
      | none => (s, selected, [.no "storage error"])
      | some draft =>
          match appendMessage dst tenantId draft s with
          | none => (s, selected, [.no "internal error"])
          | some (s', assigned) =>
              let code := Code.appendUid (nonZeroU32 dst.uidValidity) (nonZeroU32 assigned.uid)
              let completed : Response Item := .ok (some code) "APPEND completed"
              match selected with
              | some sel =>
                  if sel.mailboxId = dst.id then
                    (s', some { sel with existing := sel.existing + 1 },
                      [.existing (sel.existing + 1), completed])
                  else (s', selected, [completed])
              | none => (s', selected, [completed])

/-- `COPY` reads its rows by UID in UID order, by position in mailbox order. -/
def copyRows (set : SequenceSet) (uid : Bool) (sel : SelectedMailbox) (tenantId : Uuid)
    (s : Store) : List Message :=
  if uid then
    orderBy (·.uid) (s.messages.filter fun m =>
      inMailbox sel.mailboxId tenantId m && uidClause (sequenceRanges set u32Max) m)
  else (numberedRows set false sel tenantId (fun _ => true) s).map (·.1)

def copyUid (dst : Mailbox) (rows : List Message) (assigned : List Assignment) : Code :=
  .copyUid (nonZeroU32 dst.uidValidity) (rows.map fun m => nonZeroU32 m.uid)
    (assigned.map fun a => nonZeroU32 a.uid)

def cmdCopy (set : SequenceSet) (userId tenantId : Uuid) (folder : Str) (uid : Bool)
    (newId : Nat → Uuid) (now : Int) (sel : SelectedMailbox) (s : Store) :
    Store × SelectedMailbox × List (Response Item) :=
  let rows := copyRows set uid sel tenantId s
  if rows.isEmpty then (s, sel, [.ok none "COPY completed"])
  else match findMailbox userId tenantId folder s with
    | none => (s, sel, [.no "mailbox not found"])
    | some dst =>
        match insertCopies dst tenantId now newId 0 rows s with
        | none => (s, sel, [.no "internal error"])
        | some (s', assigned) =>
            let fresh := rowNumbered (mailboxRows sel.mailboxId tenantId s')
            let sel' := if dst.id = sel.mailboxId then
              { sel with existing := fresh.length
                         flagsSnapshot := fresh.map fun row => (row.2, row.1.flags) }
              else sel
            (s', sel', [.ok (some (copyUid dst rows assigned)) "COPY completed"])

/-- The numbers of the `EXPUNGE` responses: each row number less the expunges before it. -/
def expungeNumbers : Nat → List Nat → List Nat
  | _, [] => []
  | i, seq :: rest => (seq - i) :: expungeNumbers (i + 1) rest

example : expungeNumbers 0 [1, 3, 4] = [1, 2, 2] := by simp [expungeNumbers]

/-- A number that is zero as a `u32` gets no response. -/
def expungeResponses (seqs : List Nat) : List (Response Item) :=
  (expungeNumbers 0 seqs).filterMap fun n =>
    if n % 2 ^ 32 = 0 then none else some (.expunge (n % 2 ^ 32))

def cmdMove (set : SequenceSet) (userId tenantId : Uuid) (folder : Str) (uid : Bool)
    (newId : Nat → Uuid) (now : Int) (sel : SelectedMailbox) (s : Store) :
    Store × SelectedMailbox × List (Response Item) :=
  let rows := numberedRows set uid sel tenantId (fun _ => true) s
  let sources := rows.map (·.1)
  if rows.isEmpty then (s, sel, [.ok none "MOVE completed"])
  else match findMailbox userId tenantId folder s with
    | none => (s, sel, [.no "mailbox not found"])
    | some dst =>
        match moveMessages sel.mailboxId dst tenantId now newId sources s with
        | none => (s, sel, [.no "internal error"])
        | some (s', assigned) =>
            (s', { sel with existing := sel.existing - rows.length },
              expungeResponses (rows.map (·.2)) ++
                [.ok (some (copyUid dst sources assigned)) "MOVE completed"])

/-! ### `EXPUNGE` -/

/-- The row numbers in the whole mailbox of the rows to delete. -/
def expungeSeqs (narrowed : Message → Bool) (sel : SelectedMailbox) (tenantId : Uuid) (s : Store) :
    List Nat :=
  ((rowNumbered (mailboxRows sel.mailboxId tenantId s)).filter fun row =>
    row.1.flags.contains deletedFlag && narrowed row.1).map (·.2)

/-- The numbers are read before the `DELETE`, whose result is not looked at. -/
def expungeRows (narrowed : Message → Bool) (completed : String) (sel : SelectedMailbox)
    (tenantId : Uuid) (s : Store) : Store × SelectedMailbox × List (Response Item) :=
  let seqs := expungeSeqs narrowed sel tenantId s
  let s' := (deleteMessages (expunged sel.mailboxId tenantId narrowed) s).getD s
  let existing := sel.existing - seqs.length
  (s', { sel with existing },
    expungeResponses seqs ++ (if seqs.isEmpty then [] else [.existing existing]) ++
      [.ok none completed])

def cmdExpunge (sel : SelectedMailbox) (tenantId : Uuid) (s : Store) :
    Store × SelectedMailbox × List (Response Item) :=
  expungeRows (fun _ => true) "EXPUNGE completed" sel tenantId s

def cmdExpungeUid (set : SequenceSet) (sel : SelectedMailbox) (tenantId : Uuid) (s : Store) :
    Store × SelectedMailbox × List (Response Item) :=
  expungeRows (uidClause (sequenceRanges set u32Max)) "UID EXPUNGE completed" sel tenantId s

end Commands

end Expresso.Imap
