import Expresso.Imap.Sequence
import Expresso.Query.Formula
import Expresso.Text.Bytes

/-! `SEARCH`, `SORT` and `THREAD`. `SEARCH` looks at the columns first and reads the body of a
message only if it could still match; the other two never read a body. -/

namespace Expresso.Imap
open Text Sql Query

/-! ### Search keys -/

/-- The search keys without a key inside. Dates are days since 1970-01-01. -/
inductive SearchTest where
  | all | recent | new | seen | unseen | flagged | unflagged | answered | unanswered | deleted
  | undeleted | draft | undraft
  | since (date : Int) | before (date : Int) | on (date : Int)
  | sentSince (date : Int) | sentBefore (date : Int) | sentOn (date : Int)
  | larger (n : Nat) | smaller (n : Nat)
  | subject (pat : Str) | fromAddr (pat : Str) | toAddr (pat : Str) | cc (pat : Str)
  | header (field value : Str)
  | text (pat : Str) | body (pat : Str)
  | keyword (kw : Str) | unkeyword (kw : Str)
  | sequenceSet (set : SequenceSet) | uid (set : SequenceSet)
  /-- `BCC`, `OLD` and whatever else there is -/
  | other
  deriving DecidableEq

abbrev SearchKey := Formula SearchTest

def icontains (text : Option Str) (needle : Str) : Bool :=
  text.all fun t => contains (toAsciiLowercase needle) (toAsciiLowercase t)

def jsonAddrContains (column : Option (List AddrEntry)) (needle : Str) : Bool :=
  column.all fun entries => entries.any fun entry =>
    contains (toAsciiLowercase needle) (toAsciiLowercase (entry.addr.getD [])) ||
      contains (toAsciiLowercase needle) (toAsciiLowercase (entry.name.getD []))

/-- `date_naive`. -/
def dayOf (t : Int) : Int := t / dayMicros

/-- `i32 as u64`. -/
def asU64 (n : Int) : Nat := (n % 2 ^ 64).toNat

def asU32 (n : Int) : Nat := (n % 2 ^ 32).toNat

def inRanges (ranges : List (Nat × Nat)) (val : Nat) : Bool :=
  ranges.any fun (s, e) => s ≤ val && val ≤ e

/-- Whether a message passes a test; without its bytes it passes those on its text. -/
def testMatches (m : Message) (seq existing : Nat) (bodyBytes : Option (List UInt8)) :
    SearchTest → Bool
  | .all => true
  | .recent => false
  | .new => false
  | .seen => m.flags.contains seenFlag
  | .unseen => !m.flags.contains seenFlag
  | .flagged => m.flags.contains "\\Flagged".toList
  | .unflagged => !m.flags.contains "\\Flagged".toList
  | .answered => m.flags.contains "\\Answered".toList
  | .unanswered => !m.flags.contains "\\Answered".toList
  | .deleted => m.flags.contains deletedFlag
  | .undeleted => !m.flags.contains deletedFlag
  | .draft => m.flags.contains "\\Draft".toList
  | .undraft => !m.flags.contains "\\Draft".toList
  | .since date => date ≤ dayOf m.receivedAt
  | .before date => dayOf m.receivedAt < date
  | .on date => dayOf m.receivedAt = date
  | .sentSince date => m.envelope.date.all fun t => date ≤ dayOf t
  | .sentBefore date => m.envelope.date.all fun t => dayOf t < date
  | .sentOn date => m.envelope.date.all fun t => dayOf t = date
  | .larger n => n < asU64 m.sizeBytes
  | .smaller n => asU64 m.sizeBytes < n
  | .subject pat => icontains m.envelope.subject pat
  | .fromAddr pat => icontains m.fromAddr pat
  | .toAddr pat => jsonAddrContains m.envelope.toAddrs pat
  | .cc pat => jsonAddrContains m.envelope.ccAddrs pat
  | .header field value =>
      let name := toAsciiLowercase field
      if name = "subject".toList then icontains m.envelope.subject value
      else if name = "from".toList then icontains m.fromAddr value
      else if name = "to".toList then jsonAddrContains m.envelope.toAddrs value
      else if name = "cc".toList then jsonAddrContains m.envelope.ccAddrs value
      else true
  | .text pat =>
      bodyBytes.all fun raw =>
        contains (toAsciiLowercase pat) (toAsciiLowercase (fromUtf8Lossy raw))
  | .body pat =>
      bodyBytes.all fun raw =>
        let bodyStart := (position separator raw).elim raw.length (· + 4)
        contains (toAsciiLowercase pat) (toAsciiLowercase (fromUtf8Lossy (raw.drop bodyStart)))
  | .keyword kw => m.flags.contains kw
  | .unkeyword kw => !m.flags.contains kw
  | .sequenceSet set => inRanges (sequenceRanges set existing) (asU32 seq)
  | .uid set => inRanges (sequenceRanges set u32Max) (asU32 m.uid)
  | .other => true

def SearchTest.needsBody : SearchTest → Bool
  | .text _ => true
  | .body _ => true
  | _ => false

def searchKeyMatches (key : SearchKey) (row : Message × Nat) (existing : Nat)
    (bodyBytes : Option (List UInt8)) : Bool :=
  key.eval (testMatches row.1 row.2 existing bodyBytes)

def searchKeyNeedsBody (key : SearchKey) : Bool := key.mentions SearchTest.needsBody

def criteriaNeedsBody (criteria : List SearchKey) : Bool := criteria.any searchKeyNeedsBody

/-- All keys of the command. -/
def criteriaMatch (criteria : List SearchKey) (row : Message × Nat) (existing : Nat)
    (bodyBytes : Option (List UInt8)) : Bool :=
  criteria.all fun key => searchKeyMatches key row existing bodyBytes

/-! ### Commands -/

/-- The number of a row in the response. -/
def numberOf (uid : Bool) (row : Message × Nat) : Nat :=
  if uid then asU32 row.1.uid else asU32 row.2

section
variable (criteria : List SearchKey) (uid : Bool) (sel : SelectedMailbox) (tenantId : Uuid)
  (s : Store)

/-- The rows `SEARCH` takes: a first pass without the body, a second one with it if the keys ask
for it. -/
def searchRows (fetchBodyBytes : Str → Option (List UInt8)) : List (Message × Nat) :=
  (rowNumbered (mailboxRows sel.mailboxId tenantId s)).filter fun row =>
    criteriaMatch criteria row sel.existing none &&
      (!criteriaNeedsBody criteria ||
        criteriaMatch criteria row sel.existing (fetchBodyBytes row.1.bodyPath))

def cmdSearch (fetchBodyBytes : Str → Option (List UInt8)) : List Nat :=
  (searchRows criteria sel tenantId s fetchBodyBytes).map fun row => max (numberOf uid row) 1

/-- The rows `SORT` and `THREAD` take. -/
def candidates : List (Message × Nat) :=
  (rowNumbered (mailboxRows sel.mailboxId tenantId s)).filter fun row =>
    criteriaMatch criteria row sel.existing none

inductive SortKey where
  | arrival | date | size | subject | sender
  /-- `CC`, `TO` and others -/
  | other
  deriving DecidableEq

structure SortCriterion where
  reverse : Bool
  key : SortKey
  deriving DecidableEq

def SortKey.order (a b : Message × Nat) : SortKey → Ordering
  | .arrival => compare a.1.receivedAt b.1.receivedAt
  | .date => compare a.1.envelope.date b.1.envelope.date
  | .size => compare a.1.sizeBytes b.1.sizeBytes
  | .subject => compare a.1.envelope.subject b.1.envelope.subject
  | .sender => compare a.1.fromAddr b.1.fromAddr
  | .other => compare a.2 b.2

def SortCriterion.order (crit : SortCriterion) (a b : Message × Nat) : Ordering :=
  if crit.reverse then (crit.key.order a b).swap else crit.key.order a b

/-- One stable sort for each criterion, the last one first. A row without a number is left out. -/
def sortRows (sortCriteria : List SortCriterion) : List (Message × Nat) :=
  (sortCriteria.foldr (fun crit rows => rows.insertionSort fun a b => crit.order a b ≠ .gt)
    (candidates criteria sel tenantId s)).filter fun row => numberOf uid row ≠ 0

def cmdSort (sortCriteria : List SortCriterion) : List Nat :=
  (sortRows criteria uid sel tenantId s sortCriteria).map (numberOf uid)

/-- The loop of `base_subject`, at most once for each character. -/
def stripReplies : Nat → Str → Str
  | 0, cur => cur
  | fuel + 1, cur =>
      let lower := toAsciiLowercase cur
      if "re:".toList.isPrefixOf lower then stripReplies fuel (trim (cur.drop 3))
      else if "fwd:".toList.isPrefixOf lower then stripReplies fuel (trim (cur.drop 4))
      else if "fw:".toList.isPrefixOf lower then stripReplies fuel (trim (cur.drop 3))
      else cur

def baseSubject (subject : Str) : Str :=
  toAsciiLowercase (stripReplies subject.length (trim subject))

/-- The base subject of a row. -/
def threadSubject (row : Message × Nat) : Str := baseSubject (row.1.envelope.subject.getD [])

/-- Earlier base subject, then earlier arrival. -/
def threadOrder (a b : Message × Nat) : Prop :=
  threadSubject a < threadSubject b ∨
    (threadSubject a = threadSubject b ∧ a.1.receivedAt ≤ b.1.receivedAt)

instance : DecidableRel threadOrder := fun _ _ => inferInstanceAs (Decidable (_ ∨ _))

/-- Neighbours with the same base subject, the first of them as the root. -/
def threadGroups : List (Message × Nat) → List ((Message × Nat) × List (Message × Nat))
  | [] => []
  | row :: rest =>
      match threadGroups rest with
      | (root, siblings) :: groups =>
          if threadSubject root = threadSubject row then (row, root :: siblings) :: groups
          else (row, []) :: (root, siblings) :: groups
      | [] => [(row, [])]

/-- The answers of a thread are at least two (`VecN<Thread, 2>`), or there are none. -/
def answersOf (siblings : List (Message × Nat)) : List (Message × Nat) :=
  let numbered := siblings.filter fun row => numberOf uid row ≠ 0
  if 2 ≤ numbered.length then numbered else []

/-- The threads of the response, each as its root and its answers. -/
def threads : List ((Message × Nat) × List (Message × Nat)) :=
  (threadGroups ((candidates criteria sel tenantId s).insertionSort threadOrder)).map
    fun (root, siblings) => (root, answersOf uid siblings)

def cmdThread : List (Nat × List Nat) :=
  (threads criteria uid sel tenantId s).map fun (root, answers) =>
    (max (numberOf uid root) 1, answers.map (numberOf uid))

/-- The rows of the response of `THREAD`. -/
def threadRows : List (Message × Nat) :=
  (threads criteria uid sel tenantId s).flatMap fun (root, answers) => root :: answers

end

end Expresso.Imap
