import Expresso.Imap.Expunge

/-! What `COPY` and `MOVE` keep of a message. The row they insert names the columns it takes over;
all others get the defaults of the table. -/

namespace Expresso.Imap
open Text Sql

/-- Everything that `FETCH`, `SEARCH` and `SORT` read of a message, its place aside. -/
structure SameContent (row copy : Message) : Prop where
  bodyPath : copy.bodyPath = row.bodyPath
  sizeBytes : copy.sizeBytes = row.sizeBytes
  flags : copy.flags = row.flags
  receivedAt : copy.receivedAt = row.receivedAt
  fromAddr : copy.fromAddr = row.fromAddr
  envelope : copy.envelope = row.envelope

/-- A `COPY` or a `MOVE`. -/
structure Transfer where
  move : Bool
  set : SequenceSet
  uid : Bool
  userId : Uuid
  folder : Str
  newId : Nat → Uuid
  now : Int

namespace Transfer

variable (t : Transfer) (sel : SelectedMailbox) (tenantId : Uuid) (s : Store)

def run : Store × SelectedMailbox × List (Response Unit) :=
  if t.move then cmdMove t.set t.userId tenantId t.folder t.uid t.newId t.now sel s
  else cmdCopy t.set t.userId tenantId t.folder t.uid t.newId t.now sel s

/-- The messages that are copied, in the order of their copies. -/
def sources : List Message :=
  if t.move then (numberedRows t.set t.uid sel tenantId (fun _ => true) s).map (·.1)
  else copyRows t.set t.uid sel tenantId s

/-- The answer is OK with the UIDs of the copies. -/
def Completed : Prop :=
  ∃ code text, .ok (some code) text ∈ (t.run sel tenantId s).2.2

/-- Each message has a copy with its content. -/
def Preserves : Prop :=
  ∀ k row, (t.sources sel tenantId s)[k]? = some row →
    ∃ copy ∈ (t.run sel tenantId s).1.messages, copy.id = t.newId k ∧ SameContent row copy

end Transfer

section
variable {t : Transfer} {sel : SelectedMailbox} {tenantId : Uuid} {s : Store}

variable {set : SequenceSet} {userId : Uuid} {folder : Str} {uid : Bool} {newId : Nat → Uuid}
  {now : Int} {code : Code} {text : String} {k : Nat} {row : Message}

theorem cmdCopy_copies {result : Store × SelectedMailbox × List (Response Unit)}
    (ran : cmdCopy set userId tenantId folder uid newId now sel s = result)
    (answered : .ok (some code) text ∈ result.2.2)
    (found : (copyRows set uid sel tenantId s)[k]? = some row) :
    ∃ copy ∈ result.1.messages, CopyOf tenantId now (newId k) row copy := by
  subst ran
  rw [cmdCopy] at answered ⊢
  split at answered
  · simp at answered
  · next some_rows =>
    rw [if_neg some_rows]
    cases isDst : findMailbox userId tenantId folder s with
    | none => simp [isDst] at answered
    | some dst =>
      cases ran : insertCopies dst tenantId now newId 0 (copyRows set uid sel tenantId s) s with
      | none => simp [isDst, ran] at answered
      | some result =>
        obtain ⟨copies, split, each⟩ := insertCopies_messages ran
        obtain ⟨copy, member, isCopy⟩ := each k row found
        rw [Nat.zero_add] at isCopy
        refine ⟨copy, ?_, isCopy⟩
        simp only [ran, split]
        exact List.mem_append_right _ member

theorem cmdMove_copies {result : Store × SelectedMailbox × List (Response Unit)}
    (ran : cmdMove set userId tenantId folder uid newId now sel s = result)
    (answered : .ok (some code) text ∈ result.2.2)
    (found : ((numberedRows set uid sel tenantId (fun _ => true) s).map (·.1))[k]? = some row) :
    ∃ copy ∈ result.1.messages, CopyOf tenantId now (newId k) row copy := by
  subst ran
  rw [cmdMove] at answered ⊢
  simp only [List.isEmpty_iff] at answered ⊢
  split at answered
  · simp at answered
  · next some_rows =>
    rw [if_neg some_rows]
    cases isDst : findMailbox userId tenantId folder s with
    | none => simp [isDst] at answered
    | some dst =>
      cases ran : moveMessages sel.mailboxId dst tenantId now newId
          ((numberedRows set uid sel tenantId (fun _ => true) s).map (·.1)) s with
      | none => simp [isDst, ran] at answered
      | some result =>
        simp only [ran]
        simp only [moveMessages, Option.bind_eq_bind, Option.bind_eq_some_iff] at ran
        obtain ⟨⟨s₁, assigned⟩, copied, s₂, deleted, isResult⟩ := ran
        cases isResult
        obtain ⟨copies, split, each⟩ := insertCopies_messages copied
        obtain ⟨copy, member, isCopy⟩ := each k row found
        rw [Nat.zero_add] at isCopy
        refine ⟨copy, ?_, isCopy⟩
        rw [deleteMessages_messages deleted, List.mem_filter]
        refine ⟨split ▸ List.mem_append_right _ member, ?_⟩
        -- the new row has an id that no row had before
        have fresh : copy.id ∉ s.messages.map (·.id) := by
          have distinct := s₁.constraints.2.2.1
          rw [split, List.map_append] at distinct
          intro old
          exact List.disjoint_of_nodup_append distinct old (List.mem_map_of_mem member)
        simp only [moved, Bool.not_eq_true', Bool.and_eq_false_iff]
        left
        rw [List.contains_eq_mem, decide_eq_false_iff_not]
        intro among
        obtain ⟨source, read, same⟩ := List.mem_map.mp among
        obtain ⟨numbered, isRow, rfl⟩ := List.mem_map.mp read
        exact fresh (same ▸ List.mem_map_of_mem (mem_mailboxRows.mp (numberedRows_mem isRow)).1)

/-- The copies that a completed transfer leaves. -/
theorem Transfer.Completed.copies (completed : t.Completed sel tenantId s)
    (found : (t.sources sel tenantId s)[k]? = some row) :
    ∃ copy ∈ (t.run sel tenantId s).1.messages, CopyOf tenantId t.now (t.newId k) row copy := by
  obtain ⟨code, text, answered⟩ := completed
  rw [Transfer.sources] at found
  split at found
  · next isMove => exact cmdMove_copies (if_pos isMove).symm answered found
  · next isCopy => exact cmdCopy_copies (if_neg isCopy).symm answered found

/-- A completed `COPY` or `MOVE` keeps the content of its messages if and only if they were
received at the moment of the copy and have nothing in the columns read from the headers. -/
theorem transfer_preserves_iff (completed : t.Completed sel tenantId s) :
    t.Preserves sel tenantId s ↔
      ∀ row ∈ t.sources sel tenantId s,
        row.receivedAt = t.now ∧ row.fromAddr = none ∧ row.envelope = {} := by
  constructor
  · intro preserves row member
    obtain ⟨k, found⟩ := List.mem_iff_getElem?.mp member
    obtain ⟨copy, listed, isId, same⟩ := preserves k row found
    obtain ⟨copy', listed', isCopy⟩ := completed.copies found
    obtain ⟨dst, uid, modSequence, rfl⟩ := isCopy
    have one := List.inj_on_of_nodup_map (t.run sel tenantId s).1.constraints.2.2.1 listed
      listed' isId
    subst one
    exact ⟨same.receivedAt.symm, same.fromAddr.symm, same.envelope.symm⟩
  · intro plain k row found
    obtain ⟨received, unsigned, empty⟩ := plain row (List.mem_of_getElem? found)
    obtain ⟨copy, listed, dst, uid, modSequence, rfl⟩ := completed.copies found
    exact ⟨_, listed, rfl, rfl, rfl, rfl, received.symm, unsigned.symm, empty.symm⟩

end

/-- An inbox with one message that came in at this time with this envelope, and an archive. -/
def inboxAndArchive (receivedAt : Int) (envelope : Envelope) : Tables :=
  ⟨[⟨1, 1, 1, "INBOX".toList, 1700000000, 2, 1, 1, 100⟩,
      ⟨2, 1, 1, "Archive".toList, 1700000000, 1, 0, 0, 0⟩],
    [{ message 10 1 with receivedAt, envelope }], 3⟩

def unnamedMail : Store := ⟨inboxAndArchive 5 {}, by decide⟩

def subjectMail : Store :=
  ⟨inboxAndArchive 1 { subject := some "Lunch".toList }, by decide⟩

def archiveAll : Transfer where
  move := true
  set := [.range (.value 1) .asterisk]
  uid := false
  userId := 1
  folder := "Archive".toList
  newId k := 20 + k
  now := 5

theorem archiveAll_preserves_unnamedMail :
    archiveAll.Preserves ⟨1, 1, false, []⟩ 1 unnamedMail :=
  (transfer_preserves_iff ⟨_, _, List.mem_cons_of_mem _ List.mem_cons_self⟩).mpr (by decide)

/-- The archived message has no subject, and the time of the move. -/
theorem archiveAll_loses_subject :
    ¬ archiveAll.Preserves ⟨1, 1, false, []⟩ 1 subjectMail := by
  have lost : ∃ row, (archiveAll.sources ⟨1, 1, false, []⟩ 1 subjectMail)[0]? = some row ∧
      ∀ copy ∈ (archiveAll.run ⟨1, 1, false, []⟩ 1 subjectMail).1.messages,
        copy.envelope ≠ row.envelope :=
    ⟨{ message 10 1 with receivedAt := 1, envelope := { subject := some "Lunch".toList } },
      by decide⟩
  intro preserves
  obtain ⟨row, found, other⟩ := lost
  obtain ⟨copy, listed, -, same⟩ := preserves 0 row found
  exact other copy listed same.envelope

end Expresso.Imap
