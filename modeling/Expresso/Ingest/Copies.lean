import Expresso.Ingest.Atomicity

/-! The copies of a message that one user gets: the recipients are told apart by their addresses,
and not by the users that the addresses lead to. -/

namespace Expresso.Ingest
open Text Imap Transition

/-! ### Rows -/

/-- The user who gets a copy. -/
def Disposition.copyFor : Disposition → Option Uuid
  | stored user _ => some user.id
  | relayed | discarded | overQuota | dropped => none

def Disposition.rows : Disposition → List Uuid
  | stored _ row => [row]
  | relayed | discarded | overQuota | dropped => []

/-- A user for each copy. -/
def copies (processed : Processed) : List Uuid :=
  processed.dispositions.filterMap (·.2.copyFor)

def AtMostOneCopy (processed : Processed) : Prop :=
  ∀ user, (copies processed).count user ≤ 1

instance (processed : Processed) : Decidable (AtMostOneCopy processed) :=
  decidable_of_iff _ List.nodup_iff_count_le_one

section
variable (cfg : Config) (answers : Str → Answers) (mail : Mail)

/-- The statements of the turn succeed, the user has room and the filter keeps the message. -/
def Keeps (t : Db × Str) : Prop :=
  ¬Fails cfg answers mail t ∧ keptByFilter cfg answers mail t = true

/-- In the tables before the call, the address leads to the user. -/
def LeadsTo (db : Db) (rcpt : Str) (user : Uuid) : Prop :=
  ∃ owner : User, owner.id = user ∧ resolutionAt cfg answers mail (db, rcpt) = .ok (.onServer owner)

/-- The message is not kept for two recipients that lead to the same user. -/
def KeptApart (db : Db) (turns : List (Db × Str)) : Prop :=
  turns.Pairwise fun t t' => ∀ user, LeadsTo cfg answers mail db t.2 user →
    LeadsTo cfg answers mail db t'.2 user →
    ¬(Keeps cfg answers mail t ∧ Keeps cfg answers mail t')

end

section
variable {cfg : Config} {answers : Str → Answers} {mail : Mail} {t : Db × Str} {db' : Db}
  {disposition : Disposition}

/-- The transaction of a turn inserts the row that its outcome tells of, and no other. -/
theorem turn_inserts (done : turn cfg (answers t.2) mail t.1 t.2 = .ok (db', disposition)) :
    rowIds db'.store = rowIds t.1.store ++ disposition.rows ∧
      ∀ user row, disposition = .stored user row → OwnRow user row db'.store := by
  cases turn_turned done with
  | dropped _ | relayed _ | overQuota _ _ _ | discarded _ _ _ _ =>
    simp [Disposition.rows]
  | stored user folder _ _ _ _ written =>
    obtain ⟨ids, own⟩ := storeMessage_rows written
    refine ⟨ids, ?_⟩
    intro _ _ same
    cases same
    exact own

theorem copyFor_eq_some_iff {user : Uuid}
    (done : turn cfg (answers t.2) mail t.1 t.2 = .ok (db', disposition)) :
    disposition.copyFor = some user ↔
      LeadsTo cfg answers mail t.1 t.2 user ∧ Keeps cfg answers mail t := by
  have passes : ¬Fails cfg answers mail t := by simp [Fails, done]
  simp only [LeadsTo, Keeps, passes, not_false_eq_true, true_and]
  unfold keptByFilter resolutionAt
  cases turn_turned done with
  | dropped resolved | relayed resolved => simp [resolved, Disposition.copyFor]
  | overQuota owner resolved exceeds => simp [resolved, exceeds, Disposition.copyFor]
  | discarded owner resolved exceeds decision
  | stored owner _ _ resolved exceeds decision _ =>
    simp [resolved, exceeds, decision, Disposition.copyFor]

theorem turn_directory (done : turn cfg (answers t.2) mail t.1 t.2 = .ok (db', disposition)) :
    (afterwards cfg (answers t.2) db' disposition).directory = t.1.directory := by
  cases turn_turned done with
  | dropped _ | relayed _ | overQuota _ _ _ | discarded _ _ _ _ => rfl
  | stored user folder _ _ _ _ written =>
    have same : db'.directory = t.1.directory := by
      simp only [storeMessage, bind_eq_ok_iff] at written
      obtain ⟨⟨s, mailbox, uid⟩, -, db'', inserted, written⟩ := written
      cases written
      exact (insertLocked_ok inserted).1
    simp only [afterwards]
    split
    · exact same
    · exact same

theorem turnsOf_directory (rcpts : List Str) (db : Db) :
    ∀ t ∈ turnsOf cfg answers mail rcpts db, t.1.directory = db.directory := by
  induction rcpts generalizing db with
  | nil => simp [turnsOf]
  | cons rcpt rest ih =>
    rw [turnsOf, List.forall_mem_cons]
    refine ⟨rfl, ?_⟩
    cases done : turn cfg (answers rcpt) mail db rcpt with
    | error u => simp
    | ok after =>
      intro t later
      have same := @turn_directory cfg answers mail (db, rcpt) after.1 after.2 done
      exact (ih _ t later).trans same

/-- The copy that a turn makes, from what it finds. -/
def copyAt (cfg : Config) (answers : Str → Answers) (mail : Mail) (t : Db × Str) : Option Uuid :=
  match turn cfg (answers t.2) mail t.1 t.2 with
  | .ok (_, disposition) => disposition.copyFor
  | .error () => none

theorem copyAt_eq_some_iff {user : Uuid} :
    copyAt cfg answers mail t = some user ↔
      LeadsTo cfg answers mail t.1 t.2 user ∧ Keeps cfg answers mail t := by
  unfold copyAt
  cases done : turn cfg (answers t.2) mail t.1 t.2 with
  | error u => simp [Keeps, Fails, done]
  | ok after => exact copyFor_eq_some_iff done

theorem deliverEach_copies (rcpts : List Str) (db : Db) :
    copies (deliverEach cfg answers mail rcpts db) =
      (turnsOf cfg answers mail rcpts db).filterMap (copyAt cfg answers mail) := by
  induction rcpts generalizing db with
  | nil => rfl
  | cons rcpt rest ih =>
    rw [deliverEach, turnsOf, List.filterMap_cons]
    cases done : turn cfg (answers rcpt) mail db rcpt with
    | error u => simp [copies, copyAt, done]
    | ok after =>
      have later := ih (afterwards cfg (answers rcpt) after.1 after.2)
      unfold copies at later ⊢
      simp only [List.filterMap_cons, copyAt, done, later]

theorem nodup_copies_iff (rcpts : List Str) (db : Db) :
    (copies (deliverEach cfg answers mail rcpts db)).Nodup ↔
      KeptApart cfg answers mail db (turnsOf cfg answers mail rcpts db) := by
  rw [deliverEach_copies, List.Nodup, List.pairwise_filterMap]
  apply List.Pairwise.iff_of_mem
  intro t t' member member'
  have leads {t : Db × Str} (member : t ∈ turnsOf cfg answers mail rcpts db) (user : Uuid) :
      LeadsTo cfg answers mail t.1 t.2 user ↔ LeadsTo cfg answers mail db t.2 user := by
    simp only [LeadsTo, resolutionAt, turnsOf_directory rcpts db t member]
  simp only [copyAt_eq_some_iff, leads member, leads member']
  constructor
  · intro apart user first second kept
    exact apart user ⟨first, kept.1⟩ user ⟨second, kept.2⟩ rfl
  · intro apart user first user' second same
    subst same
    exact apart user first.1 second.1 ⟨first.2, second.2⟩

end

theorem process_atMostOneCopy_iff (cfg : Config) (intake : Intake) (db : Db)
    (mailFrom : Option Str) (rcpts : List Str) (raw : Str) :
    AtMostOneCopy (process cfg intake db mailFrom rcpts raw) ↔
      ∀ mail, mailOf cfg intake mailFrom rcpts raw = some mail →
        KeptApart cfg intake.answers mail db
          (turnsOf cfg intake.answers mail (normalizedRecipients rcpts) db) := by
  unfold AtMostOneCopy
  rw [← List.nodup_iff_count_le_one]
  cases kept : mailOf cfg intake mailFrom rcpts raw with
  | none =>
    refine iff_of_true ?_ (by simp)
    by_cases none : rcpts = []
    · simp [process, none, copies]
    · rw [process_none kept none]
      exact List.nodup_nil
  | some mail =>
    rw [process_some kept, nodup_copies_iff]
    simp only [Option.some.injEq, forall_eq']

/-! ### Two aliases -/

/-- Both aliases lead to the one user. -/
def aliasedDb : Db :=
  { sampleDb with directory := ⟨[sampleUser], [⟨1, "s@x.org".toList, "b@x.org".toList, true⟩,
      ⟨1, "sales@x.org".toList, "b@x.org".toList, true⟩]⟩ }

/-- The rows have ids of their own. -/
def numberedIntake : Intake :=
  { sampleIntake with answers := fun rcpt => { sampleAnswers with rowId := rcpt.length } }

theorem aliases_twoCopies :
    ¬AtMostOneCopy (process sampleConfig numberedIntake aliasedDb (some "a@x.org".toList)
      ["s@x.org".toList, "sales@x.org".toList] "Subject: s\r\n\r\nt\r\n".toList) := by
  decide

end Expresso.Ingest
