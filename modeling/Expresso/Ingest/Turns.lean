import Expresso.Ingest.Delivery
import Expresso.Imap.Consistency

/-! What one recipient's turn can do, and the turns of a whole call. -/

namespace Expresso.Ingest
open Text Imap Transition

section
variable {cfg : Config} {answers : Answers} {user : User} {mail : Mail} {db db' : Db}
  {disposition : Disposition} {rcpt folder : Str}

theorem insertLocked_ok {s : Store} {mailbox : Uuid} {uid : Int}
    (done : insertLocked answers user mail db (s, mailbox, uid) = .ok db') :
    db'.directory = db.directory ∧
      db'.columns = (answers.rowId, columnsOf db answers user mail) :: db.columns ∧ ∃ s',
      insertMessage (messageRow answers user mail mailbox uid) s = some s' ∧
      raiseNextUid mailbox (uid + 1) s' = some db'.store := by
  simp only [insertLocked, bind_eq_ok_iff] at done
  obtain ⟨_, -, _, -, done⟩ := done
  split at done
  next s' inserted =>
    simp only [bind_eq_ok_iff] at done
    obtain ⟨_, -, done⟩ := done
    split at done
    next s'' raised =>
      simp only [bind_eq_ok_iff] at done
      obtain ⟨_, -, done⟩ := done
      cases done
      exact ⟨rfl, rfl, s', inserted, raised⟩
    · cases done
  · cases done

/-- A message that is stored: a mailbox is locked or new, and the row goes there. -/
theorem storeMessage_ok
    (done : storeMessage answers user mail folder db = .ok (db', disposition)) :
    disposition = .stored user answers.rowId ∧
      db'.columns = (answers.rowId, columnsOf db answers user mail) :: db.columns ∧
      ∃ s mailbox uid s',
      lockOrCreateMailbox answers.fails user (targetFolder answers user mail folder)
        answers.inboxId answers.uidValidity db.store = .ok (s, mailbox, uid) ∧
      insertMessage (messageRow answers user mail mailbox uid) s = some s' ∧
      raiseNextUid mailbox (uid + 1) s' = some db'.store := by
  simp only [storeMessage, bind_eq_ok_iff] at done
  obtain ⟨⟨s, mailbox, uid⟩, locked, db'', written, done⟩ := done
  cases done
  obtain ⟨-, columns, s', inserted, raised⟩ := insertLocked_ok written
  exact ⟨rfl, columns, s, mailbox, uid, s', locked, inserted, raised⟩

/-- What the turn of a recipient can end with. -/
inductive Turned (cfg : Config) (answers : Answers) (mail : Mail) (db : Db) (rcpt : Str) :
    Db → Disposition → Prop where
  | dropped : resolveRecipient cfg db.directory answers.fails answers.relay rcpt mail.raw =
      .ok .drop → Turned cfg answers mail db rcpt db .dropped
  | relayed : resolveRecipient cfg db.directory answers.fails answers.relay rcpt mail.raw =
      .ok .relayed → Turned cfg answers mail db rcpt db .relayed
  | overQuota (user : User) :
      resolveRecipient cfg db.directory answers.fails answers.relay rcpt mail.raw =
        .ok (.onServer user) →
      quotaExceeded db user mail.sizeBytes = true → Turned cfg answers mail db rcpt db .overQuota
  | discarded (user : User) :
      resolveRecipient cfg db.directory answers.fails answers.relay rcpt mail.raw =
        .ok (.onServer user) →
      quotaExceeded db user mail.sizeBytes = false → answers.applySieve user mail.raw = .discard →
      Turned cfg answers mail db rcpt db .discarded
  | stored (user : User) (folder : Str) (db' : Db) :
      resolveRecipient cfg db.directory answers.fails answers.relay rcpt mail.raw =
        .ok (.onServer user) →
      quotaExceeded db user mail.sizeBytes = false →
      answers.applySieve user mail.raw = .deliver folder →
      storeMessage answers user mail folder db = .ok (db', .stored user answers.rowId) →
      Turned cfg answers mail db rcpt db' (.stored user answers.rowId)

theorem turn_turned (done : turn cfg answers mail db rcpt = .ok (db', disposition)) :
    Turned cfg answers mail db rcpt db' disposition := by
  simp only [turn, bind_eq_ok_iff] at done
  obtain ⟨resolution, resolved, done⟩ := done
  cases resolution with
  | drop =>
    cases done
    exact .dropped resolved
  | relayed =>
    cases done
    exact .relayed resolved
  | onServer user =>
    simp only [deliver, bind_eq_ok_iff] at done
    obtain ⟨_, -, _, -, done⟩ := done
    cases exceeds : quotaExceeded db user mail.sizeBytes with
    | true =>
      simp only [exceeds, if_true, bind_eq_ok_iff] at done
      obtain ⟨_, -, done⟩ := done
      cases done
      exact .overQuota user resolved exceeds
    | false =>
      simp only [exceeds, Bool.false_eq_true, if_false] at done
      cases decision : answers.applySieve user mail.raw with
      | deliver folder =>
        simp only [decision] at done
        obtain ⟨rfl, -⟩ := storeMessage_ok done
        exact .stored user folder db' resolved exceeds decision done
      | discard =>
        simp only [decision, bind_eq_ok_iff] at done
        obtain ⟨_, -, done⟩ := done
        cases done
        exact .discarded user resolved exceeds decision
      | reject reason =>
        simp only [decision] at done
        cases done

end

/-! ### Before a turn -/

section
variable (cfg : Config) (answers : Str → Answers) (mail : Mail) (t : Db × Str)

def resolutionAt : Except Unit Resolution :=
  resolveRecipient cfg t.1.directory (answers t.2).fails (answers t.2).relay t.2 mail.raw

/-- A statement fails or is refused, or the filter rejects the message. -/
def Fails : Prop := turn cfg (answers t.2) mail t.1 t.2 = .error ()

instance : Decidable (Fails cfg answers mail t) :=
  match result : turn cfg (answers t.2) mail t.1 t.2 with
  | .error () => .isTrue result
  | .ok _ => .isFalse fun fails => by cases result.symm.trans fails

/-- The address leads to the relay or to a user with room for the message. -/
def admitted : Bool :=
  match resolutionAt cfg answers mail t with
  | .ok .relayed => true
  | .ok (.onServer user) => !quotaExceeded t.1 user mail.sizeBytes
  | _ => false

/-- The address leads to a user with room for the message, whose filter keeps it. -/
def keptByFilter : Bool :=
  match resolutionAt cfg answers mail t with
  | .ok (.onServer user) =>
      !quotaExceeded t.1 user mail.sizeBytes &&
        match (answers t.2).applySieve user mail.raw with
        | .deliver _ => true
        | _ => false
  | _ => false

/-- The message goes to the relay or into a mailbox. -/
def reaches : Bool :=
  resolutionAt cfg answers mail t = .ok .relayed || keptByFilter cfg answers mail t

end

/-! ### Turns -/

section
variable (cfg : Config) (answers : Str → Answers) (mail : Mail)

/-- The recipients that get a turn, each with the tables before it. -/
def turnsOf : List Str → Db → List (Db × Str)
  | [], _ => []
  | rcpt :: rest, db =>
      (db, rcpt) :: match turn cfg (answers rcpt) mail db rcpt with
        | .error () => []
        | .ok (db', disposition) =>
            turnsOf rest (afterwards cfg (answers rcpt) db' disposition)

variable {cfg answers mail}

theorem turnsOf_of_prefix_run (rcpts : List Str) (db : Db) :
    (turnsOf cfg answers mail rcpts db).map (·.2) <+: rcpts := by
  induction rcpts generalizing db with
  | nil => exact List.nil_prefix
  | cons rcpt rest ih =>
    rw [turnsOf, List.map_cons, List.cons_prefix_cons]
    refine ⟨rfl, ?_⟩
    split
    · exact List.nil_prefix
    · exact ih _

theorem deliverEach_ok_iff (rcpts : List Str) (db : Db) :
    (∃ n, (deliverEach cfg answers mail rcpts db).result = .ok n) ↔
      ∀ t ∈ turnsOf cfg answers mail rcpts db, ¬Fails cfg answers mail t := by
  induction rcpts generalizing db with
  | nil => simp [deliverEach, turnsOf]
  | cons rcpt rest ih =>
    rw [deliverEach, turnsOf, List.forall_mem_cons]
    cases done : turn cfg (answers rcpt) mail db rcpt with
    | error u => simp [Fails, done]
    | ok after =>
      have passes : ¬Fails cfg answers mail (db, rcpt) := by simp [Fails, done]
      simp only [map_eq_ok_iff, passes, not_false_eq_true, true_and, ← ih]
      constructor
      · rintro ⟨_, n, ok, -⟩
        exact ⟨n, ok⟩
      · rintro ⟨n, ok⟩
        exact ⟨_, n, ok, rfl⟩

theorem mem_dispositions_iff (rcpts : List Str) (db : Db) (rcpt : Str) (disposition : Disposition) :
    (rcpt, disposition) ∈ (deliverEach cfg answers mail rcpts db).dispositions ↔
      ∃ t ∈ turnsOf cfg answers mail rcpts db, t.2 = rcpt ∧
        ∃ db', turn cfg (answers t.2) mail t.1 t.2 = .ok (db', disposition) := by
  induction rcpts generalizing db with
  | nil => simp [deliverEach, turnsOf]
  | cons first rest ih =>
    rw [deliverEach, turnsOf]
    cases done : turn cfg (answers first) mail db first with
    | error u => simp [done]
    | ok after =>
      obtain ⟨db', became⟩ := after
      simp only [List.mem_cons, ih, Prod.mk.injEq, exists_eq_or_imp, done, Except.ok.injEq,
        exists_eq_left']
      constructor
      · rintro (⟨rfl, rfl⟩ | later)
        · exact .inl ⟨rfl, rfl⟩
        · exact .inr later
      · rintro (⟨rfl, rfl⟩ | later)
        · exact .inl ⟨rfl, rfl⟩
        · exact .inr later

/-- All recipients get a turn if no turn fails. -/
theorem turnsOf_all {rcpts : List Str} {db : Db}
    (passes : ∀ t ∈ turnsOf cfg answers mail rcpts db, ¬Fails cfg answers mail t) :
    (turnsOf cfg answers mail rcpts db).map (·.2) = rcpts := by
  induction rcpts generalizing db with
  | nil => rfl
  | cons rcpt rest ih =>
    rw [turnsOf, List.forall_mem_cons] at passes
    obtain ⟨here, later⟩ := passes
    rw [turnsOf, List.map_cons]
    cases done : turn cfg (answers rcpt) mail db rcpt with
    | error u => exact absurd done here
    | ok after =>
      rw [done] at later
      exact congrArg (rcpt :: ·) (ih later)

end

/-! ### What a turn tells -/

namespace Disposition

/-- The message is in a mailbox of the recipient, with the relay, or gone as the filter says. -/
def served : Disposition → Bool
  | stored _ _ | relayed | discarded => true
  | overQuota | dropped => false

/-- The message is in a mailbox of the recipient or with the relay. -/
def reached : Disposition → Bool
  | stored _ _ | relayed => true
  | discarded | overQuota | dropped => false

end Disposition

section
variable {cfg : Config} {answers : Str → Answers} {mail : Mail} {t : Db × Str} {db' : Db}
  {disposition : Disposition}

theorem served_eq_admitted
    (done : turn cfg (answers t.2) mail t.1 t.2 = .ok (db', disposition)) :
    disposition.served = admitted cfg answers mail t := by
  unfold admitted resolutionAt
  cases turn_turned done with
  | dropped resolved | relayed resolved => simp [resolved, Disposition.served]
  | overQuota user resolved exceeds | discarded user resolved exceeds _
  | stored user _ _ resolved exceeds _ _ => simp [resolved, exceeds, Disposition.served]

theorem reached_eq_reaches
    (done : turn cfg (answers t.2) mail t.1 t.2 = .ok (db', disposition)) :
    disposition.reached = reaches cfg answers mail t := by
  unfold reaches keptByFilter resolutionAt
  cases turn_turned done with
  | dropped resolved | relayed resolved => simp [resolved, Disposition.reached]
  | overQuota user resolved exceeds => simp [resolved, exceeds, Disposition.reached]
  | discarded user resolved exceeds decision
  | stored user _ _ resolved exceeds decision _ =>
    simp [resolved, exceeds, decision, Disposition.reached]

end

/-! ### A call -/

/-- The message as the loop gets it, unless the scanner rejects it or it cannot be kept. -/
def mailOf (cfg : Config) (intake : Intake) (mailFrom : Option Str) (rcpts : List Str) (raw : Str) :
    Option Mail :=
  if intake.rejects then none
  else intake.bodyPath.map fun bodyPath =>
    ⟨intake.scanHeaders ++ raw,
      parseMessage cfg.formats mailFrom rcpts (intake.scanHeaders ++ raw), bodyPath⟩

section
variable {cfg : Config} {intake : Intake} {db : Db} {mailFrom : Option Str} {rcpts : List Str}
  {raw : Str}

theorem process_none (failed : mailOf cfg intake mailFrom rcpts raw = none) (some' : rcpts ≠ []) :
    process cfg intake db mailFrom rcpts raw = ⟨db, [], .error ()⟩ := by
  unfold mailOf at failed
  unfold process
  rw [if_neg some']
  split at failed
  next rejects => rw [if_pos rejects]
  next accepts =>
    rw [if_neg accepts, Option.map_eq_none_iff.mp failed]

theorem process_some {mail : Mail} (kept : mailOf cfg intake mailFrom rcpts raw = some mail) :
    process cfg intake db mailFrom rcpts raw =
      deliverEach cfg intake.answers mail (normalizedRecipients rcpts) db := by
  unfold mailOf at kept
  unfold process
  split at kept
  · cases kept
  next accepts =>
    obtain ⟨bodyPath, found, rfl⟩ := Option.map_eq_some_iff.mp kept
    rw [if_neg accepts, found]
    by_cases none : rcpts = []
    · subst none
      rfl
    · rw [if_neg none]

end

def normalized (rcpt : Str) : Str := toAsciiLowercase (trim rcpt)

theorem mem_normalizedRecipients {rcpt : Str} {rcpts : List Str} :
    rcpt ∈ normalizedRecipients rcpts ↔ rcpt ≠ [] ∧ ∃ given ∈ rcpts, normalized given = rcpt := by
  simp only [normalizedRecipients, List.mem_insertionSort, List.mem_dedup, List.mem_filter,
    List.mem_map, normalized]
  rw [and_comm]
  simp

theorem normalizedRecipients_nodup (rcpts : List Str) : (normalizedRecipients rcpts).Nodup :=
  (List.perm_insertionSort _ _).nodup_iff.mpr (List.nodup_dedup _)

/-! ### A server with one user -/

/-- No relay, no flow rules and no dates. -/
def sampleConfig : Config := ⟨[], [], toAsciiLowercase, ⟨fun _ => none, fun _ => none⟩⟩

def sampleUser : User := ⟨7, 1, "b@x.org".toList, some 1000⟩

theorem noRows_constraints : Imap.Tables.Constraints ⟨[], [], 1⟩ := by decide

def sampleDb : Db :=
  ⟨⟨[sampleUser], []⟩, ⟨⟨[], [], 1⟩, noRows_constraints⟩, []⟩

/-- Nothing fails, and the filter keeps all. -/
def sampleAnswers : Answers where
  fails _ := false
  relay _ := false
  applySieve _ _ := .deliver "INBOX".toList
  isSafe _ _ := false
  isBlocked _ _ := false
  flowActions := []
  now := 0
  rowId := 0
  inboxId := 0
  threadId := 0
  uidValidity := 1

def sampleIntake : Intake := ⟨false, [], some "raw/0.eml".toList, fun _ => sampleAnswers⟩

end Expresso.Ingest
