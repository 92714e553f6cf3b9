import Expresso.Ingest.Turns

/-! What an error leaves in the mailboxes. -/

namespace Expresso.Ingest
open Text Imap Transition

/-! ### Rows -/

def rowIds (s : Store) : List Uuid := s.messages.map (·.id)

theorem rowIds_nodup (s : Store) : (rowIds s).Nodup := s.constraints.2.2.1

section
variable {s s' : Store}

theorem insertMessage_messages {m : Message} (done : insertMessage m s = some s') :
    s'.messages = s.messages ++ [{ m with modSequence := s.modseq }] := by
  rw [commit_some done, messagesSyncMailboxStats_eq]

theorem rowIds_insertMessage {m : Message} (done : insertMessage m s = some s') :
    rowIds s' = rowIds s ++ [m.id] := by
  simp [rowIds, insertMessage_messages done]

theorem raiseNextUid_messages {mailbox : Uuid} {next : Int}
    (done : raiseNextUid mailbox next s = some s') : s'.messages = s.messages := by
  rw [commit_some done]

theorem raiseNextUid_owners {mailbox : Uuid} {next : Int}
    (done : raiseNextUid mailbox next s = some s') : owners s' = owners s := by
  rw [owners, commit_some done, owners, List.map_map]
  apply List.map_congr_left
  intro mb _
  rw [Function.comp_apply]
  split <;> rfl

theorem insertInbox_ok {user : User} {id mailbox : Uuid} {uidValidity uid : Int}
    (done : insertInbox user id uidValidity s = .ok (s', mailbox, uid)) :
    s'.messages = s.messages ∧ (mailbox, user.id, user.tenantId) ∈ owners s' := by
  unfold insertInbox at done
  split at done
  next s'' committed =>
    cases done
    rw [owners, commit_some committed]
    simp
  · cases done

/-- The mailbox that is locked belongs to the user. -/
theorem lockOrCreateMailbox_ok {fails : Statement → Bool} {user : User} {target : Str}
    {inboxId mailbox : Uuid} {uidValidity uid : Int}
    (done : lockOrCreateMailbox fails user target inboxId uidValidity s = .ok (s', mailbox, uid)) :
    s'.messages = s.messages ∧ (mailbox, user.id, user.tenantId) ∈ owners s' := by
  simp only [lockOrCreateMailbox, bind_eq_ok_iff] at done
  obtain ⟨_, -, done⟩ := done
  split at done
  next mb found =>
    cases done
    exact ⟨rfl, findMailbox_owner found⟩
  · split at done
    · simp only [bind_eq_ok_iff] at done
      obtain ⟨_, -, done⟩ := done
      exact insertInbox_ok done
    · simp only [bind_eq_ok_iff] at done
      obtain ⟨_, -, done⟩ := done
      split at done
      next mb found =>
        cases done
        exact ⟨rfl, findMailbox_owner found⟩
      · simp only [bind_eq_ok_iff] at done
        obtain ⟨_, -, done⟩ := done
        exact insertInbox_ok done

/-! ### Changes of a row -/

theorem mem_changeRows {change : Message → Option Message} {modseq : Int} {rows : List Message}
    {m' : Message} (member : m' ∈ changeRows change modseq rows) :
    ∃ m ∈ rows, (change m = none ∧ m' = m) ∨
      ∃ c n, change m = some c ∧ m' = { c with modSequence := n } := by
  induction rows generalizing modseq with
  | nil => cases member
  | cons m rest ih =>
    rw [changeRows] at member
    split at member
    next unchanged =>
      obtain rfl | later := List.mem_cons.mp member
      · exact ⟨m', List.mem_cons_self, .inl ⟨unchanged, rfl⟩⟩
      · obtain ⟨old, among, same⟩ := ih later
        exact ⟨old, List.mem_cons_of_mem _ among, same⟩
    next c changed =>
      obtain rfl | later := List.mem_cons.mp member
      · exact ⟨m, List.mem_cons_self, .inr ⟨c, modseq, changed, rfl⟩⟩
      · obtain ⟨old, among, same⟩ := ih later
        exact ⟨old, List.mem_cons_of_mem _ among, same⟩

theorem changeRows_ids {change : Message → Option Message}
    (keeps : ∀ m c, change m = some c → c.id = m.id) (modseq : Int) (rows : List Message) :
    (changeRows change modseq rows).map (·.id) = rows.map (·.id) := by
  induction rows generalizing modseq with
  | nil => rfl
  | cons m rest ih =>
    rw [changeRows]
    split
    · rw [List.map_cons, List.map_cons, ih]
    next c changed => rw [List.map_cons, List.map_cons, ih, keeps m c changed]

theorem rowIds_updateMessages {change : Message → Option Message}
    (keeps : ∀ m c, change m = some c → c.id = m.id) (s : Store) :
    rowIds ((updateMessages change s).getD s) = rowIds s := by
  cases done : updateMessages change s with
  | none => rfl
  | some s' =>
    rw [Option.getD_some, rowIds, commit_some done, messagesSyncMailboxStats_eq]
    exact changeRows_ids keeps _ _

end

/-! ### Flow rules -/

/-- The row is in a mailbox of the user, if it is there at all. -/
def OwnRow (user : User) (row : Uuid) (s : Store) : Prop :=
  ∀ m ∈ s.messages, m.id = row →
    m.tenantId = user.tenantId ∧ (m.mailboxId, user.id, user.tenantId) ∈ owners s

section
variable {user : User} {row : Uuid} {s : Store}

theorem ownRow_iff (m : Message) :
    ownRow user row s m = true ↔ m.id = row ∧ m.tenantId = user.tenantId ∧
      (m.mailboxId, user.id, user.tenantId) ∈ owners s := by
  simp only [ownRow, owners, Bool.and_eq_true, decide_eq_true_eq, List.any_eq_true, List.mem_map,
    Prod.mk.injEq, and_assoc]

/-- A change leaves the id and the tenant of a row, and moves it to a mailbox of the user only. -/
def Careful (user : User) (s : Store) (m c : Message) : Prop :=
  c.id = m.id ∧ c.tenantId = m.tenantId ∧
    (c.mailboxId = m.mailboxId ∨ (c.mailboxId, user.id, user.tenantId) ∈ owners s)

theorem OwnRow.update {selected : Message → Bool} {c : Message → Message}
    (own : OwnRow user row s) (careful : ∀ m, Careful user s m (c m)) :
    let s' := (updateMessages (fun m => if selected m then some (c m) else none) s).getD s
    OwnRow user row s' ∧ rowIds s' = rowIds s := by
  have keeps : ∀ m c', (if selected m then some (c m) else none) = some c' →
      Careful user s m c' := by
    intro m c' changed
    split at changed
    · cases changed
      exact careful m
    · cases changed
  refine ⟨?_, rowIds_updateMessages (fun m c' changed => (keeps m c' changed).1) s⟩
  cases done : updateMessages (fun m => if selected m then some (c m) else none) s with
  | none => exact own
  | some s' =>
    intro m' member same
    rw [Option.getD_some] at member ⊢
    rw [updateMessages_owners done]
    rw [commit_some done, messagesSyncMailboxStats_eq] at member
    obtain ⟨m, among, ⟨-, rfl⟩ | ⟨c', n, changed, rfl⟩⟩ := mem_changeRows member
    · exact own m' among same
    · obtain ⟨id, tenant, place⟩ := keeps m c' changed
      obtain ⟨sameTenant, mailbox⟩ := own m among (id.symm.trans same)
      refine ⟨tenant.trans sameTenant, ?_⟩
      obtain same | moved := place
      · exact same ▸ mailbox
      · exact moved

theorem OwnRow.discard (own : OwnRow user row s) :
    OwnRow user row ((deleteMessages (ownRow user row s) s).getD s) ∧
      rowIds ((deleteMessages (ownRow user row s) s).getD s) =
        (rowIds s).filter (· ≠ row) := by
  obtain ⟨s', done⟩ := deleteMessages_accepted (ownRow user row s) s
  have left := deleteMessages_messages done
  rw [done, Option.getD_some]
  constructor
  · intro m member same
    rw [left] at member
    rw [deleteMessages_owners done]
    exact own m (List.mem_filter.mp member).1 same
  · rw [rowIds, left, rowIds, List.filter_map]
    congr 1
    apply List.filter_congr
    intro m member
    by_cases same : m.id = row
    · simp [(ownRow_iff m).mpr ⟨same, own m member same⟩, same]
    · have other : ownRow user row s m = false :=
        Bool.eq_false_iff.mpr fun owned => same ((ownRow_iff m).mp owned).1
      simp [other, same]

/-- A rule keeps the row or deletes it. -/
theorem applyFlowAction_own (own : OwnRow user row s) (action : FlowAction) :
    OwnRow user row (applyFlowAction user row s action) ∧
      rowIds (applyFlowAction user row s action) =
        if action = .discard then (rowIds s).filter (· ≠ row) else rowIds s := by
  cases action with
  | moveToFolder folder =>
    rw [if_neg (by simp)]
    unfold applyFlowAction
    dsimp only
    split
    next mb found =>
      obtain ⟨name, -, named⟩ := Option.bind_eq_some_iff.mp found
      exact own.update fun m => ⟨rfl, rfl, .inr (findMailbox_owner named)⟩
    · exact ⟨own, rfl⟩
  | addFlag flag =>
    rw [if_neg (by simp)]
    unfold applyFlowAction
    dsimp only
    split
    · exact own.update fun m => ⟨rfl, rfl, .inl rfl⟩
    · exact ⟨own, rfl⟩
  | discard => exact own.discard
  | other => exact ⟨own, rfl⟩

theorem rowIds_applyFlowActions (own : OwnRow user row s) (actions : List FlowAction) :
    rowIds (applyFlowActions user row actions s) =
      if .discard ∈ actions then (rowIds s).filter (· ≠ row) else rowIds s := by
  induction actions generalizing s with
  | nil => rfl
  | cons action rest ih =>
    obtain ⟨owned, ids⟩ := applyFlowAction_own own action
    change rowIds (applyFlowActions user row rest (applyFlowAction user row s action)) = _
    rw [ih owned, ids]
    by_cases discards : action = .discard
    · simp [discards]
    · simp [discards, Ne.symm discards]

end

/-! ### A turn -/

/-- The message stays in a mailbox: its filter keeps it, and no flow rule deletes it. -/
def lands (cfg : Config) (answers : Str → Answers) (mail : Mail) (t : Db × Str) : Bool :=
  keptByFilter cfg answers mail t &&
    (cfg.flowsUrl = [] || FlowAction.discard ∉ (answers t.2).flowActions)

section
variable {cfg : Config} {answers : Str → Answers} {mail : Mail}

/-- A message that is stored is a new row in a mailbox of the user. -/
theorem storeMessage_rows {own : Answers} {user : User} {folder : Str} {db db' : Db}
    {disposition : Disposition}
    (done : storeMessage own user mail folder db = .ok (db', disposition)) :
    rowIds db'.store = rowIds db.store ++ [own.rowId] ∧ OwnRow user own.rowId db'.store := by
  obtain ⟨-, -, s, mailbox, uid, s', locked, inserted, raised⟩ := storeMessage_ok done
  obtain ⟨same, owner⟩ := lockOrCreateMailbox_ok locked
  have ids : rowIds s' = rowIds db.store ++ [own.rowId] := by
    rw [rowIds_insertMessage inserted, rowIds, same, rowIds]
    rfl
  constructor
  · rw [rowIds, raiseNextUid_messages raised]
    exact ids
  · intro m member isRow
    rw [raiseNextUid_messages raised] at member
    rw [raiseNextUid_owners raised, insertMessage_owners inserted]
    rw [insertMessage_messages inserted, List.mem_append, List.mem_singleton] at member
    obtain old | rfl := member
    · have distinct := rowIds_nodup s'
      rw [ids] at distinct
      have fresh : own.rowId ∉ rowIds db.store := by
        intro among
        exact (List.nodup_append.mp distinct).2.2 _ among _ (List.mem_singleton_self _) rfl
      rw [same] at old
      exact absurd (List.mem_map.mpr ⟨m, old, isRow⟩) fresh
    · exact ⟨rfl, owner⟩

theorem turn_rows {t : Db × Str} {db' : Db} {disposition : Disposition}
    (done : turn cfg (answers t.2) mail t.1 t.2 = .ok (db', disposition)) :
    rowIds (afterwards cfg (answers t.2) db' disposition).store =
      rowIds t.1.store ++ if lands cfg answers mail t then [(answers t.2).rowId] else [] := by
  unfold lands keptByFilter resolutionAt
  cases turn_turned done with
  | dropped resolved | relayed resolved => simp [resolved, afterwards]
  | overQuota user resolved exceeds => simp [resolved, exceeds, afterwards]
  | discarded user resolved exceeds decision => simp [resolved, exceeds, decision, afterwards]
  | stored user folder _ resolved exceeds decision stored =>
    obtain ⟨ids, own⟩ := storeMessage_rows stored
    simp only [resolved, exceeds, decision, afterwards]
    by_cases noRules : cfg.flowsUrl = []
    · simp [noRules, ids]
    · rw [if_neg noRules]
      change rowIds (applyFlowActions _ _ _ _) = _
      rw [rowIds_applyFlowActions own]
      by_cases discards : FlowAction.discard ∈ (answers t.2).flowActions
      · have distinct := rowIds_nodup db'.store
        rw [ids] at distinct
        have fresh : ∀ id ∈ rowIds t.1.store, id ≠ (answers t.2).rowId := by
          intro id among
          exact (List.nodup_append.mp distinct).2.2 id among _ (List.mem_singleton_self _)
        have kept : (rowIds t.1.store).filter (· ≠ (answers t.2).rowId) = rowIds t.1.store :=
          List.filter_eq_self.mpr fun id among => by simpa using fresh id among
        rw [if_pos discards, ids, List.filter_append, kept]
        simp [noRules, discards]
      · rw [if_neg discards, ids]
        simp [discards]

/-- The rows after all turns are those before and one for each turn whose message lands. -/
theorem deliverEach_rows (rcpts : List Str) (db : Db) :
    ∃ new, rowIds (deliverEach cfg answers mail rcpts db).db.store = rowIds db.store ++ new ∧
      (new ≠ [] ↔ ∃ t ∈ turnsOf cfg answers mail rcpts db,
        ¬Fails cfg answers mail t ∧ lands cfg answers mail t = true) := by
  induction rcpts generalizing db with
  | nil => exact ⟨[], by simp [deliverEach], by simp [turnsOf]⟩
  | cons rcpt rest ih =>
    rw [deliverEach, turnsOf]
    cases done : turn cfg (answers rcpt) mail db rcpt with
    | error u => exact ⟨[], by simp, by simp [Fails, done]⟩
    | ok after =>
      obtain ⟨new, ids, later⟩ := ih (afterwards cfg (answers rcpt) after.1 after.2)
      have here := @turn_rows cfg answers mail (db, rcpt) after.1 after.2 done
      have passes : ¬Fails cfg answers mail (db, rcpt) := by simp [Fails, done]
      refine ⟨(if lands cfg answers mail (db, rcpt) then [(answers rcpt).rowId] else []) ++ new,
        ?_, ?_⟩
      · rw [← List.append_assoc, ← here]
        exact ids
      · simp only [List.mem_cons, exists_eq_or_imp, passes, not_false_eq_true, true_and, ← later]
        by_cases landed : lands cfg answers mail (db, rcpt) = true <;> simp [landed]

end

/-! ### A call -/

/-- A row is there that was not. -/
def Gained (before after : Db) : Prop :=
  ∃ m ∈ after.store.messages, m.id ∉ rowIds before.store

/-- An error means that no mailbox gained a message. -/
def AllOrNothing (cfg : Config) (intake : Intake) (db : Db) (mailFrom : Option Str)
    (rcpts : List Str) (raw : Str) : Prop :=
  (process cfg intake db mailFrom rcpts raw).result = .error () →
    ¬Gained db (process cfg intake db mailFrom rcpts raw).db

/-- If a turn fails, the message has not landed in a mailbox before it. -/
def FailsFirst (cfg : Config) (intake : Intake) (db : Db) (mailFrom : Option Str)
    (rcpts : List Str) (raw : Str) : Prop :=
  ∀ mail, mailOf cfg intake mailFrom rcpts raw = some mail →
    let turns := turnsOf cfg intake.answers mail (normalizedRecipients rcpts) db
    (∃ t ∈ turns, Fails cfg intake.answers mail t) →
      ∀ t ∈ turns, Fails cfg intake.answers mail t ∨ lands cfg intake.answers mail t = false

theorem gained_iff {before after : Db} {new : List Uuid}
    (rows : rowIds after.store = rowIds before.store ++ new) : Gained before after ↔ new ≠ [] := by
  have distinct := rowIds_nodup after.store
  rw [rows, List.nodup_append] at distinct
  constructor
  · rintro ⟨m, member, fresh⟩ rfl
    have among : m.id ∈ rowIds after.store := List.mem_map_of_mem member
    rw [rows, List.append_nil] at among
    exact fresh among
  · intro some'
    obtain ⟨id, among⟩ := List.exists_mem_of_ne_nil new some'
    have listed : id ∈ rowIds after.store := rows ▸ List.mem_append_right _ among
    obtain ⟨m, member, rfl⟩ := List.mem_map.mp listed
    exact ⟨m, member, fun old => distinct.2.2 _ old _ among rfl⟩

/-- An error leaves no message in any mailbox if and only if the turn that fails comes before all
those whose message lands. -/
theorem allOrNothing_iff (cfg : Config) (intake : Intake) (db : Db) (mailFrom : Option Str)
    (rcpts : List Str) (raw : Str) :
    AllOrNothing cfg intake db mailFrom rcpts raw ↔
      FailsFirst cfg intake db mailFrom rcpts raw := by
  unfold AllOrNothing FailsFirst
  cases kept : mailOf cfg intake mailFrom rcpts raw with
  | none =>
    refine iff_of_true ?_ (by simp)
    by_cases none : rcpts = []
    · simp [process, none]
    · have nothing : rowIds db.store = rowIds db.store ++ [] := (List.append_nil _).symm
      rw [process_none kept none, gained_iff nothing]
      simp
  | some mail =>
    obtain ⟨new, rows, landed⟩ := @deliverEach_rows cfg intake.answers mail
      (normalizedRecipients rcpts) db
    have ok : (∃ n, (deliverEach cfg intake.answers mail (normalizedRecipients rcpts)
        db).result = .ok n) ↔ _ := deliverEach_ok_iff (normalizedRecipients rcpts) db
    rw [process_some kept, gained_iff rows, landed]
    simp only [Option.some.injEq, forall_eq']
    have failed : (deliverEach cfg intake.answers mail (normalizedRecipients rcpts)
        db).result = .error () ↔
          ∃ t ∈ turnsOf cfg intake.answers mail (normalizedRecipients rcpts) db,
            Fails cfg intake.answers mail t := by
      rw [← not_iff_not]
      simp only [not_exists, not_and, ← ok]
      cases (deliverEach cfg intake.answers mail (normalizedRecipients rcpts) db).result <;> simp
    rw [failed]
    apply imp_congr_right
    intro _
    simp only [not_exists, not_and, Bool.not_eq_true, or_iff_not_imp_left]

/-! ### A filter that rejects -/

def otherUser : User := ⟨8, 1, "c@x.org".toList, none⟩

def twoUsers : Db := ⟨⟨[sampleUser, otherUser], []⟩, ⟨⟨[], [], 1⟩, noRows_constraints⟩, []⟩

/-- The filter of the second user rejects every message. -/
def rejectingIntake : Intake :=
  { sampleIntake with answers := fun _ =>
      { sampleAnswers with applySieve := fun user _ =>
          if user = otherUser then .reject "no".toList else .deliver "INBOX".toList } }

/-- The first user has the message when the second one rejects it. -/
theorem rejection_not_allOrNothing :
    (process sampleConfig rejectingIntake twoUsers (some "a@x.org".toList)
      ["b@x.org".toList, "c@x.org".toList] "Subject: s\r\n\r\nt\r\n".toList).result = .error () ∧
    ¬AllOrNothing sampleConfig rejectingIntake twoUsers (some "a@x.org".toList)
      ["b@x.org".toList, "c@x.org".toList] "Subject: s\r\n\r\nt\r\n".toList := by
  have outcome : (process sampleConfig rejectingIntake twoUsers (some "a@x.org".toList)
        ["b@x.org".toList, "c@x.org".toList] "Subject: s\r\n\r\nt\r\n".toList).result = .error () ∧
      rowIds (process sampleConfig rejectingIntake twoUsers (some "a@x.org".toList)
        ["b@x.org".toList, "c@x.org".toList] "Subject: s\r\n\r\nt\r\n".toList).db.store =
          rowIds twoUsers.store ++ [0] := by
    decide
  refine ⟨outcome.1, fun whole => whole outcome.1 ?_⟩
  exact (gained_iff outcome.2).mpr (by simp)

end Expresso.Ingest
