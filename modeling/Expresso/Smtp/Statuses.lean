import Expresso.Ingest.Turns
import Expresso.Smtp.Sessions

/-! The status lines of LMTP against what became of the message for each recipient. -/

namespace Expresso.Smtp
open Text Ingest

/-- What `ingest::process` answers with the given tables. -/
def ingestOf (cfg : Config) (intake : Intake) (db : Db) : Smtp.Ingest := fun mailFrom rcpts raw =>
  (process cfg intake db mailFrom rcpts raw).result

def replies (effects : List Effect) : List Str :=
  effects.filterMap fun
    | .reply text => some text
    | .handed _ _ _ => none

def positive (status : Str) : Prop := status.head? = some '2'

def negative (status : Str) : Prop := status.head? = some '4' ∨ status.head? = some '5'

section
variable (dispositions : List (Str × Disposition))

/-- The message was stored for the recipient, relayed for it, or discarded by its filter. -/
def Served (rcpt : Str) : Prop :=
  ∃ disposition, (normalized rcpt, disposition) ∈ dispositions ∧ disposition.served = true

def Reached (rcpt : Str) : Prop :=
  ∃ disposition, (normalized rcpt, disposition) ∈ dispositions ∧ disposition.reached = true

/-- One status for each accepted recipient, in their order, and none that misleads the client. -/
def Truthful (accepted statuses : List Str) : Prop :=
  List.Forall₂ (fun rcpt status => (positive status → Served dispositions rcpt) ∧
    (negative status → ¬Reached dispositions rcpt)) accepted statuses

end

namespace Lmtp

/-- The line ends the message, or makes it too long. -/
def Final (s : Lmtp) (line : Str) : Prop :=
  line = ['.'] ∨ appendInboundDataLine s.dataBuf line = none

/-- A message that is too long is not processed. -/
def dispositionsAfter (cfg : Config) (intake : Intake) (db : Db) (s : Lmtp) (line : Str) :
    List (Str × Disposition) :=
  if line = ['.'] then
    (process cfg intake db s.env.mailFrom s.env.rcpts s.dataBuf).dispositions
  else []

/-- Before each turn: if no turn fails, every address leads somewhere and no quota is exceeded; if
a turn fails, the message has not gone anywhere before it. -/
def Settled (cfg : Config) (intake : Intake) (db : Db) (mailFrom : Option Str) (rcpts : List Str)
    (raw : Str) : Prop :=
  ∀ mail, mailOf cfg intake mailFrom rcpts raw = some mail →
    let turns := turnsOf cfg intake.answers mail (normalizedRecipients rcpts) db
    ((∀ t ∈ turns, ¬Fails cfg intake.answers mail t ∧ admitted cfg intake.answers mail t = true) ∧
        ∀ rcpt ∈ rcpts, normalized rcpt ≠ []) ∨
      (∃ t ∈ turns, Fails cfg intake.answers mail t) ∧
        ∀ t ∈ turns, Fails cfg intake.answers mail t ∨ reaches cfg intake.answers mail t = false

/-! ### Status lines -/

theorem replies_statusLines (before after : String) (rcpts : List Str) :
    replies (statusLines before after rcpts) =
      rcpts.map fun rcpt => before.toList ++ rcpt ++ after.toList ++ crlf := by
  simp [replies, statusLines, List.filterMap_map]

section
variable {dispositions : List (Str × Disposition)} {rcpts : List Str}

theorem truthful_positive {before after : String} (two : before.toList.head? = some '2') :
    Truthful dispositions rcpts (replies (statusLines before after rcpts)) ↔
      ∀ rcpt ∈ rcpts, Served dispositions rcpt := by
  obtain ⟨rest, shape⟩ := List.head?_eq_some_iff.mp two
  rw [Truthful, replies_statusLines, List.forall₂_map_right_iff, List.forall₂_same]
  simp [positive, negative, shape]

theorem truthful_negative {before after : String} (four : before.toList.head? = some '4') :
    Truthful dispositions rcpts (replies (statusLines before after rcpts)) ↔
      ∀ rcpt ∈ rcpts, ¬Reached dispositions rcpt := by
  obtain ⟨rest, shape⟩ := List.head?_eq_some_iff.mp four
  rw [Truthful, replies_statusLines, List.forall₂_map_right_iff, List.forall₂_same]
  simp [positive, negative, shape]

theorem truthful_tooLarge :
    Truthful [] rcpts (replies (said "552 5.3.4 Message too large")) ↔ rcpts.length = 1 := by
  have one : replies (said "552 5.3.4 Message too large") =
      ["552 5.3.4 Message too large".toList ++ crlf] := rfl
  rw [one, Truthful, List.forall₂_cons_right_iff, List.length_eq_one_iff]
  constructor
  · rintro ⟨rcpt, rest, -, nothing, rfl⟩
    rw [List.forall₂_nil_right_iff.mp nothing]
    exact ⟨rcpt, rfl⟩
  · rintro ⟨rcpt, rfl⟩
    refine ⟨rcpt, [], ⟨fun two => ?_, fun _ reached => ?_⟩, .nil, rfl⟩
    · cases two
    · obtain ⟨_, member, -⟩ := reached
      cases member

end

/-! ### What the turns tell -/

section
variable {cfg : Config} {answers : Str → Answers} {mail : Mail} {rcpts : List Str} {db : Db}

/-- The turn of a recipient is the only one for its address. -/
theorem turn_unique {t t' : Db × Str}
    (first : t ∈ turnsOf cfg answers mail (normalizedRecipients rcpts) db)
    (second : t' ∈ turnsOf cfg answers mail (normalizedRecipients rcpts) db)
    (same : t.2 = t'.2) : t = t' := by
  have distinct : ((turnsOf cfg answers mail (normalizedRecipients rcpts) db).map (·.2)).Nodup :=
    (normalizedRecipients_nodup rcpts).sublist (turnsOf_of_prefix_run _ db).sublist
  exact List.inj_on_of_nodup_map distinct first second same

theorem turn_recipient {t : Db × Str}
    (member : t ∈ turnsOf cfg answers mail (normalizedRecipients rcpts) db) :
    ∃ rcpt ∈ rcpts, normalized rcpt = t.2 := by
  have among : t.2 ∈ normalizedRecipients rcpts :=
    (turnsOf_of_prefix_run _ db).subset (List.mem_map_of_mem member)
  exact (mem_normalizedRecipients.mp among).2

/-- Some disposition of a kind is there for an address if and only if its turn leads to one. -/
theorem disposition_iff {kind : Disposition → Bool} {before : Db × Str → Bool}
    (tells : ∀ t db' disposition, turn cfg (answers t.2) mail t.1 t.2 = .ok (db', disposition) →
      kind disposition = before t) (rcpt : Str) :
    (∃ disposition, (rcpt, disposition) ∈
        (deliverEach cfg answers mail (normalizedRecipients rcpts) db).dispositions ∧
        kind disposition = true) ↔
      ∃ t ∈ turnsOf cfg answers mail (normalizedRecipients rcpts) db, t.2 = rcpt ∧
        ¬Fails cfg answers mail t ∧ before t = true := by
  simp only [mem_dispositions_iff]
  constructor
  · rintro ⟨disposition, ⟨t, member, rfl, db', done⟩, kinds⟩
    refine ⟨t, member, rfl, ?_, (tells t db' disposition done).symm.trans kinds⟩
    simp [Fails, done]
  · rintro ⟨t, member, rfl, passes, holds⟩
    cases done : turn cfg (answers t.2) mail t.1 t.2 with
    | error u => exact absurd done passes
    | ok after =>
      exact ⟨after.2, ⟨t, member, rfl, after.1, done⟩, (tells t _ _ done).trans holds⟩

theorem all_served_iff
    (passes : ∀ t ∈ turnsOf cfg answers mail (normalizedRecipients rcpts) db,
      ¬Fails cfg answers mail t) :
    (∀ rcpt ∈ rcpts, Served
        (deliverEach cfg answers mail (normalizedRecipients rcpts) db).dispositions rcpt) ↔
      (∀ t ∈ turnsOf cfg answers mail (normalizedRecipients rcpts) db,
        admitted cfg answers mail t = true) ∧ ∀ rcpt ∈ rcpts, normalized rcpt ≠ [] := by
  simp only [Served, disposition_iff fun t _ _ => served_eq_admitted (t := t)]
  constructor
  · intro served
    constructor
    · intro t member
      obtain ⟨rcpt, given, same⟩ := turn_recipient member
      obtain ⟨t', member', address, -, holds⟩ := served rcpt given
      rwa [turn_unique member member' (by rw [address, same])]
    · intro rcpt given
      obtain ⟨t, member, address, -, -⟩ := served rcpt given
      have among := (turnsOf_of_prefix_run _ db).subset (List.mem_map_of_mem member)
      rw [← address]
      exact (mem_normalizedRecipients.mp among).1
  · rintro ⟨admits, named⟩ rcpt given
    have among : normalized rcpt ∈ normalizedRecipients rcpts :=
      mem_normalizedRecipients.mpr ⟨named rcpt given, rcpt, given, rfl⟩
    rw [← turnsOf_all passes] at among
    obtain ⟨t, member, address⟩ := List.mem_map.mp among
    exact ⟨t, member, address, passes t member, admits t member⟩

theorem none_reached_iff :
    (∀ rcpt ∈ rcpts, ¬Reached
        (deliverEach cfg answers mail (normalizedRecipients rcpts) db).dispositions rcpt) ↔
      ∀ t ∈ turnsOf cfg answers mail (normalizedRecipients rcpts) db,
        Fails cfg answers mail t ∨ reaches cfg answers mail t = false := by
  simp only [Reached, disposition_iff fun t _ _ => reached_eq_reaches (t := t)]
  constructor
  · intro none t member
    obtain ⟨rcpt, given, same⟩ := turn_recipient member
    by_contra both
    obtain ⟨passes, reach⟩ := not_or.mp both
    exact none rcpt given ⟨t, member, same.symm, passes, by simpa using reach⟩
  · rintro settled rcpt - ⟨t, member, -, passes, reach⟩
    cases settled t member with
    | inl fails => exact passes fails
    | inr quiet => cases quiet.symm.trans reach

end

theorem settled_ok {cfg : Config} {intake : Intake} {db : Db} {mailFrom : Option Str}
    {rcpts : List Str} {raw : Str} {mail : Mail}
    (kept : mailOf cfg intake mailFrom rcpts raw = some mail)
    (passes : ∀ t ∈ turnsOf cfg intake.answers mail (normalizedRecipients rcpts) db,
      ¬Fails cfg intake.answers mail t) :
    Settled cfg intake db mailFrom rcpts raw ↔
      (∀ t ∈ turnsOf cfg intake.answers mail (normalizedRecipients rcpts) db,
        admitted cfg intake.answers mail t = true) ∧ ∀ rcpt ∈ rcpts, normalized rcpt ≠ [] := by
  simp only [Settled, kept, Option.some.injEq, forall_eq']
  constructor
  · rintro (⟨each, named⟩ | ⟨⟨t, member, fails⟩, -⟩)
    · exact ⟨fun t member => (each t member).2, named⟩
    · exact absurd fails (passes t member)
  · rintro ⟨admits, named⟩
    exact .inl ⟨fun t member => ⟨passes t member, admits t member⟩, named⟩

theorem settled_error {cfg : Config} {intake : Intake} {db : Db} {mailFrom : Option Str}
    {rcpts : List Str} {raw : Str} {mail : Mail}
    (kept : mailOf cfg intake mailFrom rcpts raw = some mail)
    (fails : ∃ t ∈ turnsOf cfg intake.answers mail (normalizedRecipients rcpts) db,
      Fails cfg intake.answers mail t) :
    Settled cfg intake db mailFrom rcpts raw ↔
      ∀ t ∈ turnsOf cfg intake.answers mail (normalizedRecipients rcpts) db,
        Fails cfg intake.answers mail t ∨ reaches cfg intake.answers mail t = false := by
  simp only [Settled, kept, Option.some.injEq, forall_eq']
  constructor
  · rintro (⟨each, -⟩ | ⟨-, settled⟩)
    · obtain ⟨t, member, failed⟩ := fails
      exact absurd failed (each t member).1
    · exact settled
  · exact fun settled => .inr ⟨fails, settled⟩

theorem replies_endOfData (cfg : Config) (intake : Intake) (db : Db) (env : Envelope)
    (raw : Str) : replies (endOfData (ingestOf cfg intake db) env raw) =
      replies (match (process cfg intake db env.mailFrom env.rcpts raw).result with
        | .ok _ => statusLines "250 2.0.0 <" "> delivered" env.rcpts
        | .error () => statusLines "451 4.0.0 <" "> local error" env.rcpts) := rfl

/-- What the client is told at the lone dot. -/
theorem endOfData_truthful_iff (cfg : Config) (intake : Intake) (db : Db) (env : Envelope)
    (raw : Str) :
    Truthful (process cfg intake db env.mailFrom env.rcpts raw).dispositions env.rcpts
        (replies (endOfData (ingestOf cfg intake db) env raw)) ↔
      Settled cfg intake db env.mailFrom env.rcpts raw := by
  rw [replies_endOfData]
  cases kept : mailOf cfg intake env.mailFrom env.rcpts raw with
  | none =>
    have settled : Settled cfg intake db env.mailFrom env.rcpts raw := by simp [Settled, kept]
    refine iff_of_true ?_ settled
    by_cases none : env.rcpts = []
    · rw [none]
      cases (process cfg intake db env.mailFrom [] raw).result <;> exact .nil
    · rw [process_none kept none]
      exact (truthful_negative rfl).mpr fun rcpt _ served => by
        obtain ⟨_, member, _⟩ := served
        cases member
  | some mail =>
    rw [process_some kept]
    have ok : (∃ n, (deliverEach cfg intake.answers mail (normalizedRecipients env.rcpts)
        db).result = .ok n) ↔ _ := deliverEach_ok_iff (normalizedRecipients env.rcpts) db
    cases result : (deliverEach cfg intake.answers mail (normalizedRecipients env.rcpts) db).result
      with
    | ok n =>
      have passes := ok.mp ⟨n, result⟩
      rw [settled_ok kept passes, ← all_served_iff passes]
      exact truthful_positive rfl
    | error u =>
      have fails : ∃ t ∈ turnsOf cfg intake.answers mail (normalizedRecipients env.rcpts) db,
          Fails cfg intake.answers mail t := by
        by_contra none
        obtain ⟨n, done⟩ := ok.mpr fun t member failed => none ⟨t, member, failed⟩
        rw [result] at done
        cases done
      rw [settled_error kept fails, ← none_reached_iff]
      exact truthful_negative rfl

/-- The status lines are truthful if and only if the turns are settled; a message that is too
long needs to have one recipient. -/
theorem truthful_iff (domain : Str) (cfg : Config) (intake : Intake) (db : Db) (s : Lmtp)
    (line : Str) (waits : s.dataMode = true) (opened : s.closed = false) (final : s.Final line) :
    Truthful (dispositionsAfter cfg intake db s line) s.env.rcpts
        (replies (step domain s (line, ingestOf cfg intake db)).2) ↔
      if line = ['.'] then Settled cfg intake db s.env.mailFrom s.env.rcpts s.dataBuf
      else s.env.rcpts.length = 1 := by
  simp only [step, opened, waits, Bool.false_eq_true, if_false, if_true, content, dispositionsAfter]
  by_cases dot : line = ['.']
  · simp only [if_pos dot]
    exact endOfData_truthful_iff cfg intake db s.env s.dataBuf
  · have long := final.resolve_left dot
    simp only [if_neg dot, long]
    exact truthful_tooLarge

/-! ### Two recipients -/

instance (cfg : Config) (intake : Intake) (db : Db) (mailFrom : Option Str) (rcpts : List Str)
    (raw : Str) : Decidable (Settled cfg intake db mailFrom rcpts raw) :=
  match kept : mailOf cfg intake mailFrom rcpts raw with
  | none => .isTrue fun mail same => by cases kept.symm.trans same
  | some mail => decidable_of_iff
      (let turns := turnsOf cfg intake.answers mail (normalizedRecipients rcpts) db
       ((∀ t ∈ turns, ¬Fails cfg intake.answers mail t ∧
            admitted cfg intake.answers mail t = true) ∧
          ∀ rcpt ∈ rcpts, normalized rcpt ≠ []) ∨
        (∃ t ∈ turns, Fails cfg intake.answers mail t) ∧
          ∀ t ∈ turns, Fails cfg intake.answers mail t ∨
            reaches cfg intake.answers mail t = false)
      ⟨fun holds mail' same => by
        cases Option.some.inj (kept.symm.trans same)
        exact holds, fun holds => holds mail kept⟩

/-- A session that waits for the end of a message for the given recipients. -/
def sampleSession (rcpts : List Str) : Lmtp :=
  ⟨⟨some "a@x.org".toList, rcpts, none⟩, true, "Subject: s\r\n\r\nt\r\n".toList, false⟩

theorem truthful_sample :
    Truthful (dispositionsAfter sampleConfig sampleIntake sampleDb
        (sampleSession ["B@x.org".toList]) ['.']) ["B@x.org".toList]
      (replies (step "x.org".toList (sampleSession ["B@x.org".toList])
        (['.'], ingestOf sampleConfig sampleIntake sampleDb)).2) :=
  (truthful_iff "x.org".toList sampleConfig sampleIntake sampleDb
    (sampleSession ["B@x.org".toList]) ['.'] rfl rfl (.inl rfl)).mpr (by decide)

/-- There is no user of the second name, and the client is told that the message is delivered. -/
theorem unknown_not_truthful :
    replies (step "x.org".toList (sampleSession ["b@x.org".toList, "c@x.org".toList])
        (['.'], ingestOf sampleConfig sampleIntake sampleDb)).2 =
      ["250 2.0.0 <b@x.org> delivered\r\n".toList,
        "250 2.0.0 <c@x.org> delivered\r\n".toList] ∧
    dispositionsAfter sampleConfig sampleIntake sampleDb
        (sampleSession ["b@x.org".toList, "c@x.org".toList]) ['.'] =
      [("b@x.org".toList, .stored sampleUser 0), ("c@x.org".toList, .dropped)] ∧
    ¬Truthful (dispositionsAfter sampleConfig sampleIntake sampleDb
        (sampleSession ["b@x.org".toList, "c@x.org".toList]) ['.'])
      ["b@x.org".toList, "c@x.org".toList]
      (replies (step "x.org".toList (sampleSession ["b@x.org".toList, "c@x.org".toList])
        (['.'], ingestOf sampleConfig sampleIntake sampleDb)).2) := by
  have told : replies (step "x.org".toList (sampleSession ["b@x.org".toList, "c@x.org".toList])
      (['.'], ingestOf sampleConfig sampleIntake sampleDb)).2 =
        ["250 2.0.0 <b@x.org> delivered\r\n".toList,
          "250 2.0.0 <c@x.org> delivered\r\n".toList] := by
    decide
  have became : dispositionsAfter sampleConfig sampleIntake sampleDb
      (sampleSession ["b@x.org".toList, "c@x.org".toList]) ['.'] =
        [("b@x.org".toList, .stored sampleUser 0), ("c@x.org".toList, .dropped)] := by
    decide
  refine ⟨told, became, ?_⟩
  rw [told, became]
  intro truthful
  cases truthful with
  | cons first rest =>
    cases rest with
    | cons second none =>
      obtain ⟨disposition, member, served⟩ := second.1 rfl
      have dropped : disposition = .dropped := by
        simp only [List.mem_cons, Prod.mk.injEq, List.not_mem_nil, or_false] at member
        obtain ⟨other, -⟩ | ⟨-, same⟩ := member
        · exact absurd other (by decide)
        · exact same
      rw [dropped] at served
      cases served

end Lmtp

end Expresso.Smtp
