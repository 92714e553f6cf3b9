import Expresso.Ingest.Atomicity
import Expresso.Partition.Growth

/-! Threads against the references between messages, whatever the order of their arrival. -/

namespace Expresso.Ingest
open Text Imap Sql Transition Partition

/-- A message for a user, with what its delivery is told. -/
structure Arrival where
  answers : Answers
  user : User
  mail : Mail
  folder : Str

def refersTo (a b : Arrival) : Prop :=
  b.mail.parsed.messageId.any ((candidates a.mail.parsed).contains ·) = true

def ingest (db : Db) (a : Arrival) : Except Unit Db :=
  (storeMessage a.answers a.user a.mail a.folder db).map (·.1)

def ingestAll : Db → List Arrival → Except Unit Db
  | db, [] => .ok db
  | db, a :: rest => do
      let db' ← ingest db a
      ingestAll db' rest

def threadIn (db : Db) (a : Arrival) : Option Uuid :=
  (db.store.messages.find? fun m => m.id = a.answers.rowId).bind db.threadOf

/-- The thread that a message gets. -/
def joined (db : Db) (a : Arrival) : Uuid :=
  resolveThreadId db a.user.tenantId a.mail.parsed a.answers.threadId

/-- Each message finds those before it that it refers to, or that refer to it, in the thread that
it gets. -/
def Settles : List Arrival → Db → List Arrival → Prop
  | _, _, [] => True
  | earlier, db, a :: rest =>
      (∀ b ∈ earlier, Linked refersTo a b → threadIn db b = some (joined db a)) ∧
        ∀ db', ingest db a = .ok db' → Settles (earlier ++ [a]) db' rest

/-! ### One message -/

theorem find_row {s : Store} {m : Message} (member : m ∈ s.messages) :
    (s.messages.find? fun x => x.id = m.id) = some m := by
  cases found : s.messages.find? fun x => x.id = m.id with
  | none =>
    have nowhere := List.find?_eq_none.mp found m member
    simp at nowhere
  | some other =>
    have same : other.id = m.id := by simpa using List.find?_some found
    rw [List.inj_on_of_nodup_map (rowIds_nodup s) (List.mem_of_find?_eq_some found) member same]

/-- A thread is new, or that of a message that is referred to. -/
theorem resolveThreadId_cases (db : Db) (tenantId : Uuid) (parsed : ParsedMessage) (fresh : Uuid) :
    resolveThreadId db tenantId parsed fresh = fresh ∨ ∃ m ∈ db.store.messages,
      m.tenantId = tenantId ∧ m.envelope.messageId.any ((candidates parsed).contains ·) = true ∧
      db.threadOf m = some (resolveThreadId db tenantId parsed fresh) := by
  unfold resolveThreadId
  dsimp only
  cases first : (orderBy (·.receivedAt) (db.store.messages.filter fun m =>
      m.tenantId = tenantId && m.envelope.messageId.any ((candidates parsed).contains ·) &&
        (db.threadOf m).isSome)).head? with
  | none => exact .inl rfl
  | some m =>
    have among := mem_orderBy.mp (List.mem_of_head? first)
    simp only [List.mem_filter, Bool.and_eq_true, decide_eq_true_eq] at among
    obtain ⟨member, ⟨tenant, refers⟩, threaded⟩ := among
    obtain ⟨thread, known⟩ := Option.isSome_iff_exists.mp threaded
    exact .inr ⟨m, member, tenant, refers, by simp [known]⟩

section
variable {db db' : Db} {a : Arrival}

/-- A delivery adds one row, with its columns. -/
theorem ingest_ok (done : ingest db a = .ok db') :
    db'.columns = (a.answers.rowId, columnsOf db a.answers a.user a.mail) :: db.columns ∧
      ∃ m, m.id = a.answers.rowId ∧ m.tenantId = a.user.tenantId ∧
        m.envelope.messageId = a.mail.parsed.messageId ∧
        db'.store.messages = db.store.messages ++ [m] := by
  obtain ⟨⟨after, disposition⟩, stored, rfl⟩ := map_eq_ok_iff.mp done
  obtain ⟨-, columns, s, mailbox, uid, s', locked, inserted, raised⟩ := storeMessage_ok stored
  refine ⟨columns,
    { messageRow a.answers a.user a.mail mailbox uid with modSequence := s.modseq },
    rfl, rfl, rfl, ?_⟩
  rw [raiseNextUid_messages raised, insertMessage_messages inserted,
    (lockOrCreateMailbox_ok locked).1]

theorem ingest_threadOf (done : ingest db a = .ok db') (m : Message) :
    db'.threadOf m = if m.id = a.answers.rowId then some (joined db a) else db.threadOf m := by
  rw [Db.threadOf, (ingest_ok done).1, List.find?_cons]
  split
  next same =>
    rw [if_pos (of_decide_eq_true same).symm]
    rfl
  next other =>
    rw [if_neg fun same => by simp [same] at other]
    rfl

theorem ingest_rowIds (done : ingest db a = .ok db') :
    rowIds db'.store = rowIds db.store ++ [a.answers.rowId] := by
  obtain ⟨-, m, id, -, -, messages⟩ := ingest_ok done
  rw [rowIds, messages, List.map_append, List.map_singleton, id, rowIds]

theorem ingest_fresh (done : ingest db a = .ok db') : a.answers.rowId ∉ rowIds db.store := by
  intro among
  have distinct := rowIds_nodup db'.store
  rw [ingest_rowIds done] at distinct
  exact (List.nodup_append.mp distinct).2.2 _ among _ (List.mem_singleton_self _) rfl

theorem threadIn_self (done : ingest db a = .ok db') : threadIn db' a = some (joined db a) := by
  obtain ⟨-, m, id, -, -, messages⟩ := ingest_ok done
  have member : m ∈ db'.store.messages :=
    messages ▸ List.mem_append_right _ (List.mem_singleton_self m)
  rw [threadIn, ← id, find_row member, Option.bind_some, ingest_threadOf done, if_pos id]

/-- A message that is there keeps its thread. -/
theorem threadIn_kept (done : ingest db a = .ok db') {b : Arrival}
    (known : b.answers.rowId ∈ rowIds db.store) : threadIn db' b = threadIn db b := by
  obtain ⟨m, member, id⟩ := List.mem_map.mp known
  obtain ⟨-, added, -, -, -, messages⟩ := ingest_ok done
  have later : m ∈ db'.store.messages := messages ▸ List.mem_append_left _ member
  have other : m.id ≠ a.answers.rowId := fun same => ingest_fresh done (same ▸ id ▸ known)
  rw [threadIn, threadIn, ← id, find_row later, find_row member, Option.bind_some,
    Option.bind_some, ingest_threadOf done, if_neg other]

end

theorem threadIn_ingestAll {db db' : Db} {arrivals : List Arrival}
    (done : ingestAll db arrivals = .ok db') {b : Arrival}
    (known : b.answers.rowId ∈ rowIds db.store) : threadIn db' b = threadIn db b := by
  induction arrivals generalizing db with
  | nil =>
    cases done
    rfl
  | cons a rest ih =>
    obtain ⟨next, first, later⟩ := bind_eq_ok_iff.mp done
    have still : b.answers.rowId ∈ rowIds next.store :=
      ingest_rowIds first ▸ List.mem_append_left _ known
    exact (ih later still).trans (threadIn_kept first known)

/-! ### All messages -/

/-- The rows of the tenant are those of the messages so far, in threads that started with one of
these. -/
structure Known (tenantId : Uuid) (earlier : List Arrival) (db : Db) : Prop where
  rows : ∀ m ∈ db.store.messages, m.tenantId = tenantId → ∃ c ∈ earlier,
    m.id = c.answers.rowId ∧ m.envelope.messageId = c.mail.parsed.messageId
  stored : ∀ c ∈ earlier, c.answers.rowId ∈ rowIds db.store
  threads : ∀ c ∈ earlier, ∃ b ∈ earlier, threadIn db c = some b.answers.threadId

section
variable {tenantId : Uuid} {earlier : List Arrival} {db db' : Db} {a : Arrival}

/-- The thread of a message is new, or it has a message of the thread that it refers to. -/
theorem Known.joined_cases (known : Known tenantId earlier db) (own : a.user.tenantId = tenantId) :
    joined db a = a.answers.threadId ∨
      ∃ c ∈ earlier, refersTo a c ∧ threadIn db c = some (joined db a) := by
  obtain fresh | ⟨m, member, tenant, refers, thread⟩ :=
    resolveThreadId_cases db a.user.tenantId a.mail.parsed a.answers.threadId
  · exact .inl fresh
  · obtain ⟨c, among, id, messageId⟩ := known.rows m member (tenant.trans own)
    refine .inr ⟨c, among, ?_, ?_⟩
    · rw [refersTo, ← messageId]
      exact refers
    · rw [threadIn, ← id, find_row member]
      exact thread

theorem Known.grow (known : Known tenantId earlier db) (own : a.user.tenantId = tenantId)
    (done : ingest db a = .ok db') : Known tenantId (earlier ++ [a]) db' where
  rows m member tenant := by
    obtain ⟨-, added, id, -, messageId, messages⟩ := ingest_ok done
    rw [messages, List.mem_append, List.mem_singleton] at member
    obtain old | rfl := member
    · obtain ⟨c, among, same⟩ := known.rows m old tenant
      exact ⟨c, List.mem_append_left _ among, same⟩
    · exact ⟨a, List.mem_append_right _ (List.mem_singleton_self a), id, messageId⟩
  stored c member := by
    rw [ingest_rowIds done]
    rw [List.mem_append, List.mem_singleton] at member
    obtain old | rfl := member
    · exact List.mem_append_left _ (known.stored c old)
    · exact List.mem_append_right _ (List.mem_singleton_self _)
  threads c member := by
    rw [List.mem_append, List.mem_singleton] at member
    obtain old | rfl := member
    · obtain ⟨b, among, thread⟩ := known.threads c old
      refine ⟨b, List.mem_append_left _ among, ?_⟩
      rw [threadIn_kept done (known.stored c old), thread]
    · rw [threadIn_self done]
      obtain fresh | ⟨b, among, -, thread⟩ := known.joined_cases own
      · exact ⟨c, List.mem_append_right _ (List.mem_singleton_self c), by rw [fresh]⟩
      · obtain ⟨d, founder, started⟩ := known.threads b among
        exact ⟨d, List.mem_append_left _ founder, by rw [← thread, started]⟩

theorem Known.founded (known : Known tenantId earlier db) (own : a.user.tenantId = tenantId)
    (fresh : a.answers.threadId ∉ earlier.map (·.answers.threadId))
    (done : ingest db a = .ok db') : Founded refersTo (threadIn db') earlier a := by
  rintro ⟨b, among, same⟩
  rw [threadIn_kept done (known.stored b among), threadIn_self done] at same
  obtain started | ⟨c, there, refers, thread⟩ := known.joined_cases own
  · obtain ⟨d, founder, began⟩ := known.threads b among
    rw [began, started] at same
    exact absurd (List.mem_map.mpr ⟨d, founder, Option.some.inj same⟩) fresh
  · refine ⟨c, there, ?_, .inl refers⟩
    rw [threadIn_kept done (known.stored c there), threadIn_self done, thread]

end

/-- The threads are the groups of messages that references link, if and only if each message
settles. -/
theorem settles_iff_faithful {tenantId : Uuid} {earlier arrivals : List Arrival} {db db' : Db}
    (known : Known tenantId earlier db) (own : ∀ a ∈ arrivals, a.user.tenantId = tenantId)
    (fresh : ((earlier ++ arrivals).map (·.answers.threadId)).Nodup)
    (faithful : Faithful refersTo (threadIn db) earlier)
    (done : ingestAll db arrivals = .ok db') :
    Settles earlier db arrivals ↔ Faithful refersTo (threadIn db') (earlier ++ arrivals) := by
  induction arrivals generalizing earlier db with
  | nil =>
    cases done
    rw [List.append_nil]
    exact iff_of_true trivial faithful
  | cons a rest ih =>
    obtain ⟨next, first, later⟩ := bind_eq_ok_iff.mp done
    have ownFirst := own a List.mem_cons_self
    have split : earlier ++ a :: rest = (earlier ++ [a]) ++ rest := by simp
    have new : a.answers.threadId ∉ earlier.map (·.answers.threadId) := by
      rw [List.map_append, List.nodup_append] at fresh
      intro among
      exact fresh.2.2 _ among _ (by simp) rfl
    have knownNext := known.grow ownFirst first
    have founded := known.founded ownFirst new first
    have kept : ∀ b ∈ earlier, threadIn next b = threadIn db b := fun b among =>
      threadIn_kept first (known.stored b among)
    have faithfulKept : Faithful refersTo (threadIn next) earlier := by
      intro b here c there
      rw [kept b here, kept c there]
      exact faithful b here c there
    have joins_iff : (∀ b ∈ earlier, Linked refersTo a b → threadIn db b = some (joined db a)) ↔
        Joins refersTo (threadIn next) earlier a := by
      refine forall₂_congr fun b among => imp_congr_right fun _ => ?_
      rw [kept b among, threadIn_self first]
    have restSettles : (∀ db', ingest db a = .ok db' → Settles (earlier ++ [a]) db' rest) ↔
        Settles (earlier ++ [a]) next rest := by
      simp [first]
    rw [Settles, joins_iff, restSettles, split]
    constructor
    · rintro ⟨joins, settles⟩
      exact (ih knownNext (fun b member => own b (List.mem_cons_of_mem _ member)) (split ▸ fresh)
        (faithfulKept.append founded joins) later).mp settles
    · intro final
      have joins : Joins refersTo (threadIn next) earlier a := by
        intro b among linked
        have ends : Joins refersTo (threadIn db') earlier a :=
          final.joins (fun x member => by simp [member]) (by simp)
        have ended := ends b among linked
        rwa [threadIn_ingestAll later (knownNext.stored b (List.mem_append_left _ among)),
          threadIn_ingestAll later (knownNext.stored a (by simp))] at ended
      exact ⟨joins, (ih knownNext (fun b member => own b (List.mem_cons_of_mem _ member))
        (split ▸ fresh) (faithfulKept.append founded joins) later).mpr final⟩

/-- The same message, with what another delivery of it is told. -/
def redelivered (again : Arrival → Answers) (a : Arrival) : Arrival := { a with answers := again a }

instance (a b : Arrival) : Decidable (Linked refersTo a b) :=
  inferInstanceAs (Decidable (_ = true ∨ _ = true))

instance decideSettles : (earlier : List Arrival) → (db : Db) → (arrivals : List Arrival) →
    Decidable (Settles earlier db arrivals)
  | _, _, [] => .isTrue trivial
  | earlier, db, a :: rest =>
      have : Decidable (∀ db', ingest db a = .ok db' → Settles (earlier ++ [a]) db' rest) :=
        match result : ingest db a with
        | .error _ => .isTrue fun _ done => by cases done
        | .ok db' =>
            have := decideSettles (earlier ++ [a]) db' rest
            decidable_of_iff (Settles (earlier ++ [a]) db' rest)
              ⟨fun settles _ same => Except.ok.inj same ▸ settles, fun settles => settles db' rfl⟩
      inferInstanceAs (Decidable (_ ∧ _))

/-- A message to the user with the given headers. -/
def arrivalOf (headers : String) (row : Uuid) : Arrival where
  answers := { sampleAnswers with rowId := row, threadId := row, now := row }
  user := sampleUser
  mail := ⟨headers.toList, parseMessage sampleConfig.formats none [] headers.toList, []⟩
  folder := "INBOX".toList

def original : Arrival := arrivalOf "Message-ID: <1@x>\r\n" 1
def reply : Arrival := arrivalOf "Message-ID: <2@x>\r\nIn-Reply-To: <1@x>\r\n" 2
def otherReply : Arrival := arrivalOf "Message-ID: <3@x>\r\nReferences: <1@x>\r\n" 3

def ingested (arrivals : List Arrival) : Db :=
  match ingestAll sampleDb arrivals with
  | .ok db => db
  | .error _ => sampleDb

theorem ingestAll_ingested {arrivals : List Arrival}
    (passes : (ingestAll sampleDb arrivals).isOk = true) :
    ingestAll sampleDb arrivals = .ok (ingested arrivals) := by
  unfold ingested
  cases ran : ingestAll sampleDb arrivals with
  | ok db => rfl
  | error u =>
    rw [ran] at passes
    cases passes

/-- The next time, the second and the third message change places. -/
def swapped (a : Arrival) : Answers :=
  let place := if a.answers.rowId = 1 then 1 else 5 - a.answers.rowId
  { a.answers with rowId := place, threadId := place, now := place }

def swappedReplies : List Arrival := [original, otherReply, reply].map (redelivered swapped)

/-- The two messages change places. -/
def exchanged (a : Arrival) : Answers :=
  let place := 3 - a.answers.rowId
  { a.answers with rowId := place, threadId := place, now := place }

end Expresso.Ingest
