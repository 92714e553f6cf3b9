import Expresso.Ingest.Atomicity
import Mathlib.Algebra.Order.BigOperators.Group.Finset
import Mathlib.Data.Fintype.BigOperators

/-! Deliveries that run side by side, each in its own transaction: a transaction sees what is
committed, and the row of the mailbox is locked until the transaction ends. -/

namespace Expresso.Ingest
open Text Imap Transition

/-! ### Deliveries -/

/-- A delivery to a user, with the folder that the filter and the lists of senders choose. -/
structure Delivery where
  user : User
  mail : Mail
  target : Str
  answers : Answers

/-- The mailbox with its next UID, or an inbox that is not there yet. -/
inductive Lock where
  | row (mailbox : Uuid) (uid : Int)
  | newInbox
  deriving DecidableEq

def lockFor (user : User) (target : Str) (s : Store) : Lock :=
  match findMailbox user.id user.tenantId target s with
  | some mb => .row mb.id mb.nextUid
  | none =>
      if toAsciiUppercase target = "INBOX".toList then .newInbox
      else match findMailbox user.id user.tenantId "INBOX".toList s with
        | some mb => .row mb.id mb.nextUid
        | none => .newInbox

def takeLock (inboxId : Uuid) (uidValidity : Int) (user : User) (s : Store) :
    Lock → Except Unit (Store × Uuid × Int)
  | .row mailbox uid => .ok (s, mailbox, uid)
  | .newInbox => insertInbox user inboxId uidValidity s

/-- By itself, a delivery locks and goes on at once. -/
theorem lockOrCreateMailbox_eq (user : User) (target : Str) (inboxId : Uuid) (uidValidity : Int)
    (s : Store) :
    lockOrCreateMailbox (fun _ => false) user target inboxId uidValidity s =
      takeLock inboxId uidValidity user s (lockFor user target s) := by
  unfold lockOrCreateMailbox lockFor
  simp only [check, Bool.false_eq_true, if_false, bind, Except.bind]
  cases findMailbox user.id user.tenantId target s with
  | some mb => rfl
  | none =>
    simp only
    split
    · rfl
    · cases findMailbox user.id user.tenantId "INBOX".toList s <;> rfl

inductive Phase where
  | waiting
  /-- the quota has been checked -/
  | passed
  | holding (lock : Lock)
  | ended
  deriving DecidableEq

def Phase.inFlight : Phase → Bool
  | passed | holding _ => true
  | waiting | ended => false

def Phase.holds (mailbox : Uuid) : Phase → Bool
  | holding (.row held _) => held = mailbox
  | _ => false

/-- What is left to do under the lock. -/
def commitHeld (d : Delivery) (lock : Lock) (db : Db) : Except Unit Db := do
  let locked ← takeLock d.answers.inboxId d.answers.uidValidity d.user db.store lock
  insertLocked d.answers d.user d.mail db locked

variable {ι : Type} [Fintype ι] [DecidableEq ι]

structure Shared (ι : Type) where
  db : Db
  phase : ι → Phase

def Shared.start (db : Db) : Shared ι := ⟨db, fun _ => .waiting⟩

namespace Shared

def moveTo (s : Shared ι) (i : ι) (phase : Phase) : Shared ι :=
  { s with phase := Function.update s.phase i phase }

/-- Another transaction holds the row. -/
def blocked (s : Shared ι) (i : ι) : Lock → Bool
  | .row mailbox _ => decide (∃ j, j ≠ i ∧ (s.phase j).holds mailbox = true)
  | .newInbox => false

/-- A delivery does its next statements, or it ends without effect: a statement fails, or the
filter discards or rejects the message. -/
def step (deliveries : ι → Delivery) (s : Shared ι) (turn : ι × Bool) : Shared ι :=
  let i := turn.1
  let d := deliveries i
  if turn.2 then
    match s.phase i with
    | .waiting =>
        s.moveTo i (if quotaExceeded s.db d.user d.mail.sizeBytes then .ended else .passed)
    | .passed =>
        let lock := lockFor d.user d.target s.db.store
        if s.blocked i lock then s else s.moveTo i (.holding lock)
    | .holding lock =>
        match commitHeld d lock s.db with
        | .ok db => { s with db }.moveTo i .ended
        | .error () => s.moveTo i .ended
    | .ended => s
  else s.moveTo i .ended

end Shared

/-! ### What is stored -/

def SameUser (user other : User) : Prop := user.id = other.id ∧ user.tenantId = other.tenantId

instance (user other : User) : Decidable (SameUser user other) :=
  inferInstanceAs (Decidable (_ ∧ _))

theorem storedFor_iff {db : Db} {user : User} {m : Message} :
    storedFor db user m = true ↔
      m.tenantId = user.tenantId ∧ ∃ tenant, (m.mailboxId, user.id, tenant) ∈ owners db.store := by
  simp only [storedFor, owners, Bool.and_eq_true, decide_eq_true_eq, List.any_eq_true, List.mem_map,
    Prod.mk.injEq]
  apply and_congr_right
  intro _
  constructor
  · rintro ⟨mb, member, id, owner⟩
    exact ⟨mb.tenantId, mb, member, id, owner, rfl⟩
  · rintro ⟨_, mb, member, id, owner, -⟩
    exact ⟨mb, member, id, owner⟩

theorem sizeBytes_nonneg (mail : Mail) : 0 ≤ mail.sizeBytes := by
  unfold Mail.sizeBytes
  omega

/-- The owner of a mailbox is the only one. -/
theorem owner_unique {s : Store} {mailbox user user' tenant tenant' : Uuid}
    (first : (mailbox, user, tenant) ∈ owners s) (second : (mailbox, user', tenant') ∈ owners s) :
    user = user' := by
  obtain ⟨mb, member, here⟩ := List.mem_map.mp first
  obtain ⟨mb', member', there⟩ := List.mem_map.mp second
  simp only [Prod.mk.injEq] at here there
  have same := List.inj_on_of_nodup_map s.constraints.1 member member'
    (here.1.trans there.1.symm)
  rw [← here.2.1, ← there.2.1, same]

theorem owners_insertInbox {s s' : Store} {user : User} {id mailbox : Uuid} {uidValidity uid : Int}
    (done : insertInbox user id uidValidity s = .ok (s', mailbox, uid)) :
    owners s' = owners s ++ [(id, user.id, user.tenantId)] := by
  unfold insertInbox at done
  split at done
  next s'' committed =>
    cases done
    rw [owners, commit_some committed]
    simp [owners]
  · cases done

/-- The mailboxes of a message that is there keep their owner. -/
theorem owner_takeLock {s s' : Store} {user : User} {lock : Lock} {inboxId mailbox : Uuid}
    {uidValidity uid : Int} (done : takeLock inboxId uidValidity user s lock = .ok (s', mailbox, uid))
    {m : Message} (member : m ∈ s.messages) (owner tenant : Uuid) :
    (m.mailboxId, owner, tenant) ∈ owners s' ↔ (m.mailboxId, owner, tenant) ∈ owners s := by
  cases lock with
  | row _ _ =>
    cases done
    rfl
  | newInbox =>
    have added := owners_insertInbox done
    have distinct := s'.constraints.1
    have ids : s'.mailboxes.map (·.id) = s.mailboxes.map (·.id) ++ [inboxId] := by
      have firsts := congrArg (List.map fun entry : Uuid × Uuid × Uuid => entry.1) added
      simpa [owners, Function.comp_def] using firsts
    have listed := s.constraints.2.2.2.2.1 m member
    rw [ids] at distinct
    have other : m.mailboxId ≠ inboxId :=
      (List.nodup_append.mp distinct).2.2 _ listed _ (List.mem_singleton_self _)
    simp [added, other]

section
variable {d : Delivery} {lock : Lock} {db db' : Db}

/-- The lock is on a row of the user. -/
def Lock.Owned (user : User) (s : Store) : Lock → Prop
  | .row mailbox _ => (mailbox, user.id, user.tenantId) ∈ owners s
  | .newInbox => True

theorem takeLock_owned {s s' : Store} {user : User} {inboxId mailbox : Uuid}
    {uidValidity uid : Int} (owned : lock.Owned user s)
    (done : takeLock inboxId uidValidity user s lock = .ok (s', mailbox, uid)) :
    s'.messages = s.messages ∧ (mailbox, user.id, user.tenantId) ∈ owners s' ∧
      owners s ⊆ owners s' := by
  cases lock with
  | row _ _ =>
    cases done
    exact ⟨rfl, owned, List.Subset.refl _⟩
  | newInbox =>
    obtain ⟨messages, owner⟩ := insertInbox_ok done
    exact ⟨messages, owner, owners_insertInbox done ▸ List.subset_append_left _ _⟩

theorem usedBytes_insert {user other : User} {m : Message}
    (messages : db'.store.messages = db.store.messages ++ [m])
    (kept : ∀ m ∈ db.store.messages, storedFor db' other m = storedFor db other m)
    (own : storedFor db' other m = true → SameUser user other) (size : 0 ≤ m.sizeBytes) :
    usedBytes db' other ≤
      usedBytes db other + if SameUser user other then m.sizeBytes else 0 := by
  unfold usedBytes
  rw [messages, List.filter_append, List.filter_congr kept, List.map_append, List.sum_append]
  apply Int.add_le_add_left
  cases stored : storedFor db' other m with
  | true => simp [stored, own stored]
  | false =>
    have none : [m].filter (storedFor db' other) = [] := by simp [stored]
    rw [none]
    split
    · exact size
    · exact Int.le_refl 0

/-- A commit adds the size of the message to the bytes of its user, and keeps the owners. -/
theorem commitHeld_ok (owned : lock.Owned d.user db.store) (done : commitHeld d lock db = .ok db') :
    db'.directory = db.directory ∧ owners db.store ⊆ owners db'.store ∧
      ∀ user, usedBytes db' user ≤
        usedBytes db user + if SameUser d.user user then d.mail.sizeBytes else 0 := by
  simp only [commitHeld, bind_eq_ok_iff] at done
  obtain ⟨⟨s, mailbox, uid⟩, locked, written⟩ := done
  obtain ⟨directory, -, s', inserted, raised⟩ := insertLocked_ok written
  obtain ⟨messages, owner, grown⟩ := takeLock_owned owned locked
  have sameOwners : owners db'.store = owners s := by
    rw [raiseNextUid_owners raised, insertMessage_owners inserted]
  have rows : db'.store.messages = db.store.messages ++
      [{ messageRow d.answers d.user d.mail mailbox uid with modSequence := s.modseq }] := by
    rw [raiseNextUid_messages raised, insertMessage_messages inserted, messages]
  refine ⟨directory, sameOwners ▸ grown, fun user => ?_⟩
  refine usedBytes_insert rows ?_ ?_ (sizeBytes_nonneg d.mail)
  · intro m member
    rw [Bool.eq_iff_iff, storedFor_iff, storedFor_iff, sameOwners]
    simp only [owner_takeLock locked member]
  · intro stored
    obtain ⟨sameTenant, tenant, other⟩ := storedFor_iff.mp stored
    rw [sameOwners] at other
    exact ⟨owner_unique owner other, sameTenant⟩

end

/-! ### Room -/

section
variable (deliveries : ι → Delivery) (user : User)

/-- What a delivery in some phase may still add to the bytes of a user. -/
def weight (i : ι) (phase : Phase) : Int :=
  if phase.inFlight ∧ SameUser (deliveries i).user user then (deliveries i).mail.sizeBytes else 0

/-- The sizes of the messages to the user that have passed the check and are not committed. -/
def reserved (s : Shared ι) : Int := ∑ i, weight deliveries user i (s.phase i)

def Within (db : Db) : Prop := ∀ quota ∈ quotaOf db user, usedBytes db user ≤ quota

/-- A message that passes the check leaves room for those that have passed it and are not
committed. -/
def LeavesRoom (s : Shared ι) (turn : ι × Bool) : Prop :=
  let d := deliveries turn.1
  turn.2 = true → s.phase turn.1 = .waiting → SameUser d.user user →
    quotaExceeded s.db d.user d.mail.sizeBytes = false →
    ∀ quota ∈ quotaOf s.db user,
      usedBytes s.db user + reserved deliveries user s + d.mail.sizeBytes ≤ quota

structure Reserved (s : Shared ι) : Prop where
  owned : ∀ i lock, s.phase i = .holding lock → lock.Owned (deliveries i).user s.db.store
  room : ∀ quota ∈ quotaOf s.db user,
    usedBytes s.db user + reserved deliveries user s ≤ quota

end

section
variable (deliveries : ι → Delivery) (user : User) (s : Shared ι)

omit [Fintype ι] [DecidableEq ι] in
theorem weight_nonneg (i : ι) (phase : Phase) : 0 ≤ weight deliveries user i phase := by
  unfold weight
  split
  · exact sizeBytes_nonneg _
  · exact Int.le_refl 0

theorem reserved_moveTo (i : ι) (phase : Phase) :
    reserved deliveries user (s.moveTo i phase) + weight deliveries user i (s.phase i) =
      reserved deliveries user s + weight deliveries user i phase := by
  change ∑ j, weight deliveries user j (Function.update s.phase i phase j) + _ =
    ∑ j, weight deliveries user j (s.phase j) + _
  rw [← Finset.sum_erase_add Finset.univ _ (Finset.mem_univ i),
    ← Finset.sum_erase_add Finset.univ (fun j => weight deliveries user j (s.phase j))
      (Finset.mem_univ i), Function.update_self]
  have others : ∑ j ∈ Finset.univ.erase i,
      weight deliveries user j (Function.update s.phase i phase j) =
        ∑ j ∈ Finset.univ.erase i, weight deliveries user j (s.phase j) := by
    apply Finset.sum_congr rfl
    intro j other
    rw [Function.update_of_ne (Finset.ne_of_mem_erase other)]
  rw [others]
  omega

omit [DecidableEq ι] in
theorem reserved_start (db : Db) : reserved deliveries user (Shared.start db) = 0 := by
  simp [reserved, Shared.start, weight, Phase.inFlight]

variable {deliveries user s}

/-- A delivery that goes on or ends without effect keeps the reservation. -/
theorem Reserved.moveTo {i : ι} {phase : Phase} (holds : Reserved deliveries user s)
    (owned : ∀ lock, phase = .holding lock → lock.Owned (deliveries i).user s.db.store)
    (fits : ∀ quota ∈ quotaOf s.db user,
      usedBytes s.db user + reserved deliveries user s + weight deliveries user i phase ≤
        quota + weight deliveries user i (s.phase i)) :
    Reserved deliveries user (s.moveTo i phase) where
  owned j lock held := by
    by_cases own : j = i
    · subst own
      have now : (s.moveTo j phase).phase j = phase := Function.update_self _ _ _
      rw [now] at held
      exact owned lock held
    · have still : (s.moveTo i phase).phase j = s.phase j := Function.update_of_ne own _ _
      rw [still] at held
      exact holds.owned j lock held
  room quota limit := by
    have moved := reserved_moveTo deliveries user s i phase
    have bound := fits quota limit
    change usedBytes s.db user + _ ≤ quota
    omega

theorem Reserved.ended (holds : Reserved deliveries user s) (i : ι) :
    Reserved deliveries user (s.moveTo i .ended) := by
  apply holds.moveTo
  · intro lock held
    cases held
  · intro quota limit
    have room := holds.room quota limit
    have old := weight_nonneg deliveries user i (s.phase i)
    have none : weight deliveries user i .ended = 0 := by simp [weight, Phase.inFlight]
    omega

theorem lockFor_owned (user : User) (target : Str) (s : Store) :
    (lockFor user target s).Owned user s := by
  unfold lockFor
  split
  next mb found => exact findMailbox_owner found
  · split
    · trivial
    · split
      next mb found => exact findMailbox_owner found
      · trivial

/-- What is committed moves from the reservation to the bytes of the user. -/
theorem Reserved.commit {i : ι} {lock : Lock} {db : Db} (holds : Reserved deliveries user s)
    (held : s.phase i = .holding lock) (done : commitHeld (deliveries i) lock s.db = .ok db) :
    Reserved deliveries user ({ s with db }.moveTo i .ended) := by
  obtain ⟨directory, grown, added⟩ := commitHeld_ok (holds.owned i lock held) done
  have quotas : quotaOf db user = quotaOf s.db user := by rw [quotaOf, directory, quotaOf]
  constructor
  · intro j lock' held'
    by_cases own : j = i
    · subst own
      have now : ({ s with db }.moveTo j .ended).phase j = Phase.ended := Function.update_self _ _ _
      rw [now] at held'
      cases held'
    · have still : ({ s with db }.moveTo i .ended).phase j = s.phase j :=
        Function.update_of_ne own _ _
      rw [still] at held'
      have owned := holds.owned j lock' held'
      cases lock' with
      | row mailbox uid => exact grown owned
      | newInbox => trivial
  · intro quota limit
    change quota ∈ quotaOf db user at limit
    rw [quotas] at limit
    have room := holds.room quota limit
    have more := added user
    have moved := reserved_moveTo deliveries user { s with db } i .ended
    have none : weight deliveries user i .ended = 0 := by simp [weight, Phase.inFlight]
    have before : weight deliveries user i (s.phase i) =
        if SameUser (deliveries i).user user then (deliveries i).mail.sizeBytes else 0 := by
      simp [weight, held, Phase.inFlight]
    have same : reserved deliveries user { s with db } = reserved deliveries user s := rfl
    change usedBytes db user + _ ≤ quota
    rw [same, none] at moved
    change _ + weight deliveries user i (s.phase i) = _ at moved
    omega

theorem step_reserved {turn : ι × Bool} (holds : Reserved deliveries user s)
    (room : LeavesRoom deliveries user s turn) :
    Reserved deliveries user (s.step deliveries turn) := by
  obtain ⟨i, through⟩ := turn
  cases through with
  | false => exact holds.ended i
  | true =>
    simp only [Shared.step, if_true]
    split
    next waiting =>
      cases exceeds : quotaExceeded s.db (deliveries i).user (deliveries i).mail.sizeBytes with
      | true => exact holds.ended i
      | false =>
        apply holds.moveTo
        · intro lock held
          cases held
        · intro quota limit
          have before : weight deliveries user i (s.phase i) = 0 := by
            simp [weight, waiting, Phase.inFlight]
          rw [before]
          by_cases same : SameUser (deliveries i).user user
          · have fits := room rfl waiting same exceeds quota limit
            simpa [weight, Phase.inFlight, same] using fits
          · have fits := holds.room quota limit
            simpa [weight, Phase.inFlight, same] using fits
    next passed =>
      split
      · exact holds
      · apply holds.moveTo
        · intro lock held
          cases held
          exact lockFor_owned _ _ _
        · intro quota limit
          have fits := holds.room quota limit
          have same : weight deliveries user i (.holding (lockFor (deliveries i).user
              (deliveries i).target s.db.store)) = weight deliveries user i (s.phase i) := by
            simp [weight, passed, Phase.inFlight]
          omega
    next lock held =>
      split
      next db done => exact holds.commit held done
      · exact holds.ended i
    · exact holds

end

/-- If each message that passes the check leaves room for those of the same user that are not
committed yet, the quota of the user is never exceeded. -/
theorem quota_kept (deliveries : ι → Delivery) (user : User) (db : Db) (turns : List (ι × Bool))
    (before : Within user db)
    (room : EachStep (Shared.step deliveries) (LeavesRoom deliveries user) (.start db) turns) :
    Throughout (Shared.step deliveries) (fun s => Within user s.db) (.start db) turns := by
  have initial : Reserved deliveries user (Shared.start db) := by
    constructor
    · intro i lock held
      cases held
    · intro quota limit
      rw [reserved_start, Int.add_zero]
      exact before quota limit
  clear before
  revert initial
  generalize Shared.start db = s at room ⊢
  intro initial
  have within : ∀ s : Shared ι, Reserved deliveries user s → Within user s.db := by
    intro s holds quota limit
    have bound := holds.room quota limit
    have nonneg : 0 ≤ reserved deliveries user s :=
      Finset.sum_nonneg fun i _ => weight_nonneg deliveries user i (s.phase i)
    omega
  induction turns generalizing s with
  | nil => exact within s initial
  | cons turn rest ih =>
    exact ⟨within s initial, ih _ room.2 (step_reserved initial room.1)⟩

/-! ### Two deliveries -/

def tightUser : User := ⟨7, 1, "b@x.org".toList, some 10⟩

/-- A user with two mailboxes and ten bytes. -/
def tightDb : Db :=
  ⟨⟨[tightUser], []⟩,
    ⟨⟨[⟨1, 7, 1, "INBOX".toList, 1, 1, 0, 0, 0⟩, ⟨2, 7, 1, "Lists".toList, 1, 1, 0, 0, 0⟩], [], 1⟩,
      by decide⟩, []⟩

/-- Two messages of eight bytes, for the two mailboxes. -/
def eightBytes (second : Bool) : Delivery where
  user := tightUser
  mail := ⟨"12345678".toList, parseMessage sampleConfig.formats none [] "12345678".toList, []⟩
  target := if second then "Lists".toList else "INBOX".toList
  answers := { sampleAnswers with rowId := if second then 1 else 0 }

instance (db : Db) : Decidable (Within tightUser db) :=
  inferInstanceAs (Decidable (∀ quota ∈ quotaOf db tightUser, usedBytes db tightUser ≤ quota))

instance (s : Shared Bool) (turn : Bool × Bool) :
    Decidable (LeavesRoom eightBytes tightUser s turn) :=
  inferInstanceAs (Decidable (_ → _ → _ → _ → ∀ quota ∈ quotaOf s.db tightUser, _))

/-- The second delivery starts when the first one is committed, and is dropped. -/
theorem quota_kept_in_turn :
    Throughout (Shared.step eightBytes) (fun s => Within tightUser s.db) (.start tightDb)
      [(false, true), (false, true), (false, true), (true, true)] :=
  quota_kept eightBytes tightUser tightDb _ (by decide)
    ⟨by decide, by decide, by decide, by decide, trivial⟩

/-- Both deliveries pass the check, and then both are committed. -/
theorem quota_overrun :
    Within tightUser tightDb ∧
      ¬Throughout (Shared.step eightBytes) (fun s => Within tightUser s.db) (.start tightDb)
        [(false, true), (true, true), (false, true), (true, true), (false, true), (true, true)] := by
  constructor
  · decide
  · intro kept
    have last := throughout_iff.mp kept _ [] (List.append_nil _).symm
    revert last
    decide

end Expresso.Ingest
