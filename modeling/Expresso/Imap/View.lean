import Expresso.Imap.Dispatch
import Expresso.Imap.Expunge
import Expresso.Replica.Mirror
import Expresso.Transition.Runs

/-! What a client knows of the selected mailbox from the responses it has processed, while other
sessions append and remove messages. -/

namespace Expresso.Imap
open Text Sql Replica Transition

/-! ### The client -/

/-- The data items of a `FETCH`. -/
inductive DataItem (β : Type) where
  | uid (n : Nat)
  | modSeq (n : Int)
  | flags (flags : List Str)
  | other (item : β)

/-- For each sequence number the UID, once a response has shown it. -/
abbrev View := List (Option Int)

section
variable {β : Type}

def DataItem.isUid : DataItem β → Bool
  | uid _ => true
  | modSeq _ | flags _ | other _ => false

def showsUid (items : List (DataItem β)) : Bool := items.any (·.isUid)

/-- A number above the count is not used. -/
def receive (view : View) : Response (DataItem β) → View
  | .existing n => resize n view
  | .fetch n row items => if showsUid items then view.set (n - 1) (some row.uid) else view
  | .expunge n => view.eraseIdx (n - 1)
  | .ok _ _ | .no _ => view

def receiveReply (view : View) : Reply (DataItem β) → View
  | .response response => receive view response
  | _ => view

/-- A `FETCH` with the items it asks for. -/
structure FetchRequest (β : Type) where
  set : SequenceSet
  uid : Bool
  changedsince : Option Nat
  wUid : Bool
  wModseq : Bool
  wFlags : Bool
  setSeen : Bool
  others : Message → List β

def FetchRequest.plan (r : FetchRequest β) : FetchPlan (DataItem β) where
  wUid := r.wUid
  wModseq := r.wModseq
  wFlags := r.wFlags
  setSeen := r.setSeen
  uidItem := .uid
  modSeqItem := .modSeq
  flagsItem := .flags
  others := fun m => (r.others m).map .other

end

/-! ### Runs -/

/-- The tables, a session with its mailbox, and what its client knows. -/
structure Follower where
  store : Store
  sel : SelectedMailbox
  view : View

inductive Occurrence (β : Type) where
  /-- by another session -/
  | appended (mailbox : Uuid) (draft : Draft)
  /-- by another session -/
  | removed (selected : Message → Bool)
  /-- a `NOOP`, or a tick of an `IDLE` -/
  | poll
  | fetch (request : FetchRequest β)

/-- The mailbox with the row, if both are accepted. -/
def appendElsewhere (mailbox : Uuid) (draft : Draft) (s : Store) : Option (Mailbox × Store) := do
  let dst ← s.mailboxes.find? fun mb => mb.id = mailbox
  let (s', _) ← appendMessage dst dst.tenantId draft s
  some (dst, s')

section
variable {β : Type} (tenantId : Uuid)

namespace Follower

def step (k : Follower) : Occurrence β → Follower
  | .appended mailbox draft =>
      { k with store := ((appendElsewhere mailbox draft k.store).map (·.2)).getD k.store }
  | .removed selected => { k with store := (deleteMessages selected k.store).getD k.store }
  | .poll =>
      let (sel, replies) : SelectedMailbox × List (Reply (DataItem β)) :=
        Imap.poll .flags k.sel tenantId k.store
      { k with sel, view := replies.foldl receiveReply k.view }
  | .fetch r =>
      let (store, responses) :=
        cmdFetch r.set r.plan r.uid k.sel tenantId r.changedsince k.store
      { k with store, view := responses.foldl receive k.view }

variable (k : Follower)

def rows : List Message := mailboxRows k.sel.mailboxId tenantId k.store

/-- The messages that a command with one sequence number is about. -/
def resolve (n : Nat) : List Message :=
  (numberedRows [.single (.value n)] false k.sel tenantId (fun _ => true) k.store).map (·.1)

/-- The server and the client agree on the count, and on the message of every number that the
client can use. -/
structure InStep : Prop where
  count : k.view.length = k.sel.existing
  same : ∀ (n : Nat) (uid : Int), 1 ≤ n → k.view[n - 1]? = some (some uid) →
    (k.resolve tenantId n).map (·.uid) = [uid]

/-- All messages up to the last that the client has a UID for. -/
def UpToKnown (p : Message → Prop) : Prop :=
  ∀ (i : Nat) (uid : Int), k.view[i]? = some (some uid) → ∀ m ∈ (k.rows tenantId).take (i + 1), p m

end Follower

/-- The rows that a `FETCH` numbers, and the numbers it answers. -/
def FetchRequest.counts (r : FetchRequest β) (m : Message) : Bool :=
  (!r.uid || uidClause (sequenceRanges r.set u32Max) m) && changedSince r.changedsince m

def FetchRequest.answers (r : FetchRequest β) (existing n : Nat) : Bool :=
  r.uid || seqClause (sequenceRanges r.set existing) n

/-- Other sessions remove and insert messages only after those that the client knows, and a
`FETCH` that shows UIDs leaves no row out before one that it numbers. -/
def Undisturbed (k : Follower) : Occurrence β → Prop
  | .appended mailbox draft => ∀ dst s', appendElsewhere mailbox draft k.store = some (dst, s') →
      dst.id = k.sel.mailboxId → dst.tenantId = tenantId →
        k.UpToKnown tenantId fun m => m.receivedAt ≤ draft.now
  | .removed selected => k.UpToKnown tenantId fun m => selected m = false
  | .poll => True
  | .fetch r => (r.uid || r.wUid) = true →
      ∀ n, r.answers k.sel.existing n = true →
        n ≤ ((k.rows tenantId).filter r.counts).length → n ≤ k.view.length →
        ∀ m ∈ (k.rows tenantId).take n, r.counts m = true

end

/-! ### What the server resolves a number to -/

private theorem filter_zipIdx_eq {α : Type} (rows : List α) (first i : Nat) :
    ((rows.zipIdx first).filter fun row => row.2 = first + i).map (·.1) = rows[i]?.toList := by
  induction rows generalizing first i with
  | nil => rfl
  | cons row rest ih =>
    rw [List.zipIdx_cons]
    cases i with
    | zero =>
      have later : ((rest.zipIdx (first + 1)).filter fun row => row.2 = first + 0) = [] := by
        apply List.filter_eq_nil_iff.mpr
        intro entry member
        have above := List.le_snd_of_mem_zipIdx member
        simp only [decide_eq_true_eq]
        omega
      rw [List.filter_cons_of_pos (by simp), later]
      rfl
    | succ i =>
      rw [List.filter_cons_of_neg (by simp), List.getElem?_cons_succ, ← ih (first + 1) i]
      congr 2
      funext entry
      rw [Nat.add_right_comm, Nat.add_assoc]

section
variable {β : Type} {tenantId : Uuid} {k : Follower}

theorem resolve_eq {n : Nat} (positive : 1 ≤ n) (within : n ≤ k.sel.existing) :
    k.resolve tenantId n = ((k.rows tenantId)[n - 1]?).toList := by
  have range : sequenceRanges [.single (.value n)] k.sel.existing = [(n, n)] := by
    simp only [sequenceRanges, seqOrUidVal, List.map_cons, List.map_nil]
    rw [max_eq_left positive, min_eq_left within]
  have clause : ∀ seq, seqClause [(n, n)] seq = decide (seq = 1 + (n - 1)) := by
    intro seq
    simp only [seqClause, List.any_cons, List.any_nil, Bool.or_false, ← Bool.decide_and]
    congr 1
    apply propext
    omega
  have all : ((mailboxRows k.sel.mailboxId tenantId k.store).filter fun _ => true) =
      k.rows tenantId := List.filter_eq_self.mpr fun _ _ => rfl
  unfold Follower.resolve
  rw [numberedRows_seq, range, all]
  simp only [clause]
  exact filter_zipIdx_eq (k.rows tenantId) 1 (n - 1)

theorem inStep_iff (count : k.view.length = k.sel.existing) :
    k.InStep tenantId ↔ Mirrors (·.uid) k.view (k.rows tenantId) := by
  have resolved : ∀ (i : Nat) (uid : Int), k.view[i]? = some (some uid) →
      ((k.resolve tenantId (i + 1)).map (·.uid) = [uid] ↔
        (k.rows tenantId)[i]?.map (·.uid) = some uid) := by
    intro i uid known
    have inside := (List.getElem?_eq_some_iff.mp known).1
    rw [resolve_eq (by omega) (by omega), Nat.add_sub_cancel]
    cases (k.rows tenantId)[i]? <;> simp
  constructor
  · intro inStep i uid known
    exact (resolved i uid known).mp (inStep.same (i + 1) uid (by omega) known)
  · intro mirrors
    refine ⟨count, ?_⟩
    intro n uid positive known
    have agreed := (resolved (n - 1) uid known).mpr (mirrors (n - 1) uid known)
    rwa [Nat.sub_add_cancel positive] at agreed

theorem rows_distinct (k : Follower) : ((k.rows tenantId).map (·.uid)).Nodup := by
  have perm := List.perm_insertionSort (fun a b : Message => a.receivedAt ≤ b.receivedAt)
    (k.store.messages.filter (inMailbox k.sel.mailboxId tenantId))
  refine ((perm.map (·.uid)).nodup_iff).mpr ?_
  have keys : ((k.store.messages.filter (inMailbox k.sel.mailboxId tenantId)).map
      fun m => (m.mailboxId, m.uid)).Nodup :=
    k.store.constraints.2.2.2.1.sublist (List.filter_sublist.map _)
  apply List.Nodup.map_on _ keys.of_map
  intro a first b second same
  apply List.inj_on_of_nodup_map keys first second
  have here := (List.mem_filter.mp first).2
  have here' := (List.mem_filter.mp second).2
  simp only [inMailbox, Bool.and_eq_true, decide_eq_true_eq] at here here'
  rw [here.1, here'.1, same]

/-! ### One occurrence -/

theorem removed_iff (inStep : k.InStep tenantId) (selected : Message → Bool) :
    (k.step tenantId (.removed selected : Occurrence β)).InStep tenantId ↔
      k.UpToKnown tenantId fun m => selected m = false := by
  obtain ⟨s', done⟩ := deleteMessages_accepted selected k.store
  have result : k.step tenantId (.removed selected : Occurrence β) = { k with store := s' } := by
    simp only [Follower.step, done, Option.getD_some]
  have left : mailboxRows k.sel.mailboxId tenantId s' =
      (k.rows tenantId).filter fun m => !selected m := by
    unfold Follower.rows mailboxRows
    rw [deleteMessages_messages done, filter_orderBy, List.filter_filter, List.filter_filter]
    simp only [Bool.and_comm]
  have mirrors := (inStep_iff inStep.count).mp inStep
  rw [result, inStep_iff (k := { k with store := s' }) inStep.count]
  change Mirrors (·.uid) k.view (mailboxRows k.sel.mailboxId tenantId s') ↔ _
  rw [left, mirrors_filter_iff mirrors (rows_distinct k)]
  simp only [Follower.UpToKnown, Bool.not_eq_true']

theorem appendElsewhere_some {mailbox : Uuid} {draft : Draft} {s s' : Store} {dst : Mailbox}
    (appended : appendElsewhere mailbox draft s = some (dst, s')) :
    ∃ m : Message, m.mailboxId = dst.id ∧ m.tenantId = dst.tenantId ∧ m.receivedAt = draft.now ∧
      s'.messages = s.messages ++ [m] := by
  simp only [appendElsewhere, appendMessage, Option.bind_eq_bind, Option.bind_eq_some_iff,
    Option.map_eq_some_iff] at appended
  obtain ⟨dst', _, ⟨_, _⟩, ⟨s'', inserted, same⟩, result⟩ := appended
  cases same
  cases result
  refine ⟨_, ?_, ?_, ?_, by rw [commit_some inserted, messagesSyncMailboxStats_eq]⟩ <;> rfl

theorem appended_iff (inStep : k.InStep tenantId) (mailbox : Uuid) (draft : Draft) :
    (k.step tenantId (.appended mailbox draft : Occurrence β)).InStep tenantId ↔
      Undisturbed tenantId k (.appended mailbox draft : Occurrence β) := by
  have mirrors := (inStep_iff inStep.count).mp inStep
  simp only [Undisturbed, Follower.step]
  cases result : appendElsewhere mailbox draft k.store with
  | none => simpa using inStep
  | some found =>
    obtain ⟨dst, s'⟩ := found
    obtain ⟨m, box, tenant, received, messages⟩ := appendElsewhere_some result
    simp only [Option.map_some, Option.getD_some]
    rw [inStep_iff (k := { k with store := s' }) inStep.count]
    change Mirrors (·.uid) k.view (mailboxRows k.sel.mailboxId tenantId s') ↔ _
    have mine : inMailbox k.sel.mailboxId tenantId m = true ↔
        dst.id = k.sel.mailboxId ∧ dst.tenantId = tenantId := by
      simp only [inMailbox, box, tenant, Bool.and_eq_true, decide_eq_true_eq]
    by_cases here : inMailbox k.sel.mailboxId tenantId m = true
    · have rows' : mailboxRows k.sel.mailboxId tenantId s' =
          ((k.rows tenantId).filter fun x => x.receivedAt ≤ m.receivedAt) ++
            m :: (k.rows tenantId).filter fun x => m.receivedAt < x.receivedAt := by
        rw [mailboxRows, messages, List.filter_append, List.filter_cons_of_pos here, List.filter_nil]
        exact orderBy_append (·.receivedAt) _ m
      have distinct := @rows_distinct tenantId { k with store := s' }
      change ((mailboxRows k.sel.mailboxId tenantId s').map (·.uid)).Nodup at distinct
      rw [rows'] at distinct ⊢
      rw [mirrors_insert_sorted_iff mirrors (orderBy_sorted Message.receivedAt _) distinct, received]
      constructor
      · intro known dst' s'' same _ _
        exact known
      · intro known
        exact known dst s' rfl (mine.mp here).1 (mine.mp here).2
    · have rows' : mailboxRows k.sel.mailboxId tenantId s' = k.rows tenantId := by
        rw [mailboxRows, messages, List.filter_append, List.filter_cons_of_neg here, List.filter_nil,
          List.append_nil]
        rfl
      rw [rows']
      refine iff_of_true mirrors ?_
      intro dst' s'' same atBox atTenant
      cases same
      exact absurd (mine.mpr ⟨atBox, atTenant⟩) here

/-- A poll tells the count and no UID. -/
theorem poll_inStep (inStep : k.InStep tenantId) :
    (k.step tenantId (.poll : Occurrence β)).InStep tenantId := by
  have quiet : ∀ (view : View) (rows : List (Message × Nat)),
      (rows.map fun row => (.response (.fetch row.2 row.1 [.flags row.1.flags]) :
        Reply (DataItem β))).foldl receiveReply view = view := by
    intro view rows
    induction rows with
    | nil => rfl
    | cons row rest ih => exact ih
  let sel' := (Imap.poll DataItem.flags k.sel tenantId k.store :
    SelectedMailbox × List (Reply (DataItem β))).1
  have view : (k.step tenantId (.poll : Occurrence β)).view = resize sel'.existing k.view := by
    simp only [Follower.step, Imap.poll, List.foldl_append, quiet, sel']
    split
    · next same =>
      rw [same, ← inStep.count, resize_length]
      rfl
    · rfl
  have mirrors := (inStep_iff inStep.count).mp inStep
  rw [inStep_iff (by rw [view, length_resize]; rfl), view]
  exact mirrors.resize sel'.existing

theorem applyImplicitSeen_identity (setSeen : Bool) (m : Message) (s : Store) :
    (applyImplicitSeen setSeen m s).1.messages.map identity = s.messages.map identity := by
  unfold applyImplicitSeen
  split
  · rfl
  · cases updated : updateMessages (fun x => if x.id = m.id && !x.flags.contains seenFlag
        then some { x with flags := x.flags ++ [seenFlag] } else none) s with
    | none => rfl
    | some s' =>
      rw [Option.getD_some, commit_some updated, messagesSyncMailboxStats_eq]
      apply changeRows_identity
      intro x x' changed
      split at changed
      · cases changed
        rfl
      · cases changed

theorem fetchLoop_identity (plan : FetchPlan (DataItem β)) (rows : List (Message × Nat))
    (s : Store) : (fetchLoop plan rows s).1.messages.map identity = s.messages.map identity := by
  induction rows generalizing s with
  | nil => rfl
  | cons row rest ih =>
    simp only [fetchLoop]
    exact (ih _).trans (applyImplicitSeen_identity plan.setSeen row.1 s)

/-- The items of a plan that builds each of them as what it is. -/
theorem showsUid_fetchItems {plan : FetchPlan (DataItem β)} {m : Message}
    (uidItem : ∀ n, (plan.uidItem n).isUid = true)
    (modSeqItem : ∀ n, (plan.modSeqItem n).isUid = false)
    (flagsItem : ∀ flags, (plan.flagsItem flags).isUid = false)
    (others : (plan.others m).any (·.isUid) = false) (flags : List Str) (seenWasSet : Bool) :
    showsUid (fetchItems plan m flags seenWasSet) = plan.wUid := by
  have changes : ∀ b : Bool, (if b then [plan.modSeqItem m.modSequence] else []).any (·.isUid) =
      false := by
    intro b
    cases b <;> simp [modSeqItem]
  have marks : ∀ b : Bool, (if b then [plan.flagsItem flags] else []).any (·.isUid) = false := by
    intro b
    cases b <;> simp [flagsItem]
  unfold showsUid fetchItems
  rw [List.any_append, List.any_append, List.any_append, changes, marks, others]
  cases plan.wUid <;> simp [uidItem]

/-- The client is told the UID of every row, or of none. -/
theorem foldl_receive_fetchLoop (r : FetchRequest β) (view : View) (rows : List (Message × Nat))
    (s : Store) (small : ∀ row ∈ rows, nonZeroU32 row.2 = row.2) :
    (fetchLoop (fetchPlan r.plan r.uid r.changedsince) rows s).2.foldl receive view =
      if r.uid || r.wUid then fill view (rows.map fun row => (row.2 - 1, row.1.uid)) else view := by
  induction rows generalizing view s with
  | nil =>
    split <;> rfl
  | cons row rest ih =>
    have number := small row List.mem_cons_self
    have later := fun view s => ih view s fun other member =>
      small other (List.mem_cons_of_mem row member)
    simp only [fetchLoop]
    generalize applyImplicitSeen (fetchPlan r.plan r.uid r.changedsince).setSeen row.1 s = seen
    have others : (r.plan.others row.1).any (·.isUid) = false := by
      simp [FetchRequest.plan, DataItem.isUid]
    have shows : showsUid (fetchItems (fetchPlan r.plan r.uid r.changedsince) row.1 seen.2.1
        seen.2.2) = (fetchPlan r.plan r.uid r.changedsince).wUid := by
      apply showsUid_fetchItems
      · exact fun _ => rfl
      · exact fun _ => rfl
      · exact fun _ => rfl
      · exact others
    change _ = (r.uid || r.wUid) at shows
    generalize fetchItems (fetchPlan r.plan r.uid r.changedsince) row.1 seen.2.1 seen.2.2 = items
      at shows ⊢
    cases told : r.uid || r.wUid with
    | false =>
      rw [told] at shows later
      simp only [Bool.false_eq_true, if_false] at later ⊢
      split
      · exact later view seen.1
      · rw [List.foldl_cons, receive, shows]
        exact later view seen.1
    | true =>
      rw [told] at shows later
      simp only [if_true] at later ⊢
      have some_items : items.isEmpty = false := by
        cases items with
        | nil => cases shows
        | cons => rfl
      rw [some_items, if_neg Bool.false_ne_true, List.foldl_cons, receive, shows, number, if_pos rfl,
        later]
      rfl

theorem numberedRows_fetch (r : FetchRequest β) (k : Follower) :
    numberedRows r.set r.uid k.sel tenantId (changedSince r.changedsince) k.store =
      (rowNumbered ((k.rows tenantId).filter r.counts)).filter fun row =>
        r.answers k.sel.existing row.2 := by
  unfold FetchRequest.answers FetchRequest.counts
  cases r.uid with
  | true =>
    rw [numberedRows_uid]
    simp only [Bool.not_true, Bool.false_or, Bool.true_or, List.filter_true]
    rfl
  | false =>
    rw [numberedRows_seq]
    simp only [Bool.not_false, Bool.true_or, Bool.true_and, Bool.false_or]
    rfl

/-- The number of a row in what the `FETCH` numbers is its number in the mailbox exactly where all
rows up to there are numbered. -/
theorem numbered_right_iff {r : FetchRequest β} {row : Message} {n : Nat}
    (numbered : (row, n) ∈ rowNumbered ((k.rows tenantId).filter r.counts)) :
    (k.rows tenantId)[n - 1]?.map (·.uid) = some row.uid ↔
      ∀ m ∈ (k.rows tenantId).take n, r.counts m = true := by
  obtain ⟨positive, found⟩ := mem_rowNumbered.mp numbered
  have inside := (List.getElem?_eq_some_iff.mp found).1
  have listed := (List.mem_filter.mp (List.mem_of_getElem? found)).1
  have distinct := @rows_distinct tenantId k
  have place := filter_position_iff (distinct.of_map _) inside
  rw [Nat.sub_add_cancel positive] at place
  rw [← place, found]
  constructor
  · intro shows
    obtain ⟨m, here, same⟩ := Option.map_eq_some_iff.mp shows
    have equal : m = row :=
      List.inj_on_of_nodup_map distinct (List.mem_of_getElem? here) listed same
    rw [here, equal]
  · intro same
    rw [← same]
    rfl

theorem fetch_iff (inStep : k.InStep tenantId) (r : FetchRequest β) :
    (k.step tenantId (.fetch r)).InStep tenantId ↔ Undisturbed tenantId k (.fetch r) := by
  have mirrors := (inStep_iff inStep.count).mp inStep
  let numbered := (rowNumbered ((k.rows tenantId).filter r.counts)).filter fun row =>
    r.answers k.sel.existing row.2
  let told := numbered.map fun row => (row.2 - 1, row.1.uid)
  have small : ∀ row ∈ numbered, nonZeroU32 row.2 = row.2 := by
    intro row member
    obtain ⟨positive, found⟩ := mem_rowNumbered.mp (List.mem_filter.mp member).1
    have inside := (List.getElem?_eq_some_iff.mp found).1
    have fewer := List.length_filter_le r.counts (k.rows tenantId)
    have bound := @mailboxRows_length k.store k.sel.mailboxId tenantId
    apply nonZeroU32_of_small positive
    simp only [Follower.rows] at *
    omega
  have view : (k.step tenantId (.fetch r)).view =
      if r.uid || r.wUid then fill k.view told else k.view := by
    simp only [Follower.step, cmdFetch, numberedRows_fetch]
    exact foldl_receive_fetchLoop r k.view numbered k.store small
  have rows : ((k.step tenantId (.fetch r)).rows tenantId).map (·.uid) =
      (k.rows tenantId).map (·.uid) := by
    have same := mailboxRows_identity k.sel.mailboxId tenantId
      (fetchLoop_identity (fetchPlan r.plan r.uid r.changedsince)
        (numberedRows r.set r.uid k.sel tenantId (changedSince r.changedsince) k.store) k.store)
    have uids := congrArg (List.map fun row => row.2.2.2.1) same
    rw [List.map_map, List.map_map] at uids
    exact uids
  have distinct : (told.map (·.1)).Nodup := by
    have sub : (numbered.map (·.2)).Sublist
        (List.range' 1 ((k.rows tenantId).filter r.counts).length) := by
      rw [← rowNumbered_map_snd]
      exact List.filter_sublist.map _
    have numbers : ((numbered.map (·.2)).map (· - 1)).Nodup := by
      apply List.Nodup.map_on _ ((List.nodup_range' 1).sublist sub)
      intro x first y second same
      have low := (List.mem_range'_1.mp (sub.subset first)).1
      have low' := (List.mem_range'_1.mp (sub.subset second)).1
      omega
    rwa [List.map_map] at numbers ⊢
  have count : (k.step tenantId (.fetch r)).view.length =
      (k.step tenantId (.fetch r)).sel.existing := by
    rw [view]
    split
    · rw [length_fill]
      exact inStep.count
    · exact inStep.count
  rw [inStep_iff count, mirrors_congr rows, view]
  simp only [Undisturbed]
  split
  · next shown =>
    rw [mirrors_fill_iff mirrors distinct]
    constructor
    · intro right _ n answered inside known m member
      have positive : 1 ≤ n := by
        by_contra zero
        rw [Nat.lt_one_iff.mp (not_le.mp zero)] at member
        cases member
      have bound : n - 1 < ((k.rows tenantId).filter r.counts).length := by omega
      have row : (((k.rows tenantId).filter r.counts)[n - 1], n) ∈
          rowNumbered ((k.rows tenantId).filter r.counts) :=
        mem_rowNumbered.mpr ⟨positive, List.getElem?_eq_getElem bound⟩
      have chosen : (((k.rows tenantId).filter r.counts)[n - 1], n) ∈ numbered :=
        List.mem_filter.mpr ⟨row, answered⟩
      have listed := List.mem_map_of_mem (f := fun row : Message × Nat => (row.2 - 1, row.1.uid))
        chosen
      exact (numbered_right_iff row).mp (right _ listed (by simp only; omega)) m member
    · intro first entry listed inside
      obtain ⟨⟨row, n⟩, among, rfl⟩ := List.mem_map.mp listed
      obtain ⟨row', answered⟩ := List.mem_filter.mp among
      obtain ⟨positive, found⟩ := mem_rowNumbered.mp row'
      have bound := (List.getElem?_eq_some_iff.mp found).1
      simp only at inside
      exact (numbered_right_iff row').mpr (first shown n answered (by omega) (by omega))
  · next hidden => exact iff_of_true mirrors fun shown => absurd shown hidden

theorem step_inStep_iff (a : Occurrence β) (inStep : k.InStep tenantId) :
    Undisturbed tenantId k a ↔ (k.step tenantId a).InStep tenantId := by
  cases a with
  | appended mailbox draft => exact (appended_iff inStep mailbox draft).symm
  | removed selected => exact (removed_iff inStep selected).symm
  | poll => exact iff_of_true trivial (poll_inStep inStep)
  | fetch r => exact (fetch_iff inStep r).symm

/-- After `SELECT` the client has the count, and no UID. -/
def Follower.fresh (s : Store) (sel : SelectedMailbox) : Follower :=
  ⟨s, sel, List.replicate sel.existing none⟩

theorem fresh_inStep (s : Store) (sel : SelectedMailbox) :
    (Follower.fresh s sel).InStep tenantId := by
  rw [inStep_iff List.length_replicate]
  exact mirrors_replicate _ _

/-- For every order of what happens. -/
theorem view_inStep_iff (s : Store) (sel : SelectedMailbox) (occurrences : List (Occurrence β)) :
    EachStep (Follower.step tenantId) (Undisturbed tenantId) (Follower.fresh s sel) occurrences ↔
      Throughout (Follower.step tenantId) (Follower.InStep tenantId) (Follower.fresh s sel)
        occurrences :=
  eachStep_iff_throughout (fun _ a inStep => step_inStep_iff a inStep) (fresh_inStep s sel)
    occurrences

/-! ### `NOOP` and `IDLE` -/

/-- What the client sees of an `IDLE` during which nothing else happens is what it sees of as many
polls. -/
theorem handleIdle_polls {x : Session} {ticks more : Nat} (selected : x.selected = some k.sel)
    (tenant : x.tenantId = some tenantId) (inTime : ticks + more < timeoutTicks) :
    let idled : Session × List (Reply (DataItem β)) := handleIdle .flags ticks more x k.store
    let k' := (List.replicate more (.poll : Occurrence β)).foldl (Follower.step tenantId) k
    idled.1.selected = some k'.sel ∧ idled.2.foldl receiveReply k.view = k'.view := by
  induction more generalizing k x ticks with
  | zero => exact ⟨selected, rfl⟩
  | succ more ih =>
    have early : ¬ timeoutTicks ≤ ticks + 1 := by omega
    let polled : SelectedMailbox × List (Reply (DataItem β)) :=
      Imap.poll .flags k.sel tenantId k.store
    have later := @ih (k.step tenantId (.poll : Occurrence β)) { x with selected := some polled.1 }
      (ticks + 1) rfl tenant (by omega)
    have unfolded : (handleIdle .flags ticks (more + 1) x k.store :
        Session × List (Reply (DataItem β))) =
        let rest := handleIdle .flags (ticks + 1) more { x with selected := some polled.1 } k.store
        (rest.1, polled.2 ++ rest.2) := by
      rw [handleIdle, if_neg early]
      simp only [pollSession, selected, tenant]
      rfl
    rw [unfolded]
    simp only [List.replicate_succ, List.foldl_cons, List.foldl_append]
    exact later

end

/-! ### A removal by another session -/

/-- `FETCH 1:* (UID)` -/
def uidsRequest : FetchRequest Unit where
  set := [.range (.value 1) .asterisk]
  uid := false
  changedsince := none
  wUid := true
  wModseq := false
  wFlags := false
  setSeen := false
  others _ := []

/-- Another session removes the first of two messages. The next `NOOP` reports the count, and the
client still has the UID of the first message for the number 1. -/
theorem view_out_of_step :
    ¬ Throughout (Follower.step 1) (Follower.InStep 1) (Follower.fresh inboxOfTwo selectedOfTwo)
      [.fetch uidsRequest, .removed fun m => m.id = 10, .poll] := by
  intro holds
  have last := throughout_iff.mp holds _ [] (List.append_nil _).symm
  have same := last.same 1 1 (by decide) (by decide)
  revert same
  decide

end Expresso.Imap
