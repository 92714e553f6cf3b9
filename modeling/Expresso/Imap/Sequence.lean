import Expresso.Imap.Session
import Mathlib.Data.List.InsertIdx

/-! Sequence numbers. A `FETCH` response should name its message by its place in the whole
mailbox, and the `EXPUNGE` responses of a `MOVE`, applied one after the other, should
remove the moved messages from the client's list. -/

namespace Expresso.Imap
open Text Sql

/-- What a client does with `EXPUNGE` responses. -/
def applyExpunges {α : Type} : List α → List Nat → List α
  | messages, [] => messages
  | messages, n :: rest => applyExpunges (messages.eraseIdx (n - 1)) rest

/-- The numbers of the `EXPUNGE` responses, in order. -/
def expungesOf {Item : Type} (responses : List (Response Item)) : List Nat :=
  responses.filterMap fun
    | .expunge n => some n
    | _ => none

/-- A `FETCH` response names the message at its number in the mailbox, given by its ids. -/
def NamesPosition {Item : Type} (mailbox : List Uuid) : Response Item → Prop
  | .fetch n row _ => 1 ≤ n ∧ mailbox[n - 1]? = some row.id
  | _ => True

/-! ### The mailbox -/

section Mailbox

variable {s : Store} {mailboxId tenantId : Uuid}

theorem mailboxRows_nodup : ((mailboxRows mailboxId tenantId s).map (·.id)).Nodup := by
  have perm := List.perm_insertionSort (fun a b : Message => a.receivedAt ≤ b.receivedAt)
    (s.messages.filter (inMailbox mailboxId tenantId))
  refine ((perm.map (·.id)).nodup_iff).mpr ?_
  exact s.constraints.2.2.1.sublist (List.filter_sublist.map _)

theorem mem_mailboxRows {m : Message} :
    m ∈ mailboxRows mailboxId tenantId s ↔
      m ∈ s.messages ∧ inMailbox mailboxId tenantId m = true := by
  rw [mailboxRows, mem_orderBy, List.mem_filter]

/-- The trigger's `COUNT(*)::INT` keeps mailboxes below 2³¹ messages. -/
theorem mailboxRows_length : (mailboxRows mailboxId tenantId s).length < 2 ^ 31 := by
  have count : (mailboxRows mailboxId tenantId s).length ≤
      (s.messages.filter fun m => m.mailboxId = mailboxId).length := by
    rw [mailboxRows, orderBy, List.length_insertionSort]
    apply List.Sublist.length_le
    have split : s.messages.filter (inMailbox mailboxId tenantId) =
        (s.messages.filter fun m => m.mailboxId = mailboxId).filter
          fun m => m.tenantId = tenantId := by
      rw [List.filter_filter]
      congr 1
      funext m
      simp [inMailbox, Bool.and_comm]
    rw [split]
    exact List.filter_sublist
  by_cases known : ∃ mb ∈ s.mailboxes, mb.id = mailboxId
  · obtain ⟨mb, member, rfl⟩ := known
    exact count.trans_lt (s.constraints.2.2.2.2.2.1 mb member)
  · have none_here : (s.messages.filter fun m => m.mailboxId = mailboxId) = [] := by
      apply List.filter_eq_nil_iff.mpr
      intro m member here
      simp only [decide_eq_true_eq] at here
      obtain ⟨mb, among, same⟩ := List.mem_map.mp (s.constraints.2.2.2.2.1 m member)
      exact known ⟨mb, among, same.trans here⟩
    rw [none_here] at count
    simp only [List.length_nil] at count
    omega

end Mailbox

/-- The rows that a condition selects of the mailbox. -/
theorem orderBy_filter_mailbox (sel : SelectedMailbox) (tenantId : Uuid) (p : Message → Bool)
    (s : Store) :
    orderBy (·.receivedAt) (s.messages.filter fun m => inMailbox sel.mailboxId tenantId m && p m) =
      (mailboxRows sel.mailboxId tenantId s).filter p := by
  rw [mailboxRows, filter_orderBy, List.filter_filter]
  congr 2
  funext m
  exact Bool.and_comm _ _

theorem numberedRows_uid (set : SequenceSet) (sel : SelectedMailbox) (tenantId : Uuid)
    (extra : Message → Bool) (s : Store) :
    numberedRows set true sel tenantId extra s =
      rowNumbered ((mailboxRows sel.mailboxId tenantId s).filter fun m =>
        uidClause (sequenceRanges set u32Max) m && extra m) := by
  rw [← orderBy_filter_mailbox]
  simp only [numberedRows, if_true, Bool.and_assoc]

theorem numberedRows_seq (set : SequenceSet) (sel : SelectedMailbox) (tenantId : Uuid)
    (extra : Message → Bool) (s : Store) :
    numberedRows set false sel tenantId extra s =
      (rowNumbered ((mailboxRows sel.mailboxId tenantId s).filter extra)).filter fun row =>
        seqClause (sequenceRanges set sel.existing) row.2 := by
  rw [← orderBy_filter_mailbox]
  simp only [numberedRows, Bool.false_eq_true, if_false]

theorem nonZeroU32_of_small {n : Nat} (positive : 1 ≤ n) (small : n < 2 ^ 32) :
    nonZeroU32 n = n := by
  simp only [nonZeroU32]
  have same : ((n : Int) % 2 ^ 32).toNat = n := by omega
  rw [same, if_neg (by omega)]

/-! ### Selections numbered on their own -/

section Selection

variable {mailbox : List Message} {p : Message → Bool} {Item : Type}

/-- A row of the mailbox, named by its number in a selection of it. -/
theorem names_iff (distinct : (mailbox.map (·.id)).Nodup) (small : mailbox.length < 2 ^ 31)
    {row : Message} {n : Nat} {items : List Item}
    (numbered : (row, n) ∈ rowNumbered (mailbox.filter p)) :
    NamesPosition (mailbox.map (·.id)) (.fetch (nonZeroU32 n) row items) ↔
      ∀ m ∈ mailbox.take n, p m = true := by
  obtain ⟨positive, found⟩ := mem_rowNumbered.mp numbered
  have inside : n - 1 < (mailbox.filter p).length := (List.getElem?_eq_some_iff.mp found).1
  have bound := List.length_filter_le p mailbox
  have listed : row ∈ mailbox := (List.mem_filter.mp (List.mem_of_getElem? found)).1
  have place := filter_position_iff (distinct.of_map _) inside
  rw [show n - 1 + 1 = n by omega] at place
  rw [← place, found, NamesPosition, nonZeroU32_of_small positive (by omega), List.getElem?_map]
  constructor
  · rintro ⟨_, same⟩
    obtain ⟨m, here, ids⟩ := Option.map_eq_some_iff.mp same
    have equal : m = row :=
      List.inj_on_of_nodup_map distinct (List.mem_of_getElem? here) listed ids
    rw [here, equal]
  · intro same
    exact ⟨positive, by rw [← same]; rfl⟩

/-- All rows of a selection are named right exactly when it is the first rows. -/
theorem names_all_iff (distinct : (mailbox.map (·.id)).Nodup) (small : mailbox.length < 2 ^ 31)
    (items : Message → List Item) :
    (∀ row ∈ rowNumbered (mailbox.filter p),
        NamesPosition (mailbox.map (·.id)) (.fetch (nonZeroU32 row.2) row.1 (items row.1))) ↔
      FirstSelected mailbox p := by
  constructor
  · intro named m member
    by_cases empty : mailbox.filter p = []
    · simp [empty] at member
    · have positive := List.length_pos_iff.mpr empty
      have last : ((mailbox.filter p)[(mailbox.filter p).length - 1],
          (mailbox.filter p).length) ∈ rowNumbered (mailbox.filter p) :=
        mem_rowNumbered.mpr ⟨positive, List.getElem?_eq_getElem (by omega)⟩
      exact (names_iff distinct small last).mp (named _ last) m member
  · rintro first ⟨row, n⟩ numbered
    obtain ⟨positive, found⟩ := mem_rowNumbered.mp numbered
    have inside := (List.getElem?_eq_some_iff.mp found).1
    refine (names_iff distinct small numbered).mpr fun m member => first m ?_
    exact (List.take_subset_take_left mailbox (by omega)) member

end Selection

/-! ### `FETCH` -/

section Fetch

variable {Item : Type} {plan : FetchPlan Item} {rows : List (Message × Nat)} {s : Store}
  {mailbox : List Uuid}

theorem mem_fetchLoop {response : Response Item} (member : response ∈ (fetchLoop plan rows s).2) :
    response = .ok none "FETCH completed" ∨
      ∃ row ∈ rows, ∃ items, response = .fetch (nonZeroU32 row.2) row.1 items := by
  induction rows generalizing s with
  | nil => exact .inl (by simpa [fetchLoop] using member)
  | cons row rest ih =>
    simp only [fetchLoop] at member
    split at member
    · exact (ih member).imp id fun ⟨other, among, found⟩ =>
        ⟨other, List.mem_cons_of_mem _ among, found⟩
    · rcases List.mem_cons.mp member with here | later
      · exact .inr ⟨row, List.mem_cons_self, _, here⟩
      · exact (ih later).imp id fun ⟨other, among, found⟩ =>
          ⟨other, List.mem_cons_of_mem _ among, found⟩

/-- Rows with items get a response. -/
theorem fetch_mem_fetchLoop {row : Message × Nat}
    (itemsOf : ∀ row ∈ rows, ∀ flags seen, fetchItems plan row.1 flags seen ≠ [])
    (member : row ∈ rows) :
    ∃ items, .fetch (nonZeroU32 row.2) row.1 items ∈ (fetchLoop plan rows s).2 := by
  induction rows generalizing s with
  | nil => cases member
  | cons head rest ih =>
    have some_items := itemsOf head List.mem_cons_self
    simp only [fetchLoop, List.isEmpty_iff, some_items, if_false]
    rcases List.mem_cons.mp member with rfl | later
    · exact ⟨_, List.mem_cons_self⟩
    · obtain ⟨items, found⟩ :=
        ih (fun other among => itemsOf other (List.mem_cons_of_mem _ among)) later
      exact ⟨items, List.mem_cons_of_mem _ found⟩

/-- All rows named right, then all responses. -/
theorem fetchLoop_names
    (named : ∀ row ∈ rows,
      NamesPosition mailbox (.fetch (nonZeroU32 row.2) row.1 ([] : List Item))) :
    ∀ response ∈ (fetchLoop plan rows s).2, NamesPosition mailbox response := by
  intro response member
  rcases mem_fetchLoop member with rfl | ⟨row, among, items, rfl⟩
  · trivial
  · exact named row among

theorem fetchLoop_names_iff
    (itemsOf : ∀ row ∈ rows, ∀ flags seen, fetchItems plan row.1 flags seen ≠ []) :
    (∀ response ∈ (fetchLoop plan rows s).2, NamesPosition mailbox response) ↔
      ∀ row ∈ rows, NamesPosition mailbox (.fetch (nonZeroU32 row.2) row.1 ([] : List Item)) := by
  refine ⟨?_, fetchLoop_names⟩
  intro named row member
  obtain ⟨items, found⟩ := fetch_mem_fetchLoop itemsOf member
  have right := named _ found
  exact right

end Fetch

/-! ### `STORE` -/

/-- What of a row `STORE` leaves alone. -/
def identity (m : Message) : Uuid × Uuid × Uuid × Int × Int :=
  (m.id, m.mailboxId, m.tenantId, m.uid, m.receivedAt)

theorem changeRows_identity {change : Message → Option Message}
    (same : ∀ m m', change m = some m' → identity m' = identity m) (modseq : Int)
    (rows : List Message) :
    (changeRows change modseq rows).map identity = rows.map identity := by
  induction rows generalizing modseq with
  | nil => rfl
  | cons m rest ih =>
    cases result : change m with
    | none => simp [changeRows, result, ih]
    | some m' =>
      have kept := same m m' result
      simp only [changeRows, result, List.map_cons, ih, ← kept]
      rfl

theorem mailboxRows_identity {s s' : Store} (mailboxId tenantId : Uuid)
    (same : s'.messages.map identity = s.messages.map identity) :
    (mailboxRows mailboxId tenantId s').map identity =
      (mailboxRows mailboxId tenantId s).map identity := by
  have shape : ∀ t : Store, (mailboxRows mailboxId tenantId t).map identity =
      orderBy (fun row => row.2.2.2.2) ((t.messages.map identity).filter fun row =>
        row.2.1 = mailboxId && row.2.2.1 = tenantId) := by
    intro t
    rw [List.filter_map, ← map_orderBy]
    rfl
  rw [shape, shape, same]

theorem storeMessages_identity (kind : StoreType) (flags : List Str)
    (selected : Message → Bool) (s : Store) (mailboxId tenantId : Uuid) :
    (mailboxRows mailboxId tenantId ((storeMessages kind flags selected s).getD s)).map identity =
      (mailboxRows mailboxId tenantId s).map identity := by
  cases stored : storeMessages kind flags selected s with
  | none => rfl
  | some s' =>
    simp only [storeMessages] at stored
    split at stored
    · cases stored
    · apply mailboxRows_identity
      have result := commit_some stored
      rw [messagesSyncMailboxStats_eq] at result
      rw [Option.getD_some, show s'.messages = _ from congrArg Tables.messages result]
      apply changeRows_identity
      intro m m' changedTo
      split at changedTo
      · cases changedTo
        rfl
      · cases changedTo

/-! ### `MOVE` -/

theorem applyExpunges_replicate {α : Type} (k : Nat) (messages : List α) :
    applyExpunges messages (List.replicate k 1) = messages.drop k := by
  induction k generalizing messages with
  | zero => rfl
  | succ k ih =>
    rw [List.replicate_succ, applyExpunges, ih]
    cases messages <;> simp

theorem expungeNumbers_range (i k : Nat) :
    expungeNumbers i (List.range' (i + 1) k) = List.replicate k 1 := by
  induction k generalizing i with
  | zero => rfl
  | succ k ih =>
    rw [List.range'_succ, expungeNumbers, ih (i + 1), List.replicate_succ]
    congr 1
    omega

/-- With `kept` messages passed and `gone` already removed, the numbers of the rows still to
go remove exactly these. -/
theorem applyExpunges_selected {α : Type} (q : α × Nat → Bool) (kept rest : List α)
    (gone : Nat) :
    applyExpunges (kept ++ rest) (expungeNumbers gone
        (((rest.zipIdx (kept.length + gone + 1)).filter q).map (·.2))) =
      kept ++ ((rest.zipIdx (kept.length + gone + 1)).filter fun row => !q row).map (·.1) := by
  induction rest generalizing kept gone with
  | nil => simp [expungeNumbers, applyExpunges]
  | cons head rest ih =>
    simp only [List.zipIdx_cons, List.filter_cons]
    cases chosen : q (head, kept.length + gone + 1) with
    | true =>
      have number : kept.length + gone + 1 - gone - 1 = kept.length := by omega
      have later := ih kept (gone + 1)
      rw [show kept.length + (gone + 1) + 1 = kept.length + gone + 1 + 1 by omega] at later
      simp only [if_true, List.map_cons, expungeNumbers, applyExpunges, number,
        List.eraseIdx_append_of_length_le (le_refl _), Nat.sub_self, List.eraseIdx_cons_zero,
        later, Bool.not_true, Bool.false_eq_true, if_false]
    | false =>
      have later := ih (kept ++ [head]) gone
      rw [List.length_append, List.length_singleton,
        show kept.length + 1 + gone + 1 = kept.length + gone + 1 + 1 by omega] at later
      simpa using later

theorem expungeNumbers_range_of {seqs : List Nat} {i bound : Nat}
    (increasing : seqs.Pairwise (· < ·)) (above : ∀ n ∈ seqs, i + 1 ≤ n)
    (below : ∀ n ∈ seqs, n < bound) : ∀ n ∈ expungeNumbers i seqs, 1 ≤ n ∧ n < bound := by
  induction seqs generalizing i with
  | nil => simp [expungeNumbers]
  | cons seq rest ih =>
    obtain ⟨first, later⟩ := List.pairwise_cons.mp increasing
    have low := above seq List.mem_cons_self
    have high := below seq List.mem_cons_self
    intro n member
    rcases List.mem_cons.mp member with rfl | among
    · omega
    · refine ih later ?_ (fun k inRest => below k (List.mem_cons_of_mem _ inRest)) n among
      intro k inRest
      have order := first k inRest
      omega

theorem expungesOf_responses {Item : Type} {seqs : List Nat} {tail : List (Response Item)}
    (increasing : seqs.Pairwise (· < ·)) (range : ∀ n ∈ seqs, 1 ≤ n ∧ n < 2 ^ 32)
    (none : expungesOf tail = []) :
    expungesOf (expungeResponses seqs ++ tail) = expungeNumbers 0 seqs := by
  have small := expungeNumbers_range_of (i := 0) increasing (fun n member => (range n member).1)
    (fun n member => (range n member).2)
  rw [expungesOf, List.filterMap_append, ← expungesOf, ← expungesOf, none, List.append_nil,
    expungesOf, expungeResponses, List.filterMap_filterMap]
  conv_rhs => rw [← List.filterMap_some (l := expungeNumbers 0 seqs)]
  apply List.filterMap_congr
  intro n member
  obtain ⟨low, high⟩ := small n member
  rw [Nat.mod_eq_of_lt high, if_neg (by omega)]
  rfl

/-- A row that `COPY` or `MOVE` inserts, with the mod-sequence it got. -/
def CopyOf (tenantId : Uuid) (now : Int) (id : Uuid) (row copy : Message) : Prop :=
  ∃ dst uid modSequence, copy = { copyOf dst tenantId now id uid row with modSequence }

/-- The rows that `COPY` and `MOVE` add, one for each source row. -/
theorem insertCopies_messages {dst : Mailbox} {tenantId : Uuid} {now : Int} {newId : Nat → Uuid}
    {i : Nat} {rows : List Message} {s s' : Store} {assigned : List Assignment}
    (ran : insertCopies dst tenantId now newId i rows s = some (s', assigned)) :
    ∃ copies, s'.messages = s.messages ++ copies ∧
      ∀ k row, rows[k]? = some row →
        ∃ copy ∈ copies, CopyOf tenantId now (newId (i + k)) row copy := by
  induction rows generalizing i s s' assigned with
  | nil =>
    cases ran
    exact ⟨[], by simp, by simp⟩
  | cons row rest ih =>
    simp only [insertCopies, Option.bind_eq_bind, Option.bind_eq_some_iff] at ran
    obtain ⟨s₁, inserted, ⟨s₂, assignedLater⟩, later, result⟩ := ran
    cases result
    obtain ⟨copies, split, each⟩ := ih later
    have first := commit_some inserted
    rw [messagesSyncMailboxStats_eq] at first
    rw [show s₁.messages = _ from congrArg Tables.messages first, List.append_assoc] at split
    refine ⟨_, split, ?_⟩
    intro k row' found
    cases k with
    | zero =>
      obtain rfl : row = row' := by simpa using found
      exact ⟨_, List.mem_append_left _ List.mem_cons_self, dst, _, _, rfl⟩
    | succ k =>
      obtain ⟨copy, member, isCopy⟩ := each k row' (by simpa using found)
      rw [show i + 1 + k = i + (k + 1) by omega] at isCopy
      exact ⟨copy, List.mem_append_right _ member, isCopy⟩

/-- A row of the mailbox is still there after a `MOVE` unless it was moved. -/
theorem moveMessages_stays {mailboxId tenantId : Uuid} {dst : Mailbox} {now : Int}
    {newId : Nat → Uuid} {rows : List Message} {s s' : Store} {assigned : List Assignment}
    (ran : moveMessages mailboxId dst tenantId now newId rows s = some (s', assigned))
    {m : Message} (member : m ∈ mailboxRows mailboxId tenantId s) :
    m.id ∈ (mailboxRows mailboxId tenantId s').map (·.id) ↔
      moved rows mailboxId tenantId m = false := by
  simp only [moveMessages, Option.bind_eq_bind, Option.bind_eq_some_iff] at ran
  obtain ⟨⟨s₁, assigned₁⟩, copied, s₂, deleted, result⟩ := ran
  cases result
  obtain ⟨copies, split, -⟩ := insertCopies_messages copied
  have result := commit_some deleted
  rw [messagesSyncMailboxStats_eq] at result
  have left : s'.messages = s₁.messages.filter fun m => !moved rows mailboxId tenantId m :=
    congrArg Tables.messages result
  obtain ⟨row, here⟩ := mem_mailboxRows.mp member
  have row₁ : m ∈ s₁.messages := by
    rw [split]
    exact List.mem_append_left _ row
  constructor
  · intro listed
    obtain ⟨other, among, same⟩ := List.mem_map.mp listed
    have remaining := (mem_mailboxRows.mp among).1
    rw [left] at remaining
    obtain ⟨before, stays⟩ := List.mem_filter.mp remaining
    -- ids are unique, so the row with this id is the row itself
    have equal : other = m := List.inj_on_of_nodup_map s₁.constraints.2.2.1 before row₁ same
    rw [equal] at stays
    simpa using stays
  · intro stays
    refine List.mem_map_of_mem (mem_mailboxRows.mpr ⟨?_, here⟩)
    rw [left]
    exact List.mem_filter.mpr ⟨row₁, by simp [stays]⟩

/-! ### All commands -/

/-- The commands that number messages. -/
inductive NumberedCommand (Item : Type) where
  | fetch (set : SequenceSet) (uid : Bool) (changedsince : Option Nat) (request : FetchPlan Item)
  | store (set : SequenceSet) (uid : Bool) (kind : StoreType) (answer : Bool) (flags : List Str)
      (flagsItem : List Str → Item)
  | move (set : SequenceSet) (uid : Bool) (userId : Uuid) (folder : Str) (newId : Nat → Uuid)
      (now : Int)

section Numbering

variable {Item : Type} (sel : SelectedMailbox) (tenantId : Uuid) (s : Store)

/-- The client's list of the selected mailbox. -/
def mailboxIds : List Uuid := (mailboxRows sel.mailboxId tenantId s).map (·.id)

/-- Every `FETCH` response names the message at its number; the `EXPUNGE` responses leave the
messages that are still in the mailbox. -/
def NumbersRight : NumberedCommand Item → Prop
  | .fetch set uid changedsince request =>
      ∀ response ∈ (cmdFetch set request uid sel tenantId changedsince s).2,
        NamesPosition (mailboxIds sel tenantId s) response
  | .store set uid kind answer flags flagsItem =>
      ∀ response ∈ (cmdStore set kind answer flags uid flagsItem sel tenantId s).2.2,
        NamesPosition (mailboxIds sel tenantId s) response
  | .move set uid userId folder newId now =>
      let result : Store × SelectedMailbox × List (Response Item) :=
        cmdMove set userId tenantId folder uid newId now sel s
      applyExpunges (mailboxIds sel tenantId s) (expungesOf result.2.2) =
        (mailboxIds sel tenantId s).filter fun id => id ∈ mailboxIds sel tenantId result.1

/-- The destination exists and the tables take the move. -/
def moveAccepted (set : SequenceSet) (userId : Uuid) (folder : Str) (newId : Nat → Uuid)
    (now : Int) : Bool :=
  ((findMailbox userId tenantId folder s).bind fun dst =>
    moveMessages sel.mailboxId dst tenantId now newId
      ((numberedRows set true sel tenantId (fun _ => true) s).map (·.1)) s).isSome

/-- Where the selection is numbered on its own, it is the first messages of the mailbox. -/
def SelectsFirst : NumberedCommand Item → Prop
  | .fetch set true changedsince _ =>
      FirstSelected (mailboxRows sel.mailboxId tenantId s) fun m =>
        uidClause (sequenceRanges set u32Max) m && changedSince changedsince m
  | .fetch set false changedsince _ =>
      ∀ n, seqClause (sequenceRanges set sel.existing) n = true →
        n ≤ ((mailboxRows sel.mailboxId tenantId s).filter (changedSince changedsince)).length →
        ∀ m ∈ (mailboxRows sel.mailboxId tenantId s).take n, changedSince changedsince m = true
  | .store set true _ true _ _ =>
      sel.readOnly = false →
        FirstSelected (mailboxRows sel.mailboxId tenantId s) (uidClause (sequenceRanges set u32Max))
  | .store .. => True
  | .move set true userId folder newId now =>
      moveAccepted sel tenantId s set userId folder newId now = true →
        FirstSelected (mailboxRows sel.mailboxId tenantId s) (uidClause (sequenceRanges set u32Max))
  | .move .. => True

example (set : SequenceSet) (userId : Uuid) (folder : Str) (newId : Nat → Uuid) (now : Int) :
    @SelectsFirst Item sel tenantId s (.move set false userId folder newId now) := by
  simp only [SelectsFirst]

end Numbering

section Results

variable {Item : Type} {sel : SelectedMailbox} {tenantId : Uuid} {s : Store}

theorem fetch_uid_iff (set : SequenceSet) (changedsince : Option Nat) (request : FetchPlan Item) :
    NumbersRight sel tenantId s (.fetch set true changedsince request) ↔
      SelectsFirst sel tenantId s (.fetch set true changedsince request) := by
  simp only [NumbersRight, SelectsFirst, cmdFetch, numberedRows_uid]
  rw [fetchLoop_names_iff (by simp [fetchItems, fetchPlan])]
  exact names_all_iff mailboxRows_nodup mailboxRows_length fun _ => []

theorem fetch_seq_iff (set : SequenceSet) (changedsince : Option Nat)
    (request : FetchPlan Item) :
    NumbersRight sel tenantId s (.fetch set false changedsince request) ↔
      SelectsFirst sel tenantId s (.fetch set false changedsince request) := by
  have named : ∀ row ∈ numberedRows set false sel tenantId (changedSince changedsince) s,
      (NamesPosition (mailboxIds sel tenantId s)
        (.fetch (nonZeroU32 row.2) row.1 ([] : List Item)) ↔
        ∀ m ∈ (mailboxRows sel.mailboxId tenantId s).take row.2,
          changedSince changedsince m = true) := by
    intro row member
    rw [numberedRows_seq] at member
    exact names_iff mailboxRows_nodup mailboxRows_length (List.mem_filter.mp member).1
  simp only [NumbersRight, SelectsFirst, cmdFetch]
  constructor
  · intro right n chosen inside m member
    cases changedsince with
    | none => rfl
    | some v =>
      by_cases zero : n = 0
      · simp [zero] at member
      · -- a changed row has a mod-sequence, hence an item, hence a response
        have itemsOf : ∀ row ∈ numberedRows set false sel tenantId (changedSince (some v)) s,
            ∀ flags seen, fetchItems (fetchPlan request false (some v)) row.1 flags seen ≠ [] := by
          intro row among flags seen
          rw [numberedRows_seq] at among
          obtain ⟨_, found⟩ := mem_rowNumbered.mp (List.mem_filter.mp among).1
          have changed : (v : Int) < row.1.modSequence := by
            simpa [changedSince] using (List.mem_filter.mp (List.mem_of_getElem? found)).2
          have nonzero : row.1.modSequence ≠ 0 := by omega
          simp [fetchItems, fetchPlan, nonzero]
        have bound : n - 1 <
            ((mailboxRows sel.mailboxId tenantId s).filter (changedSince (some v))).length := by
          omega
        have row : (((mailboxRows sel.mailboxId tenantId s).filter (changedSince (some v)))[n - 1],
            n) ∈ numberedRows set false sel tenantId (changedSince (some v)) s := by
          rw [numberedRows_seq]
          exact List.mem_filter.mpr ⟨mem_rowNumbered.mpr
            ⟨by omega, List.getElem?_eq_getElem bound⟩, chosen⟩
        exact (named _ row).mp ((fetchLoop_names_iff itemsOf).mp right _ row) m member
  · intro first
    apply fetchLoop_names
    intro row member
    refine (named row member).mpr ?_
    rw [numberedRows_seq] at member
    obtain ⟨numbered, chosen⟩ := List.mem_filter.mp member
    obtain ⟨_, found⟩ := mem_rowNumbered.mp numbered
    have inside := (List.getElem?_eq_some_iff.mp found).1
    exact first row.2 chosen (by omega)

/-- Rows numbered in the whole mailbox are named right. -/
theorem numberedRows_seq_names (set : SequenceSet) (items : Message → List Item) :
    ∀ row ∈ numberedRows set false sel tenantId (fun _ => true) s,
      NamesPosition (mailboxIds sel tenantId s)
        (.fetch (nonZeroU32 row.2) row.1 (items row.1)) := by
  intro row member
  rw [numberedRows_seq] at member
  exact (names_iff mailboxRows_nodup mailboxRows_length (List.mem_filter.mp member).1).mpr
    fun _ _ => rfl

theorem store_iff (set : SequenceSet) (uid : Bool) (kind : StoreType) (answer : Bool)
    (flags : List Str) (flagsItem : List Str → Item) :
    NumbersRight sel tenantId s (.store set uid kind answer flags flagsItem) ↔
      SelectsFirst sel tenantId s (.store set uid kind answer flags flagsItem) := by
  cases readOnly : sel.readOnly with
  | true => cases uid <;> cases answer <;>
      simp [NumbersRight, SelectsFirst, cmdStore, readOnly, NamesPosition]
  | false =>
    cases answer with
    | false => cases uid <;> simp [NumbersRight, SelectsFirst, cmdStore, readOnly, NamesPosition]
    | true =>
      have same := storeMessages_identity kind flags (storeSelects set uid sel tenantId s) s
        sel.mailboxId tenantId
      simp only [NumbersRight, cmdStore, readOnly, Bool.false_eq_true, if_false, if_true,
        List.forall_mem_append, List.forall_mem_map]
      generalize (storeMessages kind flags (storeSelects set uid sel tenantId s) s).getD s = s'
        at same
      have ids : mailboxIds sel tenantId s = mailboxIds sel tenantId s' := by
        have first := congrArg (List.map fun row : Uuid × Uuid × Uuid × Int × Int => row.1) same
        simpa [mailboxIds, identity, Function.comp_def] using first.symm
      have uids : (mailboxRows sel.mailboxId tenantId s').map (·.uid) =
          (mailboxRows sel.mailboxId tenantId s).map (·.uid) := by
        have fourth :=
          congrArg (List.map fun row : Uuid × Uuid × Uuid × Int × Int => row.2.2.2.1) same
        simpa [identity, Function.comp_def] using fourth
      rw [ids]
      cases uid with
      | false =>
        exact ⟨fun _ => trivial, fun _ => ⟨numberedRows_seq_names set fun m => [flagsItem m.flags],
          by simp [NamesPosition]⟩⟩
      | true =>
        rw [numberedRows_uid]
        simp only [Bool.and_true, SelectsFirst, readOnly, forall_const]
        have byUid : ∀ t : Store, FirstSelected (mailboxRows sel.mailboxId tenantId t)
            (uidClause (sequenceRanges set u32Max)) ↔
            FirstSelected ((mailboxRows sel.mailboxId tenantId t).map (·.uid)) fun uid =>
              (sequenceRanges set u32Max).any fun range => (range.1 : Int) ≤ uid && uid ≤ (range.2 : Int) := by
          intro t
          rw [firstSelected_map]
          rfl
        rw [byUid s, ← uids, ← byUid s']
        have all : (∀ row ∈ rowNumbered ((mailboxRows sel.mailboxId tenantId s').filter
            (uidClause (sequenceRanges set u32Max))), NamesPosition (mailboxIds sel tenantId s')
              (.fetch (nonZeroU32 row.2) row.1 [flagsItem row.1.flags])) ↔ _ :=
          names_all_iff mailboxRows_nodup mailboxRows_length fun m => [flagsItem m.flags]
        exact ⟨fun right => all.mp right.1, fun first => ⟨all.mpr first, by simp [NamesPosition]⟩⟩

theorem applyExpunges_map {α β : Type} (f : α → β) (messages : List α) (numbers : List Nat) :
    applyExpunges (messages.map f) numbers = (applyExpunges messages numbers).map f := by
  induction numbers generalizing messages with
  | nil => rfl
  | cons n rest ih => rw [applyExpunges, applyExpunges, List.eraseIdx_map, ih]

theorem applyExpunges_sublist {α : Type} (messages : List α) (numbers : List Nat) :
    (applyExpunges messages numbers).Sublist messages := by
  induction numbers generalizing messages with
  | nil => exact List.Sublist.refl messages
  | cons n rest ih => exact (ih _).trans (List.eraseIdx_sublist messages (n - 1))

/-- Rows of one mailbox with the same ids are the same rows. -/
theorem eq_of_ids_eq {mailbox first second : List Message} (distinct : (mailbox.map (·.id)).Nodup)
    (firstSub : first.Sublist mailbox) (secondSub : second.Sublist mailbox)
    (same : first.map (·.id) = second.map (·.id)) : first = second := by
  apply List.ext_getElem?
  intro i
  have entries := congrArg (·[i]?) same
  simp only [List.getElem?_map] at entries
  cases here : first[i]? with
  | none => cases there : second[i]? with
    | none => rfl
    | some b => simp [here, there] at entries
  | some a => cases there : second[i]? with
    | none => simp [here, there] at entries
    | some b =>
      simp only [here, there, Option.map_some, Option.some.injEq] at entries
      rw [List.inj_on_of_nodup_map distinct (firstSub.subset (List.mem_of_getElem? here))
        (secondSub.subset (List.mem_of_getElem? there)) entries]

theorem numberedRows_mem {set : SequenceSet} {uid : Bool} {row : Message × Nat}
    (member : row ∈ numberedRows set uid sel tenantId (fun _ => true) s) :
    row.1 ∈ mailboxRows sel.mailboxId tenantId s := by
  cases uid with
  | false =>
    rw [numberedRows_seq] at member
    obtain ⟨_, found⟩ := mem_rowNumbered.mp (List.mem_filter.mp member).1
    exact (List.mem_filter.mp (List.mem_of_getElem? found)).1
  | true =>
    rw [numberedRows_uid] at member
    obtain ⟨_, found⟩ := mem_rowNumbered.mp member
    exact (List.mem_filter.mp (List.mem_of_getElem? found)).1

/-- Of the rows of the mailbox, `MOVE` deletes those it read. -/
theorem moved_iff {set : SequenceSet} {uid : Bool} {m : Message}
    (member : m ∈ mailboxRows sel.mailboxId tenantId s) :
    moved ((numberedRows set uid sel tenantId (fun _ => true) s).map (·.1)) sel.mailboxId tenantId
        m = true ↔
      ∃ n, (m, n) ∈ numberedRows set uid sel tenantId (fun _ => true) s := by
  have here := (mem_mailboxRows.mp member).2
  simp only [moved, here, Bool.and_true, List.contains_eq_mem, decide_eq_true_eq, List.mem_map]
  constructor
  · rintro ⟨other, ⟨row, among, rfl⟩, same⟩
    have equal : row.1 = m :=
      List.inj_on_of_nodup_map mailboxRows_nodup (numberedRows_mem among) member same
    exact ⟨row.2, by rw [← equal]; exact among⟩
  · rintro ⟨n, among⟩
    exact ⟨m, ⟨(m, n), among, rfl⟩, rfl⟩

variable (sel tenantId s) in
theorem numberedRows_increasing (set : SequenceSet) (uid : Bool) :
    ((numberedRows set uid sel tenantId (fun _ => true) s).map (·.2)).Pairwise (· < ·) ∧
      ∀ n ∈ (numberedRows set uid sel tenantId (fun _ => true) s).map (·.2),
        1 ≤ n ∧ n < 2 ^ 32 := by
  have small : (mailboxRows sel.mailboxId tenantId s).length < 2 ^ 31 := mailboxRows_length
  have numbers : ∀ p : Message → Bool,
      ((rowNumbered ((mailboxRows sel.mailboxId tenantId s).filter p)).map (·.2)).Pairwise (· < ·) ∧
        ∀ n ∈ (rowNumbered ((mailboxRows sel.mailboxId tenantId s).filter p)).map (·.2),
          1 ≤ n ∧ n < 2 ^ 32 := by
    intro p
    rw [rowNumbered_map_snd]
    refine ⟨List.pairwise_lt_range' 1, ?_⟩
    intro n member
    have bound := List.length_filter_le p (mailboxRows sel.mailboxId tenantId s)
    have range := List.mem_range'_1.mp member
    omega
  cases uid with
  | false =>
    rw [numberedRows_seq]
    have sub := (List.filter_sublist (p := fun row : Message × Nat =>
      seqClause (sequenceRanges set sel.existing) row.2) (l := rowNumbered
        ((mailboxRows sel.mailboxId tenantId s).filter fun _ => true))).map (·.2)
    obtain ⟨increasing, range⟩ := numbers fun _ => true
    exact ⟨increasing.sublist sub, fun n member => range n (sub.subset member)⟩
  | true =>
    rw [numberedRows_uid]
    exact numbers _

/-- An accepted `MOVE` numbers right when its `EXPUNGE` numbers leave the rows not moved. -/
theorem move_accepted_iff {set : SequenceSet} {uid : Bool} {userId : Uuid} {folder : Str}
    {newId : Nat → Uuid} {now : Int} {dst : Mailbox} {s' : Store} {assigned : List Assignment}
    (some_rows : numberedRows set uid sel tenantId (fun _ => true) s ≠ [])
    (found : findMailbox userId tenantId folder s = some dst)
    (ran : moveMessages sel.mailboxId dst tenantId now newId
      ((numberedRows set uid sel tenantId (fun _ => true) s).map (·.1)) s = some (s', assigned)) :
    NumbersRight sel tenantId s (.move set uid userId folder newId now : NumberedCommand Item) ↔
      applyExpunges (mailboxRows sel.mailboxId tenantId s) (expungeNumbers 0
          ((numberedRows set uid sel tenantId (fun _ => true) s).map (·.2))) =
        (mailboxRows sel.mailboxId tenantId s).filter fun m =>
          !moved ((numberedRows set uid sel tenantId (fun _ => true) s).map (·.1))
            sel.mailboxId tenantId m := by
  obtain ⟨increasing, range⟩ := numberedRows_increasing sel tenantId s set uid
  have staying : (mailboxIds sel tenantId s).filter (fun id => id ∈ mailboxIds sel tenantId s') =
      ((mailboxRows sel.mailboxId tenantId s).filter fun m =>
        !moved ((numberedRows set uid sel tenantId (fun _ => true) s).map (·.1))
          sel.mailboxId tenantId m).map (·.id) := by
    simp only [mailboxIds, List.filter_map]
    congr 1
    apply List.filter_congr
    intro m member
    have stays := moveMessages_stays ran member
    rw [Bool.eq_iff_iff]
    simpa using stays
  simp only [NumbersRight, cmdMove, List.isEmpty_iff, some_rows, if_false, found, ran]
  rw [expungesOf_responses increasing range rfl, staying, mailboxIds, applyExpunges_map]
  constructor
  · apply eq_of_ids_eq mailboxRows_nodup (applyExpunges_sublist _ _) List.filter_sublist
  · intro same
    rw [same]

/-- A `MOVE` that is refused, or has nothing to move, leaves the list as it is. -/
theorem move_refused {set : SequenceSet} {uid : Bool} {userId : Uuid} {folder : Str}
    {newId : Nat → Uuid} {now : Int}
    (refused : numberedRows set uid sel tenantId (fun _ => true) s = [] ∨
      ((findMailbox userId tenantId folder s).bind fun dst =>
        moveMessages sel.mailboxId dst tenantId now newId
          ((numberedRows set uid sel tenantId (fun _ => true) s).map (·.1)) s) = none) :
    NumbersRight sel tenantId s
      (.move set uid userId folder newId now : NumberedCommand Item) := by
  have unchanged : ∀ response : Response Item, expungesOf [response] = [] →
      applyExpunges (mailboxIds sel tenantId s) (expungesOf [response]) =
        (mailboxIds sel tenantId s).filter fun id => id ∈ mailboxIds sel tenantId s := by
    intro response silent
    rw [silent, applyExpunges, List.filter_eq_self.mpr (by simp)]
  simp only [NumbersRight, cmdMove, List.isEmpty_iff]
  split
  · exact unchanged _ rfl
  · next some_rows =>
    cases found : findMailbox userId tenantId folder s with
    | none => exact unchanged _ rfl
    | some dst =>
      have failed := refused.resolve_left some_rows
      rw [found, Option.bind_some] at failed
      simp only [failed]
      exact unchanged _ rfl

theorem numberedRows_whole (set : SequenceSet) :
    numberedRows set false sel tenantId (fun _ => true) s =
      (rowNumbered (mailboxRows sel.mailboxId tenantId s)).filter fun row =>
        seqClause (sequenceRanges set sel.existing) row.2 := by
  rw [numberedRows_seq, List.filter_true]

/-- By position, a row is moved when its number is in the set. -/
theorem moved_seq_iff {set : SequenceSet} {m : Message} {n : Nat}
    (numbered : (m, n) ∈ rowNumbered (mailboxRows sel.mailboxId tenantId s)) :
    moved ((numberedRows set false sel tenantId (fun _ => true) s).map (·.1)) sel.mailboxId
        tenantId m = true ↔
      seqClause (sequenceRanges set sel.existing) n = true := by
  obtain ⟨positive, place⟩ := mem_rowNumbered.mp numbered
  rw [moved_iff (List.mem_of_getElem? place), numberedRows_whole]
  constructor
  · rintro ⟨n', member⟩
    obtain ⟨numbered', chosen⟩ := List.mem_filter.mp member
    obtain ⟨positive', place'⟩ := mem_rowNumbered.mp numbered'
    have inside := (List.getElem?_eq_some_iff.mp place).1
    have same : n - 1 = n' - 1 :=
      (List.getElem?_inj inside (mailboxRows_nodup.of_map _)).mp (place.trans place'.symm)
    rwa [show n = n' by omega]
  · intro chosen
    exact ⟨n, List.mem_filter.mpr ⟨numbered, chosen⟩⟩

theorem move_seq (set : SequenceSet) (userId : Uuid) (folder : Str) (newId : Nat → Uuid)
    (now : Int) :
    NumbersRight sel tenantId s
      (.move set false userId folder newId now : NumberedCommand Item) := by
  by_cases some_rows : numberedRows set false sel tenantId (fun _ => true) s = []
  · exact move_refused (.inl some_rows)
  cases ran : (findMailbox userId tenantId folder s).bind fun dst =>
      moveMessages sel.mailboxId dst tenantId now newId
        ((numberedRows set false sel tenantId (fun _ => true) s).map (·.1)) s with
  | none => exact move_refused (.inr ran)
  | some result =>
    obtain ⟨dst, found, accepted⟩ := Option.bind_eq_some_iff.mp ran
    refine (move_accepted_iff some_rows found accepted).mpr ?_
    have kept : (rowNumbered (mailboxRows sel.mailboxId tenantId s)).filter (fun row =>
        !seqClause (sequenceRanges set sel.existing) row.2) =
        (rowNumbered (mailboxRows sel.mailboxId tenantId s)).filter fun row =>
          !moved ((numberedRows set false sel tenantId (fun _ => true) s).map (·.1))
            sel.mailboxId tenantId row.1 := by
      apply List.filter_congr
      intro row member
      congr 1
      rw [Bool.eq_iff_iff]
      exact (moved_seq_iff member).symm
    have removed : applyExpunges (mailboxRows sel.mailboxId tenantId s) (expungeNumbers 0
        (((rowNumbered (mailboxRows sel.mailboxId tenantId s)).filter fun row =>
          seqClause (sequenceRanges set sel.existing) row.2).map (·.2))) =
        ((rowNumbered (mailboxRows sel.mailboxId tenantId s)).filter fun row =>
          !seqClause (sequenceRanges set sel.existing) row.2).map (·.1) :=
      applyExpunges_selected (fun row => seqClause (sequenceRanges set sel.existing) row.2) []
        (mailboxRows sel.mailboxId tenantId s) 0
    rw [← numberedRows_whole, kept] at removed
    rw [removed]
    exact filter_rowNumbered_fst (fun m =>
      !moved ((numberedRows set false sel tenantId (fun _ => true) s).map (·.1))
        sel.mailboxId tenantId m) _

theorem move_uid_iff (set : SequenceSet) (userId : Uuid) (folder : Str) (newId : Nat → Uuid)
    (now : Int) :
    NumbersRight sel tenantId s
        (.move set true userId folder newId now : NumberedCommand Item) ↔
      SelectsFirst sel tenantId s
        (.move set true userId folder newId now : NumberedCommand Item) := by
  have rows : numberedRows set true sel tenantId (fun _ => true) s =
      rowNumbered ((mailboxRows sel.mailboxId tenantId s).filter
        (uidClause (sequenceRanges set u32Max))) := by
    rw [numberedRows_uid]
    simp only [Bool.and_true]
  by_cases some_rows : numberedRows set true sel tenantId (fun _ => true) s = []
  · refine ⟨fun _ _ m member => ?_, fun _ => move_refused (.inl some_rows)⟩
    rw [rows, ← List.map_eq_nil_iff, rowNumbered_map_fst] at some_rows
    simp [some_rows] at member
  simp only [SelectsFirst, moveAccepted]
  cases ran : (findMailbox userId tenantId folder s).bind fun dst =>
      moveMessages sel.mailboxId dst tenantId now newId
        ((numberedRows set true sel tenantId (fun _ => true) s).map (·.1)) s with
  | none => exact ⟨fun _ refused => by simp at refused, fun _ => move_refused (.inr ran)⟩
  | some result =>
    obtain ⟨dst, found, accepted⟩ := Option.bind_eq_some_iff.mp ran
    have selectedRows : ∀ m ∈ mailboxRows sel.mailboxId tenantId s,
        (!moved ((numberedRows set true sel tenantId (fun _ => true) s).map (·.1)) sel.mailboxId
          tenantId m) = !uidClause (sequenceRanges set u32Max) m := by
      intro m member
      congr 1
      rw [Bool.eq_iff_iff, moved_iff member, rows]
      constructor
      · rintro ⟨n, numbered⟩
        exact (List.mem_filter.mp (List.mem_of_getElem? (mem_rowNumbered.mp numbered).2)).2
      · intro chosen
        have listed : m ∈ (rowNumbered ((mailboxRows sel.mailboxId tenantId s).filter
            (uidClause (sequenceRanges set u32Max)))).map (·.1) := by
          rw [rowNumbered_map_fst]
          exact List.mem_filter.mpr ⟨member, chosen⟩
        obtain ⟨row, among, same⟩ := List.mem_map.mp listed
        exact ⟨row.2, by rw [← same]; exact among⟩
    rw [move_accepted_iff some_rows found accepted, List.filter_congr selectedRows, rows,
      rowNumbered_map_snd, expungeNumbers_range, applyExpunges_replicate, drop_eq_filter_not_iff]
    simp

/-- The numbers a command sends are right exactly when its selection, if it is numbered on its
own, is the first messages of the mailbox. -/
theorem numbers_right_iff (command : NumberedCommand Item) :
    NumbersRight sel tenantId s command ↔ SelectsFirst sel tenantId s command := by
  cases command with
  | fetch set uid changedsince request =>
    cases uid with
    | false => exact fetch_seq_iff set changedsince request
    | true => exact fetch_uid_iff set changedsince request
  | store set uid kind answer flags flagsItem =>
    exact store_iff set uid kind answer flags flagsItem
  | move set uid userId folder newId now =>
    cases uid with
    | false => exact ⟨fun _ => trivial, fun _ => move_seq set userId folder newId now⟩
    | true => exact move_uid_iff set userId folder newId now

end Results

/-- A message of the inbox. -/
def message (id : Uuid) (uid : Int) : Message where
  id := id
  mailboxId := 1
  tenantId := 1
  uid := uid
  flags := []
  sizeBytes := 100
  bodyPath := []
  fromAddr := none
  receivedAt := uid
  modSequence := uid

def inboxOfTwo : Store :=
  ⟨⟨[⟨1, 1, 1, "INBOX".toList, 1700000000, 3, 2, 2, 200⟩], [message 10 1, message 11 2], 3⟩,
    by decide⟩

def selectedOfTwo : SelectedMailbox := ⟨1, 2, false, []⟩

def flagsRequest : FetchPlan (List Str) where
  wUid := false
  wModseq := false
  wFlags := true
  setSeen := false
  uidItem _ := []
  modSeqItem _ := []
  flagsItem flags := flags
  others _ := []

/-- `UID FETCH 2` answers `* 1 FETCH` for the second message. -/
theorem uid_fetch_misnumbers :
    (∃ items, (.fetch 1 (message 11 2) items : Response (List Str)) ∈
        (cmdFetch [.single (.value 2)] flagsRequest true selectedOfTwo 1 none inboxOfTwo).2) ∧
      ¬ NumbersRight selectedOfTwo 1 inboxOfTwo
        (.fetch [.single (.value 2)] true none flagsRequest) := by
  constructor
  · exact ⟨_, List.mem_cons_self⟩
  · rw [fetch_uid_iff]
    unfold SelectsFirst FirstSelected
    decide

end Expresso.Imap
