import Expresso.Imap.Selection
import Expresso.Query.StableSort

/-! The rows and numbers of the response of `THREAD`. -/

namespace Expresso.Imap
open Text Sql Query

section
variable (criteria : List SearchKey) (uid : Bool) (sel : SelectedMailbox) (tenantId : Uuid)
  (s : Store) (fetchBodyBytes : Str → Option (List UInt8))

/-- The number of a message in the protocol. -/
def properNumber (row : Message × Nat) : Int := if uid then row.1.uid else row.2

/-- The messages that are found without their bodies and have the base subject of a row, in
mailbox order. -/
def subjectBlock (row : Message × Nat) : List (Message × Nat) :=
  (candidates criteria sel tenantId s).filter fun other => threadSubject other = threadSubject row

/-- The first message of a base subject, or one of those after it, if at least two of these have
a number. -/
def ShownInThread (row : Message × Nat) : Prop :=
  match subjectBlock criteria sel tenantId s row with
  | [] => False
  | first :: later => row = first ∨
      (row ∈ later ∧ numberOf uid row ≠ 0 ∧
        2 ≤ (later.filter fun other => numberOf uid other ≠ 0).length)

/-- The response has the messages that match, each once, and each with its number. -/
structure ThreadsAll : Prop where
  rows : (threadRows criteria uid sel tenantId s).Perm
    (matchingRows criteria sel tenantId s fetchBodyBytes)
  numbers : ((cmdThread criteria uid sel tenantId s).flatMap fun thread =>
      thread.1 :: thread.2).map (fun n : Nat => (n : Int)) =
    (threadRows criteria uid sel tenantId s).map (properNumber uid)

end

section
variable {criteria : List SearchKey} {uid : Bool} {sel : SelectedMailbox} {tenantId : Uuid}
  {s : Store} {fetchBodyBytes : Str → Option (List UInt8)} {row : Message × Nat}

theorem rowNumbered_sorted : (rowNumbered (mailboxRows sel.mailboxId tenantId s)).Pairwise
    fun a b => a.1.receivedAt ≤ b.1.receivedAt := by
  have sorted := orderBy_sorted (fun m : Message => m.receivedAt)
    (s.messages.filter (inMailbox sel.mailboxId tenantId))
  rw [← mailboxRows, ← rowNumbered_map_fst (mailboxRows sel.mailboxId tenantId s),
    List.pairwise_map] at sorted
  exact sorted

/-- Sorting by base subject leaves the messages of one base subject in mailbox order. -/
theorem filter_threadSorted (subject : Str) :
    ((candidates criteria sel tenantId s).insertionSort threadOrder).filter
        (fun row => threadSubject row = subject) =
      (candidates criteria sel tenantId s).filter fun row => threadSubject row = subject := by
  apply filter_insertionSort
  have sorted : (candidates criteria sel tenantId s).Pairwise
      fun a b => a.1.receivedAt ≤ b.1.receivedAt := rowNumbered_sorted.filter _
  have kept := sorted.filter fun row => decide (threadSubject row = subject)
  refine List.Pairwise.imp_of_mem ?_ kept
  intro a b first second earlier
  have same := of_decide_eq_true (List.mem_filter.mp first).2
  have same' := of_decide_eq_true (List.mem_filter.mp second).2
  exact .inr ⟨same.trans same'.symm, earlier⟩

theorem threadBlock_eq {group : (Message × Nat) × List (Message × Nat)}
    (member : group ∈ threadGroups
      ((candidates criteria sel tenantId s).insertionSort threadOrder)) :
    subjectBlock criteria sel tenantId s group.1 = group.1 :: group.2 := by
  have sorted := List.pairwise_insertionSort threadOrder (candidates criteria sel tenantId s)
  rw [subjectBlock, ← filter_threadSorted, filter_threadGroups sorted member, threadBlock]

theorem mem_answersOf_iff {siblings : List (Message × Nat)} :
    row ∈ answersOf uid siblings ↔ row ∈ siblings ∧ numberOf uid row ≠ 0 ∧
      2 ≤ (siblings.filter fun other => numberOf uid other ≠ 0).length := by
  simp only [answersOf]
  split
  next many => simp only [List.mem_filter, decide_eq_true_eq, many, and_true]
  next few => simp only [List.not_mem_nil, few, and_false]

theorem mem_threadRows_iff :
    row ∈ threadRows criteria uid sel tenantId s ↔ ShownInThread criteria uid sel tenantId s row := by
  have member : row ∈ threadRows criteria uid sel tenantId s ↔ ∃ group ∈ threadGroups
      ((candidates criteria sel tenantId s).insertionSort threadOrder),
      row ∈ group.1 :: answersOf uid group.2 := by
    rw [threadRows, threads, List.flatMap_map, List.mem_flatMap]
  have same {group : (Message × Nat) × List (Message × Nat)}
      (among : group ∈ threadGroups
        ((candidates criteria sel tenantId s).insertionSort threadOrder))
      (inBlock : row ∈ threadBlock group) :
      subjectBlock criteria sel tenantId s row = group.1 :: group.2 := by
    rw [← threadBlock_eq among, subjectBlock, threadGroups_subject group among row inBlock,
      subjectBlock]
  rw [member, ShownInThread]
  constructor
  · rintro ⟨group, among, shown⟩
    have inBlock : row ∈ threadBlock group := by
      cases List.mem_cons.mp shown with
      | inl isRoot => exact isRoot ▸ List.mem_cons_self
      | inr answer => exact List.mem_cons_of_mem _ (answersOf_subset _ answer)
    rw [same among inBlock]
    exact (List.mem_cons.mp shown).imp_right mem_answersOf_iff.1
  · intro shown
    split at shown
    · exact shown.elim
    next first later block =>
      have inBlock : row ∈ subjectBlock criteria sel tenantId s row := by
        rw [block]
        cases shown with
        | inl isFirst => exact isFirst ▸ List.mem_cons_self
        | inr answer => exact List.mem_cons_of_mem _ answer.1
      have candidate : row ∈ (candidates criteria sel tenantId s).insertionSort threadOrder :=
        (List.mem_insertionSort _).mpr (List.mem_of_mem_filter inBlock)
      rw [← threadGroups_flatMap ((candidates criteria sel tenantId s).insertionSort threadOrder),
        List.mem_flatMap] at candidate
      obtain ⟨group, among, inGroup⟩ := candidate
      have whole := (same among inGroup).symm.trans block
      obtain ⟨root, siblings⟩ := List.cons.inj whole
      refine ⟨group, among, ?_⟩
      rw [root, siblings]
      exact List.mem_cons.mpr (shown.imp_right mem_answersOf_iff.2)

theorem answersOf_sublist (siblings : List (Message × Nat)) :
    (answersOf uid siblings).Sublist siblings := by
  rw [answersOf]
  split
  · exact List.filter_sublist
  · exact List.nil_sublist siblings

theorem threadRows_nodup : (threadRows criteria uid sel tenantId s).Nodup := by
  have sorted : ((candidates criteria sel tenantId s).insertionSort threadOrder).Nodup :=
    (List.perm_insertionSort _ _).nodup_iff.mpr candidates_nodup
  refine sorted.sublist ?_
  rw [← threadGroups_flatMap ((candidates criteria sel tenantId s).insertionSort threadOrder),
    threadRows, threads, List.flatMap_map]
  generalize threadGroups ((candidates criteria sel tenantId s).insertionSort threadOrder) = groups
  induction groups with
  | nil => exact .slnil
  | cons group rest ih =>
    rw [List.flatMap_cons, List.flatMap_cons]
    exact ((answersOf_sublist group.2).cons_cons group.1).append ih

theorem matchingRows_nodup : (matchingRows criteria sel tenantId s fetchBodyBytes).Nodup := by
  have rows : (rowNumbered (mailboxRows sel.mailboxId tenantId s)).Nodup := by
    apply List.Nodup.of_map (·.1)
    rw [rowNumbered_map_fst]
    exact mailboxRows_nodup.of_map _
  exact rows.filter _

/-! ### Numbers -/

theorem cmdThread_numbers :
    (cmdThread criteria uid sel tenantId s).flatMap (fun thread => thread.1 :: thread.2) =
      (threadRows criteria uid sel tenantId s).map fun row => max (numberOf uid row) 1 := by
  rw [cmdThread, threadRows, List.flatMap_map, List.map_flatMap]
  apply List.flatMap_congr
  intro thread member
  obtain ⟨group, -, rfl⟩ := List.mem_map.mp member
  rw [List.map_cons]
  congr 1
  apply List.map_congr_left
  intro row answer
  have numbered := (mem_answersOf_iff.1 answer).2.1
  omega

theorem shownNumber_iff (row : Message × Nat) :
    (max (numberOf uid row) 1 : Nat) = properNumber uid row ↔
      1 ≤ properNumber uid row ∧ properNumber uid row < 2 ^ 32 := by
  have number : numberOf uid row = asU32 (properNumber uid row) := by
    unfold numberOf properNumber
    split <;> rfl
  rw [number, asU32]
  generalize properNumber uid row = n
  omega

theorem threadsAll_iff :
    ThreadsAll criteria uid sel tenantId s fetchBodyBytes ↔
      (∀ row ∈ matchingRows criteria sel tenantId s fetchBodyBytes,
        1 ≤ properNumber uid row ∧ properNumber uid row < 2 ^ 32) ∧
      ∀ row ∈ rowNumbered (mailboxRows sel.mailboxId tenantId s),
        row ∈ matchingRows criteria sel tenantId s fetchBodyBytes ↔
          ShownInThread criteria uid sel tenantId s row := by
  have listed : ∀ row ∈ threadRows criteria uid sel tenantId s,
      row ∈ rowNumbered (mailboxRows sel.mailboxId tenantId s) := by
    intro row shown
    have inBlock : row ∈ subjectBlock criteria sel tenantId s row := by
      rw [mem_threadRows_iff, ShownInThread] at shown
      split at shown
      · exact shown.elim
      next first later block =>
        rw [block]
        exact shown.elim (fun isFirst => isFirst ▸ List.mem_cons_self)
          fun answer => List.mem_cons_of_mem _ answer.1
    exact List.mem_of_mem_filter (List.mem_of_mem_filter inBlock)
  have perm : (threadRows criteria uid sel tenantId s).Perm
        (matchingRows criteria sel tenantId s fetchBodyBytes) ↔
      ∀ row ∈ rowNumbered (mailboxRows sel.mailboxId tenantId s),
        row ∈ matchingRows criteria sel tenantId s fetchBodyBytes ↔
          ShownInThread criteria uid sel tenantId s row := by
    rw [List.perm_ext_iff_of_nodup threadRows_nodup matchingRows_nodup]
    constructor
    · intro same row _
      rw [← mem_threadRows_iff, same row]
    · intro same row
      constructor
      · intro shown
        exact (same row (listed row shown)).mpr (mem_threadRows_iff.mp shown)
      · intro found
        exact mem_threadRows_iff.mpr ((same row (List.mem_of_mem_filter found)).mp found)
  have numbers : ((cmdThread criteria uid sel tenantId s).flatMap fun thread =>
        thread.1 :: thread.2).map (fun n : Nat => (n : Int)) =
        (threadRows criteria uid sel tenantId s).map (properNumber uid) ↔
      ∀ row ∈ threadRows criteria uid sel tenantId s,
        1 ≤ properNumber uid row ∧ properNumber uid row < 2 ^ 32 := by
    rw [cmdThread_numbers, List.map_map, List.map_inj_left]
    exact forall₂_congr fun row _ => shownNumber_iff row
  constructor
  · intro all
    refine ⟨fun row found => ?_, perm.mp all.rows⟩
    exact numbers.mp all.numbers row (all.rows.mem_iff.mpr found)
  · rintro ⟨proper, same⟩
    have rows := perm.mpr same
    exact ⟨rows, numbers.mpr fun row shown => proper row (rows.mem_iff.mp shown)⟩

end

/-- The two messages have one base subject. -/
theorem thread_loses_second :
    cmdThread [.test .all] true selectedOfTwo 1 inboxOfTwo = [(1, [])] ∧
      ¬ThreadsAll [.test .all] true selectedOfTwo 1 inboxOfTwo fun _ => none := by
  refine ⟨by decide, fun all => ?_⟩
  exact absurd all.rows.length_eq (by decide)

end Expresso.Imap
