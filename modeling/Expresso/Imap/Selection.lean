import Expresso.Imap.Search
import Mathlib.Data.Char
import Mathlib.Data.List.Lex

/-! Which messages `SEARCH`, `SORT` and `THREAD` select, compared with the keys evaluated once on
each message with its body. -/

namespace Expresso.Imap
open Text Sql Query

/-! ### Keys without the body -/

section
variable {m : Message} {seq existing : Nat} {raw : Option (List UInt8)}

theorem testMatches_same {t : SearchTest} (columns : t.needsBody = false) :
    testMatches m seq existing raw t = testMatches m seq existing none t := by
  cases t <;> first | rfl | cases columns

theorem testMatches_more {t : SearchTest} (matches_ : testMatches m seq existing raw t = true) :
    testMatches m seq existing none t = true := by
  cases t <;> first | exact matches_ | rfl

variable {criteria : List SearchKey} {row : Message × Nat}

theorem criteriaMatch_same (columns : criteriaNeedsBody criteria = false) :
    criteriaMatch criteria row existing raw = criteriaMatch criteria row existing none := by
  have keys : ∀ key ∈ criteria, key.mentions SearchTest.needsBody = false := by
    simpa [criteriaNeedsBody, searchKeyNeedsBody] using columns
  rw [criteriaMatch, criteriaMatch, Bool.eq_iff_iff, List.all_eq_true, List.all_eq_true]
  refine forall₂_congr fun key member => ?_
  rw [searchKeyMatches, searchKeyMatches,
    Formula.eval_congr (fun _ => testMatches_same) key (keys key member)]

/-- Keys with `TEXT` and `BODY` only under an even number of negations. -/
theorem criteriaMatch_more
    (even : ∀ key ∈ criteria, key.occurs SearchTest.needsBody true = false)
    (matches_ : criteriaMatch criteria row existing raw = true) :
    criteriaMatch criteria row existing none = true := by
  rw [criteriaMatch, List.all_eq_true] at matches_ ⊢
  intro key member
  exact (Formula.eval_mono (fun _ => testMatches_same) (fun _ => testMatches_more) key).1
    (even key member) (matches_ key member)

end

/-! ### Threads -/

section Threads

variable {rows : List (Message × Nat)}

/-- The rows of a thread, all of them. -/
def threadBlock (group : (Message × Nat) × List (Message × Nat)) : List (Message × Nat) :=
  group.1 :: group.2

theorem threadGroups_flatMap (rows : List (Message × Nat)) :
    (threadGroups rows).flatMap threadBlock = rows := by
  induction rows with
  | nil => rfl
  | cons row rest ih =>
    rw [threadGroups]
    split
    · next root siblings groups grouped =>
      rw [grouped, List.flatMap_cons, threadBlock] at ih
      split
      · rw [List.flatMap_cons, threadBlock, ← ih]
        rfl
      · rw [List.flatMap_cons, List.flatMap_cons, threadBlock, threadBlock, ← ih]
        rfl
    · next grouped =>
      rw [grouped, List.flatMap_nil] at ih
      rw [← ih]
      rfl

theorem threadGroups_subject : ∀ group ∈ threadGroups rows, ∀ row ∈ threadBlock group,
    threadSubject row = threadSubject group.1 := by
  induction rows with
  | nil => simp [threadGroups]
  | cons row rest ih =>
    rw [threadGroups]
    split
    · next root siblings groups grouped =>
      rw [grouped] at ih
      split
      · next same =>
        intro group member x inBlock
        rcases List.mem_cons.mp member with rfl | later
        · rcases List.mem_cons.mp inBlock with rfl | below
          · rfl
          · exact (ih (root, siblings) List.mem_cons_self x below).trans same
        · exact ih group (List.mem_cons_of_mem _ later) x inBlock
      · intro group member x inBlock
        rcases List.mem_cons.mp member with rfl | later
        · rw [List.mem_singleton.mp inBlock]
        · exact ih group later x inBlock
    · intro group member x inBlock
      rw [List.mem_singleton.mp member] at inBlock ⊢
      rw [List.mem_singleton.mp inBlock]

/-- In sorted rows no subject has two threads. -/
theorem threadGroups_increasing (sorted : rows.Pairwise threadOrder) :
    (threadGroups rows).Pairwise fun a b => threadSubject a.1 < threadSubject b.1 := by
  induction rows with
  | nil => exact List.Pairwise.nil
  | cons row rest ih =>
    obtain ⟨first, later⟩ := List.pairwise_cons.mp sorted
    have increasing := ih later
    rw [threadGroups]
    split
    · next root siblings groups grouped =>
      rw [grouped] at increasing
      obtain ⟨below, others⟩ := List.pairwise_cons.mp increasing
      split
      · next same => exact List.pairwise_cons.mpr ⟨fun g member => same ▸ below g member, others⟩
      · next other =>
        have rootRow : root ∈ rest := by
          rw [← threadGroups_flatMap rest, grouped]
          exact List.mem_append_left _ List.mem_cons_self
        have less : threadSubject row < threadSubject root := by
          rcases first root rootRow with less | ⟨same, -⟩
          · exact less
          · exact absurd same.symm other
        refine List.pairwise_cons.mpr ⟨fun g member => ?_, increasing⟩
        rcases List.mem_cons.mp member with rfl | further
        · exact less
        · exact lt_trans less (below g further)
    · exact List.pairwise_singleton _ _

/-- A thread has all rows with its subject. -/
theorem filter_threadGroups (sorted : rows.Pairwise threadOrder)
    {group : (Message × Nat) × List (Message × Nat)} (member : group ∈ threadGroups rows) :
    (rows.filter fun row => threadSubject row = threadSubject group.1) = threadBlock group := by
  have subjects := @threadGroups_subject rows
  have increasing := threadGroups_increasing sorted
  have whole := threadGroups_flatMap rows
  generalize threadGroups rows = groups at *
  subst whole
  induction groups with
  | nil => cases member
  | cons g rest ih =>
    obtain ⟨below, others⟩ := List.pairwise_cons.mp increasing
    have restSubjects := fun g' inRest => subjects g' (List.mem_cons_of_mem g inRest)
    rw [List.flatMap_cons, List.filter_append]
    rcases List.mem_cons.mp member with rfl | later
    · rw [List.filter_eq_self.mpr, List.filter_eq_nil_iff.mpr, List.append_nil]
      · intro row inRest same
        obtain ⟨g', among, inBlock⟩ := List.mem_flatMap.mp inRest
        have subject := restSubjects g' among row inBlock
        have less := below g' among
        rw [← subject, of_decide_eq_true same] at less
        exact lt_irrefl _ less
      · intro row inBlock
        exact decide_eq_true (subjects _ List.mem_cons_self row inBlock)
    · rw [List.filter_eq_nil_iff.mpr, List.nil_append]
      · exact ih later restSubjects others
          (List.Pairwise.sublist (List.sublist_append_right _ _) (List.flatMap_cons ▸ sorted))
      · intro row inBlock same
        have subject := subjects g List.mem_cons_self row inBlock
        have less := below group later
        rw [← subject, of_decide_eq_true same] at less
        exact lt_irrefl _ less

variable {uid : Bool}

theorem answersOf_eq {siblings : List (Message × Nat)}
    (numbered : ∀ row ∈ siblings, numberOf uid row ≠ 0) :
    answersOf uid siblings = if 2 ≤ siblings.length then siblings else [] := by
  have whole : (siblings.filter fun row => numberOf uid row ≠ 0) = siblings :=
    List.filter_eq_self.mpr fun row member => decide_eq_true (numbered row member)
  simp only [answersOf, whole]

/-- The rows that a thread shows are rows of it. -/
theorem answersOf_subset (siblings : List (Message × Nat)) : answersOf uid siblings ⊆ siblings := by
  rw [answersOf]
  split
  · exact List.filter_subset_self _
  · exact List.nil_subset _

/-- Of a thread of two rows the second is not shown. -/
theorem threads_show_iff (sorted : rows.Pairwise threadOrder) (distinct : rows.Nodup)
    (numbered : ∀ row ∈ rows, numberOf uid row ≠ 0) :
    (∀ row ∈ rows, ∃ group ∈ threadGroups rows, row ∈ group.1 :: answersOf uid group.2) ↔
      ∀ row ∈ rows,
        (rows.filter fun other => threadSubject other = threadSubject row).length ≠ 2 := by
  have inGroup : ∀ row ∈ rows, ∃ group ∈ threadGroups rows, row ∈ threadBlock group := by
    intro row member
    rw [← threadGroups_flatMap rows] at member
    exact List.mem_flatMap.mp member
  have blocks : ∀ group ∈ threadGroups rows, ∀ row ∈ threadBlock group, row ∈ rows := by
    intro group member row inBlock
    rw [← threadGroups_flatMap rows]
    exact List.mem_flatMap.mpr ⟨group, member, inBlock⟩
  have subjectRows : ∀ group ∈ threadGroups rows, ∀ row ∈ threadBlock group,
      (rows.filter fun other => threadSubject other = threadSubject row) = threadBlock group := by
    intro group member row inBlock
    rw [threadGroups_subject group member row inBlock]
    exact filter_threadGroups sorted member
  constructor
  · intro shown row member two
    obtain ⟨group, among, inBlock⟩ := inGroup row member
    rw [subjectRows group among row inBlock] at two
    obtain ⟨root, siblings⟩ := group
    obtain ⟨second, rfl⟩ : ∃ second, siblings = [second] :=
      List.length_eq_one_iff.mp (by simpa [threadBlock] using two)
    have below : second ∈ threadBlock (root, [second]) :=
      List.mem_cons_of_mem _ (List.mem_singleton_self second)
    obtain ⟨group, among', shownIn⟩ := shown second (blocks _ among second below)
    have inBlock' : second ∈ threadBlock group := by
      rcases List.mem_cons.mp shownIn with rfl | answer
      · exact List.mem_cons_self
      · exact List.mem_cons_of_mem _ (answersOf_subset _ answer)
    have same := (subjectRows group among' second inBlock').symm.trans
      (subjectRows _ among second below)
    obtain ⟨isRoot, isSiblings⟩ := List.cons.inj same
    have block : (threadBlock (root, [second])).Nodup := by
      rw [← subjectRows _ among second below]
      exact distinct.filter _
    rw [isSiblings, isRoot] at shownIn
    rcases List.mem_cons.mp shownIn with isFirst | answer
    · simp [threadBlock, isFirst] at block
    · rw [answersOf_eq fun row inSiblings =>
        numbered row (blocks _ among row (List.mem_cons_of_mem _ inSiblings))] at answer
      simp at answer
  · intro notTwo row member
    obtain ⟨group, among, inBlock⟩ := inGroup row member
    refine ⟨group, among, ?_⟩
    have count := notTwo row member
    rw [subjectRows group among row inBlock, threadBlock, List.length_cons] at count
    rcases List.mem_cons.mp inBlock with rfl | below
    · exact List.mem_cons_self
    · have some_ := List.length_pos_of_mem below
      rw [answersOf_eq fun row inSiblings =>
        numbered row (blocks _ among row (List.mem_cons_of_mem _ inSiblings)), if_pos (by omega)]
      exact List.mem_cons_of_mem _ below

instance : Std.Total threadOrder where
  total a b := by
    rcases lt_trichotomy (threadSubject a) (threadSubject b) with less | same | more
    · exact .inl (.inl less)
    · exact (le_total a.1.receivedAt b.1.receivedAt).imp (.inr ⟨same, ·⟩) (.inr ⟨same.symm, ·⟩)
    · exact .inr (.inl more)

instance : IsTrans (Message × Nat) threadOrder where
  trans a b c := by
    rintro (less | ⟨same, earlier⟩) (less' | ⟨same', earlier'⟩)
    · exact .inl (less.trans less')
    · exact .inl (same' ▸ less)
    · exact .inl (same ▸ less')
    · exact .inr ⟨same.trans same', earlier.trans earlier'⟩

end Threads

/-! ### The three commands -/

section
variable (criteria : List SearchKey) (uid : Bool) (sel : SelectedMailbox) (tenantId : Uuid)
  (s : Store) (fetchBodyBytes : Str → Option (List UInt8)) (sortCriteria : List SortCriterion)

/-- The messages that match, each looked at once with its body. -/
def matchingRows : List (Message × Nat) :=
  (rowNumbered (mailboxRows sel.mailboxId tenantId s)).filter fun row =>
    criteriaMatch criteria row sel.existing (fetchBodyBytes row.1.bodyPath)

/-- The responses hold the messages that match and no others. -/
structure SelectsMatching : Prop where
  search : ∀ row, row ∈ searchRows criteria sel tenantId s fetchBodyBytes ↔
    row ∈ matchingRows criteria sel tenantId s fetchBodyBytes
  sort : ∀ row, row ∈ sortRows criteria uid sel tenantId s sortCriteria ↔
    row ∈ matchingRows criteria sel tenantId s fetchBodyBytes
  thread : ∀ row, row ∈ threadRows criteria uid sel tenantId s ↔
    row ∈ matchingRows criteria sel tenantId s fetchBodyBytes

end

section
variable {criteria : List SearchKey} {uid : Bool} {sel : SelectedMailbox} {tenantId : Uuid}
  {s : Store} {fetchBodyBytes : Str → Option (List UInt8)} {sortCriteria : List SortCriterion}
  {row : Message × Nat}

theorem mem_searchRows : row ∈ searchRows criteria sel tenantId s fetchBodyBytes ↔
    row ∈ matchingRows criteria sel tenantId s fetchBodyBytes ∧
      criteriaMatch criteria row sel.existing none = true := by
  rw [searchRows, matchingRows, List.mem_filter, List.mem_filter, and_assoc]
  refine and_congr_right fun _ => ?_
  cases needs : criteriaNeedsBody criteria with
  | true => simp [and_comm]
  | false => simp [criteriaMatch_same needs]

/-- `SEARCH` misses the messages that match with their body and not without. -/
theorem search_selects_iff :
    (∀ row, row ∈ searchRows criteria sel tenantId s fetchBodyBytes ↔
        row ∈ matchingRows criteria sel tenantId s fetchBodyBytes) ↔
      ∀ row ∈ rowNumbered (mailboxRows sel.mailboxId tenantId s),
        criteriaMatch criteria row sel.existing (fetchBodyBytes row.1.bodyPath) = true →
          criteriaMatch criteria row sel.existing none = true := by
  constructor
  · intro selects row member matches_
    have found := (selects row).mpr (List.mem_filter.mpr ⟨member, matches_⟩)
    exact (mem_searchRows.1 found).2
  · intro kept row
    rw [mem_searchRows, and_iff_left_iff_imp]
    intro member
    obtain ⟨listed, matches_⟩ := List.mem_filter.mp member
    exact kept row listed matches_

/-- With `TEXT` and `BODY` under an even number of negations `SEARCH` is right on all mailboxes. -/
theorem search_selects_of_even
    (even : ∀ key ∈ criteria, key.occurs SearchTest.needsBody true = false) :
    ∀ row, row ∈ searchRows criteria sel tenantId s fetchBodyBytes ↔
      row ∈ matchingRows criteria sel tenantId s fetchBodyBytes :=
  search_selects_iff.2 fun _ _ matches_ => criteriaMatch_more even matches_

theorem mem_sortRows : row ∈ sortRows criteria uid sel tenantId s sortCriteria ↔
    row ∈ candidates criteria sel tenantId s ∧ numberOf uid row ≠ 0 := by
  have sorted : (sortCriteria.foldr (fun crit rows =>
      rows.insertionSort fun a b => crit.order a b ≠ .gt)
      (candidates criteria sel tenantId s)).Perm (candidates criteria sel tenantId s) := by
    induction sortCriteria with
    | nil => exact .refl _
    | cons crit rest ih =>
      rw [List.foldr_cons]
      exact (List.perm_insertionSort _ _).trans ih
  rw [sortRows, List.mem_filter, sorted.mem_iff, decide_eq_true_eq]

theorem candidates_nodup : (candidates criteria sel tenantId s).Nodup := by
  have rows : (rowNumbered (mailboxRows sel.mailboxId tenantId s)).Nodup := by
    apply List.Nodup.of_map (·.1)
    rw [rowNumbered_map_fst]
    exact mailboxRows_nodup.of_map _
  exact rows.filter _

/-- `THREAD` shows all rows if and only if none of its threads has exactly two. -/
theorem thread_selects_iff
    (numbered : ∀ row ∈ candidates criteria sel tenantId s, numberOf uid row ≠ 0) :
    (∀ row, row ∈ threadRows criteria uid sel tenantId s ↔
        row ∈ candidates criteria sel tenantId s) ↔
      ∀ row ∈ candidates criteria sel tenantId s,
        ((candidates criteria sel tenantId s).filter fun other =>
          threadSubject other = threadSubject row).length ≠ 2 := by
  have perm := List.perm_insertionSort threadOrder (candidates criteria sel tenantId s)
  have sorted := List.pairwise_insertionSort threadOrder (candidates criteria sel tenantId s)
  have shown := threads_show_iff sorted (perm.nodup_iff.mpr candidates_nodup)
    fun row member => numbered row (perm.mem_iff.mp member)
  have member : ∀ row, row ∈ threadRows criteria uid sel tenantId s ↔ ∃ group ∈ threadGroups
      ((candidates criteria sel tenantId s).insertionSort threadOrder),
      row ∈ group.1 :: answersOf uid group.2 := by
    intro row
    rw [threadRows, threads, List.flatMap_map, List.mem_flatMap]
  have only : ∀ row, row ∈ threadRows criteria uid sel tenantId s →
      row ∈ candidates criteria sel tenantId s := by
    intro row inThreads
    obtain ⟨group, among, inBlock⟩ := (member row).mp inThreads
    rw [← perm.mem_iff, ← threadGroups_flatMap
      ((candidates criteria sel tenantId s).insertionSort threadOrder), List.mem_flatMap]
    refine ⟨group, among, ?_⟩
    rcases List.mem_cons.mp inBlock with rfl | answer
    · exact List.mem_cons_self
    · exact List.mem_cons_of_mem _ (answersOf_subset _ answer)
  have lengths : ∀ row, (((candidates criteria sel tenantId s).insertionSort threadOrder).filter
      fun other => threadSubject other = threadSubject row).length =
      ((candidates criteria sel tenantId s).filter
        fun other => threadSubject other = threadSubject row).length :=
    fun row => (perm.filter _).length_eq
  simp only [perm.mem_iff, lengths] at shown
  rw [← shown]
  constructor
  · intro all row inCandidates
    exact (member row).mp ((all row).mpr inCandidates)
  · intro all row
    exact ⟨only row, fun inCandidates => (member row).mpr (all row inCandidates)⟩

/-- In a mailbox whose messages all have a number, `SEARCH`, `SORT` and `THREAD` select those that
match if and only if no message is judged otherwise without its body, and no subject is shared by
exactly two that match. -/
theorem selects_matching_iff
    (numbered : ∀ row ∈ rowNumbered (mailboxRows sel.mailboxId tenantId s), numberOf uid row ≠ 0) :
    SelectsMatching criteria uid sel tenantId s fetchBodyBytes sortCriteria ↔
      (∀ row ∈ rowNumbered (mailboxRows sel.mailboxId tenantId s),
        criteriaMatch criteria row sel.existing none =
          criteriaMatch criteria row sel.existing (fetchBodyBytes row.1.bodyPath)) ∧
      ∀ row ∈ matchingRows criteria sel tenantId s fetchBodyBytes,
        ((matchingRows criteria sel tenantId s fetchBodyBytes).filter fun other =>
          threadSubject other = threadSubject row).length ≠ 2 := by
  have whole : (∀ row ∈ rowNumbered (mailboxRows sel.mailboxId tenantId s),
      criteriaMatch criteria row sel.existing none =
        criteriaMatch criteria row sel.existing (fetchBodyBytes row.1.bodyPath)) →
      candidates criteria sel tenantId s = matchingRows criteria sel tenantId s fetchBodyBytes :=
    fun agree => List.filter_congr agree
  have numbers : ∀ row ∈ candidates criteria sel tenantId s, numberOf uid row ≠ 0 :=
    fun row member => numbered row (List.mem_of_mem_filter member)
  constructor
  · rintro ⟨search, sort, thread⟩
    have agree : ∀ row ∈ rowNumbered (mailboxRows sel.mailboxId tenantId s),
        criteriaMatch criteria row sel.existing none =
          criteriaMatch criteria row sel.existing (fetchBodyBytes row.1.bodyPath) := by
      intro row listed
      rw [Bool.eq_iff_iff]
      refine ⟨fun matches_ => ?_, search_selects_iff.1 search row listed⟩
      have candidate : row ∈ candidates criteria sel tenantId s :=
        List.mem_filter.mpr ⟨listed, matches_⟩
      have found := (sort row).mp (mem_sortRows.2 ⟨candidate, numbered row listed⟩)
      exact (List.mem_filter.mp found).2
    refine ⟨agree, ?_⟩
    rw [← whole agree] at thread ⊢
    exact (thread_selects_iff numbers).mp thread
  · rintro ⟨agree, notTwo⟩
    refine ⟨search_selects_iff.2 fun row listed matches_ => (agree row listed).trans matches_,
      fun row => ?_, ?_⟩
    · rw [← whole agree, mem_sortRows, and_iff_left_iff_imp]
      exact numbers row
    · rw [← whole agree] at notTwo ⊢
      exact (thread_selects_iff numbers).mpr notTwo

end

/-- The body of every message. -/
def greeting : List UInt8 := asBytes "Hi: x\r\n\r\nhello".toList

theorem selects_matching_hello :
    SelectsMatching [.test (.uid [.single (.value 1)]), .test (.body "hello".toList)] true
      selectedOfTwo 1 inboxOfTwo (fun _ => some greeting) [] :=
  (selects_matching_iff (by decide)).mpr (by decide)

/-- `SEARCH NOT TEXT bye` misses the messages without `bye`. -/
theorem search_misses_not_text :
    ¬ SelectsMatching [.not (.test (.text "bye".toList))] true selectedOfTwo 1 inboxOfTwo
      (fun _ => some greeting) [] := by
  have missed : ∃ row ∈ matchingRows [.not (.test (.text "bye".toList))] selectedOfTwo 1 inboxOfTwo
      (fun _ => some greeting), row ∉ searchRows [.not (.test (.text "bye".toList))]
        selectedOfTwo 1 inboxOfTwo (fun _ => some greeting) := by
    decide
  intro selects
  obtain ⟨row, matches_, absent⟩ := missed
  exact absent ((selects.search row).mpr matches_)

end Expresso.Imap
