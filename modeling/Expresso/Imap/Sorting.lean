import Expresso.Imap.Selection
import Expresso.Query.StableSort

/-! The order of the response of `SORT`. -/

namespace Expresso.Imap
open Text Sql Query

/-! ### Orders -/

theorem SortKey.transCmp (key : SortKey) : Std.TransCmp fun a b => key.order a b := by
  cases key with
  | arrival => exact inferInstanceAs (Std.TransCmp (compareOn fun row : Message × Nat => row.1.receivedAt))
  | date => exact inferInstanceAs
      (Std.TransCmp (compareOn fun row : Message × Nat => row.1.envelope.date))
  | size => exact inferInstanceAs (Std.TransCmp (compareOn fun row : Message × Nat => row.1.sizeBytes))
  | subject => exact inferInstanceAs
      (Std.TransCmp (compareOn fun row : Message × Nat => row.1.envelope.subject))
  | sender => exact inferInstanceAs (Std.TransCmp (compareOn fun row : Message × Nat => row.1.fromAddr))
  | other => exact inferInstanceAs (Std.TransCmp (compareOn fun row : Message × Nat => row.2))

theorem SortCriterion.transCmp (crit : SortCriterion) : Std.TransCmp crit.order := by
  have lawful := crit.key.transCmp
  cases reversed : crit.reverse with
  | false =>
    have same : crit.order = fun a b => crit.key.order a b := by
      funext a b
      rw [SortCriterion.order, reversed]
      rfl
    exact same ▸ lawful
  | true =>
    have opposite : crit.order = fun a b => crit.key.order b a := by
      funext a b
      rw [SortCriterion.order, reversed, if_pos rfl]
      exact lawful.eq_swap.symm
    rw [opposite]
    exact @Std.TransCmp.opposite _ _ lawful

/-- The first criterion that tells two rows apart decides. -/
def criteriaOrder (sortCriteria : List SortCriterion) : Message × Nat → Message × Nat → Ordering :=
  lexOrder (sortCriteria.map SortCriterion.order)

/-- Earlier by the criteria, or equal in all of them and earlier in the mailbox. -/
def SortedBefore (sortCriteria : List SortCriterion) (a b : Message × Nat) : Prop :=
  Precedes (criteriaOrder sortCriteria) (fun a b => a.2 < b.2) a b

/-! ### Rows -/

section
variable {criteria : List SearchKey} {uid : Bool} {sel : SelectedMailbox} {tenantId : Uuid}
  {s : Store} {sortCriteria : List SortCriterion}

theorem sortRows_eq : sortRows criteria uid sel tenantId s sortCriteria =
    (sortBy (sortCriteria.map SortCriterion.order) (candidates criteria sel tenantId s)).filter
      fun row => numberOf uid row ≠ 0 := by
  rw [sortRows, sortBy, List.foldr_map]

theorem candidates_increasing :
    (candidates criteria sel tenantId s).Pairwise fun a b => a.2 < b.2 := by
  have numbers : (List.range' 1 (mailboxRows sel.mailboxId tenantId s).length).Pairwise (· < ·) :=
    List.pairwise_lt_range'
  rw [← rowNumbered_map_snd, List.pairwise_map] at numbers
  exact numbers.filter _

theorem sortRows_sorted : (sortRows criteria uid sel tenantId s sortCriteria).Pairwise
    (SortedBefore sortCriteria) := by
  rw [sortRows_eq]
  apply List.Pairwise.filter
  apply sortBy_precedes
  · intro order member
    obtain ⟨crit, -, rfl⟩ := List.mem_map.mp member
    exact crit.transCmp
  · exact candidates_increasing

end

/-- For keys that do not depend on the bodies, the response of `SORT` has the messages that match
in the order of the criteria. -/
theorem sort_ordered (criteria : List SearchKey) (uid : Bool) (sel : SelectedMailbox)
    (tenantId : Uuid) (s : Store) (fetchBodyBytes : Str → Option (List UInt8))
    (sortCriteria : List SortCriterion)
    (agree : ∀ row ∈ rowNumbered (mailboxRows sel.mailboxId tenantId s),
      criteriaMatch criteria row sel.existing none =
        criteriaMatch criteria row sel.existing (fetchBodyBytes row.1.bodyPath)) :
    ∃ rows : List (Message × Nat),
      cmdSort criteria uid sel tenantId s sortCriteria = rows.map (numberOf uid) ∧
      rows.Perm ((matchingRows criteria sel tenantId s fetchBodyBytes).filter
        fun row => numberOf uid row ≠ 0) ∧
      rows.Pairwise (SortedBefore sortCriteria) := by
  refine ⟨sortRows criteria uid sel tenantId s sortCriteria, rfl, ?_, sortRows_sorted⟩
  have whole : candidates criteria sel tenantId s =
      matchingRows criteria sel tenantId s fetchBodyBytes := List.filter_congr agree
  rw [sortRows_eq, ← whole]
  exact (sortBy_perm _ _).filter _

/-! ### A criterion that is not looked at -/

/-- The first addressee of a message. -/
def firstTo (row : Message × Nat) : Str :=
  ((row.1.envelope.toAddrs.getD []).head?.bind (·.addr)).getD []

/-- The first message goes to `z`, the second to `a`. -/
def addressedInbox : Store :=
  ⟨⟨[⟨1, 1, 1, "INBOX".toList, 1700000000, 3, 2, 2, 200⟩],
    [{ message 10 1 with envelope := { toAddrs := some [⟨some ['z'], none⟩] } },
      { message 11 2 with envelope := { toAddrs := some [⟨some ['a'], none⟩] } }], 3⟩, by decide⟩

/-- `SORT (TO)` keeps the order of the mailbox. -/
theorem sort_to_unsorted :
    cmdSort [.test .all] true selectedOfTwo 1 addressedInbox [⟨false, .other⟩] = [1, 2] ∧
      ¬(sortRows [.test .all] true selectedOfTwo 1 addressedInbox [⟨false, .other⟩]).Pairwise
        fun a b => firstTo a ≤ firstTo b := by
  decide

/-- Both messages of the mailbox, the later one first. -/
theorem sort_reverse_arrival :
    ∃ rows : List (Message × Nat),
      cmdSort [.test .all] true selectedOfTwo 1 inboxOfTwo [⟨true, .arrival⟩] =
        rows.map (numberOf true) ∧
      rows.Perm ((matchingRows [.test .all] selectedOfTwo 1 inboxOfTwo fun _ => none).filter
        fun row => numberOf true row ≠ 0) ∧
      rows.Pairwise (SortedBefore [⟨true, .arrival⟩]) :=
  sort_ordered _ _ _ _ _ _ _ (by decide)

end Expresso.Imap
