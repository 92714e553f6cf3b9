import Mathlib

/-! A queue of times, from whose front the old ones are dropped before a new one is admitted. -/

namespace Expresso.Interval

section
variable {α : Type} (old : α → α → Bool) (limit : Nat)

/-- The queue without the old times at its front. -/
def pruned (now : α) (queue : List α) : List α := queue.dropWhile (old now)

def admits (now : α) (queue : List α) : Bool := decide ((pruned old now queue).length < limit)

def enqueue (now : α) (queue : List α) : List α :=
  if admits old limit now queue then pruned old now queue ++ [now] else pruned old now queue

/-- The times admitted, one after the other. -/
def admitted : List α → List α → List α
  | _, [] => []
  | queue, now :: rest =>
      (if admits old limit now queue then [now] else []) ++
        admitted (enqueue old limit now queue) rest

example : admitted (fun now t => decide (5 < now - t)) 1 [] [0, 3, 7] = [0, 7] := by
  simp [admitted, enqueue, admits, pruned]

def queueAfter (queue : List α) (times : List α) : List α :=
  times.foldl (fun q now => enqueue old limit now q) queue

variable {old limit} {queue times : List α} {now : α}

theorem admitted_append (times later : List α) : admitted old limit queue (times ++ later) =
    admitted old limit queue times ++
      admitted old limit (queueAfter old limit queue times) later := by
  induction times generalizing queue with
  | nil => rfl
  | cons now rest ih => rw [List.cons_append, admitted, ih, admitted, List.append_assoc]; rfl

theorem admitted_snoc (times : List α) (now : α) : admitted old limit queue (times ++ [now]) =
    admitted old limit queue times ++
      if admits old limit now (queueAfter old limit queue times) then [now] else [] := by
  rw [admitted_append, admitted, admitted, List.append_nil]

theorem queueAfter_snoc (times : List α) (now : α) : queueAfter old limit queue (times ++ [now]) =
    enqueue old limit now (queueAfter old limit queue times) := by
  rw [queueAfter, List.foldl_append]
  rfl

theorem admitted_sublist (times : List α) : (admitted old limit queue times).Sublist times := by
  induction times generalizing queue with
  | nil => exact List.Sublist.refl _
  | cons now rest ih =>
    rw [admitted]
    split
    · exact ih.cons_cons now
    · exact ih.cons now

theorem admitted_subset (times : List α) : admitted old limit queue times ⊆ times :=
  (admitted_sublist times).subset

end

/-! ### What the queue holds -/

section
variable {α : Type} [LinearOrder α]

/-- Seen later, more is old; what is earlier is old before. -/
structure Aging (old : α → α → Bool) : Prop where
  later : ∀ {now now' t}, now ≤ now' → old now t = true → old now' t = true
  earlier : ∀ {now t t'}, t ≤ t' → old now t' = true → old now t = true
  present : ∀ now, old now now = false

/-- The queue is what has been admitted, without the times that are old when seen last. -/
structure Remembers (old : α → α → Bool) (history queue : List α) (last : α) : Prop where
  sorted : history.Pairwise (· ≤ ·)
  past : ∀ t ∈ history, t ≤ last
  kept : queue = history.filter fun t => !old last t

variable {old : α → α → Bool} {limit : Nat} {queue history times : List α} {now last : α}
  (aging : Aging old)
include aging

/-- In a sorted list the old times stand in front. -/
theorem pruned_eq_filter (sorted : queue.Pairwise (· ≤ ·)) :
    pruned old now queue = queue.filter fun t => !old now t := by
  induction queue with
  | nil => rfl
  | cons t rest ih =>
    obtain ⟨first, later⟩ := List.pairwise_cons.mp sorted
    rw [pruned]
    cases aged : old now t with
    | true =>
      rw [List.dropWhile_cons_of_pos aged, List.filter_cons_of_neg (by simp [aged])]
      exact ih later
    | false =>
      rw [List.dropWhile_cons_of_neg (by simp [aged])]
      symm
      rw [List.filter_eq_self]
      intro t' member
      have young : old now t' = false := by
        cases member' : old now t' with
        | false => rfl
        | true =>
          rcases List.mem_cons.mp member with rfl | inRest
          · exact member'.symm.trans aged
          · exact (aging.earlier (first t' inRest) member').symm.trans aged
      rw [young]
      rfl

theorem Remembers.pruned (remembers : Remembers old history queue last) (ordered : last ≤ now) :
    Interval.pruned old now queue = history.filter fun t => !old now t := by
  have sorted : queue.Pairwise (· ≤ ·) := remembers.kept ▸ remembers.sorted.filter _
  rw [pruned_eq_filter aging sorted, remembers.kept, List.filter_filter]
  refine List.filter_congr fun t member => ?_
  cases aged : old last t with
  | false => simp
  | true => simp [aging.later ordered aged]

/-- A time is admitted just where fewer than the limit that were admitted are not old. -/
theorem Remembers.admits_iff (remembers : Remembers old history queue last)
    (ordered : last ≤ now) : admits old limit now queue = true ↔
      (history.filter fun t => !old now t).length < limit := by
  rw [admits, remembers.pruned aging ordered, decide_eq_true_iff]

theorem Remembers.enqueue (remembers : Remembers old history queue last) (ordered : last ≤ now) :
    Remembers old (history ++ if admits old limit now queue then [now] else [])
      (Interval.enqueue old limit now queue) now := by
  have past : ∀ t ∈ history, t ≤ now := fun t member => (remembers.past t member).trans ordered
  unfold Interval.enqueue
  rw [remembers.pruned aging ordered]
  split
  · refine ⟨List.pairwise_append.mpr ⟨remembers.sorted, List.pairwise_singleton _ _, ?_⟩, ?_, ?_⟩
    · intro t member t' last
      rw [List.mem_singleton.mp last]
      exact past t member
    · intro t member
      rcases List.mem_append.mp member with before | here
      · exact past t before
      · exact (List.mem_singleton.mp here).le
    · rw [List.filter_append, List.filter_cons_of_pos (by simp [aging.present now]),
        List.filter_nil]
  · rw [List.append_nil]
    exact ⟨remembers.sorted, past, rfl⟩

theorem remembers_queueAfter (ordered : times.Pairwise (· ≤ ·)) (later : ∀ t ∈ times, t ≤ last) :
    ∃ seen ≤ last, Remembers old (admitted old limit [] times)
      (queueAfter old limit [] times) seen := by
  induction times using List.reverseRecOn generalizing last with
  | nil => exact ⟨last, le_rfl, List.Pairwise.nil, by simp [admitted], rfl⟩
  | append_singleton times now ih =>
    obtain ⟨before, -, across⟩ := List.pairwise_append.mp ordered
    have bound : ∀ t ∈ times, t ≤ now := fun t member => across t member now (by simp)
    obtain ⟨seen, earlier, remembers⟩ := ih before bound
    refine ⟨now, later now (by simp), ?_⟩
    rw [admitted_snoc, queueAfter_snoc]
    exact remembers.enqueue aging earlier

/-! ### What is admitted -/

variable (ordered : times.Pairwise (· ≤ ·))
include ordered

theorem admits_queueAfter_iff (later : ∀ t ∈ times, t ≤ now) :
    admits old limit now (queueAfter old limit [] times) = true ↔
      ((admitted old limit [] times).filter fun t => !old now t).length < limit := by
  obtain ⟨seen, earlier, remembers⟩ := remembers_queueAfter aging ordered later
  exact remembers.admits_iff aging earlier

/-- Of times none of which is old for a later one, no more than the limit are admitted. -/
theorem length_admitted_le {within : α → Bool}
    (young : ∀ t t', within t = true → within t' = true → t ≤ t' → old t' t = false) :
    ((admitted old limit [] times).filter within).length ≤ limit := by
  induction times using List.reverseRecOn with
  | nil => exact Nat.zero_le _
  | append_singleton times now ih =>
    obtain ⟨before, -, across⟩ := List.pairwise_append.mp ordered
    have bound : ∀ t ∈ times, t ≤ now := fun t member => across t member now (by simp)
    rw [admitted_snoc, List.filter_append, List.length_append]
    split
    next admittedNow =>
      cases inside : within now with
      | false => simpa [inside] using ih before
      | true =>
        have fewer := (admits_queueAfter_iff aging before bound).mp admittedNow
        have among : ((admitted old limit [] times).filter within).length ≤
            ((admitted old limit [] times).filter fun t => !old now t).length := by
          rw [← List.countP_eq_length_filter, ← List.countP_eq_length_filter]
          refine List.countP_mono_left fun t member here => ?_
          rw [young t now here inside (bound t (admitted_subset times member))]
          rfl
        rw [List.filter_cons_of_pos inside]
        exact Nat.succ_le_of_lt (among.trans_lt fewer)
    next => simpa using ih before

/-- What is not admitted leaves no trace. -/
theorem admitted_admitted : admitted old limit [] (admitted old limit [] times) =
    admitted old limit [] times := by
  induction times using List.reverseRecOn with
  | nil => rfl
  | append_singleton times now ih =>
    obtain ⟨before, -, across⟩ := List.pairwise_append.mp ordered
    have bound : ∀ t ∈ times, t ≤ now := fun t member => across t member now (by simp)
    have kept := ih before
    rw [admitted_snoc]
    split
    next admittedNow =>
      have first := (admits_queueAfter_iff aging before bound).mp admittedNow
      have sorted : (admitted old limit [] times).Pairwise (· ≤ ·) :=
        before.sublist (admitted_sublist times)
      rw [admitted_snoc, kept, if_pos]
      rw [admits_queueAfter_iff aging sorted fun t member =>
        bound t (admitted_subset times member), kept]
      exact first
    next => rw [List.append_nil, kept]

theorem admits_admitted (later : ∀ t ∈ times, t ≤ now) :
    admits old limit now (queueAfter old limit [] (admitted old limit [] times)) =
      admits old limit now (queueAfter old limit [] times) := by
  have sorted : (admitted old limit [] times).Pairwise (· ≤ ·) :=
    ordered.sublist (admitted_sublist times)
  rw [Bool.eq_iff_iff, admits_queueAfter_iff aging ordered later,
    admits_queueAfter_iff aging sorted fun t member => later t (admitted_subset times member),
    admitted_admitted aging ordered]

end

end Expresso.Interval
