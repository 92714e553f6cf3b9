import Expresso.Periodic.Sorted
import Expresso.Recurrence.Total

/-! Occurrences without a duration, over a window and over the two parts it is cut into. -/

namespace Expresso.Recurrence
open Time Periodic Transition

/-- An occurrence that is not excluded and lies strictly inside the window. -/
def shown (r : Rrule) (window : Window) (c : OffsetDateTime) : Bool :=
  !r.isExcluded c && (window.winFrom.instant < c.instant && c.instant < window.winTo.instant)

/-- The loop reaches the period of the anchor. -/
def Reaches (r : Rrule) (winTo anchor : OffsetDateTime) : Prop :=
  r.pastUntil anchor = false ∧ anchor.instant < winTo.instant

/-- No occurrence lies where the window is cut, and each before the cut belongs to a period that
begins before it. -/
def CutsCleanly (profile : Profile) (r : Rrule) (dtstart a b c : OffsetDateTime) : Prop :=
  ∀ p ∈ recurrenceSet profile r dtstart, Reaches r c p.1 → shown r ⟨a, c⟩ p.2 →
    p.2.instant ≠ b.instant ∧ (p.2.instant < b.instant → p.1.instant < b.instant)

section
variable {profile : Profile} {r : Rrule} {dtstart : OffsetDateTime} {window : Window}

theorem stops_iff {anchor : OffsetDateTime} :
    stops r window anchor = false ↔ Reaches r window.winTo anchor := by
  simp [stops, Reaches]

/-- What an expansion reads are the occurrences of the periods it reaches. -/
theorem mem_consumed_iff (positive : 1 ≤ r.interval.toNat) (p : OffsetDateTime × OffsetDateTime) :
    p ∈ consumed profile r dtstart window ↔
      p ∈ recurrenceSet profile r dtstart ∧ Reaches r window.winTo p.1 := by
  obtain ⟨rest, split, stopped⟩ := recurrenceSet_split profile dtstart positive window
  rw [split, ← stops_iff]
  constructor
  · intro member
    exact ⟨List.mem_append_left _ member, consumed_not_stopped member⟩
  · intro ⟨member, reached⟩
    rcases List.mem_append.mp member with here | later
    · exact here
    · rw [stopped p later] at reached
      cases reached

theorem occurrence_zero {c : OffsetDateTime} (ends : EndsInRange r 0 c) :
    (occurrence r 0 window c).map (·.1) = if shown r window c then some c else none := by
  unfold occurrence shown
  cases excluded : r.isExcluded c with
  | true => simp
  | false =>
    obtain ⟨finish, added⟩ := ends excluded
    simp only [added, Bool.false_eq_true, if_false, Window.overlaps, add_zero, Bool.not_false,
      Bool.true_and]
    split_ifs <;> rfl

/-- The starts that an expansion without a duration lists. -/
theorem expand_starts {l : List Occurrence} (ran : r.expand profile dtstart 0 window = .ok l) :
    l.map (·.1) = ((consumed profile r dtstart window).map (·.2)).filter (shown r window) := by
  obtain ⟨listed, ends⟩ := expand_ok ran
  rw [listed, List.map_filterMap]
  generalize consumed profile r dtstart window = stream at ends ⊢
  induction stream with
  | nil => rfl
  | cons p rest ih =>
    have later := ih fun q member => ends q (List.mem_cons_of_mem _ member)
    rw [List.filterMap_cons, occurrence_zero (ends p List.mem_cons_self), List.map_cons,
      List.filter_cons]
    split_ifs
    · rw [later]
    · exact later

theorem consumed_increasing (positive : 1 ≤ r.interval.toNat) :
    (consumed profile r dtstart window).Pairwise fun p q => p.2.instant < q.2.instant := by
  obtain ⟨rest, split, _⟩ := recurrenceSet_split profile dtstart positive window
  have whole := recurrenceSet_increasing profile dtstart positive
  rw [split] at whole
  exact (List.pairwise_append.mp whole).1

theorem starts_increasing (positive : 1 ≤ r.interval.toNat) {l : List Occurrence}
    (ran : r.expand profile dtstart 0 window = .ok l) :
    (l.map (·.1)).Pairwise fun a b => a.instant < b.instant := by
  rw [expand_starts ran]
  have ordered : ((consumed profile r dtstart window).map (·.2)).Pairwise
      fun a b => a.instant < b.instant := List.pairwise_map.mpr (consumed_increasing positive)
  exact ordered.filter _

theorem mem_starts_iff (positive : 1 ≤ r.interval.toNat) {l : List Occurrence}
    (ran : r.expand profile dtstart 0 window = .ok l) (x : OffsetDateTime) :
    x ∈ l.map (·.1) ↔ ∃ p ∈ recurrenceSet profile r dtstart,
      Reaches r window.winTo p.1 ∧ p.2 = x ∧ shown r window x := by
  rw [expand_starts ran, List.mem_filter, List.mem_map]
  constructor
  · intro ⟨⟨p, member, equal⟩, inside⟩
    obtain ⟨listed, reached⟩ := (mem_consumed_iff positive p).mp member
    exact ⟨p, listed, reached, equal, inside⟩
  · intro ⟨p, listed, reached, equal, inside⟩
    exact ⟨⟨p, (mem_consumed_iff positive p).mpr ⟨listed, reached⟩, equal⟩, inside⟩

theorem shown_iff {x : OffsetDateTime} :
    shown r window x = true ↔ r.isExcluded x = false ∧
      window.winFrom.instant < x.instant ∧ x.instant < window.winTo.instant := by
  simp [shown]

/-- An expansion that returns does so over every window that ends no later. -/
theorem expand_returns (checked : Checked r.byday r.bymonth) {inner : Window} {l : List Occurrence}
    (ran : r.expand profile dtstart 0 window = .ok l)
    (earlier : inner.winTo.instant ≤ window.winTo.instant) :
    ∃ l', r.expand profile dtstart 0 inner = .ok l' := by
  have loop (w : Window) := expandLoop_ok_iff profile dtstart 0 w checked maxIter 0 dtstart []
  simp only [Nat.zero_min] at loop
  apply (loop inner).mpr
  intro p visited
  apply (loop window).mp ⟨l, ran⟩ p
  apply (visits_front _ _ maxIter (dtstart, 0)).subset visited
  intro s stopped
  simp only [stops, Bool.or_eq_true, decide_eq_true_eq] at stopped ⊢
  exact stopped.imp id fun stops => stops.imp id earlier.trans

/-- An expansion without a duration is made of its two parts just where the cut falls between the
occurrences and no period before it reaches past it. -/
theorem expand_tiles_iff (positive : 1 ≤ r.interval.toNat) {a b c : OffsetDateTime}
    (first : a.instant < b.instant) (second : b.instant < c.instant)
    {all early late : List Occurrence}
    (whole : r.expand profile dtstart 0 ⟨a, c⟩ = .ok all)
    (left : r.expand profile dtstart 0 ⟨a, b⟩ = .ok early)
    (right : r.expand profile dtstart 0 ⟨b, c⟩ = .ok late) :
    all.map (·.1) = early.map (·.1) ++ late.map (·.1) ↔ CutsCleanly profile r dtstart a b c := by
  constructor
  · intro tiles p member reached inside
    have listed : p.2 ∈ all.map (·.1) :=
      (mem_starts_iff positive whole p.2).mpr ⟨p, member, reached, rfl, inside⟩
    rw [tiles] at listed
    rcases List.mem_append.mp listed with before | after
    · obtain ⟨q, other, ⟨_, starts⟩, equal, among⟩ := (mem_starts_iff positive left p.2).mp before
      have same : q = p := eq_of_key_eq (recurrenceSet_increasing profile dtstart positive) other
        member (congrArg OffsetDateTime.instant equal)
      exact ⟨(shown_iff.1 among).2.2.ne, fun _ => same ▸ starts⟩
    · obtain ⟨_, _, _, _, among⟩ := (mem_starts_iff positive right p.2).mp after
      have beyond := (shown_iff.1 among).2.1
      exact ⟨beyond.ne', fun below => absurd (beyond.trans below) (lt_irrefl _)⟩
  · intro clean
    refine increasing_ext (starts_increasing positive whole) ?_ fun x => ?_
    · refine List.pairwise_append.mpr
        ⟨starts_increasing positive left, starts_increasing positive right, ?_⟩
      intro x before y after
      obtain ⟨_, _, _, _, inFirst⟩ := (mem_starts_iff positive left x).mp before
      obtain ⟨_, _, _, _, inSecond⟩ := (mem_starts_iff positive right y).mp after
      exact (shown_iff.1 inFirst).2.2.trans (shown_iff.1 inSecond).2.1
    · rw [List.mem_append, mem_starts_iff positive whole, mem_starts_iff positive left,
        mem_starts_iff positive right]
      simp only [shown_iff]
      constructor
      · intro ⟨p, member, reached, equal, kept, after, before⟩
        have cut := clean p member reached (shown_iff.2 (equal ▸ ⟨kept, after, before⟩))
        rw [equal] at cut
        rcases lt_or_gt_of_ne cut.1 with below | above
        · exact .inl ⟨p, member, ⟨reached.1, cut.2 below⟩, equal, kept, after, below⟩
        · exact .inr ⟨p, member, reached, equal, kept, above, before⟩
      · intro either
        rcases either with ⟨p, member, reached, equal, kept, after, before⟩ |
          ⟨p, member, reached, equal, kept, after, before⟩
        · exact ⟨p, member, ⟨reached.1, reached.2.trans second⟩, equal, kept, after,
            before.trans second⟩
        · exact ⟨p, member, reached, equal, kept, first.trans after, before⟩

end

end Expresso.Recurrence
