import Expresso.Recurrence.Periods

/-! The recurrence set of a rule: the stream of its series up to `COUNT`, whatever the
window. An expansion reads a prefix of it, up to the first period whose anchor stops the
loop, and lists the occurrences that overlap the window. -/

namespace Expresso.Recurrence
open Time Periodic

section Stream

variable (profile : Profile) (r : Rrule) (dtstart : OffsetDateTime)

/-- From the start of the event on, and not past `UNTIL`. -/
def inSeries (c : OffsetDateTime) : Bool :=
  dtstart.instant ≤ c.instant && !r.pastUntil c

/-- One period of the series, and the anchor of the next. -/
def period (current : OffsetDateTime) : Option (List OffsetDateTime × Option OffsetDateTime) :=
  match r.periodCandidates profile current dtstart with
  | .error _ => none
  | .ok candidates =>
      some ((applyBysetpos r.bysetpos candidates).filter (inSeries r dtstart),
        match advance current r.freq r.interval with
        | .error _ => none
        | .ok next => next)

/-- The candidates of the series with their period's anchor, before `COUNT`. -/
def seriesOf : List (OffsetDateTime × OffsetDateTime) :=
  series (period profile r dtstart) maxIter dtstart

/-- The recurrence set: the first `COUNT` of the series, excluded dates included. -/
def recurrenceSet : List (OffsetDateTime × OffsetDateTime) :=
  (seriesOf profile r dtstart).take r.limitCount

/-- The part of it that an expansion over the window reads. -/
def consumed (window : Window) : List (OffsetDateTime × OffsetDateTime) :=
  (walk (period profile r dtstart) (stops r window) maxIter dtstart).take r.limitCount

end Stream

/-- An occurrence overlaps the window: it starts before the end and ends after the start. -/
def Window.overlaps (window : Window) (duration : Duration) (c : OffsetDateTime) : Bool :=
  window.winFrom.instant < c.instant + duration && c.instant < window.winTo.instant

/-- What the inner loop pushes for a candidate. -/
def occurrence (r : Rrule) (duration : Duration) (window : Window) (c : OffsetDateTime) :
    Option Occurrence :=
  if r.isExcluded c then none
  else match c.add duration with
    | .error _ => none
    | .ok finish => if window.overlaps duration c then some (c, finish) else none

/-! ### The loops read the stream -/

section Loops

variable {profile : Profile} {r : Rrule} {dtstart : OffsetDateTime} {duration : Duration}
  {window : Window}

/-- Every occurrence end that the expansion computes is a date. -/
def EndsInRange (r : Rrule) (duration : Duration) (c : OffsetDateTime) : Prop :=
  r.isExcluded c = false → ∃ finish, c.add duration = .ok finish

/-- The loop went through the candidates `kept`, counting each. -/
structure Emitted (r : Rrule) (duration : Duration) (window : Window)
    (kept : List OffsetDateTime) (emitted : Nat) (out : List Occurrence) (emitted' : Nat)
    (out' : List Occurrence) : Prop where
  count : emitted' = emitted + kept.length
  listed : out' = out ++ kept.filterMap (occurrence r duration window)
  ends : ∀ c ∈ kept, EndsInRange r duration c

theorem Emitted.nil (emitted : Nat) (out : List Occurrence) :
    Emitted r duration window [] emitted out emitted out :=
  ⟨rfl, by simp, by simp⟩

theorem Emitted.cons {c : OffsetDateTime} {kept : List OffsetDateTime} {emitted emitted' : Nat}
    {out out' : List Occurrence} (ended : EndsInRange r duration c)
    (rest : Emitted r duration window kept (emitted + 1)
      (out ++ (occurrence r duration window c).toList) emitted' out') :
    Emitted r duration window (c :: kept) emitted out emitted' out' := by
  obtain ⟨count, listed, ends⟩ := rest
  refine ⟨by rw [count, List.length_cons]; omega, ?_, ?_⟩
  · rw [listed, List.append_assoc, List.filterMap_cons]
    cases occurrence r duration window c <;> rfl
  · intro c' member
    rcases List.mem_cons.mp member with rfl | later
    · exact ended
    · exact ends c' later

theorem inSeries_iff {c : OffsetDateTime} :
    inSeries r dtstart c = true ↔ ¬ (c.instant < dtstart.instant || r.pastUntil c) = true := by
  simp only [inSeries, Bool.and_eq_true, decide_eq_true_eq, Bool.not_eq_true', Bool.or_eq_true,
    not_or, not_lt, Bool.not_eq_true]

theorem emit_ok {candidates : List OffsetDateTime} {emitted emitted' : Nat}
    {out out' : List Occurrence}
    (ran : emit r dtstart duration window candidates emitted out = .ok (emitted', out')) :
    Emitted r duration window
      ((candidates.filter (inSeries r dtstart)).take (r.limitCount - emitted))
      emitted out emitted' out' := by
  induction candidates generalizing emitted out with
  | nil =>
    cases ran
    simpa using Emitted.nil _ _
  | cons c rest ih =>
    simp only [emit] at ran
    split at ran
    · next full =>
      cases ran
      rw [Nat.sub_eq_zero_of_le full, List.take_zero]
      exact Emitted.nil _ _
    · next space =>
      split at ran
      · next outside =>
        rw [List.filter_cons, if_neg (fun inside => inSeries_iff.1 inside outside)]
        exact ih ran
      · next inside =>
        have slots : r.limitCount - emitted = r.limitCount - (emitted + 1) + 1 := by omega
        rw [List.filter_cons, if_pos (inSeries_iff.2 inside), slots, List.take_succ_cons]
        split at ran
        · next excluded =>
          refine Emitted.cons (fun kept => absurd excluded (by simp [kept])) ?_
          simpa [occurrence, excluded] using ih ran
        · next kept =>
          simp only [bind, Except.bind] at ran
          split at ran
          · cases ran
          · next finish added =>
            refine Emitted.cons (fun _ => ⟨finish, added⟩) ?_
            rw [OffsetDateTime.instant_of_add added] at ran
            split at ran
            · next overlap =>
              simpa [occurrence, kept, added, Window.overlaps, overlap] using ih ran
            · next apart =>
              simpa [occurrence, kept, added, Window.overlaps, apart] using ih ran

theorem expandLoop_ok {iters emitted : Nat} {current : OffsetDateTime} {out l : List Occurrence}
    (room : emitted ≤ r.limitCount)
    (ran : expandLoop profile r dtstart duration window iters emitted current out = .ok l) :
    l = out ++ ((walk (period profile r dtstart) (stops r window) iters current).take
        (r.limitCount - emitted)).filterMap (fun p => occurrence r duration window p.2) ∧
      ∀ p ∈ (walk (period profile r dtstart) (stops r window) iters current).take
        (r.limitCount - emitted), EndsInRange r duration p.2 := by
  induction iters generalizing emitted current out with
  | zero =>
    simp only [expandLoop, Except.ok.injEq] at ran
    simp [walk, ran]
  | succ iters ih =>
    simp only [expandLoop] at ran
    split at ran
    · next full =>
      simp only [Except.ok.injEq] at ran
      simp [Nat.sub_eq_zero_of_le full, ran]
    · split at ran
      · next stopped =>
        simp only [Except.ok.injEq] at ran
        simp [walk, stopped, ran]
      · next runs =>
        simp only [bind, Except.bind] at ran
        split at ran
        · cases ran
        · next candidates found =>
          split at ran
          · cases ran
          · next state emittedHere =>
            obtain ⟨emitted', out'⟩ := state
            obtain ⟨count, listed, ends⟩ := emit_ok emittedHere
            split at ran
            · cases ran
            · next step stepped =>
              simp only [walk, runs, if_false, Bool.false_eq_true, period, found, stepped]
              generalize (applyBysetpos r.bysetpos candidates).filter (inSeries r dtstart) = items
                at count listed ends
              rw [List.take_append, List.length_map, List.filterMap_append, ← List.map_take,
                List.filterMap_map]
              have here : ∀ p ∈ (items.take (r.limitCount - emitted)).map (Prod.mk current),
                  EndsInRange r duration p.2 := by
                intro p member
                obtain ⟨c, among, rfl⟩ := List.mem_map.mp member
                exact ends c among
              have left : r.limitCount - emitted - items.length = r.limitCount - emitted' := by
                rw [count, List.length_take]
                omega
              cases step with
              | none =>
                simp only [Except.ok.injEq] at ran
                rw [← ran, listed]
                simp only [Option.elim_none, List.take_nil, List.filterMap_nil, List.append_nil]
                exact ⟨rfl, here⟩
              | some next =>
                have room' : emitted' ≤ r.limitCount := by
                  rw [count, List.length_take]
                  omega
                obtain ⟨later, endsLater⟩ := ih room' ran
                simp only [Option.elim_some, left]
                rw [later, listed, List.append_assoc]
                refine ⟨rfl, ?_⟩
                intro p member
                rcases List.mem_append.mp member with first | second
                · exact here p first
                · exact endsLater p second

/-- An expansion lists, of what it reads of the recurrence set, the occurrences in the window. -/
theorem expand_ok {l : List Occurrence}
    (expanded : r.expand profile dtstart duration window = .ok l) :
    l = (consumed profile r dtstart window).filterMap
        (fun p => occurrence r duration window p.2) ∧
      ∀ p ∈ consumed profile r dtstart window, EndsInRange r duration p.2 := by
  have spec := expandLoop_ok (Nat.zero_le _) expanded
  simpa only [List.nil_append, Nat.sub_zero, consumed] using spec

end Loops

/-! ### The order of the series -/

section Order

variable {profile : Profile} {r : Rrule} {dtstart : OffsetDateTime}

theorem period_some {s : OffsetDateTime} {items : List OffsetDateTime}
    {next : Option OffsetDateTime} (found : period profile r dtstart s = some (items, next)) :
    items.Pairwise (fun a b => a.instant < b.instant) ∧
      (∀ c ∈ items, inSeries r dtstart c = true ∧ lowInstant r.freq s ≤ c.instant ∧
        c.instant < highInstant r.freq s) ∧
      ∀ s', next = some s' → advance s r.freq r.interval = .ok (some s') := by
  simp only [period] at found
  split at found
  · cases found
  · next candidates generated =>
    simp only [Option.some.injEq, Prod.mk.injEq] at found
    obtain ⟨rfl, rfl⟩ := found
    refine ⟨?_, ?_, ?_⟩
    · exact (applyBysetpos_increasing (periodCandidates_increasing generated)).filter _
    · intro c member
      obtain ⟨selected, range⟩ := List.mem_filter.mp member
      exact ⟨range, periodCandidates_inside generated (applyBysetpos_subset selected)⟩
    · intro s' step
      cases stepped : advance s r.freq r.interval with
      | error => simp [stepped] at step
      | ok result => simpa [stepped] using step

/-- Once the years wrap backwards, no period reaches the start of the event again. -/
theorem walk_eq_nil_of_wrapsBack (backward : r.wrapsBack) {stop : OffsetDateTime → Bool}
    (fuel : Nat) {s s' : OffsetDateTime} (start : lowInstant r.freq s ≤ dtstart.instant)
    (stepped : advance s r.freq r.interval = .ok (some s')) :
    walk (period profile r dtstart) stop fuel s' = [] := by
  apply walk_eq_nil (fun s items next (quiet : highInstant r.freq s ≤ dtstart.instant) found => ?_)
  · have before := advance_backward backward stepped
    omega
  · obtain ⟨_, inside, follows⟩ := period_some found
    constructor
    · apply List.eq_nil_iff_forall_not_mem.mpr
      intro c member
      obtain ⟨range, _, below⟩ := inside c member
      simp only [inSeries, Bool.and_eq_true, decide_eq_true_eq] at range
      omega
    · intro s' step
      have before := advance_backward backward (follows s' step)
      have order := anchor_in_period r.freq s
      omega

variable (profile dtstart) in
/-- Such a rule has the candidates of its first period only. -/
theorem walk_of_wrapsBack (backward : r.wrapsBack) :
    ∃ items : List OffsetDateTime, items.Pairwise (fun a b => a.instant < b.instant) ∧
      ∀ stop fuel, walk (period profile r dtstart) stop (fuel + 1) dtstart =
        if stop dtstart then [] else items.map (Prod.mk dtstart) := by
  cases found : period profile r dtstart dtstart with
  | none => exact ⟨[], .nil, by simp [walk, found]⟩
  | some result =>
    obtain ⟨items, next⟩ := result
    obtain ⟨sorted, _, follows⟩ := period_some found
    refine ⟨items, sorted, ?_⟩
    intro stop fuel
    simp only [walk, found]
    cases next with
    | none => simp
    | some s' =>
      have first := (anchor_in_period r.freq dtstart).1
      simp [walk_eq_nil_of_wrapsBack backward fuel first (follows s' rfl)]

theorem series_increasing (positive : 1 ≤ r.interval.toNat) (fuel : Nat) :
    (series (period profile r dtstart) fuel dtstart).Pairwise
      fun p q => p.2.instant < q.2.instant := by
  by_cases backward : r.wrapsBack
  · cases fuel with
    | zero => simp [walk]
    | succ fuel =>
      obtain ⟨items, sorted, only⟩ := walk_of_wrapsBack profile dtstart backward
      rw [series, only]
      exact List.pairwise_map.mpr sorted
  · refine (walk_increasing OffsetDateTime.instant (lowInstant r.freq) (highInstant r.freq)
      ?_ ?_ ?_ ?_ fuel dtstart).1
    · intro s
      have order := anchor_in_period r.freq s
      omega
    · intro s items next found c member
      exact ((period_some found).2.1 c member).2
    · intro s items next found
      exact (period_some found).1
    · intro s items s' found
      exact advance_forward positive backward ((period_some found).2.2 s' rfl)

theorem seriesOf_increasing (positive : 1 ≤ r.interval.toNat) :
    (seriesOf profile r dtstart).Pairwise fun p q => p.2.instant < q.2.instant :=
  series_increasing positive maxIter

variable (profile dtstart) in
/-- What the loop leaves out of the series are periods whose anchor stops it. -/
theorem seriesOf_split (positive : 1 ≤ r.interval.toNat) (window : Window) :
    ∃ rest, seriesOf profile r dtstart =
        walk (period profile r dtstart) (stops r window) maxIter dtstart ++ rest ∧
      ∀ p ∈ rest, stops r window p.1 = true := by
  by_cases backward : r.wrapsBack
  · -- only the first period has candidates: it is either read or stopped as a whole
    obtain ⟨items, _, only⟩ := walk_of_wrapsBack profile dtstart backward
    have whole : seriesOf profile r dtstart = items.map (Prod.mk dtstart) :=
      only (fun _ => false) 999
    have cut : walk (period profile r dtstart) (stops r window) maxIter dtstart =
        if stops r window dtstart then [] else items.map (Prod.mk dtstart) :=
      only (stops r window) 999
    rw [whole, cut]
    by_cases stopped : stops r window dtstart
    · refine ⟨items.map (Prod.mk dtstart), by simp [stopped], ?_⟩
      intro p member
      obtain ⟨c, _, rfl⟩ := List.mem_map.mp member
      exact stopped
    · exact ⟨[], by simp [stopped], by simp⟩
  · apply series_eq_walk_append
    intro s items s' found stopped
    have later := advance_forward positive backward ((period_some found).2.2 s' rfl)
    have here := anchor_in_period r.freq s
    have there := anchor_in_period r.freq s'
    simp only [stops, Rrule.pastUntil, Bool.or_eq_true, Option.any_eq_true, decide_eq_true_eq]
      at stopped ⊢
    rcases stopped with ⟨u, limit, past⟩ | reached
    · exact .inl ⟨u, limit, by omega⟩
    · exact .inr (by omega)

end Order

end Expresso.Recurrence
