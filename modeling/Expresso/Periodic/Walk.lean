import Mathlib

/-! Lists produced period by period. A period yields its items and the period after it,
or `none` when it cannot be computed; a walk visits at most a given number of periods and
ends early where a stop test holds. -/

namespace Expresso.Periodic

section Walk

variable {σ α : Type} (period : σ → Option (List α × Option σ))

/-- The items of the periods visited, each with its period. -/
def walk (stop : σ → Bool) : Nat → σ → List (σ × α)
  | 0, _ => []
  | fuel + 1, s =>
      if stop s then []
      else match period s with
        | none => []
        | some (items, next) =>
            items.map (Prod.mk s) ++ next.elim [] fun s' => walk stop fuel s'

example : walk (fun n => some ([10 * n], some (n + 1))) (2 ≤ ·) 5 0 = [(0, 0), (1, 10)] := by
  simp [walk]

/-- The periods themselves, each followed by the next. -/
def visits (stop : σ → Bool) (next : σ → Option σ) : Nat → σ → List σ
  | 0, _ => []
  | fuel + 1, s => if stop s then [] else s :: (next s).elim [] (visits stop next fuel)

/-- The walk that never stops early. -/
abbrev series : Nat → σ → List (σ × α) := walk period fun _ => false

variable {period}

/-- A stop test that holds more often cuts the walk earlier. -/
theorem walk_prefix {stop earlier : σ → Bool} (implied : ∀ s, stop s → earlier s) (fuel : Nat)
    (s : σ) : walk period earlier fuel s <+: walk period stop fuel s := by
  induction fuel generalizing s with
  | zero => exact List.prefix_rfl
  | succ fuel ih =>
    simp only [walk]
    by_cases stops : stop s
    · rw [if_pos (implied s stops)]
      exact List.nil_prefix
    · rw [if_neg stops]
      by_cases cut : earlier s
      · rw [if_pos cut]
        exact List.nil_prefix
      · rw [if_neg cut]
        cases period s with
        | none => exact List.prefix_rfl
        | some result =>
          obtain ⟨items, next⟩ := result
          apply (List.prefix_append_right_inj _).mpr
          cases next with
          | none => exact List.prefix_rfl
          | some s' => exact ih s'

/-- So it does with the periods visited. -/
theorem visits_front {stop earlier : σ → Bool} (implied : ∀ s, stop s → earlier s)
    (next : σ → Option σ) (fuel : Nat) (s : σ) :
    visits earlier next fuel s <+: visits stop next fuel s := by
  induction fuel generalizing s with
  | zero => exact List.prefix_rfl
  | succ fuel ih =>
    simp only [visits]
    by_cases cut : earlier s
    · rw [if_pos cut]
      exact List.nil_prefix
    · rw [if_neg cut, if_neg fun stops => cut (implied s stops)]
      apply (List.prefix_cons_inj s).mpr
      cases next s with
      | none => exact List.prefix_rfl
      | some s' => exact ih s'

/-- Where the stop test, once it holds, holds in all later periods, a walk leaves out only
items of periods that stop. -/
theorem series_eq_walk_append {stop : σ → Bool}
    (stays : ∀ s items s', period s = some (items, some s') → stop s → stop s') (fuel : Nat)
    (s : σ) : ∃ rest, series period fuel s = walk period stop fuel s ++ rest ∧
      ∀ p ∈ rest, stop p.1 := by
  have stopped : ∀ fuel s, stop s → ∀ p ∈ series period fuel s, stop p.1 := by
    intro fuel
    induction fuel with
    | zero => simp [walk]
    | succ fuel ih =>
      intro s stops p member
      simp only [walk, Bool.false_eq_true, if_false] at member
      cases found : period s with
      | none => simp [found] at member
      | some result =>
        obtain ⟨items, next⟩ := result
        rw [found] at member
        rcases List.mem_append.mp member with here | later
        · obtain ⟨item, _, rfl⟩ := List.mem_map.mp here
          exact stops
        · cases next with
          | none => simp at later
          | some s' => exact ih s' (stays s items s' found stops) p later
  induction fuel generalizing s with
  | zero => exact ⟨[], rfl, by simp⟩
  | succ fuel ih =>
    by_cases stops : stop s
    · refine ⟨series period (fuel + 1) s, ?_, stopped (fuel + 1) s stops⟩
      simp [walk, stops]
    · simp only [walk, stops, Bool.false_eq_true, if_false]
      cases period s with
      | none => exact ⟨[], by simp, by simp⟩
      | some result =>
        obtain ⟨items, next⟩ := result
        cases next with
        | none => exact ⟨[], by simp, by simp⟩
        | some s' =>
          obtain ⟨rest, split, allStop⟩ := ih s'
          exact ⟨rest, by simp only [Option.elim_some, split, List.append_assoc], allStop⟩

/-- Every item of a walk is an item of its period. -/
theorem walk_forall {stop : σ → Bool} {holds : σ → α → Prop}
    (each : ∀ s items next, period s = some (items, next) → ∀ a ∈ items, holds s a)
    (fuel : Nat) (s : σ) : ∀ p ∈ walk period stop fuel s, holds p.1 p.2 := by
  induction fuel generalizing s with
  | zero => simp [walk]
  | succ fuel ih =>
    intro p member
    simp only [walk] at member
    split at member
    · cases member
    · cases found : period s with
      | none => simp [found] at member
      | some result =>
        obtain ⟨items, next⟩ := result
        rw [found] at member
        rcases List.mem_append.mp member with here | later
        · obtain ⟨item, mine, rfl⟩ := List.mem_map.mp here
          exact each s items next found item mine
        · cases next with
          | none => simp at later
          | some s' => exact ih s' p later

/-- No period a walk takes items from stops. -/
theorem walk_not_stopped {stop : σ → Bool} (fuel : Nat) (s : σ) :
    ∀ p ∈ walk period stop fuel s, stop p.1 = false := by
  induction fuel generalizing s with
  | zero => simp [walk]
  | succ fuel ih =>
    intro p member
    simp only [walk] at member
    split at member
    · cases member
    · next runs =>
      cases found : period s with
      | none => simp [found] at member
      | some result =>
        obtain ⟨items, next⟩ := result
        rw [found] at member
        rcases List.mem_append.mp member with here | later
        · obtain ⟨item, mine, rfl⟩ := List.mem_map.mp here
          simpa using runs
        · cases next with
          | none => simp at later
          | some s' => exact ih s' p later

/-- A walk whose periods, as far as an invariant reaches, yield nothing is empty. -/
theorem walk_eq_nil {stop : σ → Bool} {quiet : σ → Prop}
    (empty : ∀ s items next, quiet s → period s = some (items, next) →
      items = [] ∧ ∀ s', next = some s' → quiet s') (fuel : Nat) (s : σ) (start : quiet s) :
    walk period stop fuel s = [] := by
  induction fuel generalizing s with
  | zero => rfl
  | succ fuel ih =>
    simp only [walk]
    split
    · rfl
    · cases found : period s with
      | none => rfl
      | some result =>
        obtain ⟨items, next⟩ := result
        obtain ⟨nothing, stays⟩ := empty s items next start found
        cases next with
        | none => simp [nothing]
        | some s' => simp [nothing, ih s' (stays s' rfl)]

/-- Periods that follow one another without overlap, each in increasing order, make an
increasing walk. -/
theorem walk_increasing {stop : σ → Bool} (key : α → Int) (low high : σ → Int)
    (proper : ∀ s, low s ≤ high s)
    (inside : ∀ s items next, period s = some (items, next) →
      ∀ a ∈ items, low s ≤ key a ∧ key a < high s)
    (sorted : ∀ s items next, period s = some (items, next) →
      items.Pairwise fun a b => key a < key b)
    (forward : ∀ s items s', period s = some (items, some s') → high s ≤ low s')
    (fuel : Nat) (s : σ) :
    (walk period stop fuel s).Pairwise (fun p q => key p.2 < key q.2) ∧
      ∀ p ∈ walk period stop fuel s, low s ≤ key p.2 := by
  induction fuel generalizing s with
  | zero => simp [walk]
  | succ fuel ih =>
    simp only [walk]
    split
    · simp
    · cases found : period s with
      | none => simp
      | some result =>
        obtain ⟨items, next⟩ := result
        have here := inside s items next found
        have mine : (items.map (Prod.mk s)).Pairwise fun p q : σ × α => key p.2 < key q.2 :=
          List.pairwise_map.mpr (sorted s items next found)
        have lows : ∀ p ∈ items.map (Prod.mk s), low s ≤ key p.2 ∧ key p.2 < high s := by
          intro p member
          obtain ⟨item, among, rfl⟩ := List.mem_map.mp member
          exact here item among
        cases next with
        | none =>
          simp only [Option.elim_none, List.append_nil]
          exact ⟨mine, fun p member => (lows p member).1⟩
        | some s' =>
          obtain ⟨laterSorted, laterLow⟩ := ih s'
          have gap := forward s items s' found
          simp only [Option.elim_some]
          constructor
          · refine List.pairwise_append.mpr ⟨mine, laterSorted, ?_⟩
            intro p before q after
            have upper := (lows p before).2
            have lower := laterLow q after
            omega
          · intro p member
            rcases List.mem_append.mp member with before | after
            · exact (lows p before).1
            · have lower := laterLow p after
              have order := proper s
              omega

end Walk

section Increasing

variable {α : Type} {key : α → Int} {items : List α}
  (increasing : items.Pairwise fun a b => key a < key b)

include increasing

theorem eq_of_key_eq {a b : α} (first : a ∈ items) (second : b ∈ items) (same : key a = key b) :
    a = b := by
  induction items with
  | nil => cases first
  | cons head rest ih =>
    obtain ⟨above, later⟩ := List.pairwise_cons.mp increasing
    rcases List.mem_cons.mp first with rfl | inRest
    · rcases List.mem_cons.mp second with rfl | inRest'
      · rfl
      · exact absurd (above b inRest') (by omega)
    · rcases List.mem_cons.mp second with rfl | inRest'
      · exact absurd (above a inRest) (by omega)
      · exact ih later inRest inRest'

/-- Up to an item among the first `n` there are at most `n` items. -/
theorem length_upto_le {n : Nat} {a : α} (early : a ∈ items.take n) :
    (items.filter fun b => key b ≤ key a).length ≤ n := by
  have split := List.take_append_drop n items
  rw [← split] at increasing
  obtain ⟨_, _, across⟩ := List.pairwise_append.mp increasing
  have noneLater : ((items.drop n).filter fun b => key b ≤ key a) = [] := by
    apply List.filter_eq_nil_iff.mpr
    intro b late
    have order := across a early b late
    simp only [decide_eq_true_eq]
    omega
  rw [← split, List.filter_append, noneLater, List.append_nil]
  exact (List.length_filter_le _ _).trans (List.length_take_le n items)

end Increasing

section Sorting

variable {α : Type} (key : α → Int)

/-- Sorting by a key, then dropping neighbours of equal key. -/
def sortDedup (items : List α) : List α :=
  (items.insertionSort fun a b => key a ≤ key b).destutter fun a b => key a ≠ key b

variable {key}

theorem mem_of_mem_sortDedup {items : List α} {a : α} (member : a ∈ sortDedup key items) :
    a ∈ items :=
  (List.mem_insertionSort _).mp ((List.destutter_sublist _ _).subset member)

theorem sortDedup_increasing (items : List α) :
    (sortDedup key items).Pairwise fun a b => key a < key b := by
  have total : Std.Total fun a b : α => key a ≤ key b := ⟨fun a b => le_total (key a) (key b)⟩
  have transitive : IsTrans α fun a b => key a ≤ key b := ⟨fun _ _ _ => le_trans⟩
  have sorted : (sortDedup key items).Pairwise fun a b => key a ≤ key b :=
    (List.pairwise_insertionSort _ items).sublist (List.destutter_sublist _ _)
  have apart : (sortDedup key items).IsChain fun a b => key a ≠ key b :=
    List.isChain_destutter _ _
  have strict : (sortDedup key items).IsChain fun a b => key a < key b := by
    rw [List.isChain_iff_getElem]
    intro i inside
    exact lt_of_le_of_ne (List.isChain_iff_getElem.mp sorted.isChain i inside)
      (List.isChain_iff_getElem.mp apart i inside)
  have chained : IsTrans α fun a b => key a < key b := ⟨fun _ _ _ => lt_trans⟩
  exact strict.pairwise

end Sorting

end Expresso.Periodic
