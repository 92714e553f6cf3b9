import Expresso.Periodic.Sorted
import Expresso.Recurrence.Total

/-! `BYSETPOS` in the period in which the event starts: positions among all candidates of the
period, and among those from the start of the event on. -/

namespace Expresso.Recurrence
open Time Periodic Transition

/-- The candidates of a period in order, wherever the event starts. -/
def Rrule.fullCandidates (profile : Profile) (r : Rrule) (current : OffsetDateTime) :
    Except Panic (List OffsetDateTime) := do
  let dates ← r.periodDates profile current
  .ok (sortDedup OffsetDateTime.instant ((dates.filter r.monthAllowed).map current.replaceDate))

/-- The element stands at one of the positions. Positions count from one, and from the end with
-1 for the last. -/
def AtPosition {α : Type} (positions : List Int) (l : List α) (c : α) : Prop :=
  ∃ i : Nat, l[i]? = some c ∧ ((i : Int) + 1 ∈ positions ∨ (i : Int) - l.length ∈ positions)

/-- Of the candidates from the start of the event on, the positive positions name the same with the
earlier ones counted and not counted; only one that a negative position names may differ. -/
def PositionsAgree (positions : List Int) (full : List OffsetDateTime) (dtstart : OffsetDateTime) :
    Prop :=
  let later := (full.filter fun c => dtstart.instant ≤ c.instant).length
  ∀ i : Nat, i < later → (i : Int) - later ∉ positions →
    ((i : Int) + 1 ∈ positions ↔ (i : Int) + 1 + (full.length - later : Nat) ∈ positions)

/-! ### Dates by their day numbers -/

theorem date_ext {d d' : Date} (same : d.toDays = d'.toDays) : d = d' := by
  have ordered {first second : Date} (equal : first.toDays = second.toDays) :
      ¬12 * first.year + first.month.number < 12 * second.year + second.month.number := by
    intro earlier
    have apart := monthStart_of_lt earlier
    have here := first.toDays_in_month
    have there := second.toDays_in_month
    omega
  have months := d.month.number_range
  have months' := d'.month.number_range
  have forward := ordered same
  have back := ordered same.symm
  have year : d.year = d'.year := by omega
  have number : d.month.number = d'.month.number := by omega
  have month : d.month = d'.month := by
    apply Option.some.inj
    rw [← Month.tryFrom_number d.month, number, Month.tryFrom_number]
  have day : d.day = d'.day := by
    simp only [Date.toDays, year, month] at same
    omega
  cases d
  cases d'
  cases year
  cases month
  cases day
  rfl

theorem replaceDate_ext {current : OffsetDateTime} {d d' : Date}
    (same : (current.replaceDate d).instant = (current.replaceDate d').instant) : d = d' := by
  apply date_ext
  simp only [OffsetDateTime.instant, OffsetDateTime.replaceDate, dayNanos] at same
  omega

/-! ### Positions -/

section
variable {bysetpos : List Int} {candidates : List OffsetDateTime}

/-- The element that a position selects. -/
theorem position_some_iff {p : Int} {c : OffsetDateTime} :
    (let idx := if p > 0 then p - 1 else (candidates.length : Int) + p
      if 0 ≤ idx ∧ idx < candidates.length then candidates[idx.toNat]? else none) = some c ↔
      ∃ i : Nat, candidates[i]? = some c ∧
        ((i : Int) + 1 = p ∨ (i : Int) - candidates.length = p) := by
  dsimp only
  constructor
  · intro picked
    split_ifs at picked with positive inside inside
    · exact ⟨_, picked, .inl (by omega)⟩
    · exact ⟨_, picked, .inr (by omega)⟩
  · rintro ⟨i, found, place⟩
    have below := (List.getElem?_eq_some_iff.mp found).1
    have idx : (if p > 0 then p - 1 else (candidates.length : Int) + p) = i := by
      split_ifs <;> omega
    rw [idx, if_pos (by omega), Int.toNat_natCast]
    exact found

/-- Where the candidates increase, those at the positions are kept. -/
theorem mem_applyBysetpos_iff (set : bysetpos ≠ [])
    (increasing : candidates.Pairwise fun a b => a.instant < b.instant) (c : OffsetDateTime) :
    c ∈ applyBysetpos bysetpos candidates ↔ AtPosition bysetpos candidates c := by
  unfold applyBysetpos
  cases empty : candidates.isEmpty with
  | true =>
    rw [List.isEmpty_iff.mp empty]
    simp [AtPosition]
  | false =>
    have choose : (bysetpos.isEmpty || false) = false := by simpa using set
    simp only [choose, Bool.false_eq_true, if_false]
    rw [mem_sortDedup_iff]
    · simp only [List.mem_filterMap, position_some_iff, AtPosition]
      constructor
      · rintro ⟨p, chosen, i, found, place⟩
        rcases place with rfl | rfl
        · exact ⟨i, found, .inl chosen⟩
        · exact ⟨i, found, .inr chosen⟩
      · rintro ⟨i, found, chosen | chosen⟩
        · exact ⟨_, chosen, i, found, .inl rfl⟩
        · exact ⟨_, chosen, i, found, .inr rfl⟩
    · have listed : ∀ a ∈ bysetpos.filterMap fun p =>
          let idx := if p > 0 then p - 1 else (candidates.length : Int) + p
          if 0 ≤ idx ∧ idx < candidates.length then candidates[idx.toNat]? else none,
          a ∈ candidates := by
        intro a picked
        obtain ⟨p, _, selected⟩ := List.mem_filterMap.mp picked
        obtain ⟨i, found, _⟩ := position_some_iff.1 selected
        exact List.mem_of_getElem? found
      intro a here b there same
      exact eq_of_key_eq increasing (listed a here) (listed b there) same

end

/-! ### The first period -/

theorem nodup_of_increasing {l : List OffsetDateTime}
    (increasing : l.Pairwise fun a b => a.instant < b.instant) : l.Nodup :=
  increasing.imp fun below equal => by
    rw [equal] at below
    exact lt_irrefl _ below

theorem exists_index_iff {α : Type} {l : List α} {i : Nat} {c : α} (distinct : l.Nodup)
    (found : l[i]? = some c) {P : Nat → Prop} : (∃ j, l[j]? = some c ∧ P j) ↔ P i := by
  constructor
  · rintro ⟨j, there, holds⟩
    have below := (List.getElem?_eq_some_iff.mp found).1
    rwa [(List.getElem?_inj below distinct).mp (found.trans there.symm)]
  · exact fun holds => ⟨i, found, holds⟩

section
variable {profile : Profile} {r : Rrule} {current dtstart : OffsetDateTime}
  {candidates full : List OffsetDateTime}

theorem full_increasing (whole : r.fullCandidates profile current = .ok full) :
    full.Pairwise fun a b => a.instant < b.instant := by
  simp only [Rrule.fullCandidates, bind_eq_ok_iff, Except.ok.injEq] at whole
  obtain ⟨dates, _, rfl⟩ := whole
  exact sortDedup_increasing _

/-- The candidates are those of the whole period from the start of the event on. -/
theorem candidates_eq (generated : r.periodCandidates profile current dtstart = .ok candidates)
    (whole : r.fullCandidates profile current = .ok full) :
    candidates = full.filter fun c => dtstart.instant ≤ c.instant := by
  apply increasing_ext (periodCandidates_increasing generated) ((full_increasing whole).filter _)
  simp only [Rrule.fullCandidates, bind_eq_ok_iff, Except.ok.injEq] at whole
  simp only [Rrule.periodCandidates, bind_eq_ok_iff, Except.ok.injEq] at generated
  obtain ⟨dates, dated, rfl⟩ := whole
  obtain ⟨dates', dated', rfl⟩ := generated
  obtain rfl := Except.ok.inj (dated'.symm.trans dated)
  have apart : ∀ a ∈ (dates'.filter r.monthAllowed).map current.replaceDate,
      ∀ b ∈ (dates'.filter r.monthAllowed).map current.replaceDate,
        a.instant = b.instant → a = b := by
    intro a here b there same
    obtain ⟨d, _, rfl⟩ := List.mem_map.mp here
    obtain ⟨d', _, rfl⟩ := List.mem_map.mp there
    rw [replaceDate_ext same]
  intro c
  rw [List.mem_filter, mem_sortDedup_iff apart, mem_sortDedup_iff]
  · exact List.mem_filter
  · intro a here b there
    exact apart a (List.mem_filter.mp here).1 b (List.mem_filter.mp there).1

/-- In a period the candidates kept are those at the positions of the whole period, from the start
of the event on, just where the earlier candidates do not change what the positions name. -/
theorem bysetpos_whole_iff (set : r.bysetpos ≠ [])
    (generated : r.periodCandidates profile current dtstart = .ok candidates)
    (whole : r.fullCandidates profile current = .ok full) :
    (∀ c, c ∈ applyBysetpos r.bysetpos candidates ↔
      AtPosition r.bysetpos full c ∧ dtstart.instant ≤ c.instant) ↔
      PositionsAgree r.bysetpos full dtstart := by
  have increasing := periodCandidates_increasing generated
  have cut := filter_eq_drop (full_increasing whole) dtstart.instant
  have shorter := List.length_filter_le (fun c => decide (dtstart.instant ≤ c.instant)) full
  simp only [PositionsAgree]
  rw [← candidates_eq generated whole] at cut shorter ⊢
  generalize early : full.length - candidates.length = t at cut ⊢
  -- a candidate of the whole period that is not too early is one of the later ones
  have later (c : OffsetDateTime) : AtPosition r.bysetpos full c ∧ dtstart.instant ≤ c.instant ↔
      ∃ i : Nat, candidates[i]? = some c ∧
        ((i : Int) + 1 + t ∈ r.bysetpos ∨ (i : Int) - candidates.length ∈ r.bysetpos) := by
    have shifted (i : Nat) (c : OffsetDateTime) :
        candidates[i]? = some c ↔ full[t + i]? = some c := by
      rw [cut, List.getElem?_drop]
    have first (i : Nat) : ((t + i : Nat) : Int) + 1 = (i : Int) + 1 + t := by omega
    have last (i : Nat) :
        ((t + i : Nat) : Int) - full.length = (i : Int) - candidates.length := by omega
    constructor
    · rintro ⟨⟨j, found, place⟩, start⟩
      have member : c ∈ candidates := by
        rw [candidates_eq generated whole]
        exact List.mem_filter.mpr ⟨List.mem_of_getElem? found, decide_eq_true start⟩
      obtain ⟨i, here⟩ := List.mem_iff_getElem?.mp member
      have distinct := nodup_of_increasing (full_increasing whole)
      have at_i : AtPosition r.bysetpos full c := ⟨j, found, place⟩
      rw [AtPosition, exists_index_iff distinct ((shifted i c).mp here), first, last] at at_i
      exact ⟨i, here, at_i⟩
    · rintro ⟨i, found, place⟩
      have member : c ∈ candidates := List.mem_of_getElem? found
      rw [candidates_eq generated whole] at member
      refine ⟨⟨t + i, (shifted i c).mp found, ?_⟩, of_decide_eq_true (List.mem_filter.mp member).2⟩
      rw [first, last]
      exact place
  simp only [later, mem_applyBysetpos_iff set increasing]
  simp only [AtPosition]
  constructor
  · intro same i below negative
    obtain ⟨c, found⟩ : ∃ c, candidates[i]? = some c := ⟨_, List.getElem?_eq_getElem below⟩
    have here := same c
    rw [exists_index_iff (nodup_of_increasing increasing) found,
      exists_index_iff (nodup_of_increasing increasing) found, or_iff_left negative,
      or_iff_left negative] at here
    exact here
  · intro agree c
    apply exists_congr
    intro i
    apply and_congr_right
    intro found
    by_cases negative : (i : Int) - candidates.length ∈ r.bysetpos
    · simp only [negative, or_true]
    · have below := (List.getElem?_eq_some_iff.mp found).1
      rw [or_iff_left negative, or_iff_left negative]
      exact agree i below negative

end

section Sample

/-- The first Monday of the month, `BYDAY=MO;BYSETPOS=1`. -/
def firstMonday : Rrule where
  freq := .monthly
  interval := 1
  count := none
  untilAt := none
  byday := [⟨.monday, none⟩]
  bymonthday := []
  bymonth := []
  bysetpos := [1]
  exdate := []

def january (day : Nat) (range : 1 ≤ day ∧ day ≤ 31) : OffsetDateTime :=
  .assumeUtc ⟨2026, .january, day, Time.year_2026, range⟩ 0 Time.midnight_range

def januaryMondays : List OffsetDateTime :=
  [january 5 (by decide), january 12 (by decide), january 19 (by decide), january 26 (by decide)]

theorem bysetpos_whole_from_first :
    firstMonday.fullCandidates .release (january 1 (by decide)) = .ok januaryMondays ∧
      ∀ c, c ∈ applyBysetpos [1] januaryMondays ↔
        AtPosition [1] januaryMondays c ∧ (january 1 (by decide)).instant ≤ c.instant := by
  let first := january 1 (by decide)
  have found : firstMonday.periodCandidates .release first first = .ok januaryMondays ∧
      firstMonday.fullCandidates .release first = .ok januaryMondays := by decide
  refine ⟨found.2, (bysetpos_whole_iff (by decide) found.1 found.2).mpr ?_⟩
  unfold PositionsAgree
  decide

/-- From the 15 on, the third Monday is taken for the first. -/
theorem bysetpos_counts_from_start :
    firstMonday.periodCandidates .release (january 15 (by decide)) (january 15 (by decide)) =
        .ok [january 19 (by decide), january 26 (by decide)] ∧
      firstMonday.fullCandidates .release (january 15 (by decide)) = .ok januaryMondays ∧
      january 19 (by decide) ∈
        applyBysetpos [1] [january 19 (by decide), january 26 (by decide)] ∧
      ¬AtPosition [1] januaryMondays (january 19 (by decide)) := by
  refine ⟨by decide, by decide, by decide, ?_⟩
  rintro ⟨i, found, place⟩
  have second : januaryMondays[2]? = some (january 19 (by decide)) := by decide
  have distinct : januaryMondays.Nodup := by decide
  have below : i < januaryMondays.length := (List.getElem?_eq_some_iff.mp found).1
  obtain rfl := (List.getElem?_inj below distinct).mp (found.trans second.symm)
  exact absurd place (by decide)

end Sample

end Expresso.Recurrence
