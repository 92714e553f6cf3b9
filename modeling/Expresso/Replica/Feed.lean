import Expresso.Sql.RowNumber
import Mathlib.Logic.Function.Basic

/-! A keyed table that stamps each change from a counter and remembers removals, the capped
reports of the changes after a stamp, and a replica that follows the reports. -/

namespace Expresso.Replica

structure Row (κ α : Type) where
  key : κ
  value : α
  stamp : Int
  deriving DecidableEq

structure Removal (κ : Type) where
  key : κ
  stamp : Int
  deriving DecidableEq

structure Feed (κ α : Type) where
  rows : List (Row κ α)
  removals : List (Removal κ)
  counter : Int

inductive Change (κ α : Type) where
  | set (key : κ) (value : α)
  | remove (key : κ)
  deriving DecidableEq

variable {κ α : Type}

/-! ### Applying changes -/

section
variable [DecidableEq κ]

def Change.apply (entries : κ → Option α) : Change κ α → κ → Option α
  | set key value => Function.update entries key (some value)
  | remove key => Function.update entries key none

def applyAll (entries : κ → Option α) (changes : List (Change κ α)) : κ → Option α :=
  changes.foldl Change.apply entries

theorem applyAll_append (entries : κ → Option α) (first second : List (Change κ α)) :
    applyAll entries (first ++ second) = applyAll (applyAll entries first) second :=
  List.foldl_append

def sets (rows : List (Row κ α)) : List (Change κ α) := rows.map fun r => .set r.key r.value

def removes (removals : List (Removal κ)) : List (Change κ α) := removals.map fun d => .remove d.key

theorem applyAll_sets_of_not_mem {entries : κ → Option α} {rows : List (Row κ α)} {key : κ}
    (absent : ∀ r ∈ rows, r.key ≠ key) : applyAll entries (sets rows) key = entries key := by
  induction rows generalizing entries with
  | nil => rfl
  | cons r rest ih =>
    have other : key ≠ r.key := (absent r List.mem_cons_self).symm
    change applyAll (Function.update entries r.key (some r.value)) (sets rest) key = _
    rw [ih fun r' member => absent r' (List.mem_cons_of_mem r member),
      Function.update_of_ne other]

theorem applyAll_sets_of_mem {entries : κ → Option α} {rows : List (Row κ α)} {r : Row κ α}
    (distinct : (rows.map (·.key)).Nodup) (member : r ∈ rows) :
    applyAll entries (sets rows) r.key = some r.value := by
  induction rows generalizing entries with
  | nil => cases member
  | cons head rest ih =>
    obtain ⟨fresh, later⟩ := List.nodup_cons.mp distinct
    change applyAll (Function.update entries head.key (some head.value)) (sets rest) r.key = _
    rcases List.mem_cons.mp member with rfl | inRest
    · rw [applyAll_sets_of_not_mem, Function.update_self]
      intro r' other same
      exact fresh (List.mem_map.mpr ⟨r', other, same⟩)
    · exact ih later inRest

theorem applyAll_removes_of_not_mem {entries : κ → Option α} {removals : List (Removal κ)} {key : κ}
    (absent : ∀ d ∈ removals, d.key ≠ key) :
    applyAll entries (removes removals) key = entries key := by
  induction removals generalizing entries with
  | nil => rfl
  | cons d rest ih =>
    have other : key ≠ d.key := (absent d List.mem_cons_self).symm
    change applyAll (Function.update entries d.key none) (removes rest) key = _
    rw [ih fun d' member => absent d' (List.mem_cons_of_mem d member),
      Function.update_of_ne other]

theorem applyAll_removes_of_mem {entries : κ → Option α} {removals : List (Removal κ)} {key : κ}
    (present : ∃ d ∈ removals, d.key = key) :
    applyAll entries (removes removals) key = none := by
  induction removals generalizing entries with
  | nil => simp at present
  | cons d rest ih =>
    change applyAll (Function.update entries d.key none) (removes rest) key = _
    by_cases later : ∃ d' ∈ rest, d'.key = key
    · exact ih later
    · have here : d.key = key := by
        obtain ⟨d', member, same⟩ := present
        rcases List.mem_cons.mp member with rfl | inRest
        · exact same
        · exact absurd ⟨d', inRest, same⟩ later
      rw [applyAll_removes_of_not_mem fun d' inRest same => later ⟨d', inRest, same⟩, here]
      exact Function.update_self ..

end

/-! ### Reports -/

namespace Feed

def rowsAfter (f : Feed κ α) (since : Int) : List (Row κ α) :=
  Sql.orderBy (·.stamp) (f.rows.filter fun r => since < r.stamp)

def removalsAfter (f : Feed κ α) (since : Int) : List (Removal κ) :=
  Sql.orderBy (·.stamp) (f.removals.filter fun d => since < d.stamp)

/-- The changes after a stamp and the stamp to continue from. A full page of rows leaves the
removals to a later report. -/
def report (limit : Nat) (f : Feed κ α) (since : Int) : List (Change κ α) × Int :=
  let page := (f.rowsAfter since).take limit
  if page.length = limit then (sets page, (page.getLast?.map (·.stamp)).getD since)
  else (sets page ++ removes ((f.removalsAfter since).take limit), f.counter)

/-- Keys and stamps are distinct, and the counter is not behind them. -/
structure Stamped (f : Feed κ α) : Prop where
  keys : (f.rows.map (·.key)).Nodup
  stamps : (f.rows.map (·.stamp)).Nodup
  rows_le : ∀ r ∈ f.rows, r.stamp ≤ f.counter

theorem mem_rowsAfter {f : Feed κ α} {since : Int} {r : Row κ α} :
    r ∈ f.rowsAfter since ↔ r ∈ f.rows ∧ since < r.stamp := by
  rw [rowsAfter, Sql.mem_orderBy, List.mem_filter, decide_eq_true_eq]

theorem mem_removalsAfter {f : Feed κ α} {since : Int} {d : Removal κ} :
    d ∈ f.removalsAfter since ↔ d ∈ f.removals ∧ since < d.stamp := by
  rw [removalsAfter, Sql.mem_orderBy, List.mem_filter, decide_eq_true_eq]

theorem rowsAfter_increasing {f : Feed κ α} (stamped : f.Stamped) (since : Int) :
    (f.rowsAfter since).Pairwise fun a b => a.stamp < b.stamp := by
  have order : (f.rowsAfter since).Perm (f.rows.filter fun r => since < r.stamp) := by
    rw [rowsAfter, Sql.orderBy]
    exact List.perm_insertionSort _ _
  have distinct : ((f.rowsAfter since).map (·.stamp)).Nodup :=
    (order.map _).nodup_iff.mpr (stamped.stamps.sublist (List.filter_sublist.map _))
  have different : (f.rowsAfter since).Pairwise fun a b => a.stamp ≠ b.stamp :=
    List.pairwise_map.mp distinct
  apply (Sql.orderBy_sorted _ _).imp₂ _ different
  intro a b le ne
  exact lt_of_le_of_ne le ne

theorem rowsAfter_keys {f : Feed κ α} (stamped : f.Stamped) (since : Int) :
    ((f.rowsAfter since).map (·.key)).Nodup := by
  have order : (f.rowsAfter since).Perm (f.rows.filter fun r => since < r.stamp) := by
    rw [rowsAfter, Sql.orderBy]
    exact List.perm_insertionSort _ _
  exact (order.map _).nodup_iff.mpr (stamped.keys.sublist (List.filter_sublist.map _))

/-- After the last row of a page come the rows that were not on it. -/
theorem rowsAfter_last {f : Feed κ α} (stamped : f.Stamped) {since : Int} {count : Nat}
    {last : Row κ α} (found : ((f.rowsAfter since).take count).getLast? = some last) :
    f.rowsAfter last.stamp = (f.rowsAfter since).drop count := by
  have increasing := rowsAfter_increasing stamped since
  have inPage : last ∈ (f.rowsAfter since).take count := List.mem_of_getLast? found
  have after : since < last.stamp := (mem_rowsAfter.1 (List.mem_of_mem_take inPage)).2
  have select : f.rowsAfter last.stamp =
      (f.rowsAfter since).filter fun r => last.stamp < r.stamp := by
    rw [rowsAfter, rowsAfter, Sql.filter_orderBy, List.filter_filter]
    congr 1
    apply List.filter_congr
    intro r _
    by_cases beyond : last.stamp < r.stamp
    · simp [beyond, after.trans beyond]
    · simp [beyond]
  rw [← List.take_append_drop count (f.rowsAfter since)] at increasing
  obtain ⟨page, -, across⟩ := List.pairwise_append.mp increasing
  rw [select, ← List.take_append_drop count (f.rowsAfter since), List.filter_append,
    List.take_append_drop]
  have none : ((f.rowsAfter since).take count).filter (fun r => last.stamp < r.stamp) = [] := by
    obtain ⟨init, whole⟩ := List.getLast?_eq_some_iff.mp found
    rw [whole] at page ⊢
    obtain ⟨-, -, before⟩ := List.pairwise_append.mp page
    apply List.filter_eq_nil_iff.mpr
    intro r member
    rcases List.mem_append.mp member with earlier | here
    · have := before r earlier last (List.mem_singleton_self last)
      simp only [decide_eq_true_eq]
      omega
    · simp [List.mem_singleton.mp here]
  have all : ((f.rowsAfter since).drop count).filter (fun r => last.stamp < r.stamp) =
      (f.rowsAfter since).drop count := by
    apply List.filter_eq_self.mpr
    intro r member
    simpa using across last inPage r member
  rw [none, all, List.nil_append]

theorem exists_last {f : Feed κ α} {limit : Nat} {since : Int} (positive : 0 < limit)
    (full : limit ≤ (f.rowsAfter since).length) :
    ∃ last, ((f.rowsAfter since).take limit).getLast? = some last := by
  apply Option.ne_none_iff_exists'.mp
  intro empty
  have length := congrArg List.length (List.getLast?_eq_none_iff.mp empty)
  rw [List.length_take, List.length_nil] at length
  omega

theorem report_full {f : Feed κ α} {limit : Nat} {since : Int} {last : Row κ α}
    (full : limit ≤ (f.rowsAfter since).length)
    (found : ((f.rowsAfter since).take limit).getLast? = some last) :
    f.report limit since = (sets ((f.rowsAfter since).take limit), last.stamp) := by
  have length : ((f.rowsAfter since).take limit).length = limit := by
    rw [List.length_take]
    omega
  simp only [report, if_pos length, found, Option.map_some, Option.getD_some]

theorem report_short {f : Feed κ α} {limit : Nat} {since : Int}
    (short : (f.rowsAfter since).length < limit) :
    f.report limit since =
      (sets (f.rowsAfter since) ++ removes ((f.removalsAfter since).take limit), f.counter) := by
  have all : (f.rowsAfter since).take limit = f.rowsAfter since :=
    List.take_of_length_le short.le
  simp only [report, all, if_neg short.ne]

/-- A report does not go back, nor past the counter. -/
theorem report_bounds {f : Feed κ α} {limit : Nat} {since : Int} (positive : 0 < limit)
    (stamped : f.Stamped) (bound : since ≤ f.counter) :
    since ≤ (f.report limit since).2 ∧ (f.report limit since).2 ≤ f.counter := by
  by_cases full : limit ≤ (f.rowsAfter since).length
  · obtain ⟨last, found⟩ := exists_last positive full
    obtain ⟨row, later⟩ := mem_rowsAfter.mp (List.mem_of_mem_take (List.mem_of_getLast? found))
    rw [report_full full found]
    exact ⟨later.le, stamped.rows_le last row⟩
  · rw [report_short (not_le.mp full)]
    exact ⟨bound, le_rfl⟩

/-- The stamp of the last row that comes on a full page. -/
def lastFull (limit : Nat) (f : Feed κ α) (since : Int) : Int :=
  let rows := f.rowsAfter since
  ((rows.take (limit * (rows.length / limit))).getLast?.map (·.stamp)).getD since

theorem lastFull_of_short {f : Feed κ α} {limit : Nat} {since : Int}
    (short : (f.rowsAfter since).length < limit) : f.lastFull limit since = since := by
  simp [lastFull, Nat.div_eq_of_lt short]

theorem lastFull_of_full {f : Feed κ α} (stamped : f.Stamped) {limit : Nat} {since : Int}
    (positive : 0 < limit) (full : limit ≤ (f.rowsAfter since).length) {last : Row κ α}
    (found : ((f.rowsAfter since).take limit).getLast? = some last) :
    f.lastFull limit since = f.lastFull limit last.stamp := by
  have rest := rowsAfter_last stamped found
  have count : limit * ((f.rowsAfter since).length / limit) =
      limit + limit * (((f.rowsAfter since).drop limit).length / limit) := by
    rw [List.length_drop, Nat.sub_eq_of_eq_add (Nat.sub_add_cancel full).symm,
      Nat.div_eq_sub_div positive full, Nat.mul_succ, Nat.add_comm]
  simp only [lastFull]
  rw [rest, count, List.take_add, List.getLast?_append, found]
  cases ((List.drop limit (f.rowsAfter since)).take
    (limit * ((List.drop limit (f.rowsAfter since)).length / limit))).getLast? <;> rfl

theorem Stamped.eq_of_key {f : Feed κ α} (stamped : f.Stamped) {r r' : Row κ α}
    (member : r ∈ f.rows) (member' : r' ∈ f.rows) (same : r.key = r'.key) : r = r' :=
  List.inj_on_of_nodup_map stamped.keys member member' same

/-! ### Following the reports -/

/-- What a replica knows that has followed the reports up to a stamp. -/
structure Tracks (f : Feed κ α) (entries : κ → Option α) (since : Int) : Prop where
  known : ∀ r ∈ f.rows, r.stamp ≤ since → entries r.key = some r.value
  covered : ∀ key, entries key ≠ none →
    (∃ r ∈ f.rows, r.key = key) ∨ ∃ d ∈ f.removals, d.key = key ∧ since < d.stamp
  settled : ∀ r ∈ f.rows, ∀ d ∈ f.removals, d.key = r.key → d.stamp ≤ since

/-- How a table changes when rows are stamped and removals recorded. -/
structure Evolves (f g : Feed κ α) : Prop where
  counter_le : f.counter ≤ g.counter
  rows : ∀ r ∈ g.rows, r ∈ f.rows ∨ f.counter < r.stamp
  keys : ∀ r ∈ f.rows, (∃ r' ∈ g.rows, r'.key = r.key) ∨
    ∃ d ∈ g.removals, d.key = r.key ∧ f.counter < d.stamp
  removals : ∀ d ∈ g.removals,
    d ∈ f.removals ∨ f.counter < d.stamp ∧ ∀ r ∈ g.rows, r.key ≠ d.key
  kept : ∀ d ∈ f.removals, d ∈ g.removals

/-- No key that was removed after the stamp gets a row. -/
def NoReturn (f g : Feed κ α) (since : Int) : Prop :=
  ∀ r ∈ g.rows, (∃ r' ∈ f.rows, r'.key = r.key) ∨
    ∀ d ∈ f.removals, d.key = r.key → d.stamp ≤ since

theorem Tracks.evolve {f g : Feed κ α} {entries : κ → Option α} {since : Int}
    (tracks : f.Tracks entries since) (evolves : f.Evolves g) (bound : since ≤ f.counter)
    (noReturn : f.NoReturn g since) : g.Tracks entries since where
  known r member old := by
    rcases evolves.rows r member with before | fresh
    · exact tracks.known r before old
    · omega
  covered key held := by
    rcases tracks.covered key held with ⟨r, member, rfl⟩ | ⟨d, member, same, later⟩
    · rcases evolves.keys r member with row | ⟨d, removed, same, later⟩
      · exact .inl row
      · exact .inr ⟨d, removed, same, by omega⟩
    · exact .inr ⟨d, evolves.kept d member, same, later⟩
  settled r member d removed same := by
    rcases evolves.removals d removed with before | ⟨-, noRow⟩
    · rcases noReturn r member with ⟨r', row, sameKey⟩ | settled
      · exact tracks.settled r' row d before (same.trans sameKey.symm)
      · exact settled d before same
    · exact absurd same.symm (noRow r member)

section
variable [DecidableEq κ]

def lookup (f : Feed κ α) (key : κ) : Option α :=
  (f.rows.find? fun r => r.key = key).map (·.value)

theorem lookup_eq_none {f : Feed κ α} {key : κ} (absent : ∀ r ∈ f.rows, r.key ≠ key) :
    f.lookup key = none := by
  have notFound : (f.rows.find? fun r => r.key = key) = none :=
    List.find?_eq_none.mpr fun r member => by simpa using absent r member
  rw [lookup, notFound, Option.map_none]

theorem Stamped.lookup_key {f : Feed κ α} (stamped : f.Stamped) {r : Row κ α}
    (member : r ∈ f.rows) : f.lookup r.key = some r.value := by
  cases found : f.rows.find? fun r' => r'.key = r.key with
  | none => simpa using List.find?_eq_none.mp found r member
  | some r' =>
    have same : r'.key = r.key := by simpa using List.find?_some found
    rw [lookup, found, stamped.eq_of_key (List.mem_of_find?_eq_some found) member same,
      Option.map_some]

/-- A replica that is not behind holds what the table holds. -/
theorem Tracks.agrees {f : Feed κ α} {entries : κ → Option α} (stamped : f.Stamped)
    (past : ∀ d ∈ f.removals, d.stamp ≤ f.counter) (tracks : f.Tracks entries f.counter)
    (key : κ) : entries key = f.lookup key := by
  by_cases present : ∃ r ∈ f.rows, r.key = key
  · obtain ⟨r, member, rfl⟩ := present
    rw [tracks.known r member (stamped.rows_le r member), stamped.lookup_key member]
  · rw [lookup_eq_none fun r member same => present ⟨r, member, same⟩]
    by_contra held
    rcases tracks.covered key held with row | ⟨d, member, -, later⟩
    · exact present row
    · exact absurd (past d member) (not_le.mpr later)

/-- Nothing recorded is skipped by the report after a stamp: a full page has no removal up to
its last row, and the last page has room for all removals. -/
def Covers (limit : Nat) (f : Feed κ α) (since : Int) : Prop :=
  if limit ≤ (f.rowsAfter since).length then
    ∀ last ∈ ((f.rowsAfter since).take limit).getLast?,
      ∀ d ∈ f.removals, since < d.stamp → last.stamp < d.stamp
  else (f.removalsAfter since).length ≤ limit

instance (limit : Nat) (f : Feed κ α) (since : Int) : Decidable (f.Covers limit since) := by
  delta Covers
  infer_instance

theorem Tracks.full_page {f : Feed κ α} {entries : κ → Option α} {since : Int} {count : Nat}
    {last : Row κ α} (stamped : f.Stamped) (tracks : f.Tracks entries since)
    (found : ((f.rowsAfter since).take count).getLast? = some last)
    (later : ∀ d ∈ f.removals, since < d.stamp → last.stamp < d.stamp) :
    f.Tracks (applyAll entries (sets ((f.rowsAfter since).take count))) last.stamp where
  known r member old := by
    by_cases fresh : since < r.stamp
    · have listed : r ∈ f.rowsAfter since := mem_rowsAfter.mpr ⟨member, fresh⟩
      rw [← List.take_append_drop count (f.rowsAfter since), List.mem_append,
        ← rowsAfter_last stamped found] at listed
      rcases listed with here | beyond
      · have keys := (rowsAfter_keys stamped since).sublist ((List.take_sublist count _).map _)
        exact applyAll_sets_of_mem keys here
      · have := (mem_rowsAfter.mp beyond).2
        omega
    · rw [applyAll_sets_of_not_mem, tracks.known r member (by omega)]
      intro r' inPage same
      obtain ⟨row, after⟩ := mem_rowsAfter.mp (List.mem_of_mem_take inPage)
      rw [stamped.eq_of_key row member same] at after
      exact fresh after
  covered key held := by
    by_cases present : ∃ r ∈ f.rows, r.key = key
    · exact .inl present
    · rw [applyAll_sets_of_not_mem] at held
      · rcases tracks.covered key held with row | ⟨d, member, same, after⟩
        · exact .inl row
        · exact .inr ⟨d, member, same, later d member after⟩
      · intro r inPage same
        exact present ⟨r, (mem_rowsAfter.mp (List.mem_of_mem_take inPage)).1, same⟩
  settled r member d removed same := by
    have := tracks.settled r member d removed same
    have := (mem_rowsAfter.mp (List.mem_of_mem_take (List.mem_of_getLast? found))).2
    omega

theorem Tracks.last_page {f : Feed κ α} {entries : κ → Option α} {since : Int}
    (stamped : f.Stamped) (past : ∀ d ∈ f.removals, d.stamp ≤ f.counter)
    (tracks : f.Tracks entries since) :
    f.Tracks (applyAll entries (sets (f.rowsAfter since) ++ removes (f.removalsAfter since)))
      f.counter where
  known r member _ := by
    rw [applyAll_append, applyAll_removes_of_not_mem]
    · by_cases fresh : since < r.stamp
      · exact applyAll_sets_of_mem (rowsAfter_keys stamped since)
          (mem_rowsAfter.mpr ⟨member, fresh⟩)
      · rw [applyAll_sets_of_not_mem, tracks.known r member (by omega)]
        intro r' listed same
        obtain ⟨row, after⟩ := mem_rowsAfter.mp listed
        rw [stamped.eq_of_key row member same] at after
        exact fresh after
    · intro d listed same
      obtain ⟨removed, after⟩ := mem_removalsAfter.mp listed
      have := tracks.settled r member d removed same
      omega
  covered key held := by
    by_contra neither
    push Not at neither
    obtain ⟨noRow, -⟩ := neither
    apply held
    rw [applyAll_append]
    by_cases removed : ∃ d ∈ f.removalsAfter since, d.key = key
    · exact applyAll_removes_of_mem removed
    · rw [applyAll_removes_of_not_mem fun d listed same => removed ⟨d, listed, same⟩,
        applyAll_sets_of_not_mem fun r listed => noRow r (mem_rowsAfter.mp listed).1]
      by_contra before
      rcases tracks.covered key before with ⟨r, member, same⟩ | ⟨d, member, same, after⟩
      · exact noRow r member same
      · exact removed ⟨d, mem_removalsAfter.mpr ⟨member, after⟩, same⟩
  settled r _ d removed _ := past d removed

/-- A report that skips nothing keeps the replica on track. -/
theorem Tracks.follow {f : Feed κ α} {entries : κ → Option α} {since : Int} {limit : Nat}
    (positive : 0 < limit) (stamped : f.Stamped) (past : ∀ d ∈ f.removals, d.stamp ≤ f.counter)
    (tracks : f.Tracks entries since) (covers : f.Covers limit since) :
    f.Tracks (applyAll entries (f.report limit since).1) (f.report limit since).2 := by
  simp only [Covers] at covers
  split at covers
  · next full =>
    obtain ⟨last, found⟩ := exists_last positive full
    rw [report_full full found]
    exact tracks.full_page stamped found (covers last found)
  · next short =>
    rw [report_short (not_le.mp short), List.take_of_length_le covers]
    exact tracks.last_page stamped past

/-- A first report with every row. -/
theorem Tracks.start {f : Feed κ α} {listed : List (Row κ α)} (stamped : f.Stamped)
    (past : ∀ d ∈ f.removals, d.stamp ≤ f.counter) (all : listed.Perm f.rows) :
    f.Tracks (applyAll (fun _ => none) (sets listed)) f.counter where
  known r member _ :=
    applyAll_sets_of_mem ((all.map _).nodup_iff.mpr stamped.keys) (all.mem_iff.mpr member)
  covered key held := by
    by_contra neither
    push Not at neither
    obtain ⟨noRow, -⟩ := neither
    exact held (applyAll_sets_of_not_mem fun r member => noRow r (all.mem_iff.mp member))
  settled r _ d removed _ := past d removed

end

end Feed
end Expresso.Replica
