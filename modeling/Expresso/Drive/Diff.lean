import Expresso.Diff.Script
import Expresso.Text.Str
import Mathlib.Data.List.GetD
import Mathlib.Data.List.Infix

/-! The difference of two versions of a text file, as hunks and side by side: the table of common
lengths, the way through it, and what is made of the way. -/

namespace Expresso.Drive
open Text Diff

/-! ### The table and the way through it -/

/-- A row of the table, from the row below it. -/
def lcsRow (a : Str) : List Str → List Nat → List Nat
  | [], _ => [0]
  | b :: new, below =>
      let row := lcsRow a new below.tail
      (if a = b then below.tail.headD 0 + 1 else max (below.headD 0) (row.headD 0)) :: row

def lcsTable (old new : List Str) : List (List Nat) :=
  old.foldr (fun a rows => lcsRow a new (rows.headD []) :: rows)
    [List.replicate (new.length + 1) 0]

def entry (table : List (List Nat)) (i j : Nat) : Nat := (table.getD i []).getD j 0

inductive Op where
  | eq
  | del
  | ins
  deriving DecidableEq

/-- An operation with its places in the old lines and in the new ones. -/
abbrev Step := Op × Nat × Nat

/-- The loop over both texts. Each round moves on in one of them at least. -/
def traceFrom (old new : List Str) (lcs : List (List Nat)) : Nat → Nat → Nat → List Step
  | 0, _, _ => []
  | rounds + 1, i, j =>
      if i < old.length ∨ j < new.length then
        if i < old.length ∧ j < new.length ∧ old[i]? = new[j]? then
          (.eq, i, j) :: traceFrom old new lcs rounds (i + 1) (j + 1)
        else if j < new.length ∧ (old.length ≤ i ∨ entry lcs (i + 1) j ≤ entry lcs i (j + 1)) then
          (.ins, i, j) :: traceFrom old new lcs rounds i (j + 1)
        else (.del, i, j) :: traceFrom old new lcs rounds (i + 1) j
      else []

/-- The operations of both functions. -/
def trace (old new : List Str) : List Step :=
  traceFrom old new (lcsTable old new) (old.length + new.length) 0 0

def isEq (step : Step) : Bool := step.1 = .eq
def isChange (step : Step) : Bool := step.1 ≠ .eq

/-! ### Hunks -/

/-- A line of a hunk with its tag. -/
structure HunkLine where
  tag : Char
  text : Str
  deriving DecidableEq

structure Hunk where
  oldStart : Nat
  oldCount : Nat
  newStart : Nat
  newCount : Nat
  lines : List HunkLine
  deriving DecidableEq

def Hunk.header (h : Hunk) : Str :=
  "@@ -".toList ++ (Nat.repr h.oldStart).toList ++ [','] ++ (Nat.repr h.oldCount).toList ++
    " +".toList ++ (Nat.repr h.newStart).toList ++ [','] ++ (Nat.repr h.newCount).toList ++
    " @@".toList

def hunkLine (old new : List Str) : Step → HunkLine
  | (.eq, i, _) => ⟨' ', old.getD i []⟩
  | (.del, i, _) => ⟨'-', old.getD i []⟩
  | (.ins, _, j) => ⟨'+', new.getD j []⟩

def buildHunk (old new : List Str) (ops : List Step) : Hunk where
  oldStart := ((ops.find? (·.1 ≠ .ins)).map fun o => o.2.1 + 1).getD 1
  oldCount := (ops.filter (·.1 ≠ .ins)).length
  newStart := ((ops.find? (·.1 ≠ .del)).map fun o => o.2.2 + 1).getD 1
  newCount := (ops.filter (·.1 ≠ .del)).length
  lines := ops.map (hunkLine old new)

/-- The inner loop: changes, and equal lines after them as long as more changes follow close by.
The second list is what comes after the hunk. -/
def extendHunk (context : Nat) : Nat → List Step → List Step × List Step
  | 0, ops => ([], ops)
  | rounds + 1, ops =>
      let changed := ops.takeWhile isChange
      let rest := ops.dropWhile isChange
      let trail := (rest.takeWhile isEq).take context
      let after := rest.drop trail.length
      if after.head?.any isChange then
        let (more, left) := extendHunk context rounds after
        (changed ++ trail ++ more, left)
      else (changed ++ trail, after)

/-- The outer loop, with the operations already passed: a hunk starts up to `context` before the
first change. -/
def hunkOps (context : Nat) : Nat → List Step → List Step → List (List Step)
  | 0, _, _ => []
  | _ + 1, _, [] => []
  | rounds + 1, passed, op :: ops =>
      if isEq op then hunkOps context rounds (passed ++ [op]) ops
      else
        let (body, left) := extendHunk context (ops.length + 1) (op :: ops)
        (passed.drop (passed.length - context) ++ body) ::
          hunkOps context rounds (passed ++ body) left

def unifiedDiff (old new : List Str) (context : Nat) : List Hunk :=
  let ops := trace old new
  (hunkOps context ops.length [] ops).map (buildHunk old new)

/-! ### Side by side -/

inductive RowKind where
  | equal
  | changed
  | deleted
  | inserted
  deriving DecidableEq

/-- A row, with the number and the text of a line on each side. -/
structure Row where
  kind : RowKind
  left : Option (Nat × Str)
  right : Option (Nat × Str)
  deriving DecidableEq

def lineAt (lines : List Str) (i : Nat) : Option (Nat × Str) := some (i + 1, lines.getD i [])

/-- A deletion right before an insertion is one row with it. -/
def pairUp (old new : List Str) : List Step → List Row
  | [] => []
  | (.eq, i, j) :: ops => ⟨.equal, lineAt old i, lineAt new j⟩ :: pairUp old new ops
  | (.del, i, _) :: (.ins, _, j) :: ops =>
      ⟨.changed, lineAt old i, lineAt new j⟩ :: pairUp old new ops
  | (.del, i, _) :: ops => ⟨.deleted, lineAt old i, none⟩ :: pairUp old new ops
  | (.ins, _, j) :: ops => ⟨.inserted, none, lineAt new j⟩ :: pairUp old new ops

/-- The row is within so many rows of one that is not equal. -/
def visible (rows : List Row) (context : Nat) (x : Nat) : Bool :=
  (List.range rows.length).any fun r =>
    (rows[r]?.any fun row => row.kind ≠ .equal) &&
      r - context ≤ x && x < min (r + context + 1) rows.length

def sideBySideDiff (old new : List Str) (context : Nat) : List Row :=
  let raw := pairUp old new (trace old new)
  ((raw.zipIdx).filter fun row => visible raw context row.2).map (·.1)

/-! ### The table holds the lengths of common subsequences -/

theorem lcsRow_eq (a : Str) (rest new : List Str) :
    lcsRow a new (new.tails.map (longest rest)) = new.tails.map (longest (a :: rest)) := by
  induction new with
  | nil => rfl
  | cons b new ih =>
    have below : ((b :: new).tails.map (longest rest)).tail = new.tails.map (longest rest) := by
      rw [List.tails_cons, List.map_cons, List.tail_cons]
    have headD : ∀ (f : List Str → Nat) (l : List Str), (l.tails.map f).headD 0 = f l := by
      intro f l
      cases l <;> rfl
    unfold lcsRow
    rw [below, ih, headD, headD]
    show (if a = b then _ else max _ ((new.tails.map (longest (a :: rest))).headD 0)) :: _ = _
    rw [headD, List.tails_cons, List.map_cons]
    rfl

theorem lcsTable_eq (old new : List Str) :
    lcsTable old new = old.tails.map fun rest => new.tails.map (longest rest) := by
  induction old with
  | nil =>
    have zero : new.tails.map (longest []) = List.replicate (new.length + 1) 0 := by
      rw [← List.length_tails]
      exact List.map_const' ..
    exact congrArg (fun row => [row]) zero.symm
  | cons a old ih =>
    show lcsRow a new ((lcsTable old new).headD []) :: lcsTable old new = _
    rw [ih, List.tails_cons, List.map_cons]
    have headD : (old.tails.map fun rest => new.tails.map (longest rest)).headD [] =
        new.tails.map (longest old) := by cases old <;> rfl
    rw [headD, lcsRow_eq]

theorem getD_tails {β : Type} (f : List Str → β) (d : β) {l : List Str} {i : Nat}
    (small : i ≤ l.length) : (l.tails.map f).getD i d = f (l.drop i) := by
  have inside : i < (l.tails.map f).length := by
    rw [List.length_map, List.length_tails]
    omega
  rw [List.getD_eq_getElem _ _ inside, List.getElem_map, List.getElem_tails]

theorem entry_lcsTable {old new : List Str} {i j : Nat} (inOld : i ≤ old.length)
    (inNew : j ≤ new.length) :
    entry (lcsTable old new) i j = longest (old.drop i) (new.drop j) := by
  unfold entry
  rw [lcsTable_eq, getD_tails _ _ inOld, getD_tails _ _ inNew]

/-! ### The way through it is the first of the shortest scripts -/

/-- The operations of a script, with their places. -/
def locate : Nat → Nat → List (Edit Str) → List Step
  | _, _, [] => []
  | i, j, .keep _ :: script => (.eq, i, j) :: locate (i + 1) (j + 1) script
  | i, j, .insert _ :: script => (.ins, i, j) :: locate i (j + 1) script
  | i, j, .delete _ :: script => (.del, i, j) :: locate (i + 1) j script

example (a b c : Str) :
    locate 0 0 [.keep a, .insert b, .delete c] = [(.eq, 0, 0), (.ins, 1, 1), (.del, 1, 2)] := by
  simp [locate]

theorem drop_eq_cons {l : List Str} {i : Nat} {a : Str} {rest : List Str}
    (tail : l.drop i = a :: rest) : i < l.length ∧ l[i]? = some a ∧ l.drop (i + 1) = rest := by
  have inside : i < l.length := by
    by_contra beyond
    rw [List.drop_eq_nil_of_le (by omega)] at tail
    cases tail
  rw [List.drop_eq_getElem_cons inside] at tail
  obtain ⟨here, later⟩ := List.cons.inj tail
  exact ⟨inside, by rw [List.getElem?_eq_getElem inside, here], later⟩

theorem drop_eq_nil {l : List Str} {i : Nat} (tail : l.drop i = []) : l.length ≤ i :=
  List.drop_eq_nil_iff.mp tail

theorem traceFrom_first {old new : List Str} {rounds i j : Nat} {s t : List Str}
    (inOld : old.drop i = s) (inNew : new.drop j = t) (enough : s.length + t.length ≤ rounds) :
    ∃ script, First script s t ∧
      traceFrom old new (lcsTable old new) rounds i j = locate i j script := by
  induction rounds generalizing i j s t with
  | zero =>
    obtain rfl : s = [] := List.length_eq_zero_iff.mp (by omega)
    obtain rfl : t = [] := List.length_eq_zero_iff.mp (by omega)
    exact ⟨[], first_nil, rfl⟩
  | succ rounds ih =>
    unfold traceFrom
    cases s with
    | nil =>
      have overI := drop_eq_nil inOld
      cases t with
      | nil =>
        have overJ := drop_eq_nil inNew
        rw [if_neg (by omega)]
        exact ⟨[], first_nil, rfl⟩
      | cons b t =>
        obtain ⟨insideJ, -, restJ⟩ := drop_eq_cons inNew
        rw [if_pos (.inr insideJ), if_neg (by omega), if_pos ⟨insideJ, .inl overI⟩]
        obtain ⟨script, first, way⟩ := ih inOld restJ (by simp at enough ⊢; omega)
        rw [way]
        exact ⟨.insert b :: script, first.insert (by simp) (isLongest_nil_left _)
          (isLongest_nil_left _), rfl⟩
    | cons a s =>
      obtain ⟨insideI, atI, restI⟩ := drop_eq_cons inOld
      rw [if_pos (.inl insideI)]
      cases t with
      | nil =>
        have overJ := drop_eq_nil inNew
        rw [if_neg (by omega), if_neg (by omega)]
        obtain ⟨script, first, way⟩ := ih restI inNew (by simp at enough ⊢; omega)
        rw [way]
        exact ⟨.delete a :: script, first.delete (by simp) (isLongest_nil_right _)
          (isLongest_nil_right _) (by simp), rfl⟩
      | cons b t =>
        obtain ⟨insideJ, atJ, restJ⟩ := drop_eq_cons inNew
        simp only [List.length_cons] at enough
        by_cases same : a = b
        · rw [if_pos ⟨insideI, insideJ, by rw [atI, atJ, same]⟩]
          obtain ⟨script, first, way⟩ := ih restI restJ (by omega)
          rw [way, ← same]
          exact ⟨.keep a :: script, first.keep a, rfl⟩
        · have differ : ¬old[i]? = new[j]? := by
            rw [atI, atJ]
            exact fun equal => same (Option.some.inj equal)
          rw [if_neg fun all => differ all.2.2, entry_lcsTable (by omega) (by omega),
            entry_lcsTable (by omega) (by omega), inOld, inNew, restI, restJ]
          have dropOld := longest_isLongest s (b :: t)
          have dropNew := longest_isLongest (a :: s) t
          have whole := dropOld.other dropNew same
          by_cases tie : longest s (b :: t) ≤ longest (a :: s) t
          · rw [if_pos ⟨insideJ, .inr tie⟩]
            obtain ⟨script, first, way⟩ := ih inOld restJ (by simp; omega)
            rw [way]
            rw [Nat.max_eq_right tie] at whole
            exact ⟨.insert b :: script, first.insert (by simpa using same) whole dropNew, rfl⟩
          · rw [if_neg fun both => both.2.elim (by omega) tie]
            obtain ⟨script, first, way⟩ := ih restI inNew (by simp; omega)
            rw [way]
            rw [Nat.max_eq_left (by omega)] at whole
            refine ⟨.delete a :: script, first.delete ?_ whole dropOld ?_, rfl⟩
            · rintro _ ⟨⟩
              exact same
            · rintro _ _ ⟨⟩ reached
              exact tie (reached.unique dropNew).le

/-- The operations are those of the first of the shortest scripts. -/
theorem trace_first (old new : List Str) :
    ∃ script, First script old new ∧ trace old new = locate 0 0 script :=
  traceFrom_first List.drop_zero List.drop_zero (Nat.le_refl _)

end Expresso.Drive
