import Expresso.Drive.Hunks

/-! The difference side by side: that it shows the changes of a shortest script, with the numbers
of the lines, and when deletions stand next to insertions in it. -/

namespace Expresso.Drive
open Text Diff

section
variable {i j context : Nat} {old new : List Str} {script : List (Edit Str)}

/-! ### The rows of a script -/

def rowsAt : Nat → Nat → List (Edit Str) → List Row
  | _, _, [] => []
  | i, j, .keep a :: script =>
      ⟨.equal, some (i + 1, a), some (j + 1, a)⟩ :: rowsAt (i + 1) (j + 1) script
  | i, j, .insert a :: script => ⟨.inserted, none, some (j + 1, a)⟩ :: rowsAt i (j + 1) script
  | i, j, .delete a :: script => ⟨.deleted, some (i + 1, a), none⟩ :: rowsAt (i + 1) j script

example (a b : Str) : rowsAt 0 0 [.insert a, .delete b] =
    [⟨.inserted, none, some (1, a)⟩, ⟨.deleted, some (1, b), none⟩] := by
  simp [rowsAt]

/-- Nothing is inserted right after a deletion. -/
def Unpaired (script : List (Edit Str)) : Prop :=
  ∀ x y a b, script ≠ x ++ .delete a :: .insert b :: y

theorem Unpaired.tail {e : Edit Str} (unpaired : Unpaired (e :: script)) : Unpaired script :=
  fun x y a b same => unpaired (e :: x) y a b (by rw [same]; rfl)

theorem lineAt_append {lead rest : List Str} (a : Str) (place : lead.length = i) :
    lineAt (lead ++ a :: rest) i = some (i + 1, a) := by
  unfold lineAt
  rw [← place]
  simp

/-- No row pairs a deletion with an insertion. -/
theorem pairUp_locate {lead trail lead' trail' : List Str}
    (inOld : old = lead ++ (before script ++ trail)) (atOld : lead.length = i)
    (inNew : new = lead' ++ (after script ++ trail')) (atNew : lead'.length = j)
    (unpaired : Unpaired script) :
    pairUp old new (locate i j script) = rowsAt i j script := by
  induction script generalizing i j lead lead' with
  | nil => rfl
  | cons e script ih =>
    cases e with
    | keep a =>
      have rest := @ih (i + 1) (j + 1) (lead ++ [a]) (lead' ++ [a]) (by simpa [before] using inOld)
        (by simp [atOld]) (by simpa [after] using inNew) (by simp [atNew]) unpaired.tail
      have left : lineAt old i = some (i + 1, a) := inOld ▸ lineAt_append a atOld
      have right : lineAt new j = some (j + 1, a) := inNew ▸ lineAt_append a atNew
      rw [locate, pairUp, rest, left, right]
      rfl
    | insert a =>
      have rest := @ih i (j + 1) lead (lead' ++ [a]) inOld atOld
        (by simpa [after] using inNew) (by simp [atNew]) unpaired.tail
      have right : lineAt new j = some (j + 1, a) := inNew ▸ lineAt_append a atNew
      rw [locate, pairUp, rest, right]
      rfl
    | delete a =>
      have rest := @ih (i + 1) j (lead ++ [a]) lead' (by simpa [before] using inOld)
        (by simp [atOld]) inNew atNew unpaired.tail
      have left : lineAt old i = some (i + 1, a) := inOld ▸ lineAt_append a atOld
      have single : pairUp old new (locate i j (.delete a :: script)) =
          ⟨.deleted, lineAt old i, none⟩ :: pairUp old new (locate (i + 1) j script) := by
        cases script with
        | nil => rfl
        | cons f script =>
          cases f with
          | keep b => rfl
          | insert b => exact absurd rfl (unpaired [] script a b)
          | delete b => rfl
      rw [single, rest, left]
      rfl

/-- The rows before those far from a change are left out. -/
theorem trace_rows (old new : List Str) :
    ∃ script, First script old new ∧ pairUp old new (trace old new) = rowsAt 0 0 script := by
  obtain ⟨script, first, way⟩ := trace_first old new
  refine ⟨script, first, ?_⟩
  rw [way]
  have turns := first.1.1
  apply @pairUp_locate 0 0 old new script [] [] [] []
  · rw [turns.before, List.append_nil, List.nil_append]
  · rfl
  · rw [turns.after, List.append_nil, List.nil_append]
  · rfl
  · rintro x y a b rfl
    exact first.delete_insert

/-! ### The rows shown -/

def shown (rows : List Row) (context : Nat) : List Row :=
  ((rows.zipIdx).filter fun row => visible rows context row.2).map (·.1)

theorem shown_sublist (rows : List Row) (context : Nat) : (shown rows context).Sublist rows := by
  have all : rows.zipIdx.map (·.1) = rows := List.zipIdx_map_fst 0 rows
  conv_rhs => rw [← all]
  exact List.filter_sublist.map _

/-- A row near a change is shown. -/
theorem visible_near {rows : List Row} {r x : Nat} {row : Row} (here : rows[r]? = some row)
    (changed : row.kind ≠ .equal) (back : r ≤ x + context) (ahead : x ≤ r + context)
    (inside : x < rows.length) : visible rows context x = true := by
  obtain ⟨small, -⟩ := List.getElem?_eq_some_iff.mp here
  apply List.any_eq_true.mpr
  refine ⟨r, List.mem_range.mpr small, ?_⟩
  rw [here]
  simp only [Option.any_some, Bool.and_eq_true, decide_eq_true_eq]
  exact ⟨⟨changed, by omega⟩, by omega⟩

/-- What is read of changed rows alone is read of all of them. -/
theorem filterMap_shown {β : Type} {f : Row → Option β} (rows : List Row) (context : Nat)
    (only : ∀ row, row.kind = .equal → f row = none) :
    (shown rows context).filterMap f = rows.filterMap f := by
  have all : rows.zipIdx.map (·.1) = rows := List.zipIdx_map_fst 0 rows
  unfold shown
  conv_rhs => rw [← all]
  rw [List.filterMap_map, List.filterMap_map, List.filterMap_filter]
  apply List.filterMap_congr
  intro ⟨row, x⟩ member
  have here : rows[x]? = some row := List.mem_zipIdx_iff_getElem?.mp member
  by_cases equal : row.kind = .equal
  · simp [only row equal]
  · obtain ⟨small, -⟩ := List.getElem?_eq_some_iff.mp here
    rw [if_pos (visible_near here equal (by omega) (by omega) small)]

/-! ### The changes shown -/

def Row.deletion (row : Row) : Option (Nat × Str) :=
  if row.kind = .deleted ∨ row.kind = .changed then row.left else none

def Row.insertion (row : Row) : Option (Nat × Str) :=
  if row.kind = .inserted ∨ row.kind = .changed then row.right else none

/-- The deleted lines with their numbers. -/
def deletedAt : Nat → List (Edit Str) → List (Nat × Str)
  | _, [] => []
  | i, .keep _ :: script => deletedAt (i + 1) script
  | i, .insert _ :: script => deletedAt i script
  | i, .delete a :: script => (i + 1, a) :: deletedAt (i + 1) script

/-- The inserted lines with their numbers. -/
def insertedAt : Nat → List (Edit Str) → List (Nat × Str)
  | _, [] => []
  | j, .keep _ :: script => insertedAt (j + 1) script
  | j, .insert a :: script => (j + 1, a) :: insertedAt (j + 1) script
  | j, .delete _ :: script => insertedAt j script

example (a b : Str) : deletedAt 0 [.insert a, .delete b] = [(1, b)] ∧
    insertedAt 0 [.insert a, .delete b] = [(1, a)] := by
  simp [deletedAt, insertedAt]

theorem filterMap_deletion (i j : Nat) (script : List (Edit Str)) :
    (rowsAt i j script).filterMap Row.deletion = deletedAt i script := by
  induction script generalizing i j with
  | nil => rfl
  | cons e script ih => cases e <;> simp [rowsAt, deletedAt, Row.deletion, ih]

theorem filterMap_insertion (i j : Nat) (script : List (Edit Str)) :
    (rowsAt i j script).filterMap Row.insertion = insertedAt j script := by
  induction script generalizing i j with
  | nil => rfl
  | cons e script ih => cases e <;> simp [rowsAt, insertedAt, Row.insertion, ih]

theorem deletedAt_texts (i : Nat) (script : List (Edit Str)) :
    (deletedAt i script).map (·.2) = deleted script := by
  induction script generalizing i with
  | nil => rfl
  | cons e script ih => cases e <;> simp [deletedAt, deleted, ih]

theorem insertedAt_texts (j : Nat) (script : List (Edit Str)) :
    (insertedAt j script).map (·.2) = inserted script := by
  induction script generalizing j with
  | nil => rfl
  | cons e script ih => cases e <;> simp [insertedAt, inserted, ih]

/-! ### The changes in the hunks -/

def removedLines (hunks : List Hunk) : List Str :=
  ((hunks.flatMap (·.lines)).filter (·.tag = '-')).map (·.text)

def addedLines (hunks : List Hunk) : List Str :=
  ((hunks.flatMap (·.lines)).filter (·.tag = '+')).map (·.text)

theorem filter_hunkLine (old new : List Str) {tag : Char} {kind : Op}
    (tagged : ∀ op, (hunkLine old new op).tag = tag ↔ op.1 = kind) (ops : List Step) :
    (ops.map (hunkLine old new)).filter (·.tag = tag) =
      (ops.filter (·.1 = kind)).map (hunkLine old new) := by
  rw [List.filter_map]
  congr 1
  apply List.filter_congr
  intro op _
  simp [tagged op]

/-- The lines with one of the tags are those of the way with the operation of the tag. -/
theorem flatMap_lines {tag : Char} {kind : Op} (change : kind ≠ .eq)
    (tagged : ∀ op, (hunkLine old new op).tag = tag ↔ op.1 = kind) :
    ((unifiedDiff old new context).flatMap (·.lines)).filter (·.tag = tag) =
      ((trace old new).map (hunkLine old new)).filter (·.tag = tag) := by
  obtain ⟨script, -, way⟩ := trace_first old new
  have only : ∀ op : Step, isChange op = false → decide (op.1 = kind) = false := by
    intro op equal
    have same : op.1 = .eq := by simpa [isChange] using equal
    rw [same]
    exact decide_eq_false change.symm
  have all := @changes_hunkOps context script.length script [] [] (fun op => op.1 = kind) only
    (fun e member => (List.not_mem_nil member).elim) (.inl rfl) (Nat.le_refl _)
  have total : unifiedDiff old new context =
      (hunkOps context script.length [] (locate 0 0 script)).map (buildHunk old new) := by
    show (hunkOps context (trace old new).length [] (trace old new)).map _ = _
    rw [way, locate_length]
  rw [filter_hunkLine old new tagged, total, way]
  calc (((hunkOps context script.length [] (locate 0 0 script)).map (buildHunk old new)).flatMap
        (·.lines)).filter (·.tag = tag)
    _ = (hunkOps context script.length [] (locate 0 0 script)).flatMap fun ops =>
        (ops.map (hunkLine old new)).filter (·.tag = tag) := by
      rw [List.flatMap_map, List.filter_flatMap]
      rfl
    _ = (hunkOps context script.length [] (locate 0 0 script)).flatMap fun ops =>
        (ops.filter (·.1 = kind)).map (hunkLine old new) := by
      simp only [filter_hunkLine old new tagged]
    _ = ((hunkOps context script.length [] (locate 0 0 script)).flatMap
        (·.filter (·.1 = kind))).map (hunkLine old new) := by
      rw [List.map_flatMap]
    _ = ((locate 0 0 script).filter (·.1 = kind)).map (hunkLine old new) :=
      congrArg (List.map (hunkLine old new)) all

theorem lines_deleted (script : List (Edit Str)) :
    ((script.map lineOf).filter (·.tag = '-')).map (·.text) = deleted script := by
  induction script with
  | nil => rfl
  | cons e script ih => cases e <;> simpa [lineOf, deleted] using ih

theorem lines_inserted (script : List (Edit Str)) :
    ((script.map lineOf).filter (·.tag = '+')).map (·.text) = inserted script := by
  induction script with
  | nil => rfl
  | cons e script ih => cases e <;> simpa [lineOf, inserted] using ih

theorem removed_eq (first : First script old new) :
    removedLines (unifiedDiff old new context) = deleted script ∧
    addedLines (unifiedDiff old new context) = inserted script := by
  obtain ⟨other, first', way⟩ := trace_first old new
  obtain rfl := first.unique first'
  have turns := first.1.1
  have lines : (trace old new).map (hunkLine old new) = script.map lineOf := by
    rw [way]
    apply @map_hunkLine 0 0 old new script [] [] [] []
    · rw [turns.before, List.append_nil, List.nil_append]
    · rfl
    · rw [turns.after, List.append_nil, List.nil_append]
    · rfl
  have minus : ∀ op, (hunkLine old new op).tag = '-' ↔ op.1 = .del := by
    rintro ⟨kind, i, j⟩
    cases kind <;> simp [hunkLine]
  have plus : ∀ op, (hunkLine old new op).tag = '+' ↔ op.1 = .ins := by
    rintro ⟨kind, i, j⟩
    cases kind <;> simp [hunkLine]
  unfold removedLines addedLines
  rw [flatMap_lines (by decide) minus, flatMap_lines (by decide) plus, lines]
  exact ⟨lines_deleted script, lines_inserted script⟩

end

/-- Both differences show the changes of one shortest script, each of them once and in its order. -/
theorem diffs_minimal (old new : List Str) (context : Nat) :
    ∃ script, Shortest script old new ∧
      (∀ n, IsLongest n old new →
        (removedLines (unifiedDiff old new context)).length +
          (addedLines (unifiedDiff old new context)).length + 2 * n = old.length + new.length) ∧
      removedLines (unifiedDiff old new context) = (deletedAt 0 script).map (·.2) ∧
      addedLines (unifiedDiff old new context) = (insertedAt 0 script).map (·.2) ∧
      (sideBySideDiff old new context).filterMap Row.deletion = deletedAt 0 script ∧
      (sideBySideDiff old new context).filterMap Row.insertion = insertedAt 0 script := by
  obtain ⟨script, first, rows⟩ := trace_rows old new
  obtain ⟨minus, plus⟩ := @removed_eq context old new script first
  obtain ⟨turns, longest⟩ := shortest_iff.mp first.1
  have total := turns.cost
  refine ⟨script, first.1, ?_, ?_, ?_, ?_, ?_⟩
  · intro n most
    rw [minus, plus, most.unique longest]
    unfold cost at total
    omega
  · rw [minus, deletedAt_texts]
  · rw [plus, insertedAt_texts]
  · show (shown (pairUp old new (trace old new)) context).filterMap _ = _
    rw [filterMap_shown _ _ fun row equal => by simp [Row.deletion, equal], rows,
      filterMap_deletion]
  · show (shown (pairUp old new (trace old new)) context).filterMap _ = _
    rw [filterMap_shown _ _ fun row equal => by simp [Row.insertion, equal], rows,
      filterMap_insertion]

/-! ### The numbers of the lines -/

/-- The numbers increase, and each of them is that of a line with the text. -/
def Numbered (lines : List Str) (shown : List (Nat × Str)) : Prop :=
  shown.Pairwise (·.1 < ·.1) ∧ ∀ line ∈ shown, 0 < line.1 ∧ lines[line.1 - 1]? = some line.2

theorem Numbered.sublist {lines : List Str} {l l' : List (Nat × Str)} (inside : l'.Sublist l)
    (numbered : Numbered lines l) : Numbered lines l' :=
  ⟨numbered.1.sublist inside, fun line member => numbered.2 line (inside.subset member)⟩

/-- The lines with their numbers, after so many others. -/
def numbersFrom : Nat → List Str → List (Nat × Str)
  | _, [] => []
  | i, a :: lines => (i + 1, a) :: numbersFrom (i + 1) lines

example (a b : Str) : numbersFrom 0 [a, b] = [(1, a), (2, b)] := by simp [numbersFrom]

theorem lt_numbersFrom {i : Nat} {lines : List Str} :
    ∀ line ∈ numbersFrom i lines, i < line.1 := by
  induction lines generalizing i with
  | nil => exact fun line member => (nomatch member)
  | cons a lines ih =>
    refine List.forall_mem_cons.mpr ⟨Nat.lt_succ_self i, fun line member => ?_⟩
    exact Nat.lt_of_succ_lt (ih line member)

theorem numbered_numbersFrom {i : Nat} {lines lead : List Str} (length : lead.length = i) :
    Numbered (lead ++ lines) (numbersFrom i lines) := by
  induction lines generalizing i lead with
  | nil => exact ⟨.nil, fun line member => (nomatch member)⟩
  | cons a lines ih =>
    have rest := @ih (i + 1) (lead ++ [a]) (by simp [length])
    rw [List.append_assoc] at rest
    refine ⟨.cons (fun line member => lt_numbersFrom line member) rest.1, ?_⟩
    refine List.forall_mem_cons.mpr ⟨⟨Nat.succ_pos i, ?_⟩, rest.2⟩
    rw [← length]
    simp

section
variable {context : Nat} {old new : List Str} {script : List (Edit Str)}

theorem filterMap_left (i j : Nat) (script : List (Edit Str)) :
    (rowsAt i j script).filterMap (·.left) = numbersFrom i (before script) := by
  induction script generalizing i j with
  | nil => rfl
  | cons e script ih => cases e <;> simp [rowsAt, numbersFrom, before, ih]

theorem filterMap_right (i j : Nat) (script : List (Edit Str)) :
    (rowsAt i j script).filterMap (·.right) = numbersFrom j (after script) := by
  induction script generalizing i j with
  | nil => rfl
  | cons e script ih => cases e <;> simp [rowsAt, numbersFrom, after, ih]

/-- The numbers on both sides are right in any case. -/
theorem sideBySide_numbered (old new : List Str) (context : Nat) :
    Numbered old ((sideBySideDiff old new context).filterMap (·.left)) ∧
    Numbered new ((sideBySideDiff old new context).filterMap (·.right)) := by
  obtain ⟨script, first, rows⟩ := trace_rows old new
  have turns := first.1.1
  have inside : (sideBySideDiff old new context).Sublist (rowsAt 0 0 script) :=
    rows ▸ shown_sublist _ context
  constructor
  · apply Numbered.sublist (inside.filterMap _)
    rw [filterMap_left, turns.before]
    exact @numbered_numbersFrom 0 old [] rfl
  · apply Numbered.sublist (inside.filterMap _)
    rw [filterMap_right, turns.after]
    exact @numbered_numbersFrom 0 new [] rfl

/-! ### Deletions next to insertions -/

/-- Neither of the rows is a deletion beside an insertion. -/
def Apart (row next : Row) : Prop :=
  ¬(row.kind = .deleted ∧ next.kind = .inserted ∨ row.kind = .inserted ∧ next.kind = .deleted)

/-- No deletion stands next to an insertion. -/
def Separate (rows : List Row) : Prop :=
  ∀ x row next y, rows = x ++ row :: next :: y → Apart row next

def rowKind : Edit Str → RowKind
  | .keep _ => .equal
  | .insert _ => .inserted
  | .delete _ => .deleted

theorem kinds_rowsAt (i j : Nat) (script : List (Edit Str)) :
    (rowsAt i j script).map (·.kind) = script.map rowKind := by
  induction script generalizing i j with
  | nil => rfl
  | cons e script ih => cases e <;> simp [rowsAt, rowKind, ih]

/-- All rows at once, the kinds of neighbours are those of the script. -/
theorem separate_rowsAt (unpaired : Unpaired script) (i j : Nat) :
    Separate (rowsAt i j script) ↔
      ∀ x y a b, script ≠ x ++ .insert a :: .delete b :: y := by
  have kinds := kinds_rowsAt i j script
  constructor
  · rintro separate x y a b rfl
    rw [List.map_append, List.map_cons, List.map_cons] at kinds
    obtain ⟨x', tail, whole, -, tailKinds⟩ := List.map_eq_append_iff.mp kinds
    obtain ⟨row, tail, rfl, inserts, tailKinds⟩ := List.map_eq_cons_iff.mp tailKinds
    obtain ⟨next, y', rfl, deletes, -⟩ := List.map_eq_cons_iff.mp tailKinds
    exact separate x' row next y' whole (.inr ⟨inserts, deletes⟩)
  · intro clear x row next y whole beside
    rw [whole, List.map_append, List.map_cons, List.map_cons] at kinds
    obtain ⟨x', tail, same, -, tailKinds⟩ := List.map_eq_append_iff.mp kinds.symm
    obtain ⟨e, tail, rfl, kind, tailKinds⟩ := List.map_eq_cons_iff.mp tailKinds
    obtain ⟨f, y', rfl, kind', -⟩ := List.map_eq_cons_iff.mp tailKinds
    rcases beside with ⟨deletes, inserts⟩ | ⟨inserts, deletes⟩
    · rw [deletes] at kind
      rw [inserts] at kind'
      cases e with
      | delete a =>
        cases f with
        | insert b => exact unpaired x' y' a b same
        | keep b => cases kind'
        | delete b => cases kind'
      | keep a => cases kind
      | insert a => cases kind
    · rw [inserts] at kind
      rw [deletes] at kind'
      cases e with
      | insert a =>
        cases f with
        | delete b => exact clear x' y' a b same
        | keep b => cases kind'
        | insert b => cases kind'
      | keep a => cases kind
      | delete a => cases kind

theorem zipIdx_split {rows : List Row} {x z : List (Row × Nat)} {row : Row × Nat}
    (whole : rows.zipIdx = x ++ row :: z) : row.2 = x.length ∧ rows[x.length]? = some row.1 := by
  have here : rows.zipIdx[x.length]? = some row := by
    rw [whole, List.getElem?_append_right (Nat.le_refl _), Nat.sub_self]
    rfl
  rw [List.getElem?_zipIdx, Option.map_eq_some_iff] at here
  obtain ⟨found, placed, rfl⟩ := here
  exact ⟨Nat.zero_add _, placed⟩

/-- With lines of context, neighbours of which one is changed are neighbours among all rows. -/
theorem separate_shown {rows : List Row} (room : 0 < context) :
    Separate (shown rows context) ↔ Separate rows := by
  constructor
  · rintro separate x row next y rfl beside
    have changed : row.kind ≠ .equal ∧ next.kind ≠ .equal := by
      rcases beside with ⟨kind, kind'⟩ | ⟨kind, kind'⟩ <;> rw [kind, kind'] <;> decide
    have first : (x ++ row :: next :: y)[x.length]? = some row := by simp
    have second : (x ++ row :: next :: y)[x.length + 1]? = some next := by simp
    have seen := visible_near first changed.1 (Nat.le_add_right _ context)
      (Nat.le_add_right _ context) (by simp)
    have seen' := visible_near second changed.2 (Nat.le_add_right _ context)
      (Nat.le_add_right _ context) (by simp)
    have split : shown (x ++ row :: next :: y) context =
        ((x.zipIdx.filter fun r => visible (x ++ row :: next :: y) context r.2).map (·.1)) ++
          row :: next :: (((y.zipIdx (x.length + 2)).filter fun r =>
            visible (x ++ row :: next :: y) context r.2).map (·.1)) := by
      unfold shown
      rw [List.zipIdx_append, List.zipIdx_cons, List.zipIdx_cons, List.filter_append,
        List.filter_cons_of_pos (by simpa using seen),
        List.filter_cons_of_pos (by simpa using seen'), List.map_append, List.map_cons,
        List.map_cons, Nat.zero_add]
    exact separate _ row next _ split beside
  · intro separate x row next y whole beside
    obtain ⟨x', tail, whole', -, rows'⟩ := List.map_eq_append_iff.mp whole
    obtain ⟨first, tail', rfl, rfl, rows''⟩ := List.map_eq_cons_iff.mp rows'
    obtain ⟨second, y', rfl, rfl, -⟩ := List.map_eq_cons_iff.mp rows''
    obtain ⟨u, v, all, -, rest⟩ := List.filter_eq_append_iff.mp whole'
    obtain ⟨skipped, v', rfl, -, -, rest'⟩ := List.filter_eq_cons_iff.mp rest
    obtain ⟨between, z, rfl, hidden, -, -⟩ := List.filter_eq_cons_iff.mp rest'
    have placed : rows.zipIdx = (u ++ skipped) ++ first :: (between ++ second :: z) := by
      rw [all, List.append_assoc]
    obtain ⟨place, here⟩ := zipIdx_split placed
    cases between with
    | nil =>
      have rows' := congrArg (List.map (·.1)) placed
      rw [List.zipIdx_map_fst, List.map_append] at rows'
      exact separate _ first.1 second.1 _ rows' beside
    | cons third between =>
      have after' : rows.zipIdx = (u ++ skipped ++ [first]) ++
          third :: (between ++ second :: z) := by
        rw [placed]
        simp
      obtain ⟨place', there⟩ := zipIdx_split after'
      obtain ⟨small, -⟩ := List.getElem?_eq_some_iff.mp there
      have changed : first.1.kind ≠ .equal := by
        rcases beside with ⟨kind, -⟩ | ⟨kind, -⟩ <;> rw [kind] <;> decide
      have next : third.2 = (u ++ skipped).length + 1 := by
        rw [place', List.length_append, List.length_singleton]
      have seen := visible_near here changed (by omega : _ ≤ third.2 + context) (by omega)
        (place' ▸ small)
      exact absurd seen (hidden third List.mem_cons_self)

/-! ### Without context -/

theorem visible_bare {rows : List Row} {x : Nat} {row : Row} (here : rows[x]? = some row) :
    visible rows 0 x = decide (row.kind ≠ .equal) := by
  obtain ⟨small, -⟩ := List.getElem?_eq_some_iff.mp here
  rw [Bool.eq_iff_iff, decide_eq_true_eq]
  unfold visible
  rw [List.any_eq_true]
  simp only [List.mem_range, Bool.and_eq_true, decide_eq_true_eq]
  constructor
  · rintro ⟨r, -, ⟨changed, back⟩, ahead⟩
    obtain rfl : r = x := by omega
    rw [here] at changed
    simpa using changed
  · intro changed
    refine ⟨x, small, ⟨?_, by omega⟩, by omega⟩
    rw [here]
    simpa using changed

theorem shown_bare (rows : List Row) : shown rows 0 = rows.filter (·.kind ≠ .equal) := by
  have all : rows.zipIdx.map (·.1) = rows := List.zipIdx_map_fst 0 rows
  unfold shown
  conv_rhs => rw [← all]
  rw [List.filter_map]
  congr 1
  apply List.filter_congr
  intro ⟨row, x⟩ member
  exact visible_bare (List.mem_zipIdx_iff_getElem?.mp member)

/-- Rows that are all insertions or deletions are separate if they are all one or the other. -/
theorem Separate.one_kind {rows : List Row} (separate : Separate rows)
    (kinds : ∀ row ∈ rows, row.kind = .inserted ∨ row.kind = .deleted) :
    (∀ row ∈ rows, row.kind = .inserted) ∨ ∀ row ∈ rows, row.kind = .deleted := by
  induction rows with
  | nil => exact .inl fun row member => (nomatch member)
  | cons row rows ih =>
    rw [List.forall_mem_cons] at kinds
    have later := ih (fun x r r' y whole => separate (row :: x) r r' y (by rw [whole]; rfl)) kinds.2
    cases rows with
    | nil =>
      rcases kinds.1 with inserts | deletes
      · exact .inl (by simpa using inserts)
      · exact .inr (by simpa using deletes)
    | cons next rows =>
      have apart := separate [] row next rows rfl
      rcases kinds.1 with inserts | deletes
      · refine .inl (List.forall_mem_cons.mpr ⟨inserts, later.resolve_right fun all => ?_⟩)
        exact apart (.inr ⟨inserts, all next List.mem_cons_self⟩)
      · refine .inr (List.forall_mem_cons.mpr ⟨deletes, later.resolve_left fun all => ?_⟩)
        exact apart (.inl ⟨deletes, all next List.mem_cons_self⟩)

theorem mem_inserted {a : Str} (member : .insert a ∈ script) : a ∈ inserted script := by
  obtain ⟨x, y, rfl⟩ := List.append_of_mem member
  induction x with
  | nil => exact List.mem_cons_self
  | cons e x ih =>
    have rest := ih (by simp)
    cases e with
    | insert b => exact List.mem_cons_of_mem b rest
    | keep b => exact rest
    | delete b => exact rest

theorem mem_deleted {a : Str} (member : .delete a ∈ script) : a ∈ deleted script := by
  obtain ⟨x, y, rfl⟩ := List.append_of_mem member
  induction x with
  | nil => exact List.mem_cons_self
  | cons e x ih =>
    have rest := ih (by simp)
    cases e with
    | delete b => exact List.mem_cons_of_mem b rest
    | keep b => exact rest
    | insert b => exact rest

theorem edit_of_row {i j : Nat} {row : Row} (member : row ∈ rowsAt i j script) :
    ∃ e ∈ script, rowKind e = row.kind := by
  have image : row.kind ∈ script.map rowKind := kinds_rowsAt i j script ▸ List.mem_map_of_mem member
  exact List.mem_map.mp image

theorem separate_bare (i j : Nat) (script : List (Edit Str)) :
    Separate (shown (rowsAt i j script) 0) ↔ inserted script = [] ∨ deleted script = [] := by
  constructor
  · intro separate
    have kinds : ∀ row ∈ shown (rowsAt i j script) 0,
        row.kind = .inserted ∨ row.kind = .deleted := by
      intro row member
      rw [shown_bare, List.mem_filter, decide_eq_true_eq] at member
      obtain ⟨e, -, kind⟩ := edit_of_row member.1
      cases e with
      | keep a => exact absurd kind.symm member.2
      | insert a => exact .inl kind.symm
      | delete a => exact .inr kind.symm
    have unread : ∀ {f : Row → Option (Nat × Str)},
        (∀ row ∈ shown (rowsAt i j script) 0, f row = none) →
        (shown (rowsAt i j script) 0).filterMap f = [] :=
      fun nothing => List.filterMap_eq_nil_iff.mpr nothing
    rcases separate.one_kind kinds with inserts | deletes
    · right
      have nothing := @unread Row.deletion fun row member => by
        simp [Row.deletion, inserts row member]
      rw [filterMap_shown _ _ fun row equal => by simp [Row.deletion, equal],
        filterMap_deletion] at nothing
      rw [← deletedAt_texts i, nothing]
      rfl
    · left
      have nothing := @unread Row.insertion fun row member => by
        simp [Row.insertion, deletes row member]
      rw [filterMap_shown _ _ fun row equal => by simp [Row.insertion, equal],
        filterMap_insertion] at nothing
      rw [← insertedAt_texts j, nothing]
      rfl
  · rintro oneSide x row next y whole beside
    have member : ∀ r ∈ row :: next :: y, r ∈ rowsAt i j script := by
      intro r inside
      apply (shown_sublist _ 0).subset
      rw [whole]
      exact List.mem_append_right x inside
    have first := edit_of_row (member row List.mem_cons_self)
    have second := edit_of_row (member next (List.mem_cons_of_mem _ List.mem_cons_self))
    have both : (∃ a, .insert a ∈ script) ∧ ∃ a, .delete a ∈ script := by
      obtain ⟨e, inE, kindE⟩ := first
      obtain ⟨f, inF, kindF⟩ := second
      rcases beside with ⟨deletes, inserts⟩ | ⟨inserts, deletes⟩
      · rw [deletes] at kindE
        rw [inserts] at kindF
        cases e with
        | delete a => cases f with
          | insert b => exact ⟨⟨b, inF⟩, a, inE⟩
          | keep b => cases kindF
          | delete b => cases kindF
        | keep a => cases kindE
        | insert a => cases kindE
      · rw [inserts] at kindE
        rw [deletes] at kindF
        cases e with
        | insert a => cases f with
          | delete b => exact ⟨⟨a, inE⟩, b, inF⟩
          | keep b => cases kindF
          | insert b => cases kindF
        | keep a => cases kindE
        | delete a => cases kindE
    obtain ⟨⟨a, inserts⟩, b, deletes⟩ := both
    rcases oneSide with nothing | nothing
    · exact List.not_mem_nil (nothing ▸ mem_inserted inserts)
    · exact List.not_mem_nil (nothing ▸ mem_deleted deletes)

/-- A shortest script has changes of one kind if and only if one text is within the other. -/
theorem one_sided_iff (shortest : Shortest script old new) :
    inserted script = [] ∨ deleted script = [] ↔ old.Sublist new ∨ new.Sublist old := by
  obtain ⟨turns, longest⟩ := shortest_iff.mp shortest
  have left := length_before script
  have right := length_after script
  rw [turns.before] at left
  rw [turns.after] at right
  have inOld : (kept script).Sublist old := turns.before ▸ kept_before script
  have inNew : (kept script).Sublist new := turns.after ▸ kept_after script
  constructor
  · rintro (nothing | nothing)
    · rw [nothing] at right
      exact .inr (inNew.eq_of_length right.symm ▸ inOld)
    · rw [nothing] at left
      exact .inl (inOld.eq_of_length left.symm ▸ inNew)
  · rintro (within | within)
    · have most := longest.2 old (List.Sublist.refl old) within
      exact .inr (List.length_eq_zero_iff.mp (by omega))
    · have most := longest.2 new within (List.Sublist.refl new)
      exact .inl (List.length_eq_zero_iff.mp (by omega))

end

/-- The numbers of the lines are right, and deletions and insertions stand apart if and only if,
in the first of the shortest scripts, nothing is deleted right after an insertion, and without
context one text is within the other. -/
theorem sideBySide_pairs_iff (old new : List Str) (context : Nat) :
    (Separate (sideBySideDiff old new context) ∧
      Numbered old ((sideBySideDiff old new context).filterMap (·.left)) ∧
      Numbered new ((sideBySideDiff old new context).filterMap (·.right))) ↔
    if context = 0 then old.Sublist new ∨ new.Sublist old
    else ∀ script, First script old new → ∀ x y a b, script ≠ x ++ .insert a :: .delete b :: y := by
  rw [and_iff_left (sideBySide_numbered old new context)]
  obtain ⟨script, first, rows⟩ := trace_rows old new
  have unpaired : Unpaired script := by
    rintro x y a b rfl
    exact first.delete_insert
  have shows : sideBySideDiff old new context = shown (rowsAt 0 0 script) context :=
    congrArg (fun rows => shown rows context) rows
  rw [shows]
  split_ifs with bare
  · rw [bare, separate_bare, one_sided_iff first.1]
  · rw [separate_shown (Nat.pos_of_ne_zero bare), separate_rowsAt unpaired]
    constructor
    · intro clear other first'
      rw [first'.unique first]
      exact clear
    · exact fun all => all script first

/-- One line is replaced by another one. -/
theorem replaced_line_unpaired :
    ¬(Separate (sideBySideDiff ["a".toList] ["b".toList] 3) ∧
      Numbered ["a".toList] ((sideBySideDiff ["a".toList] ["b".toList] 3).filterMap (·.left)) ∧
      Numbered ["b".toList]
        ((sideBySideDiff ["a".toList] ["b".toList] 3).filterMap (·.right))) := by
  have rows : sideBySideDiff ["a".toList] ["b".toList] 3 =
      [⟨.inserted, none, some (1, "b".toList)⟩, ⟨.deleted, some (1, "a".toList), none⟩] := by decide
  rintro ⟨separate, -⟩
  exact separate [] _ _ [] rows (.inr ⟨rfl, rfl⟩)

end Expresso.Drive
