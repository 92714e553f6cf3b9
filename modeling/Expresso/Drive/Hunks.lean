import Expresso.Drive.Diff

/-! The hunks of a difference: when they can be applied as a patch, and that they show every change
once. -/

namespace Expresso.Drive
open Text Diff

/-! ### Patches -/

def Hunk.oldLines (h : Hunk) : List Str := (h.lines.filter (·.tag ≠ '+')).map (·.text)
def Hunk.newLines (h : Hunk) : List Str := (h.lines.filter (·.tag ≠ '-')).map (·.text)

/-- After so many lines of both texts, the hunks stand in their order where their headers say, none
of them in the lines of another one, and with their new lines in place of their old ones the first
text becomes the second. -/
inductive Applies : Nat → Nat → List Str → List Str → List Hunk → Prop
  | done {p q : Nat} {rest : List Str} : Applies p q rest rest []
  | hunk {p q : Nat} {gap old new : List Str} {h : Hunk} {hunks : List Hunk} :
      h.oldStart = p + gap.length + 1 → h.oldCount = h.oldLines.length →
      h.newStart = q + gap.length + 1 → h.newCount = h.newLines.length →
      Applies (p + gap.length + h.oldLines.length) (q + gap.length + h.newLines.length)
        old new hunks →
      Applies p q (gap ++ h.oldLines ++ old) (gap ++ h.newLines ++ new) (h :: hunks)

theorem Applies.beyond {p q : Nat} {old new : List Str} {hunks : List Hunk}
    (applies : Applies p q old new hunks) :
    ∀ h ∈ hunks, p < h.oldStart ∧ q < h.newStart := by
  induction applies with
  | done => exact fun h member => (nomatch member)
  | hunk oldStart _ newStart _ _ ih =>
    rw [List.forall_mem_cons]
    refine ⟨⟨by omega, by omega⟩, fun h member => ?_⟩
    have further := ih h member
    exact ⟨by omega, by omega⟩

/-- The hunks cover disjoint ranges of both texts, one after the other. -/
theorem Applies.ordered {p q : Nat} {old new : List Str} {hunks : List Hunk}
    (applies : Applies p q old new hunks) :
    hunks.Pairwise fun h h' => h.oldStart + h.oldCount ≤ h'.oldStart ∧
      h.newStart + h.newCount ≤ h'.newStart := by
  induction applies with
  | done => exact .nil
  | hunk oldStart oldCount newStart newCount later ih =>
    refine .cons (fun h member => ?_) ih
    have further := later.beyond h member
    exact ⟨by omega, by omega⟩

/-- The numbers of elements between one change and the next, with those since the last change. -/
def gapsFrom {β : Type} (changes : β → Bool) : Option Nat → List β → List Nat
  | _, [] => []
  | since, e :: rest =>
      if changes e then since.toList ++ gapsFrom changes (some 0) rest
      else gapsFrom changes (since.map (· + 1)) rest

/-- The numbers of kept lines between changes. -/
def gaps (script : List (Edit Str)) : List Nat := gapsFrom Edit.changes none script

/-- Two hunks with so many lines between their changes do not overlap. -/
def Clear (context gap : Nat) : Prop := ¬(context < gap ∧ gap < 2 * context)

/-- Every stretch of changes that leaves one side without a line stands at the start of that
side. -/
def Anchored (script : List (Edit Str)) : Prop :=
  ∀ x stretch y, script = x ++ stretch ++ y → stretch ≠ [] → (∀ e ∈ stretch, e.changes = true) →
    (∀ e ∈ x.getLast?, e.changes = false) → (∀ e ∈ y.head?, e.changes = false) →
    (before stretch = [] → before x = []) ∧ (after stretch = [] → after x = [])

section
variable {i j p q context rounds : Nat} {old new : List Str} {script other : List (Edit Str)}

/-! ### Operations with their places -/

theorem locate_append (i j : Nat) (script other : List (Edit Str)) :
    locate i j (script ++ other) = locate i j script ++
      locate (i + (before script).length) (j + (after script).length) other := by
  induction script generalizing i j with
  | nil => rfl
  | cons e script ih =>
    cases e <;> simp [locate, before, after, ih, Nat.add_assoc, Nat.add_comm]

theorem locate_split {x y : List Step} (whole : x ++ y = locate i j script) :
    ∃ first second, script = first ++ second ∧ x = locate i j first ∧
      y = locate (i + (before first).length) (j + (after first).length) second := by
  induction x generalizing i j script with
  | nil => exact ⟨[], script, rfl, rfl, whole⟩
  | cons op x ih =>
    cases script with
    | nil => cases whole
    | cons e script =>
      cases e with
      | keep a =>
        obtain ⟨rfl, rest⟩ := List.cons.inj whole
        obtain ⟨first, second, rfl, rfl, later⟩ := ih rest
        refine ⟨.keep a :: first, second, rfl, rfl, ?_⟩
        rw [later]
        simp [before, after, Nat.add_assoc, Nat.add_comm]
      | insert a =>
        obtain ⟨rfl, rest⟩ := List.cons.inj whole
        obtain ⟨first, second, rfl, rfl, later⟩ := ih rest
        refine ⟨.insert a :: first, second, rfl, rfl, ?_⟩
        rw [later]
        simp [before, after, Nat.add_assoc, Nat.add_comm]
      | delete a =>
        obtain ⟨rfl, rest⟩ := List.cons.inj whole
        obtain ⟨first, second, rfl, rfl, later⟩ := ih rest
        refine ⟨.delete a :: first, second, rfl, rfl, ?_⟩
        rw [later]
        simp [before, after, Nat.add_assoc, Nat.add_comm]

theorem map_isChange_locate (i j : Nat) (script : List (Edit Str)) :
    (locate i j script).map isChange = script.map Edit.changes := by
  induction script generalizing i j with
  | nil => rfl
  | cons e script ih => cases e <;> simp [locate, isChange, Edit.changes, ih]

theorem gapsFrom_map {β : Type} (changes : β → Bool) (since : Option Nat) (l : List β) :
    gapsFrom changes since l = gapsFrom id since (l.map changes) := by
  induction l generalizing since with
  | nil => rfl
  | cons e l ih => simp only [gapsFrom, List.map_cons, ih, id]

theorem gapsFrom_locate (i j : Nat) (since : Option Nat) (script : List (Edit Str)) :
    gapsFrom isChange since (locate i j script) = gapsFrom Edit.changes since script := by
  rw [gapsFrom_map, gapsFrom_map Edit.changes, map_isChange_locate]

theorem isEq_eq (step : Step) : isEq step = !isChange step := by
  unfold isEq isChange
  simp

/-! ### The inner loop -/

/-- What the inner loop takes: the hunk from its first change on, which ends with the lines of
context wherever lines follow it. -/
structure Extended (context : Nat) (ops body left : List Step) : Prop where
  whole : body ++ left = ops
  proper : body ≠ []
  ends : left = [] ∨ (∃ op rest, left = op :: rest ∧ isChange op = false) ∧
    ∃ inner trail, body = inner ++ trail ∧ (∀ op ∈ trail, isChange op = false) ∧
      trail.length = context
  gaps : (∀ g ∈ gapsFrom isChange (some 0) ops, Clear context g) ↔
    ∀ g ∈ gapsFrom isChange (some context) left, Clear context g
  bare : context = 0 → ∀ op ∈ body, isChange op = true

theorem clear_of_le {g : Nat} (small : g ≤ context) : Clear context g := fun both => by omega

theorem gaps_changes {changed rest : List Step} (changes : ∀ op ∈ changed, isChange op = true) :
    (∀ g ∈ gapsFrom isChange (some 0) (changed ++ rest), Clear context g) ↔
      ∀ g ∈ gapsFrom isChange (some 0) rest, Clear context g := by
  induction changed with
  | nil => rfl
  | cons op changed ih =>
    rw [List.forall_mem_cons] at changes
    rw [List.cons_append, gapsFrom, if_pos changes.1]
    show (∀ g ∈ 0 :: gapsFrom isChange (some 0) (changed ++ rest), Clear context g) ↔ _
    rw [List.forall_mem_cons, ih changes.2, and_iff_right (clear_of_le (Nat.zero_le _))]

theorem gapsFrom_equal {trail : List Step} (equal : ∀ op ∈ trail, isChange op = false)
    (since : Nat) (rest : List Step) :
    gapsFrom isChange (some since) (trail ++ rest) =
      gapsFrom isChange (some (since + trail.length)) rest := by
  induction trail generalizing since with
  | nil => rfl
  | cons op trail ih =>
    rw [List.forall_mem_cons] at equal
    rw [List.cons_append, gapsFrom, equal.1]
    show gapsFrom isChange (some (since + 1)) (trail ++ rest) = _
    rw [ih equal.2, List.length_cons]
    congr 2
    omega

/-- Lines that start equal and go on with a change, if they go on. -/
theorem equal_split (rest : List Step) :
    ∃ equal later, rest = equal ++ later ∧ rest.takeWhile isEq = equal ∧
      (∀ op ∈ equal, isChange op = false) ∧ ∀ op ∈ later.head?, isChange op = true := by
  refine ⟨rest.takeWhile isEq, rest.dropWhile isEq, List.takeWhile_append_dropWhile.symm, rfl,
    ?_, ?_⟩
  · intro op member
    have equal := List.all_eq_true.mp List.all_takeWhile op member
    rw [isEq_eq] at equal
    simpa using equal
  · intro op first
    have stops := List.head?_dropWhile_not isEq rest
    rw [first] at stops
    simpa [isEq_eq] using stops

theorem change_split {op : Step} (first : isChange op = true) (ops : List Step) :
    ∃ changed rest, op :: ops = changed ++ rest ∧ changed ≠ [] ∧
      (op :: ops).takeWhile isChange = changed ∧ (op :: ops).dropWhile isChange = rest ∧
      (∀ op ∈ changed, isChange op = true) ∧ ∀ op ∈ rest.head?, isChange op = false := by
  refine ⟨(op :: ops).takeWhile isChange, (op :: ops).dropWhile isChange,
    List.takeWhile_append_dropWhile.symm, ?_, rfl, rfl, ?_, ?_⟩
  · rw [List.takeWhile_cons_of_pos first]
    exact List.cons_ne_nil _ _
  · exact fun op member => List.all_eq_true.mp List.all_takeWhile op member
  · intro next follows
    have stops := List.head?_dropWhile_not isChange (op :: ops)
    rw [follows] at stops
    simpa using stops

theorem drop_take_length {β : Type} (equal later : List β) (context : Nat) :
    (equal ++ later).drop (equal.take context).length = equal.drop context ++ later := by
  rw [List.length_take]
  rcases Nat.le_total context equal.length with small | large
  · rw [Nat.min_eq_left small, List.drop_append_of_le_length small]
  · rw [Nat.min_eq_right large, List.drop_left, List.drop_eq_nil_of_le large, List.nil_append]

theorem extend_spec {ops : List Step} {op : Step} (first : isChange op = true)
    (enough : ops.length < rounds) :
    Extended context (op :: ops) (extendHunk context rounds (op :: ops)).1
      (extendHunk context rounds (op :: ops)).2 := by
  induction rounds generalizing op ops with
  | zero => omega
  | succ rounds ih =>
    obtain ⟨changed, rest, whole, proper, taken, dropped, changes, stops⟩ := change_split first ops
    obtain ⟨equal, later, rfl, taken', allEqual, goesOn⟩ := equal_split rest
    unfold extendHunk
    simp only [taken, dropped, taken', drop_take_length]
    have trail : ∀ op ∈ equal.take context, isChange op = false :=
      fun op member => allEqual op (List.mem_of_mem_take member)
    have parts : equal ++ later = equal.take context ++ (equal.drop context ++ later) := by
      rw [← List.append_assoc, List.take_append_drop]
    have count : (∀ g ∈ gapsFrom isChange (some 0) (op :: ops), Clear context g) ↔
        ∀ g ∈ gapsFrom isChange (some (equal.take context).length) (equal.drop context ++ later),
          Clear context g := by
      rw [whole, gaps_changes changes, parts, gapsFrom_equal trail, Nat.zero_add]
    have short : (equal.take context).length ≤ context := List.length_take_le _ _
    cases left : equal.drop context ++ later with
    | nil =>
      rw [if_neg (by simp)]
      refine ⟨?_, by simp [proper], .inl rfl, ?_, ?_⟩
      · rw [List.append_nil, whole, parts, left, List.append_nil]
      · rw [count, left]
        rfl
      · rintro rfl op member
        rw [List.take_zero, List.append_nil] at member
        exact changes op member
    | cons next after =>
      by_cases more : isChange next = true
      · rw [if_pos (by simpa using more)]
        have fewer : after.length < rounds := by
          have total := congrArg List.length whole
          have tail := congrArg List.length parts
          have one := List.length_pos_iff.mpr proper
          rw [left] at tail
          simp only [List.length_cons, List.length_append] at total tail
          omega
        obtain ⟨whole', proper', ends', gaps', -⟩ := ih more fewer
        refine ⟨?_, by simp [proper], ?_, ?_, ?_⟩
        · show changed ++ equal.take context ++ _ ++ _ = _
          rw [List.append_assoc, whole', whole, parts, left, List.append_assoc]
        · rcases ends' with empty | ⟨goes, inner, trail', body, equal', full⟩
          · exact .inl empty
          · refine .inr ⟨goes, changed ++ equal.take context ++ inner, trail', ?_, equal', full⟩
            show changed ++ equal.take context ++ _ = _
            rw [body, List.append_assoc _ inner]
        · rw [count, left, ← gaps', gapsFrom, gapsFrom, if_pos more, if_pos more]
          show (∀ g ∈ (equal.take context).length :: _, _) ↔ ∀ g ∈ 0 :: _, _
          rw [List.forall_mem_cons, List.forall_mem_cons, and_iff_right (clear_of_le short),
            and_iff_right (clear_of_le (Nat.zero_le _))]
        · rintro rfl
          rw [List.drop_zero] at left
          exact absurd (stops next (by rw [left]; rfl)) (by simp [more])
      · rw [if_neg (by simpa using more)]
        have full : (equal.take context).length = context := by
          rw [List.length_take]
          by_contra less
          rw [List.drop_eq_nil_of_le (by omega), List.nil_append] at left
          exact more (goesOn next (by rw [left]; rfl))
        refine ⟨?_, by simp [proper], .inr ⟨⟨next, after, rfl, by simpa using more⟩, changed,
          equal.take context, rfl, trail, full⟩, ?_, ?_⟩
        · rw [List.append_assoc, whole, parts, left]
        · rw [count, left, full]
        · rintro rfl op member
          rw [List.take_zero, List.append_nil] at member
          exact changes op member

/-! ### A hunk of a script -/

def lineOf : Edit Str → HunkLine
  | .keep a => ⟨' ', a⟩
  | .delete a => ⟨'-', a⟩
  | .insert a => ⟨'+', a⟩

/-- The hunk of a part of a script that stands at these places. -/
def hunkOf (i j : Nat) (script : List (Edit Str)) : Hunk where
  oldStart := if before script = [] then 1 else i + 1
  oldCount := (before script).length
  newStart := if after script = [] then 1 else j + 1
  newCount := (after script).length
  lines := script.map lineOf

theorem oldLines_hunkOf (i j : Nat) (script : List (Edit Str)) :
    (hunkOf i j script).oldLines = before script := by
  show ((script.map lineOf).filter _).map _ = _
  induction script with
  | nil => rfl
  | cons e script ih => cases e <;> simpa [lineOf, before] using ih

theorem newLines_hunkOf (i j : Nat) (script : List (Edit Str)) :
    (hunkOf i j script).newLines = after script := by
  show ((script.map lineOf).filter _).map _ = _
  induction script with
  | nil => rfl
  | cons e script ih => cases e <;> simpa [lineOf, after] using ih

theorem filter_old (i j : Nat) (script : List (Edit Str)) :
    ((locate i j script).filter (·.1 ≠ .ins)).length = (before script).length := by
  induction script generalizing i j with
  | nil => rfl
  | cons e script ih => cases e <;> simpa [locate, before] using ih _ _

theorem filter_new (i j : Nat) (script : List (Edit Str)) :
    ((locate i j script).filter (·.1 ≠ .del)).length = (after script).length := by
  induction script generalizing i j with
  | nil => rfl
  | cons e script ih => cases e <;> simpa [locate, after] using ih _ _

theorem find_old (i j : Nat) (script : List (Edit Str)) :
    (((locate i j script).find? (·.1 ≠ .ins)).map fun o => o.2.1 + 1).getD 1 =
      if before script = [] then 1 else i + 1 := by
  induction script generalizing i j with
  | nil => rfl
  | cons e script ih =>
    cases e with
    | keep a => simp [locate, before]
    | insert a => exact ih i (j + 1)
    | delete a => simp [locate, before]

theorem find_new (i j : Nat) (script : List (Edit Str)) :
    (((locate i j script).find? (·.1 ≠ .del)).map fun o => o.2.2 + 1).getD 1 =
      if after script = [] then 1 else j + 1 := by
  induction script generalizing i j with
  | nil => rfl
  | cons e script ih =>
    cases e with
    | keep a => simp [locate, after]
    | insert a => simp [locate, after]
    | delete a => exact ih (i + 1) j

/-- The lines of the operations are read where they are. -/
theorem map_hunkLine {lead trail : List Str} {lead' trail' : List Str}
    (inOld : old = lead ++ before script ++ trail) (atOld : lead.length = i)
    (inNew : new = lead' ++ after script ++ trail') (atNew : lead'.length = j) :
    (locate i j script).map (hunkLine old new) = script.map lineOf := by
  induction script generalizing i j lead lead' with
  | nil => rfl
  | cons e script ih =>
    have here : ∀ {l first rest : List Str} {a : Str} {k : Nat}, l = first ++ a :: rest →
        first.length = k → l.getD k [] = a := by
      rintro _ first rest a _ rfl rfl
      simp
    cases e with
    | keep a =>
      have old' : old = lead ++ a :: (before script ++ trail) := by simpa [before] using inOld
      have new' : new = lead' ++ a :: (after script ++ trail') := by simpa [after] using inNew
      have rest : (locate (i + 1) (j + 1) script).map (hunkLine old new) = script.map lineOf :=
        ih (show old = lead ++ [a] ++ before script ++ trail by simpa using old')
          (by simp [atOld]) (show new = lead' ++ [a] ++ after script ++ trail' by simpa using new')
          (by simp [atNew])
      simp only [locate, List.map_cons, rest, hunkLine, lineOf, here old' atOld]
    | insert a =>
      have new' : new = lead' ++ a :: (after script ++ trail') := by simpa [after] using inNew
      have rest : (locate i (j + 1) script).map (hunkLine old new) = script.map lineOf :=
        ih inOld atOld (show new = lead' ++ [a] ++ after script ++ trail' by simpa using new')
          (by simp [atNew])
      simp only [locate, List.map_cons, rest, hunkLine, lineOf, here new' atNew]
    | delete a =>
      have old' : old = lead ++ a :: (before script ++ trail) := by simpa [before] using inOld
      have rest : (locate (i + 1) j script).map (hunkLine old new) = script.map lineOf :=
        ih (show old = lead ++ [a] ++ before script ++ trail by simpa using old')
          (by simp [atOld]) inNew atNew
      simp only [locate, List.map_cons, rest, hunkLine, lineOf, here old' atOld]

theorem buildHunk_locate {first last : List (Edit Str)}
    (turns : Turns (first ++ script ++ last) old new) :
    buildHunk old new (locate (before first).length (after first).length script) =
      hunkOf (before first).length (after first).length script := by
  have inOld := turns.before.symm
  have inNew := turns.after.symm
  rw [before_append, before_append] at inOld
  rw [after_append, after_append] at inNew
  unfold buildHunk hunkOf
  rw [filter_old, filter_new, find_old, find_new, map_hunkLine inOld rfl inNew rfl]

/-! ### One hunk of a patch -/

theorem before_equal {equal : List (Edit Str)} (same : ∀ e ∈ equal, e.changes = false) :
    before equal = after equal ∧ (before equal).length = equal.length := by
  induction equal with
  | nil => exact ⟨rfl, rfl⟩
  | cons e equal ih =>
    rw [List.forall_mem_cons] at same
    obtain ⟨lines, length⟩ := ih same.2
    cases e with
    | keep a => exact ⟨congrArg (a :: ·) lines, congrArg Nat.succ length⟩
    | insert a => cases same.1
    | delete a => cases same.1

theorem sides_ne_nil (proper : script ≠ []) : before script ≠ [] ∨ after script ≠ [] := by
  cases script with
  | nil => exact absurd rfl proper
  | cons e script => cases e <;> simp [before, after]

/-- A hunk that follows lines left as they are is in its place if and only if a side without lines
has none before it, and what follows is in its place. -/
theorem applies_hunk_iff {equal hunk rest : List (Edit Str)} {hunks : List Hunk}
    (same : ∀ e ∈ equal, e.changes = false) (proper : hunk ≠ []) :
    Applies p q (before (equal ++ hunk ++ rest)) (after (equal ++ hunk ++ rest))
        (hunkOf (p + equal.length) (q + equal.length) hunk :: hunks) ↔
      ((before hunk = [] → p + equal.length = 0) ∧ (after hunk = [] → q + equal.length = 0)) ∧
      Applies (p + equal.length + (before hunk).length) (q + equal.length + (after hunk).length)
        (before rest) (after rest) hunks := by
  obtain ⟨lines, length⟩ := before_equal same
  rw [before_append, before_append, after_append, after_append]
  constructor
  · intro applies
    generalize olds : before equal ++ before hunk ++ before rest = oldText at applies
    generalize news : after equal ++ after hunk ++ after rest = newText at applies
    cases applies with
    | @hunk _ _ gap old' new' _ _ oldStart _ newStart _ later =>
      rw [oldLines_hunkOf, newLines_hunkOf] at later
      rw [oldLines_hunkOf] at olds
      rw [newLines_hunkOf] at news
      have starts : gap.length = equal.length ∧
          (before hunk = [] → p + equal.length = 0) ∧
          (after hunk = [] → q + equal.length = 0) := by
        unfold hunkOf at oldStart newStart
        simp only at oldStart newStart
        rcases sides_ne_nil proper with left | right
        · rw [if_neg left] at oldStart
          refine ⟨by omega, fun empty => absurd empty left, fun empty => ?_⟩
          rw [if_pos empty] at newStart
          omega
        · rw [if_neg right] at newStart
          refine ⟨by omega, fun empty => ?_, fun empty => absurd empty right⟩
          rw [if_pos empty] at oldStart
          omega
      obtain ⟨gapLength, placed⟩ := starts
      refine ⟨placed, ?_⟩
      rw [List.append_assoc, List.append_assoc] at olds news
      obtain ⟨_, oldRest⟩ := List.append_inj olds (length.trans gapLength.symm)
      obtain ⟨_, newRest⟩ := List.append_inj news (lines ▸ length.trans gapLength.symm)
      rw [← List.append_cancel_left oldRest, ← List.append_cancel_left newRest, gapLength] at later
      exact later
  · intro ⟨⟨oldPlace, newPlace⟩, later⟩
    rw [← lines]
    have oldHunk := oldLines_hunkOf (p + equal.length) (q + equal.length) hunk
    have newHunk := newLines_hunkOf (p + equal.length) (q + equal.length) hunk
    have step := @Applies.hunk p q (before equal) (before rest) (after rest)
      (hunkOf (p + equal.length) (q + equal.length) hunk) hunks
    rw [oldHunk, newHunk, length] at step
    apply step _ rfl _ rfl later
    · show (if before hunk = [] then 1 else _) = _
      split_ifs with empty
      · rw [oldPlace empty]
      · rfl
    · show (if after hunk = [] then 1 else _) = _
      split_ifs with empty
      · rw [newPlace empty]
      · rfl

/-! ### All hunks -/

/-- What is asked of the stretches of changes after some edits. -/
def AnchoredAfter (passed script : List (Edit Str)) : Prop :=
  ∀ x stretch y, script = x ++ stretch ++ y → stretch ≠ [] → (∀ e ∈ stretch, e.changes = true) →
    (∀ e ∈ (passed ++ x).getLast?, e.changes = false) → (∀ e ∈ y.head?, e.changes = false) →
    (before stretch = [] → before (passed ++ x) = []) ∧
    (after stretch = [] → after (passed ++ x) = [])

theorem anchored_iff : Anchored script ↔ AnchoredAfter [] script := Iff.rfl

theorem anchoredAfter_nil (passed : List (Edit Str)) : AnchoredAfter passed [] := by
  intro x stretch y whole proper
  have empty := List.append_eq_nil_iff.mp whole.symm
  exact absurd (List.append_eq_nil_iff.mp empty.1).2 proper

theorem anchoredAfter_keep {passed : List (Edit Str)} {e : Edit Str} (keeps : e.changes = false) :
    AnchoredAfter passed (e :: script) ↔ AnchoredAfter (passed ++ [e]) script := by
  constructor
  · intro all x stretch y whole
    have step := all (e :: x) stretch y (by rw [whole]; rfl)
    rwa [List.append_cons] at step
  · intro all x stretch y whole proper changes lead trail
    cases x with
    | nil =>
      cases stretch with
      | nil => exact absurd rfl proper
      | cons f stretch =>
        obtain ⟨rfl, -⟩ := List.cons.inj whole
        have changed := changes e List.mem_cons_self
        rw [keeps] at changed
        cases changed
    | cons f x =>
      obtain ⟨rfl, rest⟩ := List.cons.inj whole
      rw [List.append_cons] at lead ⊢
      exact all x stretch y rest proper changes lead trail

theorem stretch_unique {stretch rest stretch' rest' : List (Edit Str)}
    (same : stretch ++ rest = stretch' ++ rest')
    (changes : ∀ e ∈ stretch, e.changes = true) (stops : ∀ e ∈ rest.head?, e.changes = false)
    (changes' : ∀ e ∈ stretch', e.changes = true) (stops' : ∀ e ∈ rest'.head?, e.changes = false) :
    stretch = stretch' ∧ rest = rest' := by
  induction stretch generalizing stretch' with
  | nil =>
    cases stretch' with
    | nil => exact ⟨rfl, same⟩
    | cons f stretch' =>
      have follows : rest.head? = some f := by rw [show rest = _ from same]; rfl
      have stopped := stops f follows
      rw [changes' f List.mem_cons_self] at stopped
      cases stopped
  | cons e stretch ih =>
    cases stretch' with
    | nil =>
      have follows : rest'.head? = some e := by rw [← show _ = rest' from same]; rfl
      have stopped := stops' e follows
      rw [changes e List.mem_cons_self] at stopped
      cases stopped
    | cons f stretch' =>
      rw [List.forall_mem_cons] at changes changes'
      obtain ⟨rfl, tail⟩ := List.cons.inj same
      obtain ⟨rfl, rfl⟩ := ih tail changes.2 changes'.2
      exact ⟨rfl, rfl⟩

theorem anchoredAfter_stretch {passed stretch rest : List (Edit Str)} (proper : stretch ≠ [])
    (changes : ∀ e ∈ stretch, e.changes = true)
    (lead : ∀ e ∈ passed.getLast?, e.changes = false)
    (stops : ∀ e ∈ rest.head?, e.changes = false) :
    AnchoredAfter passed (stretch ++ rest) ↔
      ((before stretch = [] → before passed = []) ∧ (after stretch = [] → after passed = [])) ∧
      AnchoredAfter (passed ++ stretch) rest := by
  constructor
  · intro all
    constructor
    · have here := all [] stretch rest rfl proper changes
      rw [List.append_nil] at here
      exact here lead stops
    · intro x other y whole
      have later := all (stretch ++ x) other y (by rw [whole]; simp)
      rwa [← List.append_assoc] at later
  · intro ⟨here, all⟩ x other y whole proper' changes' lead' stops'
    by_cases inside : x.length < stretch.length
    · have start : x = [] := by
        by_contra nonempty
        have reached : x <+: stretch := by
          have front : x <+: stretch ++ rest := by
            rw [whole, List.append_assoc]
            exact List.prefix_append _ _
          exact List.prefix_of_prefix_length_le front (List.prefix_append _ _) inside.le
        obtain ⟨e, last⟩ := Option.isSome_iff_exists.mp
          (List.getLast?_isSome.mpr nonempty)
        have kept := lead' e (by rw [List.getLast?_append, last]; rfl)
        rw [changes e (reached.subset (List.mem_of_getLast? last))] at kept
        cases kept
      subst start
      obtain ⟨rfl, -⟩ := stretch_unique whole changes stops changes' stops'
      rw [List.append_nil]
      exact here
    · have reached : stretch <+: x := by
        have front : x <+: stretch ++ rest := by
          rw [whole, List.append_assoc]
          exact List.prefix_append _ _
        exact List.prefix_of_prefix_length_le (List.prefix_append _ _) front
          (Nat.le_of_not_lt inside)
      obtain ⟨x, rfl⟩ := reached
      have tail : rest = x ++ other ++ y := by
        have longer : stretch ++ rest = stretch ++ (x ++ other ++ y) := by
          rw [whole]
          simp
        exact List.append_cancel_left longer
      rw [← List.append_assoc] at lead' ⊢
      exact all x other y tail proper' changes' lead' stops'

theorem locate_length (i j : Nat) (script : List (Edit Str)) :
    (locate i j script).length = script.length := by
  have same := congrArg List.length (map_isChange_locate i j script)
  rwa [List.length_map, List.length_map] at same

theorem locate_drop (n : Nat) (script : List (Edit Str)) :
    (locate 0 0 script).drop n =
      locate (before (script.take n)).length (after (script.take n)).length (script.drop n) := by
  by_cases inside : n ≤ script.length
  · conv_lhs => rw [← List.take_append_drop n script]
    have length : (locate 0 0 (script.take n)).length = n := by
      rw [locate_length, List.length_take, Nat.min_eq_left inside]
    rw [locate_append, List.drop_left' length, Nat.zero_add, Nat.zero_add]
  · rw [List.drop_eq_nil_of_le (by rw [locate_length]; omega),
      List.drop_eq_nil_of_le (by omega : script.length ≤ n)]
    rfl

theorem locate_cons (i j : Nat) (e : Edit Str) (script : List (Edit Str)) :
    ∃ op, locate i j (e :: script) = op :: locate (i + (before [e]).length)
        (j + (after [e]).length) script ∧ locate i j [e] = [op] ∧ isChange op = e.changes := by
  cases e with
  | keep a => exact ⟨(.eq, i, j), rfl, rfl, rfl⟩
  | insert a => exact ⟨(.ins, i, j), rfl, rfl, rfl⟩
  | delete a => exact ⟨(.del, i, j), rfl, rfl, rfl⟩

theorem forall_locate {value : Bool} (i j : Nat) (script : List (Edit Str)) :
    (∀ op ∈ locate i j script, isChange op = value) ↔ ∀ e ∈ script, e.changes = value := by
  have mapped := map_isChange_locate i j script
  constructor
  · intro all e member
    have image : e.changes ∈ (locate i j script).map isChange :=
      mapped ▸ List.mem_map_of_mem member
    obtain ⟨op, inside, same⟩ := List.mem_map.mp image
    rw [← same]
    exact all op inside
  · intro all op member
    have image : isChange op ∈ script.map Edit.changes := mapped ▸ List.mem_map_of_mem member
    obtain ⟨e, inside, same⟩ := List.mem_map.mp image
    rw [← same]
    exact all e inside

theorem hunkOps_keep {passed : List (Edit Str)} {e : Edit Str} (kept : e.changes = false) :
    hunkOps context (rounds + 1) (locate 0 0 passed)
        (locate (before passed).length (after passed).length (e :: script)) =
      hunkOps context rounds (locate 0 0 (passed ++ [e]))
        (locate (before (passed ++ [e])).length (after (passed ++ [e])).length script) := by
  obtain ⟨op, located, single, same⟩ := locate_cons (before passed).length (after passed).length
    e script
  have longer : locate 0 0 passed ++ [op] = locate 0 0 (passed ++ [e]) := by
    rw [locate_append 0 0 passed, Nat.zero_add, Nat.zero_add, single]
  rw [located, hunkOps, isEq_eq, same, kept, Bool.not_false, if_pos rfl, longer, before_append,
    after_append, List.length_append, List.length_append]

/-- How the lines passed since the last hunk are counted: with the context at its end, if there
was one. -/
def CountedFrom (context : Nat) (taken equal : List (Edit Str)) (since : Option Nat) : Prop :=
  taken = [] ∧ since = none ∨
  ∃ inner trail, taken = inner ++ trail ∧ (∀ e ∈ trail, e.changes = false) ∧
    trail.length = context ∧ since = some (context + equal.length)

/-- The hunk and what is left after it, of a script that goes on with a change. -/
theorem hunkOps_change {passed : List (Edit Str)} {e : Edit Str} (changed : e.changes = true)
    (enough : script.length ≤ rounds) :
    ∃ body left, e :: script = body ++ left ∧ body ≠ [] ∧ left.length ≤ rounds ∧
      (left = [] ∨ (∀ f ∈ left.head?, f.changes = false) ∧ ∃ inner trail, body = inner ++ trail ∧
        (∀ f ∈ trail, f.changes = false) ∧ trail.length = context) ∧
      ((∀ g ∈ gapsFrom Edit.changes (some 0) (e :: script), Clear context g) ↔
        ∀ g ∈ gapsFrom Edit.changes (some context) left, Clear context g) ∧
      (context = 0 → ∀ f ∈ body, f.changes = true) ∧
      hunkOps context (rounds + 1) (locate 0 0 passed)
          (locate (before passed).length (after passed).length (e :: script)) =
        locate (before (passed.take (passed.length - context))).length
            (after (passed.take (passed.length - context))).length
            (passed.drop (passed.length - context) ++ body) ::
          hunkOps context rounds (locate 0 0 (passed ++ body))
            (locate (before (passed ++ body)).length (after (passed ++ body)).length left) := by
  generalize atOld : (before passed).length = i
  generalize atNew : (after passed).length = j
  obtain ⟨op, located, -, same⟩ := locate_cons i j e script
  have first : isChange op = true := same.trans changed
  generalize (locate (i + (before [e]).length) (j + (after [e]).length) script) = ops at located
  have taken := @extend_spec context _ ops op first (Nat.lt_succ_self ops.length)
  obtain ⟨whole, proper, ends, counted, bare⟩ := taken
  have unfolded : hunkOps context (rounds + 1) (locate 0 0 passed) (op :: ops) =
      ((locate 0 0 passed).drop ((locate 0 0 passed).length - context) ++
          (extendHunk context (ops.length + 1) (op :: ops)).1) ::
        hunkOps context rounds
          (locate 0 0 passed ++ (extendHunk context (ops.length + 1) (op :: ops)).1)
          (extendHunk context (ops.length + 1) (op :: ops)).2 := by
    rw [hunkOps, isEq_eq, first]
    rfl
  rw [located, unfolded]
  generalize extendHunk context (ops.length + 1) (op :: ops) = result
    at whole proper ends counted bare
  obtain ⟨taken, rest⟩ := result
  simp only at whole proper ends counted bare
  obtain ⟨body, left, split, rfl, rfl⟩ := locate_split (whole.trans located.symm)
  have nonempty : body ≠ [] := by
    rintro rfl
    exact proper rfl
  refine ⟨body, left, split, nonempty, ?_, ?_, ?_, ?_, ?_⟩
  · have total := congrArg List.length split
    have one := List.length_pos_iff.mpr nonempty
    simp only [List.length_cons, List.length_append] at total
    omega
  · rcases ends with nothing | ⟨⟨next, later, follows, equal⟩, inner, trail, sides, allEqual, full⟩
    · have length := locate_length (i + (before body).length) (j + (after body).length) left
      rw [nothing] at length
      exact .inl (List.length_eq_zero_iff.mp length.symm)
    · obtain ⟨inner', trail', rfl, -, rfl⟩ := locate_split sides.symm
      refine .inr ⟨?_, inner', trail', rfl, (forall_locate _ _ _).mp allEqual,
        (locate_length _ _ _).symm.trans full⟩
      cases left with
      | nil => cases follows
      | cons f left =>
        obtain ⟨step, split', -, same'⟩ := locate_cons
          (i + (before (inner' ++ trail')).length) (j + (after (inner' ++ trail')).length) f left
        rintro _ ⟨⟩
        rw [follows] at split'
        rw [← same', ← (List.cons.inj split').1]
        exact equal
  · rw [← gapsFrom_locate i j, located, counted, gapsFrom_locate]
  · exact fun bared => (forall_locate _ _ _).mp (bare bared)
  · have parts := List.take_append_drop (passed.length - context) passed
    have sumOld := congrArg (fun l => (before l).length) parts
    have sumNew := congrArg (fun l => (after l).length) parts
    simp only [before_append, after_append, List.length_append, atOld, atNew] at sumOld sumNew
    rw [locate_length, locate_drop, locate_append _ _ (passed.drop _), sumOld, sumNew,
      locate_append 0 0 passed, Nat.zero_add, Nat.zero_add, before_append, after_append,
      List.length_append, List.length_append, atOld, atNew]

theorem getLast?_equal {l equal : List (Edit Str)} (same : ∀ e ∈ equal, e.changes = false)
    (ends : l = [] ∨ equal ≠ []) : ∀ e ∈ (l ++ equal).getLast?, e.changes = false := by
  intro e last
  rcases ends with rfl | proper
  · exact same e (List.mem_of_getLast? last)
  · obtain ⟨f, final⟩ := Option.isSome_iff_exists.mp (List.getLast?_isSome.mpr proper)
    rw [List.getLast?_append, final] at last
    cases last
    exact same e (List.mem_of_getLast? final)

/-- A hunk that reaches back behind the end of the last one is not in place. -/
theorem not_applies_overlap {inner trail equal body : List (Edit Str)} {hunks : List Hunk}
    {oldText newText : List Str} {n : Nat}
    (same : ∀ e ∈ trail ++ equal, e.changes = false) (full : trail.length = context)
    (short : equal.length < context) (back : n = inner.length + equal.length) :
    ¬Applies (before (inner ++ trail)).length (after (inner ++ trail)).length oldText newText
      (hunkOf (before ((inner ++ trail ++ equal).take n)).length
        (after ((inner ++ trail ++ equal).take n)).length
        ((inner ++ trail ++ equal).drop n ++ body) :: hunks) := by
  have front : (inner ++ trail ++ equal).drop n = (trail ++ equal).drop equal.length := by
    rw [back, List.append_assoc, List.drop_append, Nat.add_sub_cancel_left,
      List.drop_eq_nil_of_le (by omega), List.nil_append]
  have lead : (inner ++ trail ++ equal).take n = inner ++ (trail ++ equal).take equal.length := by
    rw [back, List.append_assoc, List.take_append, Nat.add_sub_cancel_left,
      List.take_of_length_le (by omega)]
  have leadSame := before_equal fun e member => same e (List.mem_of_mem_take
    (i := equal.length) member)
  have frontSame := before_equal fun e member => same e (List.mem_of_mem_drop
    (i := equal.length) member)
  have trailSame := before_equal fun e member => same e (List.mem_append_left equal member)
  have shown : before ((trail ++ equal).drop equal.length ++ body) ≠ [] := by
    intro empty
    have nothing := congrArg List.length empty
    rw [before_append, List.length_append, frontSame.2, List.length_drop, List.length_append,
      List.length_nil] at nothing
    omega
  intro applies
  rw [front, lead] at applies
  cases applies with
  | hunk oldStart _ _ _ _ =>
    have start : (if before ((trail ++ equal).drop equal.length ++ body) = [] then 1
        else (before (inner ++ (trail ++ equal).take equal.length)).length + 1) = _ := oldStart
    rw [if_neg shown, before_append, before_append, List.length_append, List.length_append,
      leadSame.2, trailSame.2, List.length_take, List.length_append] at start
    omega

/-- With lines of context a hunk lacks a side at most at the start of both texts, and without them
the stretch of changes is all of it. -/
theorem placed_iff {lead front body left : List (Edit Str)}
    (same : ∀ e ∈ front, e.changes = false)
    (reach : front.length = min context (lead.length + front.length))
    (proper : body ≠ []) (bare : context = 0 → ∀ e ∈ body, e.changes = true)
    (stops : ∀ e ∈ left.head?, e.changes = false)
    (last : ∀ e ∈ (lead ++ front).getLast?, e.changes = false) :
    ((before (front ++ body) = [] → (before lead).length = 0) ∧
        (after (front ++ body) = [] → (after lead).length = 0)) ∧
      (context = 0 → AnchoredAfter (lead ++ front ++ body) left) ↔
      (context = 0 → AnchoredAfter (lead ++ front) (body ++ left)) := by
  by_cases zero : context = 0
  · have empty : front = [] := List.length_eq_zero_iff.mp (by omega)
    subst empty
    rw [List.append_nil] at last ⊢
    simp only [zero, forall_const, List.nil_append, List.length_eq_zero_iff]
    exact (anchoredAfter_stretch proper (bare zero) last stops).symm
  · obtain ⟨lines, length⟩ := before_equal same
    simp only [zero, IsEmpty.forall_iff, and_true, iff_true]
    rw [before_append, after_append, ← lines, List.append_eq_nil_iff, List.append_eq_nil_iff]
    have start : before front = [] → lead = [] := by
      intro empty
      rw [empty, List.length_nil] at length
      exact List.length_eq_zero_iff.mp (by omega)
    exact ⟨fun empty => by rw [start empty.1]; rfl, fun empty => by rw [start empty.1]; rfl⟩

/-- A hunk does not reach behind the lines passed since the last one if they are enough. -/
theorem room_split {taken equal : List (Edit Str)} (room : taken = [] ∨ context ≤ equal.length) :
    ∃ lead front, equal = lead ++ front ∧
      (taken ++ equal).take ((taken ++ equal).length - context) = taken ++ lead ∧
      (taken ++ equal).drop ((taken ++ equal).length - context) = front ∧
      front.length = min context ((taken ++ lead).length + front.length) := by
  have start : (taken ++ equal).length - context = taken.length + (equal.length - context) := by
    rw [List.length_append]
    rcases room with rfl | wide
    · simp
    · omega
  refine ⟨equal.take (equal.length - context), equal.drop (equal.length - context),
    (List.take_append_drop _ _).symm, ?_, ?_, ?_⟩
  · rw [start, List.take_append, Nat.add_sub_cancel_left, List.take_of_length_le (by omega)]
  · rw [start, List.drop_append, Nat.add_sub_cancel_left, List.drop_eq_nil_of_le (by omega),
      List.nil_append]
  · rw [List.length_drop, List.length_append, List.length_take]
    rcases room with rfl | wide
    · rw [List.length_nil]
      omega
    · omega

/-- From lines passed since the last hunk, the hunks to come are in place if and only if no two of
them overlap and no stretch of changes lacks its place. -/
theorem applies_hunkOps_iff {taken equal : List (Edit Str)} {since : Option Nat}
    (turns : Turns (taken ++ equal ++ script) old new)
    (same : ∀ e ∈ equal, e.changes = false) (enough : script.length ≤ rounds)
    (counted : CountedFrom context taken equal since)
    (fresh : equal = [] → taken ≠ [] → ∀ e ∈ script.head?, e.changes = false) :
    Applies (before taken).length (after taken).length (before (equal ++ script))
        (after (equal ++ script))
        ((hunkOps context rounds (locate 0 0 (taken ++ equal))
          (locate (before (taken ++ equal)).length (after (taken ++ equal)).length script)).map
            (buildHunk old new)) ↔
      (∀ g ∈ gapsFrom Edit.changes since script, Clear context g) ∧
      (context = 0 → AnchoredAfter (taken ++ equal) script) := by
  induction rounds generalizing taken equal script since with
  | zero =>
    obtain rfl : script = [] := List.length_eq_zero_iff.mp (by omega)
    rw [List.append_nil, (before_equal same).1]
    exact iff_of_true .done ⟨fun g absent => (nomatch absent), fun _ => anchoredAfter_nil _⟩
  | succ rounds ih =>
    cases script with
    | nil =>
      rw [List.append_nil, (before_equal same).1]
      exact iff_of_true .done ⟨fun g absent => (nomatch absent), fun _ => anchoredAfter_nil _⟩
    | cons e script =>
      by_cases changed : e.changes = true
      · obtain ⟨body, left, split, proper, fewer, ends, count, bare, unfolded⟩ :=
          @hunkOps_change context rounds script (taken ++ equal) e changed
            (Nat.le_of_succ_le_succ enough)
        have reached : equal = [] → taken = [] := by
          intro empty
          by_contra some
          have kept := fresh empty some e rfl
          rw [changed] at kept
          cases kept
        have stops : ∀ f ∈ left.head?, f.changes = false := by
          rcases ends with rfl | ⟨stops, _⟩
          · exact fun f absent => (nomatch absent)
          · exact stops
        have later : Applies (before (taken ++ equal ++ body)).length
            (after (taken ++ equal ++ body)).length (before left) (after left)
            ((hunkOps context rounds (locate 0 0 (taken ++ equal ++ body))
              (locate (before (taken ++ equal ++ body)).length
                (after (taken ++ equal ++ body)).length left)).map (buildHunk old new)) ↔
            (∀ g ∈ gapsFrom Edit.changes (some context) left, Clear context g) ∧
            (context = 0 → AnchoredAfter (taken ++ equal ++ body) left) := by
          rcases ends with rfl | ⟨_, inner, trail, parts, kept, full⟩
          · have ended : ∀ passed i j, hunkOps context rounds passed (locate i j []) = [] := by
              intro passed i j
              cases rounds <;> rfl
            rw [ended]
            exact iff_of_true .done ⟨fun g absent => (nomatch absent), fun _ => anchoredAfter_nil _⟩
          · have counted' : CountedFrom context (taken ++ equal ++ body) [] (some context) :=
              .inr ⟨taken ++ equal ++ inner, trail, by rw [parts, List.append_assoc _ inner], kept,
                full, rfl⟩
            have turns' : Turns (taken ++ equal ++ body ++ [] ++ left) old new := by
              rw [List.append_nil, List.append_assoc _ body, ← split]
              exact turns
            have step := ih turns' (fun f absent => (nomatch absent)) fewer counted'
              fun _ _ => stops
            rw [List.append_nil, List.nil_append] at step
            exact step
        have gapsSplit : (∀ g ∈ gapsFrom Edit.changes since (e :: script), Clear context g) ↔
            (∀ g ∈ since, Clear context g) ∧
            ∀ g ∈ gapsFrom Edit.changes (some context) left, Clear context g := by
          rw [← count, gapsFrom, gapsFrom, if_pos changed, if_pos changed, List.forall_mem_append]
          show _ ↔ _ ∧ ∀ g ∈ 0 :: gapsFrom Edit.changes (some 0) script, Clear context g
          rw [List.forall_mem_cons, and_iff_right (clear_of_le (Nat.zero_le context))]
          simp only [Option.mem_toList]
          rfl
        rw [unfolded, List.map_cons, gapsSplit]
        have placed : buildHunk old new
            (locate (before ((taken ++ equal).take ((taken ++ equal).length - context))).length
              (after ((taken ++ equal).take ((taken ++ equal).length - context))).length
              ((taken ++ equal).drop ((taken ++ equal).length - context) ++ body)) =
            hunkOf (before ((taken ++ equal).take ((taken ++ equal).length - context))).length
              (after ((taken ++ equal).take ((taken ++ equal).length - context))).length
              ((taken ++ equal).drop ((taken ++ equal).length - context) ++ body) := by
          refine buildHunk_locate (?_ : Turns (_ ++ _ ++ left) old new)
          rw [← List.append_assoc, List.take_append_drop, List.append_assoc _ body, ← split]
          exact turns
        rw [placed]
        by_cases room : taken = [] ∨ context ≤ equal.length
        · obtain ⟨lead, front, parts, takes, drops, reach⟩ := room_split room
          have sides := List.forall_mem_append.mp (parts ▸ same)
          have text : equal ++ e :: script = lead ++ (front ++ body) ++ left := by
            rw [parts, split]
            simp
          have whole : taken ++ equal = taken ++ lead ++ front := by
            rw [parts, List.append_assoc]
          have spaced : ∀ g ∈ since, Clear context g := by
            rintro g known ⟨_, less⟩
            rcases counted with ⟨_, rfl⟩ | ⟨inner, trail, shape, _, full, rfl⟩
            · cases known
            · cases known
              rcases room with rfl | wide
              · rw [eq_comm, List.append_eq_nil_iff] at shape
                rw [shape.2, List.length_nil] at full
                omega
              · omega
          have atOld : (before (taken ++ lead)).length = (before taken).length + lead.length := by
            rw [before_append, List.length_append, (before_equal sides.1).2]
          have atNew : (after (taken ++ lead)).length = (after taken).length + lead.length := by
            rw [after_append, List.length_append, ← (before_equal sides.1).1,
              (before_equal sides.1).2]
          have nextOld : (before taken).length + lead.length + (before (front ++ body)).length =
              (before (taken ++ equal ++ body)).length := by
            rw [← atOld, ← List.length_append, ← before_append, whole, List.append_assoc _ front]
          have nextNew : (after taken).length + lead.length + (after (front ++ body)).length =
              (after (taken ++ equal ++ body)).length := by
            rw [← atNew, ← List.length_append, ← after_append, whole, List.append_assoc _ front]
          have last : ∀ f ∈ (taken ++ lead ++ front).getLast?, f.changes = false := by
            rw [← whole]
            apply getLast?_equal same
            by_contra neither
            rw [not_or, not_not] at neither
            exact neither.1 (reached neither.2)
          have anchored := placed_iff sides.2 reach proper bare stops last
          rw [← whole, atOld, atNew] at anchored
          rw [takes, drops, text, atOld, atNew,
            applies_hunk_iff sides.1 (List.append_ne_nil_of_right_ne_nil front proper), nextOld,
            nextNew, later, split, and_iff_right spaced, ← anchored]
          exact and_left_comm
        · rw [not_or] at room
          obtain ⟨some, short⟩ := room
          rcases counted with ⟨start, _⟩ | ⟨inner, trail, rfl, kept, full, rfl⟩
          · exact absurd start some
          · have back : (inner ++ trail ++ equal).length - context =
                inner.length + equal.length := by
              simp only [List.length_append]
              omega
            have nonempty := List.length_pos_iff.mpr fun empty => some (reached empty)
            refine iff_of_false (not_applies_overlap ?_ full (by omega) back) fun both => ?_
            · exact List.forall_mem_append.mpr ⟨kept, same⟩
            · exact both.1.1 _ rfl ⟨by omega, by omega⟩
      · rw [Bool.not_eq_true] at changed
        have same' : ∀ f ∈ equal ++ [e], f.changes = false := by
          rw [List.forall_mem_append]
          exact ⟨same, by simpa using changed⟩
        have counted' : CountedFrom context taken (equal ++ [e]) (since.map (· + 1)) := by
          rcases counted with ⟨start, rfl⟩ | ⟨inner, trail, parts, kept, full, rfl⟩
          · exact .inl ⟨start, rfl⟩
          · exact .inr ⟨inner, trail, parts, kept, full, by simp [Nat.add_assoc]⟩
        have step := ih (by simpa using turns) same' (Nat.le_of_succ_le_succ enough) counted'
          (fun empty => absurd empty (by simp))
        rw [hunkOps_keep changed, List.append_cons equal, List.append_assoc taken, step, gapsFrom,
          changed, anchoredAfter_keep changed, ← List.append_assoc]
        rfl

/-! ### The changes in the hunks -/

/-- Every change is in one hunk, and the hunks are in their order. -/
theorem changes_hunkOps {inner trail : List (Edit Str)} {p : Step → Bool}
    (only : ∀ op, isChange op = false → p op = false)
    (same : ∀ e ∈ trail, e.changes = false) (room : inner = [] ∨ context ≤ trail.length)
    (enough : script.length ≤ rounds) :
    (hunkOps context rounds (locate 0 0 (inner ++ trail))
        (locate (before (inner ++ trail)).length (after (inner ++ trail)).length script)).flatMap
          (·.filter p) =
      (locate (before (inner ++ trail)).length (after (inner ++ trail)).length script).filter
        p := by
  induction rounds generalizing inner trail script with
  | zero =>
    obtain rfl : script = [] := List.length_eq_zero_iff.mp (by omega)
    rfl
  | succ rounds ih =>
    cases script with
    | nil => rfl
    | cons e script =>
      by_cases changed : e.changes = true
      · obtain ⟨body, left, split, proper, fewer, ends, -, -, unfolded⟩ :=
          @hunkOps_change context rounds script (inner ++ trail) e changed
            (Nat.le_of_succ_le_succ enough)
        obtain ⟨lead, front, rfl, takes, drops, -⟩ := room_split room
        have sides := List.forall_mem_append.mp same
        have later : (hunkOps context rounds (locate 0 0 (inner ++ (lead ++ front) ++ body))
            (locate (before (inner ++ (lead ++ front) ++ body)).length
              (after (inner ++ (lead ++ front) ++ body)).length left)).flatMap (·.filter p) =
            (locate (before (inner ++ (lead ++ front) ++ body)).length
              (after (inner ++ (lead ++ front) ++ body)).length left).filter p := by
          rcases ends with rfl | ⟨_, first, last, rfl, kept, full⟩
          · cases rounds <;> rfl
          · rw [← List.append_assoc]
            exact ih kept (.inr full.ge) fewer
        have quiet : (locate (before (inner ++ lead)).length (after (inner ++ lead)).length
            front).filter p = [] := by
          rw [List.filter_eq_nil_iff]
          intro op member
          rw [only op ((forall_locate _ _ _).mpr sides.2 op member)]
          exact Bool.false_ne_true
        rw [unfolded, List.flatMap_cons, later, takes, drops, split, locate_append, locate_append,
          List.filter_append, List.filter_append, quiet, List.nil_append, ← List.append_assoc inner,
          before_append (inner ++ lead), after_append (inner ++ lead), before_append _ body,
          after_append _ body]
        simp only [before_append, after_append, List.length_append, Nat.add_assoc]
      · rw [Bool.not_eq_true] at changed
        obtain ⟨op, located, -, isCh⟩ := locate_cons (before (inner ++ trail)).length
          (after (inner ++ trail)).length e script
        have kept : ∀ f ∈ trail ++ [e], f.changes = false := by
          rw [List.forall_mem_append]
          exact ⟨same, by simpa using changed⟩
        have wider : inner = [] ∨ context ≤ (trail ++ [e]).length := by
          rw [List.length_append]
          exact room.imp id fun wide => Nat.le_add_right_of_le wide
        have step := ih kept wider (Nat.le_of_succ_le_succ enough)
        rw [hunkOps_keep changed, List.append_assoc, step, located,
          List.filter_cons_of_neg (by rw [only op (isCh.trans changed)]; exact Bool.false_ne_true),
          ← List.append_assoc, before_append _ [e], after_append _ [e], List.length_append,
          List.length_append]

end

/-! ### Patches and changes of a difference -/

/-- The hunks are a patch from the first text to the second if and only if, in the first of the
shortest scripts, no number of kept lines between two changes is above the context and below its
double, and without context a stretch of changes has lines of both sides or stands at the start of
the side that it has none of. -/
theorem unifiedDiff_applies_iff (old new : List Str) (context : Nat) :
    Applies 0 0 old new (unifiedDiff old new context) ↔
      ∀ script, First script old new →
        (∀ g ∈ gaps script, Clear context g) ∧ (context = 0 → Anchored script) := by
  obtain ⟨script, first, way⟩ := trace_first old new
  have turns : Turns ([] ++ [] ++ script) old new := first.1.1
  have decides := @applies_hunkOps_iff context script.length old new script [] [] none turns
    (fun e member => (nomatch member)) (Nat.le_refl _) (.inl ⟨rfl, rfl⟩)
    (fun _ some => absurd rfl some)
  have total : unifiedDiff old new context =
      (hunkOps context script.length [] (locate 0 0 script)).map (buildHunk old new) := by
    show (hunkOps context (trace old new).length [] (trace old new)).map _ = _
    rw [way, locate_length]
  have sides := first.1.1
  have same : before script = old ∧ after script = new := ⟨sides.before, sides.after⟩
  rw [total]
  constructor
  · intro applies other first'
    rw [first'.unique first]
    exact decides.mp (by rw [List.nil_append, same.1, same.2]; exact applies)
  · intro all
    have applies := decides.mpr (all script first)
    rw [List.nil_append, same.1, same.2] at applies
    exact applies

/-- Four lines between two changes, two of which are in both hunks. -/
theorem hunks_overlap :
    ¬Applies 0 0 (["a", "1", "2", "3", "4", "b"].map String.toList)
      (["c", "1", "2", "3", "4", "d"].map String.toList)
      (unifiedDiff (["a", "1", "2", "3", "4", "b"].map String.toList)
        (["c", "1", "2", "3", "4", "d"].map String.toList) 3) := by
  have ranges : (unifiedDiff (["a", "1", "2", "3", "4", "b"].map String.toList)
      (["c", "1", "2", "3", "4", "d"].map String.toList) 3).map
        (fun h => (h.oldStart, h.oldCount)) = [(1, 4), (3, 4)] := by decide
  intro applies
  have ordered : ((unifiedDiff (["a", "1", "2", "3", "4", "b"].map String.toList)
      (["c", "1", "2", "3", "4", "d"].map String.toList) 3).map
        (fun h => (h.oldStart, h.oldCount))).Pairwise fun h h' => h.1 + h.2 ≤ h'.1 :=
    List.pairwise_map.mpr (applies.ordered.imp fun both => both.1)
  rw [ranges] at ordered
  exact absurd (List.rel_of_pairwise_cons ordered List.mem_cons_self) (by decide)

end Expresso.Drive
