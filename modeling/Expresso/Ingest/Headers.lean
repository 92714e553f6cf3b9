import Expresso.Ingest.Parse
import Mathlib.Data.List.Induction
import Mathlib.Data.List.TakeWhile

/-! The logical lines of a header block, and what `parse_headers` reads of them. -/

namespace Expresso.Ingest
open Text Imap

/-! ### The fields that a block holds -/

def continues (line : Str) : Bool := line.head? = some ' ' || line.head? = some '\t'

/-- A line that continues no other, with the lines that continue it. -/
structure LogicalLine where
  head : Str
  continuations : List Str
  deriving DecidableEq

/-- What continues nothing, at the beginning of the block, belongs to no logical line. -/
def logicalLines : List Str → List LogicalLine
  | [] => []
  | line :: rest =>
      if continues line then logicalLines rest
      else ⟨line, rest.takeWhile continues⟩ :: logicalLines rest

/-- The name in lower case, and the value with its own continuations, one blank before each. A line
without a colon is no field. -/
def LogicalLine.field (l : LogicalLine) : Option (Str × Str) :=
  (splitOnce ':' l.head).map fun halves =>
    (toAsciiLowercase (trim halves.1), [' '].intercalate (trim halves.2 :: l.continuations.map trim))

def LogicalLine.name (l : LogicalLine) : Option Str := l.field.map (·.1)

def fields (ls : List LogicalLine) : List (Str × Str) := ls.filterMap (·.field)

def names (ls : List LogicalLine) : List Str := ls.filterMap (·.name)

/-- The map that `parse_headers` gives is the one of the first fields of all names. -/
def Exact (ls : List LogicalLine) (scan : HeaderScan) : Prop :=
  ∀ key, lookupField key scan.out = lookupField key (fields ls)

/-- A line that is continued is the first field of its name, or no field stands before it. -/
def Fits (before : List LogicalLine) (l : LogicalLine) : Prop :=
  l.continuations ≠ [] → match l.name with
    | some key => key ∉ names before
    | none => names before = []

/-! ### Fields by name -/

theorem lookupField_append (key : Str) (first second : List (Str × Str)) :
    lookupField key (first ++ second) = (lookupField key first).or (lookupField key second) := by
  unfold lookupField
  rw [List.find?_append]
  cases first.find? fun field => field.1 = key <;> rfl

theorem lookupField_single (key name value : Str) :
    lookupField key [(name, value)] = if name = key then some value else none := by
  unfold lookupField
  by_cases same : name = key
  · simp [same]
  · simp [same]

/-- A text behind the value of one name. -/
theorem lookupField_extended (key name more : Str) (out : List (Str × Str)) :
    lookupField key (out.map fun field =>
        if field.1 = name then (field.1, field.2 ++ more) else field) =
      (lookupField key out).map fun value => if key = name then value ++ more else value := by
  induction out with
  | nil => rfl
  | cons field out ih =>
    have heads : ∀ key, lookupField key (field :: out) =
        if field.1 = key then some field.2 else lookupField key out := by
      intro key
      rw [← List.singleton_append, lookupField_append, lookupField_single]
      split_ifs <;> rfl
    rw [heads, List.map_cons, ← List.singleton_append, lookupField_append, ih]
    by_cases here : field.1 = name
    · rw [if_pos here, lookupField_single]
      by_cases same : field.1 = key
      · simp [same, ← here]
      · simp [same]
    · rw [if_neg here, lookupField_single]
      by_cases same : field.1 = key
      · have other : key ≠ name := fun equal => here (same.trans equal)
        simp [same, other]
      · simp [same]

theorem lookupField_isSome_iff {key : Str} {ls : List LogicalLine} :
    (lookupField key (fields ls)).isSome = true ↔ key ∈ names ls := by
  have named : names ls = (fields ls).map (·.1) := by
    rw [fields, List.map_filterMap]
    rfl
  rw [named, lookupField, Option.isSome_map, List.find?_isSome]
  simp only [decide_eq_true_eq, List.mem_map]

theorem names_append (before : List LogicalLine) (l : LogicalLine) :
    names (before ++ [l]) = names before ++ l.name.toList := by
  unfold names
  rw [List.filterMap_append]
  cases named : l.name <;> simp [named]

theorem fields_append (before : List LogicalLine) (l : LogicalLine) :
    fields (before ++ [l]) = fields before ++ l.field.toList := by
  unfold fields
  rw [List.filterMap_append]
  cases read : l.field <;> simp [read]

/-! ### One logical line -/

/-- The text of continuations, as the scan appends it. -/
def folded (continuations : List Str) : Str := continuations.flatMap fun line => ' ' :: trim line

theorem intercalate_folded (value : Str) (continuations : List Str) :
    [' '].intercalate (value :: continuations.map trim) = value ++ folded continuations := by
  induction continuations generalizing value with
  | nil => simp [folded, List.intercalate]
  | cons line rest ih =>
    have next := ih (trim line)
    simp only [List.intercalate, List.map_cons, List.intersperse_cons_cons, List.flatten_cons]
      at next ⊢
    rw [next]
    simp [folded]

theorem folded_eq_nil_iff {continuations : List Str} :
    folded continuations = [] ↔ continuations = [] := by
  cases continuations <;> simp [folded]

/-- The scan behind continuations that go to a name. -/
def HeaderScan.extended (scan : HeaderScan) (name more : Str) : HeaderScan :=
  ⟨scan.out.map fun field => if field.1 = name then (field.1, field.2 ++ more) else field, some name⟩

theorem scanHeader_continues {scan : HeaderScan} {line : Str} (continued : continues line = true) :
    scanHeader scan line = match scan.currentKey with
      | some key => scan.extended key (' ' :: trim line)
      | none => scan := by
  have blank : line.head? = some ' ' ∨ line.head? = some '\t' := by
    simpa [continues] using continued
  rw [scanHeader, if_pos blank]
  cases scan with
  | mk out current => cases current <;> rfl

theorem scan_continuations {continuations : List Str}
    (continued : ∀ line ∈ continuations, continues line = true) (scan : HeaderScan) :
    continuations.foldl scanHeader scan = match scan.currentKey with
      | some key => scan.extended key (folded continuations)
      | none => scan := by
  induction continuations generalizing scan with
  | nil =>
    cases scan with
    | mk out current =>
      cases current with
      | none => rfl
      | some key =>
        show (⟨out, some key⟩ : HeaderScan) = ⟨_, _⟩
        congr 1
        rw [List.map_congr_left (g := id) (by intro field _; simp [folded]), List.map_id]
  | cons line rest ih =>
    have later := ih fun other member => continued other (List.mem_cons_of_mem _ member)
    rw [List.foldl_cons, later, scanHeader_continues (continued line List.mem_cons_self)]
    cases current : scan.currentKey with
    | none => simp only [current]
    | some key =>
      simp only [HeaderScan.extended, List.map_map]
      congr 1
      refine List.map_congr_left fun field _ => ?_
      by_cases same : field.1 = key
      · simp [same, folded]
      · simp [same]

def scanLogical (scan : HeaderScan) (l : LogicalLine) : HeaderScan :=
  l.continuations.foldl scanHeader (scanHeader scan l.head)

/-- Scanning all lines scans the logical lines one by one. -/
theorem scan_logicalLines (ls : List Str) (scan : HeaderScan) :
    ls.foldl scanHeader scan =
      (logicalLines ls).foldl scanLogical ((ls.takeWhile continues).foldl scanHeader scan) := by
  induction ls generalizing scan with
  | nil => rfl
  | cons line rest ih =>
    rw [List.foldl_cons, ih, logicalLines]
    by_cases continued : continues line = true
    · rw [if_pos continued, List.takeWhile_cons_of_pos continued, List.foldl_cons]
    · rw [if_neg continued, List.takeWhile_cons_of_neg continued]
      rfl

structure LogicalLine.Proper (l : LogicalLine) : Prop where
  head : continues l.head = false
  continued : ∀ line ∈ l.continuations, continues line = true

theorem logicalLines_proper (ls : List Str) : ∀ l ∈ logicalLines ls, l.Proper := by
  induction ls with
  | nil => simp [logicalLines]
  | cons line rest ih =>
    rw [logicalLines]
    split
    · exact ih
    · next head =>
      exact List.forall_mem_cons.mpr
        ⟨⟨Bool.not_eq_true _ ▸ head, fun _ member => List.mem_takeWhile_imp member⟩, ih⟩

/-! ### What the scan knows -/

/-- After any logical lines the scan is at the last field, and holds for every name its first field
with possibly more text behind it. -/
structure Reads (ls : List LogicalLine) (scan : HeaderScan) : Prop where
  current : scan.currentKey = (names ls).getLast?
  values : ∀ key, ∃ stray, lookupField key scan.out =
    (lookupField key (fields ls)).map (· ++ stray)

theorem Reads.isSome_iff {ls : List LogicalLine} {scan : HeaderScan} (reads : Reads ls scan)
    (key : Str) : (lookupField key scan.out).isSome = true ↔ key ∈ names ls := by
  obtain ⟨stray, value⟩ := reads.values key
  rw [value, Option.isSome_map, lookupField_isSome_iff]

theorem Reads.absent {ls : List LogicalLine} {scan : HeaderScan} (reads : Reads ls scan)
    {key : Str} (new : key ∉ names ls) :
    lookupField key scan.out = none ∧ lookupField key (fields ls) = none := by
  rw [← Option.not_isSome_iff_eq_none, ← Option.not_isSome_iff_eq_none, reads.isSome_iff,
    lookupField_isSome_iff]
  exact ⟨new, new⟩

/-- Text that goes to a name behind its first field is right only where there is none. -/
theorem Reads.extended {ls : List LogicalLine} {scan : HeaderScan} (reads : Reads ls scan)
    {name : Str} (known : name ∈ names ls) (more : Str) :
    (∀ key, ∃ stray, lookupField key (scan.extended name more).out =
      (lookupField key (fields ls)).map (· ++ stray)) ∧
    (Exact ls (scan.extended name more) ↔ Exact ls scan ∧ more = []) := by
  have shown (key : Str) : lookupField key (scan.extended name more).out =
      (lookupField key scan.out).map fun value => if key = name then value ++ more else value :=
    lookupField_extended key name more scan.out
  constructor
  · intro key
    obtain ⟨stray, value⟩ := reads.values key
    rw [shown, value, Option.map_map]
    by_cases same : key = name
    · exact ⟨stray ++ more, by simp [same, Function.comp_def]⟩
    · exact ⟨stray, by simp [same, Function.comp_def]⟩
  · constructor
    · intro exact_
      obtain ⟨value, first⟩ := Option.isSome_iff_exists.mp (lookupField_isSome_iff.mpr known)
      obtain ⟨stray, held⟩ := reads.values name
      have whole := exact_ name
      rw [shown, held, first] at whole
      have lengths := congrArg List.length (Option.some.inj whole)
      simp only [if_true, List.length_append] at lengths
      have nothing : more = [] := List.eq_nil_of_length_eq_zero (by omega)
      refine ⟨fun key => ?_, nothing⟩
      rw [← exact_ key, shown, nothing]
      simp
    · rintro ⟨exact_, rfl⟩ key
      rw [shown, ← exact_ key]
      simp

theorem scanLogical_of_not_field {l : LogicalLine} (proper : l.Proper)
    (malformed : splitOnce ':' l.head = none) (scan : HeaderScan) :
    scanLogical scan l = match scan.currentKey with
      | some key => scan.extended key (folded l.continuations)
      | none => scan := by
  have plain : ¬(l.head.head? = some ' ' ∨ l.head.head? = some '\t') := by
    simpa [continues] using proper.head
  rw [scanLogical, scanHeader, if_neg plain, malformed]
  exact scan_continuations proper.continued scan

theorem scanLogical_of_field {l : LogicalLine} (proper : l.Proper) {k v : Str}
    (halves : splitOnce ':' l.head = some (k, v)) (scan : HeaderScan) :
    scanLogical scan l =
      HeaderScan.extended (if (lookupField (toAsciiLowercase (trim k)) scan.out).isSome then scan
        else { scan with out := scan.out ++ [(toAsciiLowercase (trim k), trim v)] })
        (toAsciiLowercase (trim k)) (folded l.continuations) := by
  have plain : ¬(l.head.head? = some ' ' ∨ l.head.head? = some '\t') := by
    simpa [continues] using proper.head
  rw [scanLogical, scanHeader, if_neg plain, halves]
  dsimp only
  split
  · exact scan_continuations proper.continued _
  · exact scan_continuations proper.continued _

/-- A logical line whose continuations go to a name that is known. -/
theorem Reads.known {ls : List LogicalLine} {scan : HeaderScan} (reads : Reads ls scan)
    {l : LogicalLine} {name : Str} (known : name ∈ names ls)
    (again : l.field = none ∧ scan.currentKey = some name ∨ l.name = some name) :
    Reads (ls ++ [l]) (scan.extended name (folded l.continuations)) ∧
      (Exact (ls ++ [l]) (scan.extended name (folded l.continuations)) ↔
        Exact ls scan ∧ Fits ls l) := by
  have extended := reads.extended known (folded l.continuations)
  have sameFields (key : Str) :
      lookupField key (fields (ls ++ [l])) = lookupField key (fields ls) := by
    rw [fields_append, lookupField_append]
    obtain ⟨none, -⟩ | named := again
    · simp [none, lookupField]
    · obtain ⟨⟨_, value⟩, read, rfl⟩ := Option.map_eq_some_iff.mp named
      rw [read, Option.toList_some, lookupField_single]
      split
      · next same =>
        obtain ⟨first, found⟩ := Option.isSome_iff_exists.mp (lookupField_isSome_iff.mpr known)
        rw [← same, found]
        rfl
      · exact Option.or_none
  have fits : Fits ls l ↔ folded l.continuations = [] := by
    rw [folded_eq_nil_iff]
    constructor
    · intro fit
      by_contra more
      obtain ⟨none, -⟩ | named := again
      · have first := fit more
        rw [LogicalLine.name, none] at first
        exact absurd known (by rw [show names ls = [] from first]; exact List.not_mem_nil)
      · have new := fit more
        rw [named] at new
        exact new known
    · exact fun none more => absurd none more
  have exact_ (scan : HeaderScan) : Exact (ls ++ [l]) scan ↔ Exact ls scan := by
    simp only [Exact, sameFields]
  refine ⟨⟨?_, ?_⟩, by rw [exact_, fits]; exact extended.2⟩
  · rw [names_append]
    obtain ⟨none, current⟩ | named := again
    · rw [LogicalLine.name, none]
      simpa [current, HeaderScan.extended] using reads.current
    · rw [named]
      simp [HeaderScan.extended]
  · simpa only [sameFields] using extended.1

/-- The first field of a name. -/
theorem Reads.new {ls : List LogicalLine} {scan : HeaderScan} (reads : Reads ls scan)
    {l : LogicalLine} {name value : Str} (new : name ∉ names ls)
    (field : l.field = some (name, value ++ folded l.continuations)) :
    Reads (ls ++ [l]) (HeaderScan.extended { scan with out := scan.out ++ [(name, value)] } name
        (folded l.continuations)) ∧
      (Exact (ls ++ [l]) (HeaderScan.extended { scan with out := scan.out ++ [(name, value)] } name
        (folded l.continuations)) ↔ Exact ls scan ∧ Fits ls l) := by
  obtain ⟨unread, unknown⟩ := reads.absent new
  have named : l.name = some name := by rw [LogicalLine.name, field]; rfl
  have shown (key : Str) : lookupField key
      (HeaderScan.extended { scan with out := scan.out ++ [(name, value)] } name
        (folded l.continuations)).out =
      if key = name then some (value ++ folded l.continuations) else lookupField key scan.out := by
    rw [HeaderScan.extended, lookupField_extended, lookupField_append, lookupField_single]
    by_cases same : key = name
    · simp [same, unread]
    · simp [same, Ne.symm same]
  have meant (key : Str) : lookupField key (fields (ls ++ [l])) =
      if key = name then some (value ++ folded l.continuations)
      else lookupField key (fields ls) := by
    rw [fields_append, field, Option.toList_some, lookupField_append, lookupField_single]
    by_cases same : key = name
    · simp [same, unknown]
    · simp [same, Ne.symm same]
  have fits : Fits ls l := fun _ => by rw [named]; exact new
  refine ⟨⟨?_, fun key => ?_⟩, ?_⟩
  · rw [names_append, named]
    simp [HeaderScan.extended]
  · rw [shown, meant]
    split
    · exact ⟨[], by simp⟩
    · exact reads.values key
  · rw [and_iff_left fits]
    refine ⟨fun whole key => ?_, fun whole key => ?_⟩
    · by_cases same : key = name
      · rw [same, unread, unknown]
      · have held := whole key
        rwa [shown, meant, if_neg same, if_neg same] at held
    · rw [shown, meant, whole key]

theorem Reads.step {ls : List LogicalLine} {scan : HeaderScan} (reads : Reads ls scan)
    {l : LogicalLine} (proper : l.Proper) :
    Reads (ls ++ [l]) (scanLogical scan l) ∧
      (Exact (ls ++ [l]) (scanLogical scan l) ↔ Exact ls scan ∧ Fits ls l) := by
  cases halves : splitOnce ':' l.head with
  | none =>
    have noField : l.field = none := by rw [LogicalLine.field, halves]; rfl
    rw [scanLogical_of_not_field proper halves]
    cases current : scan.currentKey with
    | none =>
      have noName : l.name = none := by rw [LogicalLine.name, noField]; rfl
      have first : names ls = [] := List.getLast?_eq_none_iff.mp (reads.current.symm.trans current)
      have fits : Fits ls l := fun _ => by rw [noName]; exact first
      have sameFields : fields (ls ++ [l]) = fields ls := by
        rw [fields_append, noField]
        exact List.append_nil _
      refine ⟨⟨?_, by rw [sameFields]; exact reads.values⟩, ?_⟩
      · rw [names_append, noName]
        simpa using reads.current
      · rw [and_iff_left fits, Exact, sameFields]
        exact Iff.rfl
    | some key =>
      have known : key ∈ names ls := List.mem_of_getLast? (reads.current.symm.trans current)
      exact reads.known known (.inl ⟨noField, current⟩)
  | some found =>
    obtain ⟨k, v⟩ := found
    have field : l.field = some (toAsciiLowercase (trim k), trim v ++ folded l.continuations) := by
      rw [LogicalLine.field, halves, Option.map_some, intercalate_folded]
    rw [scanLogical_of_field proper halves]
    by_cases known : toAsciiLowercase (trim k) ∈ names ls
    · rw [if_pos ((reads.isSome_iff _).mpr known)]
      exact reads.known known (.inr (by rw [LogicalLine.name, field]; rfl))
    · rw [if_neg fun some_ => known ((reads.isSome_iff _).mp some_)]
      exact reads.new known field

/-! ### Whole blocks -/

/-- Every continued line is the first field of its name, or stands before all fields. -/
def Apart (ls : List LogicalLine) : Prop :=
  ∀ before l after, ls = before ++ l :: after → Fits before l

theorem apart_snoc_iff {ls : List LogicalLine} {l : LogicalLine} :
    Apart (ls ++ [l]) ↔ Apart ls ∧ Fits ls l := by
  constructor
  · intro apart
    refine ⟨?_, apart ls l [] rfl⟩
    rintro before l' after rfl
    exact apart before l' (after ++ [l]) (by simp)
  · rintro ⟨apart, last⟩ before l' after same
    obtain rfl | ⟨after, final, rfl⟩ := after.eq_nil_or_concat
    · obtain ⟨rfl, one⟩ := List.append_inj' same rfl
      rw [← (List.cons.inj one).1]
      exact last
    · rw [List.concat_eq_append, ← List.cons_append, ← List.append_assoc] at same
      exact apart before l' after (List.append_inj' same rfl).1

theorem reads_logicalLines {ls : List LogicalLine} (proper : ∀ l ∈ ls, l.Proper) :
    Reads ls (ls.foldl scanLogical ⟨[], none⟩) ∧
      (Exact ls (ls.foldl scanLogical ⟨[], none⟩) ↔ Apart ls) := by
  induction ls using List.reverseRecOn with
  | nil =>
    exact ⟨⟨rfl, fun key => ⟨[], rfl⟩⟩, fun _ before l after same => by simp at same,
      fun _ key => rfl⟩
  | append_singleton ls l ih =>
    obtain ⟨reads, exact_⟩ := ih fun other member => proper other (List.mem_append_left _ member)
    have next := reads.step (proper l (by simp))
    rw [List.foldl_append, List.foldl_cons, List.foldl_nil, apart_snoc_iff, ← exact_]
    exact next

/-- The map of `parse_headers` is the one of the first fields, each with its own continuations, if
and only if every line that is continued is the first field of its name or stands before all
fields. -/
theorem parseHeaders_exact_iff (raw : Str) :
    (∀ key, lookupField key (parseHeaders raw) =
        lookupField key (fields (logicalLines (lines raw)))) ↔
      Apart (logicalLines (lines raw)) := by
  have start : ((lines raw).takeWhile continues).foldl scanHeader ⟨[], none⟩ = ⟨[], none⟩ :=
    scan_continuations (fun _ member => List.mem_takeWhile_imp member) ⟨[], none⟩
  have whole : parseHeaders raw =
      ((logicalLines (lines raw)).foldl scanLogical ⟨[], none⟩).out := by
    rw [parseHeaders, scan_logicalLines, start]
  rw [whole]
  exact (reads_logicalLines (logicalLines_proper (lines raw))).2

/-- The continuation of a second field stands in the value of the first. -/
theorem parseHeaders_second_folded :
    let raw := "To: a@x\r\nTo: b@x,\r\n c@x".toList
    lookupField "to".toList (parseHeaders raw) = some "a@x c@x".toList ∧
      lookupField "to".toList (fields (logicalLines (lines raw))) = some "a@x".toList := by
  decide

end Expresso.Ingest
