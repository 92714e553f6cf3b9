import Expresso.CalDav.Lines

/-! Export and import of calendars. Every stored body contributes its first `VEVENT` block to
one calendar text; the import takes such a text apart again, one container per event. -/

namespace Expresso.CalDav
open Text

/-! ### The scanners -/

def beginsEvent (line : Str) : Bool := toAsciiUppercase line = "BEGIN:VEVENT".toList
def endsEvent (line : Str) : Bool := toAsciiUppercase line = "END:VEVENT".toList

/-- One event in a container of its own. -/
def importItem (buf : List Str) : Str :=
  "BEGIN:VCALENDAR\r\nVERSION:2.0\r\nPRODID:-//Expresso//Import//EN\r\n".toList ++
    joinLines buf ++ "\r\nEND:VCALENDAR\r\n".toList

def splitLoop : List Str → Option (List Str) → List Str → List Str
  | [], _, out => out
  | line :: rest, current, out =>
      let trimmed := trimEndMatches '\r' line
      if beginsEvent trimmed then splitLoop rest (some [trimmed]) out
      else if endsEvent trimmed then
        match current with
        | some buf => splitLoop rest none (out ++ [importItem (buf ++ [trimmed])])
        | none => splitLoop rest none out
      else splitLoop rest (current.map (· ++ [trimmed])) out

def splitVcalendarToEvents (raw : Str) : List Str := splitLoop (unfoldLines raw) none []

/-- The lines from the first `BEGIN:VEVENT` to the first `END:VEVENT`. -/
def extractLoop : List Str → Bool → List Str → List Str
  | [], _, buf => buf
  | line :: rest, inEv, buf =>
      let trimmed := trimEndMatches '\r' line
      let inEv := inEv || beginsEvent trimmed
      let buf := if inEv then buf ++ [trimmed] else buf
      if endsEvent trimmed then buf else extractLoop rest inEv buf

example (buf : List Str) : extractLoop [] true buf = buf := by simp only [extractLoop]

def extractVeventBlock (raw : Str) : Option Str :=
  let buf := extractLoop (unfoldLines raw) false []
  if buf.isEmpty then none else some (joinLines buf)

/-- A block with its last line ended. -/
def endBlock (block : Str) : Str :=
  if "\r\n".toList.isSuffixOf block then block else block ++ "\r\n".toList

def wrapVcalendar (veventBlocks : List Str) : Str :=
  ("BEGIN:VCALENDAR\r\nVERSION:2.0\r\nPRODID:-//Expresso//Export//EN\r\n".toList ++
    "CALSCALE:GREGORIAN\r\n".toList) ++ veventBlocks.flatMap endBlock ++ "END:VCALENDAR\r\n".toList

/-- One item per body, in order, each read as the body is. -/
def RoundTrips (crates : Crates) (bodies : List Str) : Prop :=
  (splitVcalendarToEvents (wrapVcalendar (bodies.filterMap extractVeventBlock))).map
    (parseVevent crates) = bodies.map (parseVevent crates)

/-! ### Events among lines -/

/-- The events that lines delimit, from a `BEGIN:VEVENT`, the last before it, to an
`END:VEVENT`, and the event left open. -/
def scan : List Str → Option (List Str) → List (List Str) × Option (List Str)
  | [], current => ([], current)
  | line :: rest, current =>
      if beginsEvent line then scan rest (some [line])
      else if endsEvent line then
        match current with
        | some buf => ((buf ++ [line]) :: (scan rest none).1, (scan rest none).2)
        | none => scan rest none
      else scan rest (current.map (· ++ [line]))

example (current : Option (List Str)) : scan [] current = ([], current) := by simp only [scan]

theorem splitLoop_eq (lines : List Str) (current : Option (List Str)) (out : List Str) :
    splitLoop lines current out =
      out ++ (scan (lines.map (trimEndMatches '\r')) current).1.map importItem := by
  induction lines generalizing current out with
  | nil => simp [splitLoop, scan]
  | cons line rest ih =>
    simp only [splitLoop, List.map_cons, scan]
    split
    · exact ih _ _
    · split
      · cases current with
        | none => exact ih _ _
        | some buf =>
          simp only [ih, List.append_assoc, List.map_cons, List.singleton_append]
      · exact ih _ _

theorem scan_append (first second : List Str) (current : Option (List Str)) :
    scan (first ++ second) current =
      ((scan first current).1 ++ (scan second (scan first current).2).1,
        (scan second (scan first current).2).2) := by
  induction first generalizing current with
  | nil => simp [scan]
  | cons line rest ih =>
    simp only [List.cons_append, scan]
    split
    · exact ih _
    · split
      · cases current with
        | none => exact ih _
        | some buf => simp only [ih, List.cons_append]
      · exact ih _

/-- Lines that neither begin nor end an event. -/
theorem scan_other {lines : List Str}
    (other : ∀ l ∈ lines, beginsEvent l = false ∧ endsEvent l = false)
    (current : Option (List Str)) :
    (scan lines current).1 = [] ∧ (current = none → (scan lines current).2 = none) := by
  induction lines generalizing current with
  | nil => exact ⟨rfl, id⟩
  | cons line rest ih =>
    obtain ⟨begins, ends⟩ := other line List.mem_cons_self
    have later := ih (fun l member => other l (List.mem_cons_of_mem line member))
      (current.map (· ++ [line]))
    simp only [scan, begins, ends, Bool.false_eq_true, if_false]
    refine ⟨later.1, ?_⟩
    rintro rfl
    exact later.2 rfl

/-- An `END:VEVENT` comes before any `BEGIN:VEVENT`. -/
def closesFirst : List Str → Bool
  | [] => false
  | line :: rest => if beginsEvent line then false else endsEvent line || closesFirst rest

theorem scan_open (lines buf : List Str) :
    if closesFirst lines then (scan lines (some buf)).1.length = (scan lines none).1.length + 1
    else (scan lines (some buf)).1 = (scan lines none).1 := by
  induction lines generalizing buf with
  | nil => simp [closesFirst, scan]
  | cons line rest ih =>
    simp only [closesFirst, scan]
    by_cases begins : beginsEvent line = true
    · simp [begins]
    · by_cases ends : endsEvent line = true
      · simp [begins, ends]
      · simpa [begins, ends] using ih (buf ++ [line])

/-! ### The texts -/

/-- Every line ended by CRLF. -/
def terminated (lines : List Str) : Str := lines.flatMap (· ++ ['\r', '\n'])

theorem joinLines_concat (front : List Str) (last : Str) :
    joinLines (front ++ [last]) = terminated front ++ last := by
  induction front with
  | nil => simp [joinLines, terminated]
  | cons line rest ih =>
    cases rest with
    | nil => simp [joinLines, terminated]
    | cons next rest =>
      rw [List.cons_append, List.cons_append, joinLines_cons, ← List.cons_append, ih]
      simp [terminated]

theorem joinLines_terminated {lines : List Str} (nonempty : lines ≠ []) :
    joinLines lines ++ ['\r', '\n'] = terminated lines := by
  obtain ⟨front, last, rfl⟩ := (List.eq_nil_or_concat' lines).resolve_left nonempty
  rw [joinLines_concat]
  simp [terminated]

theorem plain_nil : Plain [] := ⟨by simp, by simp⟩

theorem leads_nil : Leads [] := ⟨by simp, by simp⟩

theorem unfoldLines_terminated {lines : List Str} (plain : ∀ l ∈ lines, Plain l) :
    unfoldLines (terminated lines) = refold lines ++ [[]] := by
  have text : terminated lines = joinLines (lines ++ [[]]) := by simp [joinLines_concat]
  rw [text, unfoldLines_joinLines (by simp),
    refold_append lines [] plain_nil.noReturn leads_nil]
  · rfl
  · intro l member
    rcases List.mem_append.mp member with old | new
    · exact plain l old
    · rw [List.mem_singleton.mp new]
      exact plain_nil

theorem map_trim_of_plain {lines : List Str} (plain : ∀ l ∈ lines, Plain l) :
    lines.map (trimEndMatches '\r') = lines := by
  conv_rhs => rw [← List.map_id lines]
  exact List.map_congr_left fun l member => trimEndMatches_of_getLast (plain l member).noReturn

/-- The block of a body, line by line; an empty last line is not written twice. -/
def exportLines (raw : Str) : List Str :=
  let buf := extractLoop (unfoldLines raw) false []
  if buf.getLast? = some [] then buf.dropLast else buf

theorem endBlock_joinLines {lines : List Str} (nonempty : lines ≠ [])
    (plain : ∀ l ∈ lines, Plain l) (first : lines.head? ≠ some []) :
    endBlock (joinLines lines) =
      terminated (if lines.getLast? = some [] then lines.dropLast else lines) := by
  obtain ⟨front, last, rfl⟩ := (List.eq_nil_or_concat' lines).resolve_left nonempty
  simp only [List.getLast?_append, List.getLast?_singleton, Option.some_or, Option.some.injEq,
    List.dropLast_concat, endBlock]
  by_cases empty : last = []
  · -- the last line is empty: the CRLF before it ends the block already
    have before : front ≠ [] := by
      rintro rfl
      exact first (by simp [empty])
    have ended : "\r\n".toList.isSuffixOf (joinLines (front ++ [last])) = true := by
      rw [joinLines_concat, empty, List.append_nil, ← joinLines_terminated before]
      exact List.isSuffixOf_iff_suffix.mpr (List.suffix_append _ _)
    rw [if_pos ended, if_pos empty, joinLines_concat, empty, List.append_nil]
  · have open_ : ¬ "\r\n".toList.isSuffixOf (joinLines (front ++ [last])) = true := by
      intro ended
      obtain ⟨text, whole⟩ := List.isSuffixOf_iff_suffix.mp ended
      have final := congrArg List.getLast? whole
      rw [joinLines_concat, List.getLast?_append_of_ne_nil _ empty, List.getLast?_append] at final
      exact (plain last (by simp)).oneLine (List.mem_of_getLast? final.symm)
    rw [if_neg open_, if_neg empty]
    exact joinLines_terminated nonempty

/-! ### The block of a body -/

theorem leads_of_toUpper {line text : Str} {c : Char}
    (upper : toAsciiUppercase line = c :: text) (blank : c ≠ ' ') (tab : c ≠ '\t') :
    Leads line := by
  cases line with
  | nil => exact leads_nil
  | cons first rest =>
    simp only [toAsciiUppercase, List.map_cons, List.cons.injEq] at upper
    refine ⟨?_, ?_⟩
    · rintro ⟨⟩
      exact blank upper.1.symm
    · rintro ⟨⟩
      exact tab upper.1.symm

theorem leads_of_beginsEvent {line : Str} (begins : beginsEvent line = true) : Leads line :=
  leads_of_toUpper (of_decide_eq_true begins) (by decide) (by decide)

theorem leads_of_endsEvent {line : Str} (ends : endsEvent line = true) : Leads line :=
  leads_of_toUpper (of_decide_eq_true ends) (by decide) (by decide)

/-- What the loop collects: plain lines, the first of them the `BEGIN:VEVENT`. -/
structure Collected (buf : List Str) : Prop where
  plain : ∀ l ∈ buf, Plain l
  first : ∀ l ∈ buf.head?, beginsEvent l = true

theorem Collected.concat {buf : List Str} (collected : Collected buf) {line : Str}
    (plain : Plain line) (begins : buf = [] → beginsEvent line = true) :
    Collected (buf ++ [line]) where
  plain l member := by
    rcases List.mem_append.mp member with old | new
    · exact collected.plain l old
    · rw [List.mem_singleton.mp new]
      exact plain
  first l head := by
    cases buf with
    | nil =>
      cases head
      exact begins rfl
    | cons first rest => exact collected.first l head

theorem extractLoop_collected {lines : List Str} (oneLine : ∀ l ∈ lines, '\n' ∉ l) {inEv : Bool}
    {buf : List Str} (collected : Collected buf) (open_ : buf = [] → inEv = false) :
    Collected (extractLoop lines inEv buf) := by
  induction lines generalizing inEv buf with
  | nil => exact collected
  | cons line rest ih =>
    have plain := plain_trimEndMatches (oneLine line List.mem_cons_self)
    have step : Collected (if inEv || beginsEvent (trimEndMatches '\r' line)
        then buf ++ [trimEndMatches '\r' line] else buf) := by
      split
      · next collecting =>
        refine collected.concat plain ?_
        intro empty
        simpa [open_ empty] using collecting
      · exact collected
    simp only [extractLoop]
    split
    · exact step
    · refine ih (fun l later => oneLine l (List.mem_cons_of_mem line later)) step ?_
      intro empty
      split at empty
      · simp at empty
      · next outside => simpa using outside

theorem extractLoop_eq_nil {crates : Crates} {lines : List Str}
    (nothing : extractLoop lines false [] = []) (ev : ParsedEvent) :
    parseLines crates lines false ev = ev := by
  have grows : ∀ (lines : List Str) (inEv : Bool) (buf : List Str), buf ≠ [] →
      extractLoop lines inEv buf ≠ [] := by
    intro lines
    induction lines with
    | nil => exact fun _ _ nonempty => nonempty
    | cons line rest ih =>
      intro inEv buf nonempty
      simp only [extractLoop]
      split
      · split <;> simp [nonempty]
      · apply ih
        split <;> simp [nonempty]
  induction lines with
  | nil => rfl
  | cons line rest ih =>
    simp only [extractLoop, Bool.false_or] at nothing
    by_cases begins : beginsEvent (trimEndMatches '\r' line) = true
    · have other : endsEvent (trimEndMatches '\r' line) = false := by
        have upper := of_decide_eq_true begins
        simp only [endsEvent, upper]
        decide
      simp only [begins, if_true, other, Bool.false_eq_true, if_false] at nothing
      exact absurd nothing (grows _ _ _ (by simp))
    · by_cases ends : endsEvent (trimEndMatches '\r' line) = true
      · simp only [beginsEvent, decide_eq_true_eq] at begins
        simp only [endsEvent, decide_eq_true_eq] at ends
        simp only [parseLines, if_neg begins, if_pos ends]
      · simp only [begins, ends, Bool.false_eq_true, if_false] at nothing
        simp only [beginsEvent, endsEvent, decide_eq_true_eq] at begins ends
        simp only [parseLines, if_neg begins, if_neg ends, Bool.false_eq_true, if_false]
        exact ih nothing

theorem exportLines_collected (raw : Str) : Collected (exportLines raw) := by
  have whole : Collected (extractLoop (unfoldLines raw) false []) :=
    extractLoop_collected (unfoldLines_oneLine raw) ⟨by simp, by simp⟩ (fun _ => rfl)
  simp only [exportLines]
  generalize extractLoop (unfoldLines raw) false [] = buf at whole
  split
  · refine ⟨fun l member => whole.plain l ((List.dropLast_sublist buf).subset member), ?_⟩
    intro l head
    refine whole.first l ?_
    cases buf with
    | nil => cases head
    | cons first rest =>
      cases rest with
      | nil => cases head
      | cons next others => exact head
  · exact whole

/-- A body has a block when the parser reads anything from it. -/
theorem extractLoop_ne_nil {crates : Crates} {raw : Str} {ev : ParsedEvent}
    (accepted : parseVevent crates raw = .ok ev) : extractLoop (unfoldLines raw) false [] ≠ [] := by
  intro nothing
  simp [parseVevent, extractLoop_eq_nil nothing] at accepted

theorem endBlock_exported {raw : Str} (found : extractLoop (unfoldLines raw) false [] ≠ []) :
    (extractVeventBlock raw).toList.flatMap endBlock = terminated (exportLines raw) := by
  have whole : Collected (extractLoop (unfoldLines raw) false []) :=
    extractLoop_collected (unfoldLines_oneLine raw) ⟨by simp, by simp⟩ (fun _ => rfl)
  have first : (extractLoop (unfoldLines raw) false []).head? ≠ some [] := by
    intro head
    exact absurd (whole.first [] head) (by decide)
  simp only [extractVeventBlock, List.isEmpty_iff, if_neg found, Option.toList_some,
    List.flatMap_cons, List.flatMap_nil, List.append_nil]
  exact endBlock_joinLines found whole.plain first

/-! ### The exported calendar, line by line -/

def exportHeader : List Str :=
  ["BEGIN:VCALENDAR".toList, "VERSION:2.0".toList, "PRODID:-//Expresso//Export//EN".toList,
    "CALSCALE:GREGORIAN".toList]

def importHeader : List Str :=
  ["BEGIN:VCALENDAR".toList, "VERSION:2.0".toList, "PRODID:-//Expresso//Import//EN".toList]

def footer : Str := "END:VCALENDAR".toList

/-- The texts around the events are lines, and those lines delimit no event. -/
theorem container_facts :
    (("BEGIN:VCALENDAR\r\nVERSION:2.0\r\nPRODID:-//Expresso//Export//EN\r\n".toList ++
        "CALSCALE:GREGORIAN\r\n".toList = terminated exportHeader ∧
      "BEGIN:VCALENDAR\r\nVERSION:2.0\r\nPRODID:-//Expresso//Import//EN\r\n".toList =
        terminated importHeader) ∧
      "END:VCALENDAR\r\n".toList = terminated [footer] ∧
      "\r\nEND:VCALENDAR\r\n".toList = "\r\n".toList ++ "END:VCALENDAR\r\n".toList) ∧
    (∀ l ∈ footer :: exportHeader ++ importHeader,
      '\n' ∉ l ∧ l.getLast? ≠ some '\r' ∧ l.head? ≠ some ' ' ∧ l.head? ≠ some '\t' ∧
        beginsEvent l = false ∧ endsEvent l = false) ∧
    ∀ l ∈ [footer, []], beginsEvent l = false ∧ endsEvent l = false := by
  unfold exportHeader importHeader footer
  repeat rw [String.toList_ofList]
  decide

theorem terminated_append (first second : List Str) :
    terminated (first ++ second) = terminated first ++ terminated second :=
  List.flatMap_append

theorem wrapVcalendar_eq {bodies : List Str}
    (found : ∀ b ∈ bodies, extractLoop (unfoldLines b) false [] ≠ []) :
    wrapVcalendar (bodies.filterMap extractVeventBlock) =
      terminated (exportHeader ++ bodies.flatMap exportLines ++ [footer]) := by
  have blocks : (bodies.filterMap extractVeventBlock).flatMap endBlock =
      terminated (bodies.flatMap exportLines) := by
    rw [List.filterMap_eq_flatMap_toList, List.flatMap_assoc, terminated, List.flatMap_assoc]
    exact List.flatMap_congr fun b member => endBlock_exported (found b member)
  rw [terminated_append (exportHeader ++ bodies.flatMap exportLines) [footer],
    terminated_append exportHeader (bodies.flatMap exportLines), ← blocks]
  exact congrArg₂ _ (congrArg₂ _ container_facts.1.1.1 rfl) container_facts.1.2.1

theorem importItem_eq {event : List Str} (nonempty : event ≠ []) :
    importItem event = terminated (importHeader ++ event ++ [footer]) := by
  have ended : joinLines event ++ "\r\nEND:VCALENDAR\r\n".toList =
      terminated event ++ terminated [footer] := by
    rw [← joinLines_terminated nonempty, ← container_facts.1.2.1, List.append_assoc]
    exact congrArg _ container_facts.1.2.2
  calc importItem event
      = "BEGIN:VCALENDAR\r\nVERSION:2.0\r\nPRODID:-//Expresso//Import//EN\r\n".toList ++
          (joinLines event ++ "\r\nEND:VCALENDAR\r\n".toList) := List.append_assoc _ _ _
    _ = terminated importHeader ++ (terminated event ++ terminated [footer]) :=
        congrArg₂ _ container_facts.1.1.2 ended
    _ = terminated (importHeader ++ event ++ [footer]) := by
        rw [terminated_append (importHeader ++ event) [footer],
          terminated_append importHeader event, List.append_assoc]

/-- The lines of the containers stand for themselves and delimit no event. -/
structure Container (line : Str) : Prop where
  plain : Plain line
  leads : Leads line
  begins : beginsEvent line = false
  ends : endsEvent line = false

theorem container_lines : ∀ l ∈ footer :: exportHeader ++ importHeader, Container l := by
  intro l member
  obtain ⟨oneLine, noReturn, blank, tab, begins, ends⟩ := container_facts.2.1 l member
  exact ⟨⟨oneLine, noReturn⟩, ⟨blank, tab⟩, begins, ends⟩

theorem container_footer : Container footer := container_lines footer List.mem_cons_self

theorem container_exportHeader : ∀ l ∈ exportHeader, Container l := fun l member =>
  container_lines l (List.mem_append_left _ (List.mem_cons_of_mem footer member))

theorem container_importHeader : ∀ l ∈ importHeader, Container l := fun l member =>
  container_lines l (List.mem_append_right _ member)

/-- Lines that all lead are not folded. -/
theorem refold_of_leads {lines : List Str} (each : ∀ l ∈ lines, l.getLast? ≠ some '\r' ∧ Leads l) :
    refold lines = lines := by
  have pushed : ∀ out, lines.foldl unfoldLine out = out ++ lines := by
    induction lines with
    | nil => simp
    | cons line rest ih =>
      intro out
      obtain ⟨noReturn, leads⟩ := each line List.mem_cons_self
      rw [List.foldl_cons, unfoldLine_leads noReturn leads,
        ih (fun l later => each l (List.mem_cons_of_mem line later)), List.append_assoc]
      rfl
  exact pushed []

/-- Blocks start with a `BEGIN:VEVENT` line, so folding stays inside each. -/
theorem refold_blocks (before : List Str) (bodies : List Str) :
    refold (before ++ bodies.flatMap exportLines) =
      refold before ++ bodies.flatMap fun b => refold (exportLines b) := by
  induction bodies generalizing before with
  | nil => simp
  | cons b rest ih =>
    have head : ∀ l ∈ (exportLines b).head?, l.getLast? ≠ some '\r' ∧ Leads l := by
      intro l first
      have block := exportLines_collected b
      exact ⟨(block.plain l (List.mem_of_head? first)).noReturn,
        leads_of_beginsEvent (block.first l first)⟩
    rw [List.flatMap_cons, ← List.append_assoc, ih, refold_append_of_head before head,
      List.flatMap_cons, List.append_assoc]

/-- The lines of the exported calendar as the import unfolds them. -/
theorem unfoldLines_export {bodies : List Str}
    (found : ∀ b ∈ bodies, extractLoop (unfoldLines b) false [] ≠ []) :
    unfoldLines (wrapVcalendar (bodies.filterMap extractVeventBlock)) =
      exportHeader ++ (bodies.flatMap fun b => refold (exportLines b)) ++ [footer, []] := by
  have plain : ∀ l ∈ exportHeader ++ bodies.flatMap exportLines ++ [footer], Plain l := by
    intro l member
    rcases List.mem_append.mp member with inside | last
    · rcases List.mem_append.mp inside with header | block
      · exact (container_exportHeader l header).plain
      · obtain ⟨b, _, among⟩ := List.mem_flatMap.mp block
        exact (exportLines_collected b).plain l among
    · rw [List.mem_singleton.mp last]
      exact container_footer.plain
  have header : refold exportHeader = exportHeader := refold_of_leads fun l member =>
    ⟨(container_exportHeader l member).plain.noReturn, (container_exportHeader l member).leads⟩
  have single : refold [footer] = [footer] :=
    unfoldLine_leads container_footer.plain.noReturn container_footer.leads []
  rw [wrapVcalendar_eq found, unfoldLines_terminated plain,
    refold_append _ [] container_footer.plain.noReturn container_footer.leads, refold_blocks,
    header, single, List.append_assoc]
  rfl

/-- The import finds the events that the exported blocks delimit. -/
theorem splitVcalendarToEvents_export {bodies : List Str}
    (found : ∀ b ∈ bodies, extractLoop (unfoldLines b) false [] ≠ []) :
    splitVcalendarToEvents (wrapVcalendar (bodies.filterMap extractVeventBlock)) =
      (scan (bodies.flatMap fun b => refold (exportLines b)) none).1.map importItem := by
  have plain : ∀ l ∈ exportHeader ++ (bodies.flatMap fun b => refold (exportLines b)) ++
      [footer, []], Plain l := by
    intro l member
    rcases List.mem_append.mp member with inside | last
    · rcases List.mem_append.mp inside with header | block
      · exact (container_exportHeader l header).plain
      · obtain ⟨b, _, among⟩ := List.mem_flatMap.mp block
        exact refold_plain (exportLines_collected b).plain l among
    · rcases List.mem_cons.mp last with rfl | empty
      · exact container_footer.plain
      · rw [List.mem_singleton.mp empty]
        exact plain_nil
  obtain ⟨header, closed⟩ := scan_other
    (fun l member => ⟨(container_exportHeader l member).begins,
      (container_exportHeader l member).ends⟩) none
  have tail : ∀ current, (scan [footer, []] current).1 = [] := fun current =>
    (scan_other container_facts.2.2 current).1
  rw [splitVcalendarToEvents, splitLoop_eq, unfoldLines_export found, map_trim_of_plain plain,
    scan_append, scan_append, header, closed rfl, tail]
  simp

/-! ### Reading an item -/

/-- An event as the import delimits it: its first line begins it, its last ends it. -/
structure Delimited (event : List Str) : Prop where
  collected : Collected event
  last : ∃ buf line, event = buf ++ [line] ∧ endsEvent line = true

theorem scan_delimited {lines : List Str} (plain : ∀ l ∈ lines, Plain l)
    (current : Option (List Str)) (before : ∀ buf ∈ current, buf ≠ [] ∧ Collected buf) :
    ∀ event ∈ (scan lines current).1, Delimited event := by
  induction lines generalizing current with
  | nil => simp [scan]
  | cons line rest ih =>
    have here := plain line List.mem_cons_self
    have later := ih (fun l member => plain l (List.mem_cons_of_mem line member))
    have pushed : ∀ buf ∈ current, Collected (buf ++ [line]) := fun buf found =>
      (before buf found).2.concat here fun empty => absurd empty (before buf found).1
    intro event member
    simp only [scan] at member
    split at member
    · next begins =>
      refine later _ ?_ event member
      rintro buf ⟨⟩
      exact ⟨by simp, by simpa using here, by simpa using begins⟩
    · split at member
      · next ends =>
        cases current with
        | none => exact later none (by simp) event member
        | some buf =>
          rcases List.mem_cons.mp member with rfl | among
          · exact ⟨pushed buf rfl, buf, line, rfl, ends⟩
          · exact later none (by simp) event among
      · refine later _ ?_ event member
        intro buf found
        obtain ⟨buf', old, rfl⟩ := Option.map_eq_some_iff.mp found
        exact ⟨by simp, pushed buf' old⟩

theorem parseLines_of_end (crates : Crates) {before : List Str} {line : Str} (plain : Plain line)
    (ends : endsEvent line = true) (after : List Str) (inEvent : Bool) (ev : ParsedEvent) :
    parseLines crates (before ++ line :: after) inEvent ev =
      parseLines crates (before ++ [line]) inEvent ev := by
  have upper := of_decide_eq_true ends
  induction before generalizing inEvent ev with
  | nil =>
    have other : ¬ toAsciiUppercase line = "BEGIN:VEVENT".toList := by rw [upper]; decide
    simp only [List.nil_append, parseLines, trimEndMatches_of_getLast plain.noReturn, if_neg other,
      if_pos upper]
  | cons first rest ih =>
    simp only [List.cons_append, parseLines, ih]

theorem parseLines_header (crates : Crates) {header : List Str}
    (quiet : ∀ l ∈ header, Container l) (rest : List Str) (ev : ParsedEvent) :
    parseLines crates (header ++ rest) false ev = parseLines crates rest false ev := by
  induction header with
  | nil => rfl
  | cons line others ih =>
    obtain ⟨plain, _, begins, ends⟩ := quiet line List.mem_cons_self
    simp only [beginsEvent, endsEvent, decide_eq_false_iff_not] at begins ends
    simp only [List.cons_append, parseLines, trimEndMatches_of_getLast plain.noReturn,
      if_neg begins, if_neg ends, Bool.false_eq_true, if_false]
    exact ih fun l member => quiet l (List.mem_cons_of_mem line member)

theorem parseLines_importItem (crates : Crates) {event : List Str} (delimited : Delimited event) :
    parseLines crates (unfoldLines (importItem event)) false {} =
      parseLines crates (refold event) false {} := by
  obtain ⟨collected, buf, line, rfl, ends⟩ := delimited
  have plain := collected.plain line (by simp)
  have leads := leads_of_endsEvent ends
  have head : ∀ l ∈ (buf ++ [line]).head?, l.getLast? ≠ some '\r' ∧ Leads l := fun l first =>
    ⟨(collected.plain l (List.mem_of_head? first)).noReturn,
      leads_of_beginsEvent (collected.first l first)⟩
  have allPlain : ∀ l ∈ importHeader ++ (buf ++ [line]) ++ [footer], Plain l := by
    intro l member
    rcases List.mem_append.mp member with inside | last
    · rcases List.mem_append.mp inside with header | event
      · exact (container_importHeader l header).plain
      · exact collected.plain l event
    · rw [List.mem_singleton.mp last]
      exact container_footer.plain
  have header : refold importHeader = importHeader := refold_of_leads fun l member =>
    ⟨(container_importHeader l member).plain.noReturn, (container_importHeader l member).leads⟩
  have ended : refold (buf ++ [line]) = refold buf ++ [line] := by
    rw [refold_append buf [] plain.noReturn leads]
    exact congrArg _ (unfoldLine_leads plain.noReturn leads [])
  rw [importItem_eq (by simp), unfoldLines_terminated allPlain,
    refold_append _ [] container_footer.plain.noReturn container_footer.leads,
    refold_append_of_head importHeader head, header, ended]
  simp only [List.append_assoc, List.cons_append, List.nil_append]
  rw [parseLines_header crates container_importHeader, parseLines_of_end crates plain ends]

/-! ### The round trip -/

/-- The lines of a body's block as the import sees them again. -/
def reread (raw : Str) : List Str := refold (exportLines raw)

/-- Exactly one event is delimited in the block read again, and when it is read once more its
fields are those of the body. -/
def ReadsBack (crates : Crates) (raw : Str) : Prop :=
  ∃ event, (scan (reread raw) none).1 = [event] ∧
    parseLines crates (refold event) false {} = parseLines crates (unfoldLines raw) false {}

/-- No body leaves an event open that another body closes. -/
def Separate (first second : Str) : Prop :=
  (scan (reread first) none).2 = none ∨ closesFirst (reread second) = false

section RoundTrip

variable {crates : Crates}

/-- `parse_vevent` after its loop. -/
theorem parseVevent_eq_iff {raw : Str} {ev : ParsedEvent} :
    parseVevent crates raw = .ok ev ↔
      ev.uid ≠ [] ∧ parseLines crates (unfoldLines raw) false {} = ev := by
  simp only [parseVevent, List.isEmpty_iff]
  constructor
  · intro accepted
    split at accepted
    · cases accepted
    · next named =>
      cases accepted
      exact ⟨named, rfl⟩
  · rintro ⟨named, rfl⟩
    rw [if_neg named]

/-- Results agree with those of accepted bodies when the fields do. -/
theorem map_parseVevent_iff {items bodies : List Str}
    (accepted : ∀ b ∈ bodies, ∃ ev, parseVevent crates b = .ok ev) :
    items.map (parseVevent crates) = bodies.map (parseVevent crates) ↔
      (items.map fun i => parseLines crates (unfoldLines i) false {}) =
        bodies.map fun b => parseLines crates (unfoldLines b) false {} := by
  induction items generalizing bodies with
  | nil => simp
  | cons item rest ih =>
    cases bodies with
    | nil => simp
    | cons b others =>
      have later := ih fun b' member => accepted b' (List.mem_cons_of_mem b member)
      obtain ⟨ev, ok⟩ := accepted b List.mem_cons_self
      obtain ⟨named, fields⟩ := parseVevent_eq_iff.1 ok
      simp only [List.map_cons, List.cons.injEq, later, ok, parseVevent_eq_iff, fields, named,
        ne_eq, not_false_eq_true, true_and]

theorem reread_plain (bodies : List Str) : ∀ l ∈ bodies.flatMap reread, Plain l := by
  intro l member
  obtain ⟨b, _, among⟩ := List.mem_flatMap.mp member
  exact refold_plain (exportLines_collected b).plain l among

theorem roundTrips_iff {bodies : List Str}
    (accepted : ∀ b ∈ bodies, ∃ ev, parseVevent crates b = .ok ev) :
    RoundTrips crates bodies ↔
      ((scan (bodies.flatMap reread) none).1.map fun event =>
        parseLines crates (refold event) false {}) =
        bodies.map fun b => parseLines crates (unfoldLines b) false {} := by
  have found : ∀ b ∈ bodies, extractLoop (unfoldLines b) false [] ≠ [] := by
    intro b member
    obtain ⟨ev, ok⟩ := accepted b member
    exact extractLoop_ne_nil ok
  have read : ((scan (bodies.flatMap reread) none).1.map fun event =>
      parseLines crates (unfoldLines (importItem event)) false {}) =
      (scan (bodies.flatMap reread) none).1.map fun event =>
        parseLines crates (refold event) false {} := by
    apply List.map_congr_left
    intro event member
    exact parseLines_importItem crates
      (scan_delimited (reread_plain bodies) none (by simp) event member)
  rw [RoundTrips, splitVcalendarToEvents_export found, map_parseVevent_iff accepted, List.map_map]
  exact Eq.congr_left read

/-- Bodies one after the other: each adds its event, whatever the one before left open. -/
theorem scan_bodies {bodies : List Str} (separate : ∀ b ∈ bodies, ∀ b' ∈ bodies, Separate b b')
    (current : Option (List Str))
    (before : current = none ∨ ∀ b ∈ bodies, closesFirst (reread b) = false) :
    (scan (bodies.flatMap reread) current).1 =
      bodies.flatMap fun b => (scan (reread b) none).1 := by
  induction bodies generalizing current with
  | nil => rfl
  | cons b rest ih =>
    have here : (scan (reread b) current).1 = (scan (reread b) none).1 := by
      cases current with
      | none => rfl
      | some buf =>
        have first := (before.resolve_left (by simp)) b List.mem_cons_self
        simpa [first] using scan_open (reread b) buf
    have later := fun c member c' member' => separate c (List.mem_cons_of_mem b member) c'
      (List.mem_cons_of_mem b member')
    have state : (scan (reread b) current).2 = none ∨
        ∀ b' ∈ rest, closesFirst (reread b') = false := by
      rcases before with rfl | closed
      · by_cases left : (scan (reread b) none).2 = none
        · exact .inl left
        · exact .inr fun b' member => (separate b List.mem_cons_self b'
            (List.mem_cons_of_mem b member)).resolve_left left
      · exact .inr fun b' member => closed b' (List.mem_cons_of_mem b member)
    simp only [List.flatMap_cons, scan_append, here, ih later _ state]

end RoundTrip

/-- A folded summary, a reminder inside the event, mixed line ends. -/
def weeklyMeeting : Str :=
  "BEGIN:VEVENT\r\nUID:1\nSUMMARY:Weekly\r\n  meeting\r\n".toList ++
    "BEGIN:VALARM\nEND:VALARM\nEND:VEVENT\n".toList

/-- A block without its end. -/
def unended : Str := "BEGIN:VEVENT\r\nUID:1\r\n".toList

/-- A second beginning, after a property. -/
def begunTwice : Str :=
  "BEGIN:VEVENT\r\nSUMMARY:a\r\nBEGIN:VEVENT\r\nUID:1\r\nEND:VEVENT\r\n".toList

/-- An empty line continued by a line with two blanks: the import appends it to the UID. -/
def blankLed : Str := "BEGIN:VEVENT\r\nUID:1\r\n\r\n  x\r\nEND:VEVENT\r\n".toList

end Expresso.CalDav
