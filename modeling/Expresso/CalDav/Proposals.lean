import Expresso.CalDav.Itip
import Expresso.CalDav.Reply
import Expresso.CalDav.Nested

/-! Changes of an event read back. The writer takes the physical lines between the delimiters that
it sees for the properties it replaces; the reader unfolds the lines first. -/

namespace Expresso.CalDav.Itip
open Text Nested

/-! ### Content lines -/

/-- A physical line that begins a content line, and what the lines after it add. -/
structure ContentLine where
  head : Str
  tail : Str
  deriving DecidableEq

def ContentLine.whole (c : ContentLine) : Str := c.head ++ c.tail

def continuation (line : Str) : Bool := line.head? = some ' ' || line.head? = some '\t'

/-- The content lines of which the first has been found. -/
def gather (c : ContentLine) : List Str → List ContentLine
  | [] => [c]
  | line :: rest =>
      if continuation line then gather ⟨c.head, c.tail ++ line.tail⟩ rest
      else c :: gather ⟨line, []⟩ rest

def contentLines : List Str → List ContentLine
  | [] => []
  | line :: rest => gather ⟨line, []⟩ rest

theorem continuation_leads {line : Str} : continuation line = false ↔ Leads line := by
  unfold continuation Leads
  simp

theorem unfoldLine_gathered {line : Str} (plain : Plain line) (out : List Str) (c : ContentLine) :
    unfoldLine (out ++ [c.whole]) line =
      if continuation line then out ++ [(⟨c.head, c.tail ++ line.tail⟩ : ContentLine).whole]
      else out ++ [c.whole] ++ [line] := by
  split_ifs with blank
  · cases line with
    | nil => cases blank
    | cons first rest =>
      have isBlank : first = ' ' ∨ first = '\t' := by simpa [continuation] using blank
      simp only [unfoldLine, stripReturn_of_plain plain.noReturn, Option.getD_none,
        List.getLast?_concat, if_pos isBlank, List.dropLast_concat]
      simp [ContentLine.whole]
  · exact unfoldLine_leads plain.noReturn (continuation_leads.1 (by simpa using blank)) _

theorem foldl_gather {lines : List Str} (plain : ∀ l ∈ lines, Plain l) (out : List Str)
    (c : ContentLine) : lines.foldl unfoldLine (out ++ [c.whole]) =
      out ++ (gather c lines).map ContentLine.whole := by
  induction lines generalizing out c with
  | nil => rfl
  | cons line rest ih =>
    have later := ih fun l member => plain l (List.mem_cons_of_mem line member)
    rw [List.foldl_cons, unfoldLine_gathered (plain line List.mem_cons_self), gather]
    split_ifs
    · exact later out _
    · have single : line = (⟨line, []⟩ : ContentLine).whole := (List.append_nil line).symm
      have next := later (out ++ [c.whole]) ⟨line, []⟩
      rw [← single] at next
      rw [next, List.append_assoc]
      rfl

/-- The reader's lines are the content lines. -/
theorem refold_eq {lines : List Str} (plain : ∀ l ∈ lines, Plain l) :
    refold lines = (contentLines lines).map ContentLine.whole := by
  cases lines with
  | nil => rfl
  | cons line rest =>
    have here := plain line List.mem_cons_self
    have first : unfoldLine [] line = [] ++ [(⟨line, []⟩ : ContentLine).whole] := by
      rw [ContentLine.whole, List.append_nil, unfoldLine, stripReturn_of_plain here.noReturn]
      cases line <;> rfl
    rw [refold, List.foldl_cons, first,
      foldl_gather fun l member => plain l (List.mem_cons_of_mem line member)]
    rfl

/-! ### Slots -/

/-- A property to replace: the physical lines that are taken for it, and the new value. -/
structure Slot where
  property : Property
  hit : Str → Bool
  value : Str

def Slot.line (s : Slot) : Str := s.property.name ++ ':' :: s.value

def edit (slots : List Slot) (line : Str) : Str :=
  ((slots.find? (·.hit line)).map Slot.line).getD line

/-- The slots without a line in the event. -/
def missing (slots : List Slot) (lines : List Str) : List Slot :=
  slots.filter fun s => !(eventLines lines false).any s.hit

def insertAll (added : List Str) : List Str → List Str
  | [] => []
  | line :: rest =>
      if endsEvent line then added ++ line :: rest else line :: insertAll added rest

/-- The lines with the slots replaced, and added where they are missing. -/
def change (slots : List Slot) (lines : List Str) : List Str :=
  insertAll ((missing slots lines).map Slot.line) (editEvent (edit slots) lines false)

def timeSlots (start stop : Option Time.OffsetDateTime) : List Slot :=
  (start.map fun t => ⟨.dtstart, startsWith "DTSTART".toList, fmtDt t⟩).toList ++
    (stop.map fun t => ⟨.dtend, startsWith "DTEND".toList, fmtDt t⟩).toList

def statusSlot (status : Str) : Slot := ⟨.status, isStatusLine, toAsciiUppercase status⟩

/-- A slot for one of the properties that the service changes; the lines taken for it begin with its
name. -/
structure Slot.Fits (s : Slot) : Prop where
  kind : s.property ∈ [Property.dtstart, .dtend, .status]
  begins : ∀ l, s.hit l = true → s.property.name <+: toAsciiUppercase l
  plain : Plain s.value

/-- The names begin no other property's name and no delimiter. -/
theorem kind_facts {p : Property} (kind : p ∈ [Property.dtstart, .dtend, .status]) :
    (∀ q : Property, q.name <+: p.name ∨ p.name <+: q.name → q = p) ∧
      ∃ c rest, p.name = c :: rest ∧ c ∉ [' ', '\t', 'B', 'E'] := by
  simp only [List.mem_cons, List.not_mem_nil, or_false] at kind
  rcases kind with rfl | rfl | rfl
  · exact ⟨fun q => by cases q <;> decide, 'D', "TSTART".toList, rfl, by decide⟩
  · exact ⟨fun q => by cases q <;> decide, 'D', "TEND".toList, rfl, by decide⟩
  · exact ⟨fun q => by cases q <;> decide, 'S', "TATUS".toList, rfl, by decide⟩

theorem Slot.Fits.leads {s : Slot} (fits : s.Fits) {l : Str}
    (begins : s.property.name <+: toAsciiUppercase l) : Leads l := by
  obtain ⟨-, c, rest, name, other⟩ := kind_facts fits.kind
  obtain ⟨back, whole⟩ := begins
  rw [name] at whole
  refine leads_of_toUpper whole.symm ?_ ?_
  · rintro rfl
    exact other (by decide)
  · rintro rfl
    exact other (by decide)

theorem Slot.Fits.delimits {s : Slot} (fits : s.Fits) {l : Str}
    (begins : s.property.name <+: toAsciiUppercase l) :
    beginsEvent l = false ∧ endsEvent l = false := by
  obtain ⟨-, c, rest, name, other⟩ := kind_facts fits.kind
  obtain ⟨back, whole⟩ := begins
  rw [name] at whole
  unfold beginsEvent endsEvent
  rw [← whole]
  constructor
  · rw [decide_eq_false_iff_not]
    intro same
    have first : c = 'B' := (List.cons.inj same).1
    exact other (by rw [first]; decide)
  · rw [decide_eq_false_iff_not]
    intro same
    have first : c = 'E' := (List.cons.inj same).1
    exact other (by rw [first]; decide)

theorem property_name_facts (p : Property) : (':' ∉ p.name ∧ ';' ∉ p.name ∧ '\n' ∉ p.name) ∧
    toAsciiUppercase p.name = p.name ∧ Property.named p.name = some p := by
  cases p <;> decide

theorem Slot.line_begins (s : Slot) (tail : Str) :
    s.property.name <+: toAsciiUppercase (s.line ++ tail) := by
  obtain ⟨-, upper, -⟩ := property_name_facts s.property
  refine ⟨toAsciiUppercase (':' :: s.value ++ tail), ?_⟩
  conv_lhs => rw [← upper]
  unfold Slot.line toAsciiUppercase
  rw [← List.map_append, List.append_assoc]

theorem begins_append {s : Slot} {l : Str} (begins : s.property.name <+: toAsciiUppercase l)
    (tail : Str) : s.property.name <+: toAsciiUppercase (l ++ tail) := by
  unfold toAsciiUppercase at begins ⊢
  rw [List.map_append]
  exact begins.trans (List.prefix_append _ _)

theorem Slot.Fits.line_plain {s : Slot} (fits : s.Fits) : Plain s.line where
  oneLine := by
    have name := (property_name_facts s.property).1.2.2
    have value := fits.plain.oneLine
    simp [Slot.line, name, value]
  noReturn := by
    rw [Slot.line, List.getLast?_append]
    cases shape : s.value with
    | nil => simp
    | cons c rest =>
      have last := fits.plain.noReturn
      rw [shape] at last
      rw [List.getLast?_cons_cons, List.getLast?_eq_some_getLast (List.cons_ne_nil c rest)]
      rw [List.getLast?_eq_some_getLast (List.cons_ne_nil c rest)] at last
      simpa using last

theorem newline_not_mem_padded (width : Nat) (n : Int) : '\n' ∉ padded width n := by
  have digits : '\n' ∉ Nat.toDigits 10 n.natAbs := fun member =>
    absurd (Nat.isDigit_of_mem_toDigits (by decide) (by decide) member) (by decide)
  have zeros (count : Nat) : '\n' ∉ List.replicate count '0' := fun member =>
    absurd (List.eq_of_mem_replicate member) (by decide)
  unfold padded
  dsimp only
  split_ifs <;> simp [digits, zeros]

theorem fmtDt_plain (t : Time.OffsetDateTime) : Plain (fmtDt t) where
  oneLine := by
    have marks : '\n' ∉ "T".toList ∧ '\n' ∉ "Z".toList := by decide
    unfold fmtDt
    simp only [List.mem_append, newline_not_mem_padded, marks.1, marks.2, or_self,
      not_false_eq_true]
  noReturn := by
    have last : ("Z".toList).getLast? = some 'Z' := by decide
    rw [fmtDt, List.getLast?_append, last]
    exact fun same => absurd (Option.some.inj same) (by decide)

theorem fits_start (t : Time.OffsetDateTime) :
    Slot.Fits ⟨.dtstart, startsWith "DTSTART".toList, fmtDt t⟩ where
  kind := show Property.dtstart ∈ [Property.dtstart, .dtend, .status] by decide
  begins _ hit := List.isPrefixOf_iff_prefix.mp hit
  plain := fmtDt_plain t

theorem fits_stop (t : Time.OffsetDateTime) :
    Slot.Fits ⟨.dtend, startsWith "DTEND".toList, fmtDt t⟩ where
  kind := show Property.dtend ∈ [Property.dtstart, .dtend, .status] by decide
  begins _ hit := List.isPrefixOf_iff_prefix.mp hit
  plain := fmtDt_plain t

theorem upper_plain {v : Str} (plain : Plain v) : Plain (toAsciiUppercase v) where
  oneLine member := by
    obtain ⟨c, inside, upper⟩ := List.mem_map.mp member
    exact plain.oneLine (eq_of_toUpper upper (by decide) ▸ inside)
  noReturn last := by
    unfold toAsciiUppercase at last
    rw [List.getLast?_map] at last
    obtain ⟨c, final, upper⟩ := Option.map_eq_some_iff.mp last
    exact plain.noReturn (eq_of_toUpper upper (by decide) ▸ final)

theorem fits_status {status : Str} (plain : Plain status) : (statusSlot status).Fits where
  kind := show Property.status ∈ [Property.dtstart, .dtend, .status] by decide
  begins l hit := by
    have names : "STATUS".toList <+: "STATUS:".toList ∧ "STATUS".toList <+: "STATUS;".toList := by
      decide
    rcases Bool.or_eq_true _ _ |>.mp hit with colon | semicolon
    · exact names.1.trans (List.isPrefixOf_iff_prefix.mp colon)
    · exact names.2.trans (List.isPrefixOf_iff_prefix.mp semicolon)
  plain := upper_plain plain

theorem fits_times {start stop : Option Time.OffsetDateTime} :
    ∀ s ∈ timeSlots start stop, s.Fits := by
  intro s member
  rcases List.mem_append.mp member with first | second
  · obtain ⟨t, -, rfl⟩ := Option.map_eq_some_iff.mp (Option.mem_toList.mp first)
    exact fits_start t
  · obtain ⟨t, -, rfl⟩ := Option.map_eq_some_iff.mp (Option.mem_toList.mp second)
    exact fits_stop t

/-! ### The writer by its slots -/

theorem insertAll_of_none {added lines : List Str} (none : lines.any endsEvent = false) :
    insertAll added lines = lines := by
  induction lines with
  | nil => rfl
  | cons line rest ih =>
    rw [List.any_cons, Bool.or_eq_false_iff] at none
    rw [insertAll, none.1, ih none.2]
    rfl

theorem insertAll_nil (lines : List Str) : insertAll [] lines = lines := by
  induction lines with
  | nil => rfl
  | cons line rest ih => rw [insertAll, ih]; split <;> rfl

theorem insertBeforeEnd_insertAll {lines : List Str} (some : lines.any endsEvent = true)
    (new : Str) : insertBeforeEnd new lines = .some (insertAll [new] lines) := by
  induction lines with
  | nil => cases some
  | cons line rest ih =>
    rw [insertBeforeEnd, insertAll]
    split
    · rfl
    · next other =>
      rw [List.any_cons, Bool.not_eq_true _ |>.mp other, Bool.false_or] at some
      rw [ih some]
      rfl

theorem insertAll_append {first : List Str} (quiet : first.any endsEvent = false)
    (second lines : List Str) :
    insertAll second (insertAll first lines) = insertAll (first ++ second) lines := by
  have through (rest : List Str) : insertAll second (first ++ rest) =
      first ++ insertAll second rest := by
    induction first with
    | nil => rfl
    | cons line first ih =>
      rw [List.any_cons, Bool.or_eq_false_iff] at quiet
      rw [List.cons_append, insertAll, quiet.1, ih quiet.2]
      rfl
  induction lines with
  | nil => rfl
  | cons line rest ih =>
    rw [insertAll, insertAll]
    split
    · next ends =>
      rw [through, insertAll, if_pos ends, List.append_assoc]
    · next other =>
      rw [insertAll, if_neg other, ih]

theorem any_insertAll {added lines : List Str} (some : lines.any endsEvent = true) :
    (insertAll added lines).any endsEvent = true := by
  induction lines with
  | nil => cases some
  | cons line rest ih =>
    rw [insertAll]
    split
    · next ends => simp [ends]
    · next other =>
      rw [List.any_cons, Bool.not_eq_true _ |>.mp other, Bool.false_or] at some
      rw [List.any_cons, ih some, Bool.or_true]

/-- A proposed time is inserted where the event has no line for it. -/
theorem insertTime_eq {lines : List Str} (some : lines.any endsEvent = true) {property : Property}
    {name : Str} (named : name = property.name) (proposed : Option Time.OffsetDateTime)
    (hit : Str → Bool) (event : List Str) :
    insertTime name proposed (event.any hit) lines =
      insertAll ((((proposed.map fun t => (⟨property, hit, fmtDt t⟩ : Slot)).toList).filter
        fun s => !event.any s.hit).map Slot.line) lines := by
  subst named
  cases proposed with
  | none =>
    rw [insertTime]
    simp [proposedLine, insertAll_nil]
  | some t =>
    rw [insertTime]
    by_cases found : event.any hit = true
    · simp [found, insertAll_nil]
    · rw [if_neg found]
      have absent : event.any hit = false := by simpa using found
      simp [absent, proposedLine, insertBeforeEnd_insertAll some, Slot.line]

theorem startsWith_exclusive {first second : Str}
    (apart : ¬first <+: second ∧ ¬second <+: first) {line : Str}
    (starts : startsWith first line = true) : startsWith second line = false := by
  rw [Bool.eq_false_iff]
  intro both
  have one := List.isPrefixOf_iff_prefix.mp starts
  have two := List.isPrefixOf_iff_prefix.mp both
  rcases Nat.le_total first.length second.length with short | long
  · exact apart.1 (List.prefix_of_prefix_length_le one two short)
  · exact apart.2 (List.prefix_of_prefix_length_le two one long)

theorem edit_cons (s : Slot) (slots : List Slot) (line : Str) :
    edit (s :: slots) line = if s.hit line then s.line else edit slots line := by
  unfold edit
  rw [List.find?_cons]
  cases s.hit line <;> rfl

theorem edit_stop (stop : Option Time.OffsetDateTime) (line : Str) :
    edit (timeSlots none stop) line = if startsWith "DTEND".toList line
      then (proposedLine "DTEND".toList stop).getD line else line := by
  cases stop with
  | none =>
    show line = _
    split_ifs <;> rfl
  | some t =>
    show edit [⟨.dtend, startsWith "DTEND".toList, fmtDt t⟩] line = _
    rw [edit_cons]
    rfl

theorem edit_timeSlots (start stop : Option Time.OffsetDateTime) :
    edit (timeSlots start stop) = editTimes start stop := by
  funext line
  unfold editTimes
  rw [← edit_stop]
  cases start with
  | some t =>
    show edit (⟨.dtstart, startsWith "DTSTART".toList, fmtDt t⟩ :: timeSlots none stop) line = _
    rw [edit_cons]
    rfl
  | none =>
    split_ifs with first
    · have other := startsWith_exclusive
        (show ¬"DTSTART".toList <+: "DTEND".toList ∧ ¬"DTEND".toList <+: "DTSTART".toList by decide)
        first
      rw [edit_stop, other, if_neg Bool.false_ne_true]
      rfl
    · rfl

theorem ite_ok {α ε : Type} {c : Prop} [Decidable c] {a r : α} {e : ε}
    (done : (if c then Except.ok a else .error e) = .ok r) : c ∧ a = r := by
  by_cases holds : c
  · rw [if_pos holds] at done
    exact ⟨holds, Except.ok.inj done⟩
  · rw [if_neg holds] at done
    cases done

theorem applyProposedTimes_eq {raw result : Str} {start stop : Option Time.OffsetDateTime}
    (applied : applyProposedTimes raw start stop = .ok result) :
    result = joinLines (change (timeSlots start stop) (physicalLines raw)) := by
  rw [applyProposedTimes] at applied
  obtain ⟨some, rfl⟩ := ite_ok applied
  have startName : "DTSTART".toList = Property.name .dtstart := rfl
  have stopName : "DTEND".toList = Property.name .dtend := rfl
  have first := insertTime_eq some startName start (startsWith "DTSTART".toList)
    (eventLines (physicalLines raw) false)
  have later := @any_insertAll ((((start.map fun t => (⟨.dtstart, startsWith "DTSTART".toList,
    fmtDt t⟩ : Slot)).toList).filter fun s =>
      !(eventLines (physicalLines raw) false).any s.hit).map Slot.line) _ some
  have second := insertTime_eq later stopName stop (startsWith "DTEND".toList)
    (eventLines (physicalLines raw) false)
  have all : missing (timeSlots start stop) (physicalLines raw) =
      (((start.map fun t =>
          (⟨.dtstart, startsWith "DTSTART".toList, fmtDt t⟩ : Slot)).toList).filter fun s =>
            !(eventLines (physicalLines raw) false).any s.hit) ++
      (((stop.map fun t => (⟨.dtend, startsWith "DTEND".toList, fmtDt t⟩ : Slot)).toList).filter
        fun s => !(eventLines (physicalLines raw) false).any s.hit) :=
    List.filter_append ..
  rw [first, second, insertAll_append, ← List.map_append, ← all, ← edit_timeSlots, change]
  rw [List.any_eq_false]
  intro line member
  obtain ⟨s, among, rfl⟩ := List.mem_map.mp member
  have fits : s.Fits := by
    apply @fits_times start stop
    exact List.mem_append_left _ (List.mem_of_mem_filter among)
  have quiet := (fits.delimits (s.line_begins [])).2
  rw [List.append_nil] at quiet
  simp [quiet]

theorem editEvent_of_same {f : Str → Str} {lines : List Str} {inEvent : Bool}
    (same : ∀ l ∈ eventLines lines inEvent, f l = l) : editEvent f lines inEvent = lines := by
  induction lines generalizing inEvent with
  | nil => rfl
  | cons line rest ih =>
    rw [eventLines] at same
    rw [editEvent]
    split
    · next begins =>
      rw [if_pos begins] at same
      rw [ih same]
    · next other =>
      rw [if_neg other] at same
      split
      · rfl
      · next open_ =>
        rw [if_neg open_] at same
        cases inEvent with
        | true =>
          rw [if_pos rfl, List.forall_mem_cons] at same
          rw [if_pos rfl, same.1, ih same.2]
        | false =>
          rw [if_neg Bool.false_ne_true] at same
          rw [if_neg Bool.false_ne_true, ih same]

theorem setStatus_eq {raw status result : Str} (set : setStatus raw status = .ok result) :
    result = joinLines (change [statusSlot status] (physicalLines raw)) := by
  have line : "STATUS:".toList ++ toAsciiUppercase status = (statusSlot status).line := rfl
  have edits : (fun l => if isStatusLine l then (statusSlot status).line else l) =
      edit [statusSlot status] := by
    funext l
    unfold edit
    by_cases hit : isStatusLine l = true
    · simp [statusSlot, hit]
    · simp [statusSlot, hit]
  unfold setStatus at set
  dsimp only at set
  rw [line, edits] at set
  unfold change missing
  by_cases found : (eventLines (physicalLines raw) false).any isStatusLine = true
  · rw [if_pos found] at set
    cases set
    have none : [statusSlot status].filter
        (fun s => !(eventLines (physicalLines raw) false).any s.hit) = [] := by
      simp [statusSlot, found]
    rw [none, List.map_nil, insertAll_nil]
  · rw [if_neg found] at set
    have absent : (eventLines (physicalLines raw) false).any isStatusLine = false := by
      simpa using found
    have all : [statusSlot status].filter
        (fun s => !(eventLines (physicalLines raw) false).any s.hit) = [statusSlot status] := by
      simp [statusSlot, absent]
    have kept : editEvent (edit [statusSlot status]) (physicalLines raw) false =
        physicalLines raw := by
      apply editEvent_of_same
      intro l member
      have other := List.any_eq_false.mp absent l member
      simp [edit, statusSlot, other]
    rw [all, kept]
    by_cases some : (physicalLines raw).any endsEvent = true
    · rw [insertBeforeEnd_insertAll some] at set
      cases set
      rfl
    · have none : insertBeforeEnd (statusSlot status).line (physicalLines raw) = .none := by
        rw [Option.eq_none_iff_forall_ne_some]
        intro edited found
        obtain ⟨before, last, after, shape, -, ends, -⟩ := insertBeforeEnd_eq_some found
        apply some
        rw [shape]
        simp [ends]
      rw [none] at set
      cases set

/-! ### The changed lines, content line by content line -/

/-- Where the writer stands: outside the event, inside it, or at its end. -/
inductive Place where
  | outside
  | inside
  | final
  deriving DecidableEq

/-- A content line and where the writer sees it. -/
abbrev Mark := ContentLine × Place

def placed : List ContentLine → Bool → List Mark
  | [], _ => []
  | c :: rest, inEvent =>
      if beginsEvent c.head then (c, .outside) :: placed rest true
      else if endsEvent c.head then (c, .final) :: rest.map (·, .outside)
      else (c, if inEvent then .inside else .outside) :: placed rest inEvent

/-- What the writer makes of a content line. -/
def rewritten (slots added : List Slot) (m : Mark) : List ContentLine :=
  match m.2 with
  | .outside => [m.1]
  | .inside => [⟨edit slots m.1.head, m.1.tail⟩]
  | .final => added.map (fun s => ⟨s.line, []⟩) ++ [m.1]

theorem edit_cases (slots : List Slot) (line : Str) :
    ((∀ s ∈ slots, s.hit line = false) ∧ edit slots line = line) ∨
      ∃ s ∈ slots, s.hit line = true ∧ edit slots line = s.line := by
  unfold edit
  cases found : slots.find? (·.hit line) with
  | none =>
    left
    refine ⟨fun s member => ?_, rfl⟩
    simpa using List.find?_eq_none.mp found s member
  | some s =>
    have hit : s.hit line = true := by simpa using List.find?_some found
    exact .inr ⟨s, List.mem_of_find?_eq_some found, hit, rfl⟩

section Changed

variable {slots : List Slot}

theorem edit_of_delimiter (fits : ∀ s ∈ slots, s.Fits) {line : Str}
    (delimiter : beginsEvent line = true ∨ endsEvent line = true) : edit slots line = line := by
  obtain ⟨-, same⟩ | ⟨s, member, hit, -⟩ := edit_cases slots line
  · exact same
  · obtain ⟨begins, ends⟩ := (fits s member).delimits ((fits s member).begins line hit)
    rcases delimiter with both | both <;> simp_all

theorem edit_continuation (fits : ∀ s ∈ slots, s.Fits) (line : Str) :
    continuation (edit slots line) = continuation line ∧
      (continuation line = true → edit slots line = line) := by
  obtain ⟨-, same⟩ | ⟨s, member, hit, new⟩ := edit_cases slots line
  · rw [same]
    exact ⟨rfl, fun _ => rfl⟩
  · have old := continuation_leads.mpr ((fits s member).leads ((fits s member).begins line hit))
    have begins := s.line_begins []
    rw [List.append_nil] at begins
    rw [new, continuation_leads.mpr ((fits s member).leads begins), old]
    exact ⟨rfl, fun blank => absurd blank Bool.false_ne_true⟩

/-- The writer's loop on content lines. -/
def editContent (slots : List Slot) : List ContentLine → Bool → List ContentLine
  | [], _ => []
  | c :: rest, inEvent =>
      if beginsEvent c.head then c :: editContent slots rest true
      else if endsEvent c.head then c :: rest
      else (if inEvent then ⟨edit slots c.head, c.tail⟩ else c) :: editContent slots rest inEvent

theorem continuation_delimits {line : Str} (blank : continuation line = true) :
    beginsEvent line = false ∧ endsEvent line = false := by
  constructor
  · rw [Bool.eq_false_iff]
    intro begins
    rw [continuation_leads.mpr (leads_of_beginsEvent begins)] at blank
    cases blank
  · rw [Bool.eq_false_iff]
    intro ends
    rw [continuation_leads.mpr (leads_of_endsEvent ends)] at blank
    cases blank

/-- What a line takes in depends neither on the line nor on the edits. -/
theorem gather_edit (fits : ∀ s ∈ slots, s.Fits) (lines : List Str) (tail : Str) (inEvent : Bool) :
    ∃ more rest, (∀ head, gather ⟨head, tail⟩ lines = ⟨head, more⟩ :: rest) ∧
      ∀ head, gather ⟨head, tail⟩ (editEvent (edit slots) lines inEvent) =
        ⟨head, more⟩ :: editContent slots rest inEvent := by
  induction lines generalizing tail inEvent with
  | nil => exact ⟨tail, [], fun _ => rfl, fun _ => rfl⟩
  | cons line lines ih =>
    obtain ⟨same, kept⟩ := edit_continuation fits line
    by_cases blank : continuation line = true
    · obtain ⟨more, rest, plain, edited⟩ := ih (tail ++ line.tail) inEvent
      obtain ⟨begins, ends⟩ := continuation_delimits blank
      refine ⟨more, rest, fun head => ?_, fun head => ?_⟩
      · rw [gather, if_pos blank]
        exact plain head
      · rw [editEvent, begins, ends, kept blank, ite_self]
        simp only [Bool.false_eq_true, if_false]
        rw [gather, if_pos blank]
        exact edited head
    · have own : continuation line = false := by simpa using blank
      have start (head : Str) (l : Str) (others : List Str) (fresh : continuation l = false) :
          gather ⟨head, tail⟩ (l :: others) = ⟨head, tail⟩ :: gather ⟨l, []⟩ others := by
        rw [gather, fresh]
        rfl
      refine ⟨tail, gather ⟨line, []⟩ lines, fun head => start head line lines own, fun head => ?_⟩
      rw [editEvent]
      by_cases begins : beginsEvent line = true
      · obtain ⟨more, rest, plain, edited⟩ := ih [] true
        rw [if_pos begins, start head line _ own, plain, edited, editContent, if_pos begins]
      · rw [if_neg begins]
        by_cases ends : endsEvent line = true
        · obtain ⟨more, rest, plain, -⟩ := ih [] inEvent
          rw [if_pos ends, start head line _ own, plain, editContent, if_neg begins, if_pos ends]
        · obtain ⟨more, rest, plain, edited⟩ := ih [] inEvent
          rw [if_neg ends, plain, editContent, if_neg begins, if_neg ends]
          cases inEvent with
          | true =>
            rw [if_pos rfl, if_pos rfl, start head _ _ (same.trans own), edited]
          | false =>
            rw [if_neg Bool.false_ne_true, if_neg Bool.false_ne_true, start head _ _ own, edited]

theorem contentLines_edit (fits : ∀ s ∈ slots, s.Fits) (lines : List Str) (inEvent : Bool) :
    contentLines (editEvent (edit slots) lines inEvent) =
      editContent slots (contentLines lines) inEvent := by
  cases lines with
  | nil => rfl
  | cons line lines =>
    rw [contentLines, editEvent]
    by_cases begins : beginsEvent line = true
    · obtain ⟨more, rest, plain, edited⟩ := gather_edit fits lines [] true
      rw [if_pos begins, contentLines, plain, edited, editContent, if_pos begins]
    · rw [if_neg begins]
      by_cases ends : endsEvent line = true
      · obtain ⟨more, rest, plain, -⟩ := gather_edit fits lines [] inEvent
        rw [if_pos ends, contentLines, plain, editContent, if_neg begins, if_pos ends]
      · obtain ⟨more, rest, plain, edited⟩ := gather_edit fits lines [] inEvent
        rw [if_neg ends, plain, editContent, if_neg begins, if_neg ends]
        cases inEvent with
        | true => rw [if_pos rfl, if_pos rfl, contentLines, edited]
        | false =>
          rw [if_neg Bool.false_ne_true, if_neg Bool.false_ne_true, contentLines, edited]

/-- Lines inserted before the end of the event. -/
def insertContent (added : List ContentLine) : List ContentLine → List ContentLine
  | [] => []
  | c :: rest => if endsEvent c.head then added ++ c :: rest else c :: insertContent added rest

theorem gather_leading {added : List Str} (leading : ∀ l ∈ added, continuation l = false)
    {line : Str} (own : continuation line = false) (c : ContentLine) (rest : List Str) :
    gather c (added ++ line :: rest) =
      c :: (added.map (⟨·, []⟩) ++ gather ⟨line, []⟩ rest) := by
  induction added generalizing c with
  | nil =>
    rw [List.nil_append, gather, own]
    rfl
  | cons l added ih =>
    rw [List.cons_append, gather, leading l List.mem_cons_self, if_neg Bool.false_ne_true,
      ih fun l' member => leading l' (List.mem_cons_of_mem l member)]
    rfl

theorem gather_insert {added : List Str} (leading : ∀ l ∈ added, continuation l = false)
    (lines : List Str) (tail : Str) :
    ∃ more rest, (∀ head, gather ⟨head, tail⟩ lines = ⟨head, more⟩ :: rest) ∧
      ∀ head, gather ⟨head, tail⟩ (insertAll added lines) =
        ⟨head, more⟩ :: insertContent (added.map (⟨·, []⟩)) rest := by
  induction lines generalizing tail with
  | nil => exact ⟨tail, [], fun _ => rfl, fun _ => rfl⟩
  | cons line lines ih =>
    by_cases blank : continuation line = true
    · obtain ⟨more, rest, plain, inserted⟩ := ih (tail ++ line.tail)
      refine ⟨more, rest, fun head => ?_, fun head => ?_⟩
      · rw [gather, if_pos blank]
        exact plain head
      · rw [insertAll, (continuation_delimits blank).2, if_neg Bool.false_ne_true, gather,
          if_pos blank]
        exact inserted head
    · have own : continuation line = false := by simpa using blank
      obtain ⟨more, rest, plain, inserted⟩ := ih []
      refine ⟨tail, gather ⟨line, []⟩ lines, fun head => ?_, fun head => ?_⟩
      · rw [gather, own]
        rfl
      · rw [insertAll]
        by_cases ends : endsEvent line = true
        · rw [if_pos ends, gather_leading leading own, plain, insertContent, if_pos ends]
        · rw [if_neg ends, gather, own, inserted, plain, insertContent, if_neg ends]
          rfl

theorem contentLines_insert {added : List Str} (leading : ∀ l ∈ added, continuation l = false)
    (lines : List Str) : contentLines (insertAll added lines) =
      insertContent (added.map (⟨·, []⟩)) (contentLines lines) := by
  cases lines with
  | nil => rfl
  | cons line lines =>
    obtain ⟨more, rest, plain, inserted⟩ := gather_insert leading lines []
    rw [insertAll, contentLines, plain, insertContent]
    by_cases ends : endsEvent line = true
    · rw [if_pos ends, if_pos ends]
      have own : continuation line = false := continuation_leads.mpr (leads_of_endsEvent ends)
      cases added with
      | nil => exact plain line
      | cons l added =>
        rw [List.cons_append, contentLines,
          gather_leading (fun l' member => leading l' (List.mem_cons_of_mem l member)) own, plain]
        rfl
    · rw [if_neg ends, if_neg ends, contentLines, inserted]

theorem begins_not_ends {line : Str} (begins : beginsEvent line = true) :
    endsEvent line = false := by
  have upper : toAsciiUppercase line = "BEGIN:VEVENT".toList := of_decide_eq_true begins
  have differ : "BEGIN:VEVENT".toList ≠ "END:VEVENT".toList := by decide
  unfold endsEvent
  rw [upper]
  exact decide_eq_false differ

theorem insert_edit (fits : ∀ s ∈ slots, s.Fits) (added : List Slot) (cs : List ContentLine)
    (inEvent : Bool) :
    insertContent ((added.map Slot.line).map (⟨·, []⟩)) (editContent slots cs inEvent) =
      (placed cs inEvent).flatMap (rewritten slots added) := by
  induction cs generalizing inEvent with
  | nil => rfl
  | cons c rest ih =>
    rw [editContent, placed]
    by_cases begins : beginsEvent c.head = true
    · rw [if_pos begins, if_pos begins, insertContent, begins_not_ends begins, ih,
        List.flatMap_cons]
      rfl
    · rw [if_neg begins, if_neg begins]
      by_cases ends : endsEvent c.head = true
      · have others : (rest.map (·, Place.outside)).flatMap (rewritten slots added) = rest := by
          rw [List.flatMap_map]
          exact List.flatMap_singleton' rest
        rw [if_pos ends, if_pos ends, insertContent, if_pos ends, List.flatMap_cons, others,
          List.map_map]
        simp [rewritten]
      · rw [if_neg ends, if_neg ends, List.flatMap_cons, ← ih]
        cases inEvent with
        | true =>
          have kept : endsEvent (edit slots c.head) = false := by
            obtain ⟨-, same⟩ | ⟨s, member, hit, new⟩ := edit_cases slots c.head
            · rw [same]
              simpa using ends
            · have quiet := ((fits s member).delimits (s.line_begins [])).2
              rw [List.append_nil] at quiet
              rw [new, quiet]
          rw [if_pos rfl, if_pos rfl, insertContent, kept]
          rfl
        | false =>
          rw [if_neg Bool.false_ne_true, if_neg Bool.false_ne_true, insertContent, if_neg ends]
          rfl

/-- The content lines after the change, one by one. -/
theorem contentLines_change (fits : ∀ s ∈ slots, s.Fits) (lines : List Str) :
    contentLines (change slots lines) =
      (placed (contentLines lines) false).flatMap (rewritten slots (missing slots lines)) := by
  have leading : ∀ l ∈ (missing slots lines).map Slot.line, continuation l = false := by
    intro l member
    obtain ⟨s, among, rfl⟩ := List.mem_map.mp member
    have begins := s.line_begins []
    rw [List.append_nil] at begins
    exact continuation_leads.mpr ((fits s (List.mem_of_mem_filter among)).leads begins)
  rw [change, contentLines_insert leading, contentLines_edit fits, insert_edit fits]

/-! ### The reader on marked lines -/

/-- The content lines of the event as the reader delimits it, the last with its end. -/
def heard : List Mark → Bool → List Mark
  | [], _ => []
  | m :: rest, inEvent =>
      if beginsEvent m.1.whole then heard rest true
      else if endsEvent m.1.whole then if inEvent then [m] else []
      else if inEvent then m :: heard rest true
      else heard rest false

def wholes (cs : List ContentLine) : List Str := cs.map ContentLine.whole

theorem settings_append (first second : List Str) :
    settings (first ++ second) = settings first ++ settings second :=
  List.filterMap_append

theorem applyAll_append (crates : Crates) (first second : List Setting) (ev : ParsedEvent) :
    applyAll crates (first ++ second) ev = applyAll crates second (applyAll crates first ev) :=
  List.foldl_append

theorem parseLines_quiet {crates : Crates} {lines : List Str} (plain : ∀ l ∈ lines, Plain l)
    (quiet : ∀ l ∈ lines, beginsEvent l = false ∧ endsEvent l = false) (rest : List Str)
    (inEvent : Bool) (ev : ParsedEvent) :
    parseLines crates (lines ++ rest) inEvent ev = parseLines crates rest inEvent
      (if inEvent then applyAll crates (settings lines) ev else ev) := by
  induction lines generalizing ev with
  | nil => cases inEvent <;> rfl
  | cons line lines ih =>
    have trimmed := trimEndMatches_of_getLast (plain line List.mem_cons_self).noReturn
    obtain ⟨begins, ends⟩ := quiet line List.mem_cons_self
    have later := ih (fun l member => plain l (List.mem_cons_of_mem line member))
      fun l member => quiet l (List.mem_cons_of_mem line member)
    rw [List.cons_append, parseLines_cons, opens, closes, trimmed, begins, ends]
    simp only [Bool.false_eq_true, if_false]
    cases inEvent with
    | true =>
      rw [if_pos rfl, if_pos rfl, later, if_pos rfl, applyAll_settings_cons, trimmed]
    | false => exact later ev

theorem settings_end {line : Str} (plain : Plain line) (ends : endsEvent line = true) :
    settings [line] = [] := by
  have upper : toAsciiUppercase line = "END:VEVENT".toList := of_decide_eq_true ends
  have facts : splitOnce ':' "END:VEVENT".toList = some ("END".toList, "VEVENT".toList) ∧
      ';' ∉ "END".toList ∧ Property.named "END".toList = none := by decide
  obtain ⟨cut, noParams, unnamed⟩ := facts
  have missing : settingOf line = none := by
    unfold settingOf
    rw [trimEndMatches_of_getLast plain.noReturn]
    cases found : splitOnce ':' line with
    | none => rfl
    | some sides =>
      obtain ⟨head, value⟩ := sides
      obtain ⟨rfl, absent⟩ := splitOnce_some found
      have whole : toAsciiUppercase head ++ ':' :: toAsciiUppercase value =
          "END:VEVENT".toList := by
        rw [← upper]
        unfold toAsciiUppercase
        rw [List.map_append]
        rfl
      have absent' : ':' ∉ toAsciiUppercase head := by
        intro member
        obtain ⟨c, inside, same⟩ := List.mem_map.mp member
        exact absent (eq_of_toUpper same (by decide) ▸ inside)
      have sides := splitOnce_append absent' (toAsciiUppercase value)
      rw [whole, cut] at sides
      have name : toAsciiUppercase head = "END".toList :=
        (congrArg Prod.fst (Option.some.inj sides)).symm
      have bare : splitOnce ';' head = none := by
        cases params : splitOnce ';' head with
        | none => rfl
        | some halves =>
          obtain ⟨rfl, -⟩ := splitOnce_some params
          have inside : ';' ∈ toAsciiUppercase (halves.1 ++ ';' :: halves.2) :=
            List.mem_map.mpr ⟨';', by simp, by decide⟩
          rw [name] at inside
          exact absurd inside noParams
      have split : splitHead head = ("END".toList, none) := by
        unfold splitHead
        rw [bare, ← name]
      show (Property.named (splitHead head).1).map _ = none
      rw [split, unnamed]
      rfl
  unfold settings
  rw [List.filterMap_cons_none missing]
  rfl

theorem begins_of_ends_head {head : Str} (ends : endsEvent head = true) (tail : Str) :
    beginsEvent (head ++ tail) = false := by
  have upper : toAsciiUppercase head = "END:VEVENT".toList := of_decide_eq_true ends
  rw [Bool.eq_false_iff]
  intro begins
  have both : toAsciiUppercase head ++ toAsciiUppercase tail = "BEGIN:VEVENT".toList := by
    rw [← of_decide_eq_true begins]
    exact List.map_append.symm
  rw [upper] at both
  exact absurd (List.cons.inj both).1 (by decide)

variable {added : List Slot}

/-- A content line becomes one that delimits as it does, behind lines that do not. -/
theorem rewritten_shape (fits : ∀ s ∈ slots, s.Fits) (fitsAdded : ∀ s ∈ added, s.Fits) {m : Mark}
    (final : m.2 = .final → endsEvent m.1.head = true) :
    ∃ front line, wholes (rewritten slots added m) = front ++ [line] ∧
      (∀ l ∈ front, beginsEvent l = false ∧ endsEvent l = false) ∧
      beginsEvent line = beginsEvent m.1.whole ∧ endsEvent line = endsEvent m.1.whole ∧
      (beginsEvent m.1.whole = true → front = []) := by
  obtain ⟨c, place⟩ := m
  cases place with
  | outside => exact ⟨[], c.whole, rfl, by simp, rfl, rfl, fun _ => rfl⟩
  | inside =>
    refine ⟨[], edit slots c.head ++ c.tail, rfl, by simp, ?_, ?_, fun _ => rfl⟩
    all_goals
      obtain ⟨-, same⟩ | ⟨s, member, hit, new⟩ := edit_cases slots c.head
      · rw [same]
        rfl
      · have old := (fits s member).delimits
          (begins_append ((fits s member).begins _ hit) c.tail)
        have now := (fits s member).delimits (s.line_begins c.tail)
        rw [new]
        simp only [ContentLine.whole, old, now]
  | final =>
    refine ⟨added.map Slot.line, c.whole, ?_, ?_, rfl, rfl, ?_⟩
    · simp [wholes, rewritten, ContentLine.whole]
    · intro l member
      obtain ⟨s, among, rfl⟩ := List.mem_map.mp member
      have quiet := (fitsAdded s among).delimits (s.line_begins [])
      rwa [List.append_nil] at quiet
    · intro begins
      rw [ContentLine.whole, begins_of_ends_head (final rfl)] at begins
      cases begins

/-- The reader takes in what the heard lines become. -/
theorem parseLines_rewritten (crates : Crates) (fits : ∀ s ∈ slots, s.Fits)
    (fitsAdded : ∀ s ∈ added, s.Fits) {ms : List Mark}
    (final : ∀ m ∈ ms, m.2 = .final → endsEvent m.1.head = true)
    (plain : ∀ m ∈ ms, ∀ l ∈ wholes (rewritten slots added m), Plain l) (inEvent : Bool)
    (ev : ParsedEvent) :
    parseLines crates (ms.flatMap fun m => wholes (rewritten slots added m)) inEvent ev =
      applyAll crates (settings ((heard ms inEvent).flatMap fun m =>
        wholes (rewritten slots added m))) ev := by
  induction ms generalizing inEvent ev with
  | nil => rfl
  | cons m ms ih =>
    have later := ih (fun m' member => final m' (List.mem_cons_of_mem m member))
      fun m' member => plain m' (List.mem_cons_of_mem m member)
    have here := plain m List.mem_cons_self
    obtain ⟨front, line, shape, quiet, begins, ends, alone⟩ :=
      rewritten_shape fits fitsAdded (final m List.mem_cons_self)
    rw [shape] at here
    have plainFront : ∀ l ∈ front, Plain l := fun l member => here l (List.mem_append_left _ member)
    have plainLine : Plain line := here line (List.mem_append_right _ List.mem_cons_self)
    have trimmed := trimEndMatches_of_getLast plainLine.noReturn
    rw [List.flatMap_cons, shape, heard, List.append_assoc]
    by_cases begun : beginsEvent m.1.whole = true
    · rw [alone begun, if_pos begun, List.nil_append, List.cons_append, parseLines_cons, opens,
        trimmed, begins, if_pos begun]
      exact later true ev
    · rw [if_neg begun]
      by_cases ended : endsEvent m.1.whole = true
      · rw [if_pos ended, parseLines_quiet plainFront quiet, List.cons_append, parseLines_cons,
          opens, closes, trimmed, begins, ends, if_neg begun, if_pos ended]
        cases inEvent with
        | true =>
          rw [if_pos rfl, if_pos rfl, List.flatMap_cons, List.flatMap_nil, List.append_nil, shape,
            settings_append, settings_end plainLine (ends.trans ended), List.append_nil]
        | false => rfl
      · rw [if_neg ended]
        have quietAll : ∀ l ∈ front ++ [line], beginsEvent l = false ∧ endsEvent l = false := by
          intro l member
          rcases List.mem_append.mp member with inFront | last
          · exact quiet l inFront
          · rw [List.mem_singleton.mp last, begins, ends]
            exact ⟨by simpa using begun, by simpa using ended⟩
        rw [← List.append_assoc, parseLines_quiet here quietAll, later]
        cases inEvent with
        | true =>
          rw [if_pos rfl, if_pos rfl, List.flatMap_cons, shape, settings_append (front ++ [line]),
            applyAll_append]
        | false => rfl

/-! ### What is said of a property -/

/-- What a content line sets, by its own. -/
def ownSetting (p : Property) (line : Str) : List Setting :=
  (settings [line]).filter fun s => s.property = p

/-- What the lines that a content line becomes set: a replaced line sets the new value with what
continued it, and at the end of the event the missing ones are added. -/
def sets (slots added : List Slot) (p : Property) (m : Mark) : List Setting :=
  match m.2 with
  | .outside => ownSetting p m.1.whole
  | .inside =>
      match slots.find? (·.hit m.1.head) with
      | some s => if s.property = p then [⟨p, none, s.value ++ m.1.tail⟩] else []
      | none => ownSetting p m.1.whole
  | .final =>
      (added.filter (·.property = p)).map (fun s => ⟨p, none, s.value⟩) ++
        ownSetting p m.1.whole

theorem settings_slot {s : Slot} {tail : Str} (plain : Plain (s.line ++ tail)) :
    settings [s.line ++ tail] = [⟨s.property, none, s.value ++ tail⟩] := by
  obtain ⟨⟨noColon, noParams, -⟩, upper, named⟩ := property_name_facts s.property
  have line : s.line ++ tail = s.property.name ++ ':' :: (s.value ++ tail) := by
    simp [Slot.line]
  have bare : splitHead s.property.name = (s.property.name, none) := by
    unfold splitHead
    rw [splitOnce_of_not_mem noParams, upper]
  have found : settingOf (s.line ++ tail) = some ⟨s.property, none, s.value ++ tail⟩ := by
    unfold settingOf
    rw [trimEndMatches_of_getLast plain.noReturn, line, splitOnce_append noColon]
    show (Property.named (splitHead s.property.name).1).map _ = _
    rw [bare, named]
    rfl
  unfold settings
  rw [List.filterMap_cons_some found]
  rfl

theorem splitHead_begins (head : Str) : (splitHead head).1 <+: toAsciiUppercase head := by
  unfold splitHead
  cases params : splitOnce ';' head with
  | none => exact List.prefix_rfl
  | some halves =>
    obtain ⟨rfl, -⟩ := splitOnce_some params
    unfold toAsciiUppercase
    rw [List.map_append]
    exact List.prefix_append _ _

theorem settingOf_prefix {line : Str} (plain : Plain line) {set : Setting}
    (found : settingOf line = some set) : set.property.name <+: toAsciiUppercase line := by
  unfold settingOf at found
  rw [trimEndMatches_of_getLast plain.noReturn] at found
  obtain ⟨⟨head, value⟩, cut, property⟩ := Option.bind_eq_some_iff.mp found
  obtain ⟨p, named, rfl⟩ := Option.map_eq_some_iff.mp property
  have name : p.name = (splitHead head).1 := by simpa using List.find?_some named
  obtain ⟨rfl, -⟩ := splitOnce_some cut
  show p.name <+: _
  rw [name]
  refine (splitHead_begins head).trans ?_
  unfold toAsciiUppercase
  rw [List.map_append]
  exact List.prefix_append _ _

/-- A line that is taken for a property sets no other. -/
theorem ownSetting_of_hit {s : Slot} (fits : s.Fits) {line : Str}
    (begins : s.property.name <+: toAsciiUppercase line) (plain : Plain line) {p : Property}
    (other : s.property ≠ p) : ownSetting p line = [] := by
  unfold ownSetting settings
  cases found : settingOf line with
  | none =>
    rw [List.filterMap_cons_none found]
    rfl
  | some set =>
    have named := settingOf_prefix plain found
    have same : set.property = s.property := by
      apply (kind_facts fits.kind).1
      exact (Nat.le_total _ _).imp (List.prefix_of_prefix_length_le named begins)
        (List.prefix_of_prefix_length_le begins named)
    rw [List.filterMap_cons_some found, List.filterMap_nil, List.filter_cons_of_neg]
    · rfl
    · simpa [same] using other

/-- What a content line sets after the change. -/
theorem settings_rewritten (p : Property) {m : Mark}
    (plain : ∀ l ∈ wholes (rewritten slots added m), Plain l) :
    (settings (wholes (rewritten slots added m))).filter (·.property = p) =
      sets slots added p m := by
  obtain ⟨c, place⟩ := m
  cases place with
  | outside => rfl
  | inside =>
    show (settings [edit slots c.head ++ c.tail]).filter _ = _
    unfold sets edit
    dsimp only
    cases found : slots.find? (·.hit c.head) with
    | none => rfl
    | some s =>
      have line : wholes (rewritten slots added (c, .inside)) = [s.line ++ c.tail] := by
        simp [wholes, rewritten, edit, found, ContentLine.whole]
      have plainLine := plain (s.line ++ c.tail) (by rw [line]; exact List.mem_cons_self)
      rw [Option.map_some, Option.getD_some, settings_slot plainLine]
      by_cases mine : s.property = p
      · simp [mine]
      · simp [mine]
  | final =>
    have lines : wholes (rewritten slots added (c, .final)) = added.map Slot.line ++ [c.whole] := by
      simp [wholes, rewritten, ContentLine.whole]
    rw [lines] at plain ⊢
    have slotLines : ∀ l : List Slot, (∀ s ∈ l, Plain s.line) →
        (settings (l.map Slot.line)).filter (·.property = p) =
          (l.filter (·.property = p)).map fun s => ⟨p, none, s.value⟩ := by
      intro l each
      induction l with
      | nil => rfl
      | cons s l ih =>
        have here := @settings_slot s [] (by rw [List.append_nil]; exact each s List.mem_cons_self)
        rw [List.append_nil, List.append_nil] at here
        have split : settings ((s :: l).map Slot.line) =
            settings [s.line] ++ settings (l.map Slot.line) := settings_append [s.line] _
        rw [split, here, List.filter_append,
          ih fun s' member => each s' (List.mem_cons_of_mem s member)]
        by_cases mine : s.property = p
        · simp [mine]
        · simp [mine]
    rw [settings_append, List.filter_append, slotLines]
    · rfl
    · exact fun s member => plain s.line (List.mem_append_left _ (List.mem_map_of_mem member))

theorem sets_other (fits : ∀ s ∈ slots, s.Fits) {p : Property}
    (other : ∀ s ∈ slots ++ added, s.property ≠ p) {m : Mark} (plain : Plain m.1.whole) :
    sets slots added p m = ownSetting p m.1.whole := by
  obtain ⟨c, place⟩ := m
  unfold sets
  cases place with
  | outside => rfl
  | inside =>
    dsimp only
    cases found : slots.find? (·.hit c.head) with
    | none => rfl
    | some s =>
      have member := List.mem_of_find?_eq_some found
      have hit : s.hit c.head = true := by simpa using List.find?_some found
      have begins := begins_append ((fits s member).begins _ hit) c.tail
      have differs := other s (List.mem_append_left _ member)
      dsimp only
      rw [if_neg differs]
      exact (ownSetting_of_hit (fits s member) begins plain differs).symm
  | final =>
    have none : added.filter (·.property = p) = [] := by
      rw [List.filter_eq_nil_iff]
      intro s member
      simpa using other s (List.mem_append_right _ member)
    dsimp only
    rw [none]
    rfl

theorem settings_flatMap (p : Property) {ms : List Mark}
    (plain : ∀ m ∈ ms, ∀ l ∈ wholes (rewritten slots added m), Plain l) :
    (settings (ms.flatMap fun m => wholes (rewritten slots added m))).filter (·.property = p) =
      ms.flatMap (sets slots added p) := by
  induction ms with
  | nil => rfl
  | cons m ms ih =>
    rw [List.flatMap_cons, settings_append, List.filter_append,
      settings_rewritten p (plain m List.mem_cons_self),
      ih fun m' member => plain m' (List.mem_cons_of_mem m member), List.flatMap_cons]

theorem settings_map (p : Property) (ms : List Mark) :
    (settings (ms.map fun m => m.1.whole)).filter (·.property = p) =
      ms.flatMap fun m => ownSetting p m.1.whole := by
  induction ms with
  | nil => rfl
  | cons m ms ih =>
    have split : settings ((m :: ms).map fun m => m.1.whole) =
        settings [m.1.whole] ++ settings (ms.map fun m => m.1.whole) :=
      settings_append [m.1.whole] _
    rw [split, List.filter_append, ih, List.flatMap_cons]
    rfl

/-! ### The change read back -/

theorem placed_final {cs : List ContentLine} {inEvent : Bool} :
    ∀ m ∈ placed cs inEvent, m.2 = .final → endsEvent m.1.head = true := by
  induction cs generalizing inEvent with
  | nil => exact fun m member => (nomatch member)
  | cons c rest ih =>
    intro m member final
    rw [placed] at member
    split at member
    · rcases List.mem_cons.mp member with rfl | later
      · cases final
      · exact ih m later final
    · split at member
      · next ends =>
        rcases List.mem_cons.mp member with rfl | later
        · exact ends
        · obtain ⟨_, -, rfl⟩ := List.mem_map.mp later
          cases final
      · rcases List.mem_cons.mp member with rfl | later
        · cases inEvent <;> cases final
        · exact ih m later final

theorem placed_lines (cs : List ContentLine) (inEvent : Bool) :
    (placed cs inEvent).map Prod.fst = cs := by
  induction cs generalizing inEvent with
  | nil => rfl
  | cons c rest ih =>
    rw [placed]
    split
    · rw [List.map_cons, ih]
    · split
      · rw [List.map_cons, List.map_map]
        exact congrArg (c :: ·) (List.map_id rest)
      · rw [List.map_cons, ih]

theorem heard_subset (ms : List Mark) (inEvent : Bool) : ∀ m ∈ heard ms inEvent, m ∈ ms := by
  induction ms generalizing inEvent with
  | nil => exact fun m member => (nomatch member)
  | cons first ms ih =>
    intro m member
    rw [heard] at member
    split_ifs at member
    · exact List.mem_cons_of_mem first (ih true m member)
    · rw [List.mem_singleton.mp member]
      exact List.mem_cons_self
    · cases member
    · rcases List.mem_cons.mp member with rfl | later
      · exact List.mem_cons_self
      · exact List.mem_cons_of_mem first (ih true m later)
    · exact List.mem_cons_of_mem first (ih false m member)

theorem rewritten_none (m : Mark) : rewritten [] [] m = [m.1] := by
  obtain ⟨c, place⟩ := m
  cases place <;> rfl

/-- Settings that agree on a property leave it the same. -/
theorem only_of_filter (crates : Crates) {p : Property} {l l' : List Setting}
    (same : l.filter (·.property = p) = l'.filter (·.property = p)) :
    only (applyAll crates l {}) p = only (applyAll crates l' {}) p := by
  by_cases attach : p = .attach
  · subst attach
    simp only [only, (@lists_applyAll crates _ _).1, same]
  · by_cases categories : p = .categories
    · subst categories
      simp only [only, (@lists_applyAll crates _ _).2, same]
    · rw [only_from_start ⟨attach, categories⟩, only_from_start ⟨attach, categories⟩]
      simp only [effect, lastOf, same]

end Changed

/-- The lines of the event, with the writer's places. -/
def eventMarks (raw : Str) : List Mark :=
  heard (placed (contentLines (physicalLines raw)) false) false

/-- The last to set the property after the change: a replaced line, an added one, or one that is
left. -/
def lastSet (slots : List Slot) (p : Property) (raw : Str) : Option Setting :=
  ((eventMarks raw).flatMap (sets slots (missing slots (physicalLines raw)) p)).getLast?

/-- The event of the physical lines, whose line ends are written anew. -/
def relined (crates : Crates) (raw : Str) : ParsedEvent :=
  parseLines crates (refold (physicalLines raw)) false {}

/-- What a setting makes of its property. -/
def settled (crates : Crates) (s : Option Setting) : ParsedEvent :=
  (s.map (apply crates {})).getD {}

section Reading

variable {slots : List Slot} {raw : Str}

theorem editEvent_plain {f : Str → Str} {lines : List Str} (plain : ∀ l ∈ lines, Plain l)
    (edits : ∀ l ∈ lines, Plain (f l)) (inEvent : Bool) :
    ∀ l ∈ editEvent f lines inEvent, Plain l := by
  induction lines generalizing inEvent with
  | nil => exact fun l member => (nomatch member)
  | cons line rest ih =>
    obtain ⟨here, later⟩ := List.forall_mem_cons.mp plain
    obtain ⟨edited, others⟩ := List.forall_mem_cons.mp edits
    rw [editEvent]
    split
    · exact List.forall_mem_cons.mpr ⟨here, ih later others true⟩
    · split
      · exact plain
      · refine List.forall_mem_cons.mpr ⟨?_, ih later others inEvent⟩
        cases inEvent
        · exact here
        · exact edited

theorem insertAll_subset (added lines : List Str) :
    ∀ l ∈ insertAll added lines, l ∈ added ∨ l ∈ lines := by
  induction lines with
  | nil => exact fun l member => (nomatch member)
  | cons line rest ih =>
    intro l member
    rw [insertAll] at member
    split at member
    · exact List.mem_append.mp member
    · rcases List.mem_cons.mp member with rfl | later
      · exact .inr List.mem_cons_self
      · exact (ih l later).imp_right (List.mem_cons_of_mem line)

theorem change_plain (fits : ∀ s ∈ slots, s.Fits) (raw : Str) :
    ∀ l ∈ change slots (physicalLines raw), Plain l := by
  intro l member
  rcases insertAll_subset _ _ l member with new | old
  · obtain ⟨s, among, rfl⟩ := List.mem_map.mp new
    exact (fits s (List.mem_of_mem_filter among)).line_plain
  · refine editEvent_plain (physicalLines_plain raw) (fun l' inside => ?_) false l old
    obtain ⟨-, same⟩ | ⟨s, among, -, new⟩ := edit_cases slots l'
    · rw [same]
      exact physicalLines_plain raw l' inside
    · rw [new]
      exact (fits s among).line_plain

theorem change_ne_nil (slots : List Slot) (raw : Str) : change slots (physicalLines raw) ≠ [] := by
  obtain ⟨line, rest, shape⟩ := List.exists_cons_of_ne_nil
    (show physicalLines raw ≠ [] by simp [physicalLines, split_ne_nil])
  have edited : ∃ first others,
      editEvent (edit slots) (physicalLines raw) false = first :: others := by
    rw [shape, editEvent]
    split
    · exact ⟨_, _, rfl⟩
    · split <;> exact ⟨_, _, rfl⟩
  obtain ⟨first, others, edited⟩ := edited
  unfold change
  rw [edited, insertAll]
  split <;> simp

/-- The changed text is read as the rewritten lines. -/
theorem parseLines_change (crates : Crates) (fits : ∀ s ∈ slots, s.Fits) (raw : Str) :
    parseLines crates (unfoldLines (joinLines (change slots (physicalLines raw)))) false {} =
      applyAll crates (settings ((eventMarks raw).flatMap fun m =>
        wholes (rewritten slots (missing slots (physicalLines raw)) m))) {} ∧
      ∀ m ∈ eventMarks raw,
        ∀ l ∈ wholes (rewritten slots (missing slots (physicalLines raw)) m), Plain l := by
  have plain := change_plain fits raw
  have read : refold (change slots (physicalLines raw)) =
      (placed (contentLines (physicalLines raw)) false).flatMap fun m =>
        wholes (rewritten slots (missing slots (physicalLines raw)) m) := by
    rw [refold_eq plain, contentLines_change fits, List.map_flatMap]
    rfl
  have each : ∀ m ∈ placed (contentLines (physicalLines raw)) false,
      ∀ l ∈ wholes (rewritten slots (missing slots (physicalLines raw)) m), Plain l := by
    intro m member l inside
    apply refold_plain plain
    rw [read]
    exact List.mem_flatMap.mpr ⟨m, member, inside⟩
  have fitsAdded : ∀ s ∈ missing slots (physicalLines raw), s.Fits := fun s member =>
    fits s (List.mem_of_mem_filter member)
  refine ⟨?_, fun m member => each m (heard_subset _ _ m member)⟩
  rw [unfoldLines_joinLines (change_ne_nil slots raw) plain, read]
  exact parseLines_rewritten crates fits fitsAdded placed_final each false {}

theorem parseLines_relined (crates : Crates) (raw : Str) :
    relined crates raw = applyAll crates (settings ((eventMarks raw).map fun m => m.1.whole)) {} ∧
      ∀ m ∈ eventMarks raw, Plain m.1.whole := by
  have plain := physicalLines_plain raw
  have noSlots : ∀ s ∈ ([] : List Slot), s.Fits := fun s member => (nomatch member)
  have single (ms : List Mark) : (ms.flatMap fun m => wholes (rewritten [] [] m)) =
      ms.map fun m => m.1.whole := by
    rw [← List.flatMap_pure_eq_map]
    exact List.flatMap_congr fun m _ => by rw [rewritten_none]; rfl
  have read : refold (physicalLines raw) =
      (placed (contentLines (physicalLines raw)) false).flatMap fun m =>
        wholes (rewritten [] [] m) := by
    rw [single, refold_eq plain]
    conv_lhs => rw [← placed_lines (contentLines (physicalLines raw)) false]
    rw [List.map_map]
    rfl
  have each : ∀ m ∈ placed (contentLines (physicalLines raw)) false,
      ∀ l ∈ wholes (rewritten [] [] m), Plain l := by
    intro m member l inside
    apply refold_plain plain
    rw [read]
    exact List.mem_flatMap.mpr ⟨m, member, inside⟩
  constructor
  · rw [relined, read, parseLines_rewritten crates noSlots noSlots placed_final each, single]
    rfl
  · intro m member
    apply each m (heard_subset _ _ m member)
    rw [rewritten_none]
    exact List.mem_singleton_self _

/-- A property with a slot is what is last set of it; the others stay as the line ends leave
them. -/
theorem only_change (crates : Crates) (fits : ∀ s ∈ slots, s.Fits) (raw : Str) (p : Property) :
    only (parseLines crates (unfoldLines (joinLines (change slots (physicalLines raw)))) false {})
        p =
      if p ∈ slots.map Slot.property then settled crates (lastSet slots p raw)
      else only (relined crates raw) p := by
  obtain ⟨changed, plain⟩ := parseLines_change crates fits raw
  obtain ⟨same, plain'⟩ := parseLines_relined crates raw
  have filtered := settings_flatMap p plain
  rw [changed]
  split_ifs with slot
  · obtain ⟨s, member, rfl⟩ := List.mem_map.mp slot
    have overwritten : Overwritten s.property := by
      have kind := (fits s member).kind
      constructor <;> intro same' <;> rw [same'] at kind <;> exact absurd kind (by decide)
    rw [only_from_start overwritten, effect, lastOf, filtered]
    unfold settled lastSet
    cases ((eventMarks raw).flatMap
      (sets slots (missing slots (physicalLines raw)) s.property)).getLast? <;> rfl
  · rw [same]
    apply only_of_filter
    have other : ∀ s ∈ slots ++ missing slots (physicalLines raw), s.property ≠ p := by
      rintro s member rfl
      rcases List.mem_append.mp member with given | added
      · exact slot (List.mem_map_of_mem given)
      · exact slot (List.mem_map_of_mem (List.mem_of_mem_filter added))
    rw [filtered, settings_map]
    exact List.flatMap_congr fun m member => sets_other fits other (plain' m member)

/-- An event as two of them compare: its times by their instants. -/
def shown (ev : ParsedEvent) : ParsedEvent × List (Option Int) :=
  ({ ev with dtstart := none, dtend := none, dtstamp := none },
    [ev.dtstart, ev.dtend, ev.dtstamp].map (Option.map (·.instant)))

theorem shown_eq_iff {ev ev' : ParsedEvent} :
    shown ev = shown ev' ↔ ∀ p, shown (only ev p) = shown (only ev' p) := by
  constructor
  · intro same p
    simp only [shown, List.map_cons, List.map_nil, Prod.mk.injEq, ParsedEvent.mk.injEq,
      List.cons.injEq] at same
    cases p <;> simp [shown, only, same]
  · intro same
    simp only [shown, List.map_cons, List.map_nil, Prod.mk.injEq, ParsedEvent.mk.injEq,
      List.cons.injEq]
    have field {α : Type} (p : Property) (f : ParsedEvent × List (Option Int) → α) :=
      congrArg f (same p)
    have time (p : Property) (n : Nat) := field p fun view => view.2[n]?.join
    exact ⟨⟨field .uid (·.1.uid), field .summary (·.1.summary),
      field .description (·.1.description), field .location (·.1.location), trivial, trivial,
      trivial,
      field .rrule (·.1.rrule), field .status (·.1.status),
      field .classification (·.1.classification), field .transp (·.1.transp),
      field .organizer (·.1.organizerEmail), field .sequence (·.1.sequence),
      field .attach (·.1.attachments), field .categories (·.1.categories)⟩,
      time .dtstart 0, time .dtend 1, time .dtstamp 2, trivial⟩

/-- The text is read as the event. -/
def ReadsAs (crates : Crates) (text : Str) (ev : ParsedEvent) : Prop :=
  ∃ read, parseVevent crates text = .ok read ∧ shown read = shown ev

/-- Line ends that are written anew leave the properties without a slot as they are in the event. -/
def Keeps (crates : Crates) (slots : List Slot) (raw : Str) (ev : ParsedEvent) : Prop :=
  ∀ p ∉ slots.map Slot.property, shown (only (relined crates raw) p) = shown (only ev p)

theorem reads_change_iff {crates : Crates} (fits : ∀ s ∈ slots, s.Fits) {ev : ParsedEvent}
    (named : ev.uid ≠ []) :
    ReadsAs crates (joinLines (change slots (physicalLines raw))) ev ↔
      Keeps crates slots raw ev ∧ ∀ s ∈ slots,
        shown (settled crates (lastSet slots s.property raw)) = shown (only ev s.property) := by
  have reads : ReadsAs crates (joinLines (change slots (physicalLines raw))) ev ↔
      shown (parseLines crates (unfoldLines (joinLines (change slots (physicalLines raw))))
        false {}) = shown ev := by
    constructor
    · rintro ⟨read, accepted, same⟩
      rw [(parseVevent_eq_iff.mp accepted).2, same]
    · intro same
      have uid : (parseLines crates _ false {}).uid = ev.uid :=
        congrArg (fun view => view.1.uid) same
      exact ⟨_, parseVevent_eq_iff.mpr ⟨fun empty => named (uid.symm.trans empty), rfl⟩, same⟩
  rw [reads, shown_eq_iff]
  have each := only_change crates fits raw
  constructor
  · intro same
    constructor
    · intro p free
      rw [← same p, each p, if_neg free]
    · intro s member
      rw [← same s.property, each s.property, if_pos (List.mem_map_of_mem member)]
  · rintro ⟨kept, lands⟩ p
    rw [each p]
    split_ifs with slot
    · obtain ⟨s, member, rfl⟩ := List.mem_map.mp slot
      exact lands s member
    · exact kept p slot

theorem lastSet_property {p : Property} {set : Setting} (last : set ∈ lastSet slots p raw) :
    set.property = p := by
  obtain ⟨m, -, inside⟩ := List.mem_flatMap.mp (List.mem_of_mem_getLast? last)
  have own {line : Str} (member : set ∈ ownSetting p line) : set.property = p := by
    simpa using (List.mem_filter.mp member).2
  unfold sets at inside
  split at inside
  · exact own inside
  · split at inside
    · split_ifs at inside
      · rw [List.mem_singleton.mp inside]
      · cases inside
    · exact own inside
  · rcases List.mem_append.mp inside with new | old
    · obtain ⟨s, -, rfl⟩ := List.mem_map.mp new
      rfl
    · exact own old

/-- The instant that the last line to set a time gives it. -/
def lastInstant (crates : Crates) (slots : List Slot) (p : Property) (raw : Str) : Option Int :=
  (lastSet slots p raw).bind fun s => (parseDt crates s.params s.value).map (·.instant)

/-- The status that the last line to set it gives it. -/
def lastStatus (slots : List Slot) (raw : Str) : Option Str :=
  (lastSet slots .status raw).map fun s => toAsciiUppercase s.value

theorem settled_start_iff (crates : Crates) (t : Time.OffsetDateTime) :
    shown (settled crates (lastSet slots .dtstart raw)) = shown { dtstart := some t } ↔
      lastInstant crates slots .dtstart raw = some t.instant := by
  unfold lastInstant
  cases last : lastSet slots .dtstart raw with
  | none => simp [settled, shown]
  | some set =>
    have property : set.property = .dtstart := lastSet_property last
    simp [settled, shown, apply, property, ParsedEvent.set]

theorem settled_stop_iff (crates : Crates) (t : Time.OffsetDateTime) :
    shown (settled crates (lastSet slots .dtend raw)) = shown { dtend := some t } ↔
      lastInstant crates slots .dtend raw = some t.instant := by
  unfold lastInstant
  cases last : lastSet slots .dtend raw with
  | none => simp [settled, shown]
  | some set =>
    have property : set.property = .dtend := lastSet_property last
    simp [settled, shown, apply, property, ParsedEvent.set]

theorem settled_status_iff (crates : Crates) (status : Str) :
    shown (settled crates (lastSet slots .status raw)) = shown { status := some status } ↔
      lastStatus slots raw = some status := by
  unfold lastStatus
  cases last : lastSet slots .status raw with
  | none => simp [settled, shown]
  | some set =>
    have property : set.property = .status := lastSet_property last
    simp [settled, shown, apply, property, ParsedEvent.set]

end Reading

/-! ### When the changes are read back -/

section Changes

variable {crates : Crates} {raw : Str} {ev : ParsedEvent}

theorem mem_timeSlots {start stop : Option Time.OffsetDateTime} {s : Slot} :
    s ∈ timeSlots start stop ↔
      (∃ t ∈ start, s = ⟨.dtstart, startsWith "DTSTART".toList, fmtDt t⟩) ∨
        ∃ t ∈ stop, s = ⟨.dtend, startsWith "DTEND".toList, fmtDt t⟩ := by
  unfold timeSlots
  cases start <;> cases stop <;> simp

theorem utcOf_cases {time utc : Option Time.OffsetDateTime} (made : utcOf time = .ok utc) :
    time = none ∧ utc = none ∨ ∃ t u, time = some t ∧ utc = some u := by
  cases time with
  | none =>
    cases made
    exact .inl ⟨rfl, rfl⟩
  | some t =>
    change ((toUtc t).map some).mapError ReplyError.panic = .ok utc at made
    cases converted : toUtc t with
    | error panic =>
      rw [converted] at made
      cases made
    | ok u =>
      rw [converted] at made
      cases made
      exact .inr ⟨t, u, rfl, rfl⟩

/-- What is not proposed is compared with the event itself. -/
theorem keeps_proposed {start stop utcStart utcStop : Option Time.OffsetDateTime}
    (started : utcOf start = .ok utcStart) (stopped : utcOf stop = .ok utcStop) :
    Keeps crates (timeSlots utcStart utcStop) raw
        { ev with dtstart := start.or ev.dtstart, dtend := stop.or ev.dtend } ↔
      Keeps crates (timeSlots utcStart utcStop) raw ev := by
  apply forall₂_congr
  intro p free
  have same : only { ev with dtstart := start.or ev.dtstart, dtend := stop.or ev.dtend } p =
      only ev p := by
    cases p with
    | dtstart =>
      obtain ⟨rfl, rfl⟩ | ⟨t, u, rfl, rfl⟩ := utcOf_cases started
      · rfl
      · exact absurd (List.mem_map_of_mem (mem_timeSlots.2 (.inl ⟨u, rfl, rfl⟩))) free
    | dtend =>
      obtain ⟨rfl, rfl⟩ | ⟨t, u, rfl, rfl⟩ := utcOf_cases stopped
      · rfl
      · exact absurd (List.mem_map_of_mem (mem_timeSlots.2 (.inr ⟨u, rfl, rfl⟩))) free
    | _ => rfl
  rw [same]

theorem reads_times_iff (named : ev.uid ≠ [])
    {start stop utcStart utcStop : Option Time.OffsetDateTime} {result : Str}
    (started : utcOf start = .ok utcStart) (stopped : utcOf stop = .ok utcStop)
    (applied : applyProposedTimes raw utcStart utcStop = .ok result) :
    ReadsAs crates result { ev with dtstart := start.or ev.dtstart, dtend := stop.or ev.dtend } ↔
      Keeps crates (timeSlots utcStart utcStop) raw ev ∧
        (∀ t ∈ start,
          lastInstant crates (timeSlots utcStart utcStop) .dtstart raw = some t.instant) ∧
        ∀ t ∈ stop,
          lastInstant crates (timeSlots utcStart utcStop) .dtend raw = some t.instant := by
  have proposed : ({ ev with dtstart := start.or ev.dtstart, dtend := stop.or ev.dtend } :
    ParsedEvent).uid ≠ [] := named
  rw [applyProposedTimes_eq applied, reads_change_iff fits_times proposed,
    keeps_proposed started stopped]
  apply and_congr_right'
  have startIff (t : Time.OffsetDateTime) := @settled_start_iff (timeSlots utcStart utcStop) raw
    crates t
  have stopIff (t : Time.OffsetDateTime) := @settled_stop_iff (timeSlots utcStart utcStop) raw
    crates t
  constructor
  · intro lands
    constructor
    · rintro t rfl
      obtain ⟨absent, -⟩ | ⟨-, u, -, rfl⟩ := utcOf_cases started
      · cases absent
      · have landed := lands _ (mem_timeSlots.2 (.inl ⟨u, rfl, rfl⟩))
        dsimp only [only, Option.some_or] at landed
        exact (startIff t).mp landed
    · rintro t rfl
      obtain ⟨absent, -⟩ | ⟨-, u, -, rfl⟩ := utcOf_cases stopped
      · cases absent
      · have landed := lands _ (mem_timeSlots.2 (.inr ⟨u, rfl, rfl⟩))
        dsimp only [only, Option.some_or] at landed
        exact (stopIff t).mp landed
  · rintro ⟨first, last⟩ s member
    obtain ⟨u, rfl, rfl⟩ | ⟨u, rfl, rfl⟩ := mem_timeSlots.1 member
    · obtain ⟨-, absent⟩ | ⟨t, v, rfl, -⟩ := utcOf_cases started
      · cases absent
      · dsimp only [only, Option.some_or]
        exact (startIff t).mpr (first t rfl)
    · obtain ⟨-, absent⟩ | ⟨t, v, rfl, -⟩ := utcOf_cases stopped
      · cases absent
      · dsimp only [only, Option.some_or]
        exact (stopIff t).mpr (last t rfl)

theorem reads_status_iff (named : ev.uid ≠ []) {status result : Str} (plain : Plain status)
    (set : setStatus raw status = .ok result) :
    ReadsAs crates result { ev with status := some (toAsciiUppercase status) } ↔
      Keeps crates [statusSlot status] raw ev ∧
        lastStatus [statusSlot status] raw = some (toAsciiUppercase status) := by
  have fits : ∀ s ∈ [statusSlot status], s.Fits := fun s member => by
    rw [List.mem_singleton.mp member]
    exact fits_status plain
  have kept : Keeps crates [statusSlot status] raw
      { ev with status := some (toAsciiUppercase status) } ↔
      Keeps crates [statusSlot status] raw ev := by
    apply forall₂_congr
    intro p free
    have same : only { ev with status := some (toAsciiUppercase status) } p = only ev p := by
      cases p with
      | status => exact absurd (List.mem_singleton_self _) free
      | _ => rfl
    rw [same]
  have renamed : ({ ev with status := some (toAsciiUppercase status) } : ParsedEvent).uid ≠ [] :=
    named
  rw [setStatus_eq set, reads_change_iff fits renamed, kept]
  apply and_congr_right'
  rw [List.forall_mem_singleton]
  exact settled_status_iff crates _

end Changes

/-- The accepted text with the proposed times is read as the event with these times just when the
last line to set each reads as its instant, and the new line ends change nothing else; so is the
one with the status set. -/
theorem change_reads_back_iff {crates : Crates} {raw : Str} {ev : ParsedEvent}
    (accepted : parseVevent crates raw = .ok ev) :
    (∀ start stop utcStart utcStop result, utcOf start = .ok utcStart →
      utcOf stop = .ok utcStop → applyProposedTimes raw utcStart utcStop = .ok result →
      (ReadsAs crates result
          { ev with dtstart := start.or ev.dtstart, dtend := stop.or ev.dtend } ↔
        Keeps crates (timeSlots utcStart utcStop) raw ev ∧
          (∀ t ∈ start,
            lastInstant crates (timeSlots utcStart utcStop) .dtstart raw = some t.instant) ∧
          ∀ t ∈ stop,
            lastInstant crates (timeSlots utcStart utcStop) .dtend raw = some t.instant)) ∧
    ∀ status result, Plain status → setStatus raw status = .ok result →
      (ReadsAs crates result { ev with status := some (toAsciiUppercase status) } ↔
        Keeps crates [statusSlot status] raw ev ∧
          lastStatus [statusSlot status] raw = some (toAsciiUppercase status)) := by
  have named := (parseVevent_eq_iff.mp accepted).1
  exact ⟨fun start stop utcStart utcStop result started stopped applied =>
      reads_times_iff named started stopped applied,
    fun status result plain set => reads_status_iff named plain set⟩

/-- An event that starts at the value of its line. -/
def planned (start : String) : Str :=
  ("BEGIN:VEVENT\r\nUID:1\r\nDTSTART" ++ start ++ "\r\nEND:VEVENT\r\n").toList

def plannedFor (start : Time.OffsetDateTime) : ParsedEvent where
  uid := "1".toList
  dtstart := some start

def tenOnFirst : Time.OffsetDateTime :=
  .assumeUtc ⟨2026, .may, 1, Time.year_2026, Time.may_first⟩ 36000000000000 Time.ten_range

def tenOnSecond : Time.OffsetDateTime :=
  .assumeUtc ⟨2026, .may, 2, Time.year_2026, by decide⟩ 36000000000000 Time.ten_range

theorem change_reads_back_planned :
    ReadsAs sampleCrates (planned ":20260502T100000Z") (plannedFor tenOnSecond) := by
  have accepted : parseVevent sampleCrates (planned ":20260501T100000Z") =
      .ok (plannedFor tenOnFirst) := by decide
  have same : relined sampleCrates (planned ":20260501T100000Z") = plannedFor tenOnFirst := by
    decide
  refine ((change_reads_back_iff accepted).1 (some tenOnSecond) none (some tenOnSecond) none
    (planned ":20260502T100000Z") (by decide) rfl (by decide)).mpr
      ⟨fun p _ => by rw [same], ?_, fun t absent => nomatch absent⟩
  intro t given
  cases given
  decide

/-- The start stands on a second line, which is left behind the new one. -/
theorem folded_start_stays :
    parseVevent sampleCrates (planned ";TZID=UTC:\r\n 20260501T100000Z") =
        .ok (plannedFor tenOnFirst) ∧
      applyProposedTimes (planned ";TZID=UTC:\r\n 20260501T100000Z") (some tenOnSecond) none =
        .ok (planned ":20260502T100000Z\r\n 20260501T100000Z") ∧
      parseVevent sampleCrates (planned ":20260502T100000Z\r\n 20260501T100000Z") =
        .ok { uid := "1".toList } ∧
      ¬ReadsAs sampleCrates (planned ":20260502T100000Z\r\n 20260501T100000Z")
        (plannedFor tenOnSecond) := by
  have read : parseVevent sampleCrates (planned ":20260502T100000Z\r\n 20260501T100000Z") =
      .ok { uid := "1".toList } := by decide
  refine ⟨by decide, by decide, read, ?_⟩
  rintro ⟨event, accepted, same⟩
  cases read.symm.trans accepted
  exact absurd same (by decide)

end Expresso.CalDav.Itip
