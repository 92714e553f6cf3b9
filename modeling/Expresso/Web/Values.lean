import Expresso.CalDav.Nested
import Expresso.Web.Lines

/-! The values of a written event under each head, and what the calendar service reads in them. -/

namespace Expresso.Web
open Text hiding contains
open Time
open CalDav (terminated formatUtc escapeText unescapeText Crates ParsedEvent Property chomp
  parseLines parseVevent unfoldLines trimEndMatches splitHead)
open CalDav.Nested (Setting settingOf settings opens closes Apart applyAll)

/-- The values under a head. -/
def values (head : Head) (l : List Field) : List Str :=
  l.filterMap fun field => if field.1 = head then some field.2 else none

theorem values_append (head : Head) (l l' : List Field) :
    values head (l ++ l') = values head l ++ values head l' := List.filterMap_append

theorem values_nil (head : Head) : values head [] = [] := rfl

theorem values_cons (head other : Head) (v : Str) (l : List Field) :
    values head ((other, v) :: l) =
      if other = head then v :: values head l else values head l := by
  unfold values
  rw [List.filterMap_cons]
  split
  · next none_ =>
    split at none_
    · cases none_
    · next apart => rw [if_neg apart]
  · next v' some_ =>
    split at some_
    · next same =>
      cases some_
      rw [if_pos same]
    · cases some_

theorem values_map {α : Type} (head other : Head) (value : α → Str) (l : List α) :
    values head (l.map fun a => (other, value a)) =
      if other = head then l.map value else [] := by
  induction l with
  | nil => split <;> rfl
  | cons a rest ih =>
    rw [List.map_cons, values_cons, ih]
    split <;> rfl

theorem values_ite {c : Prop} [Decidable c] (head : Head) (l l' : List Field) :
    values head (if c then l else l') = if c then values head l else values head l' := by
  split <;> rfl

theorem values_nonempty (head other : Head) (v : Str) :
    values head (nonempty other v) =
      if other = head then (if v.isEmpty then [] else [v]) else [] := by
  unfold nonempty
  rw [values_ite, values_cons, values_nil]
  by_cases same : other = head
  · rw [if_pos same, if_pos same]
  · rw [if_neg same, if_neg same]
    split <;> rfl

theorem values_map_id (head other : Head) (l : List Str) :
    values head (l.map fun v => (other, v)) = if other = head then l else [] := by
  have same := values_map head other id l
  rw [List.map_id] at same
  exact same

/-- The heads that are looked for. -/
def Head.sought : Head → Bool
  | uid | summary | location | description | categories | attach | attendee | room | trigger => true
  | _ => false

theorem values_buildValarms {head : Head} (sought : head.sought = true)
    (reminders summary : Str) : values head (buildValarms reminders summary) =
      if head = .trigger then
        (reminderMinutes reminders).map fun m : Nat => "-PT".toList ++ display m ++ ['M']
      else if head = .description then
        (reminderMinutes reminders).map fun _ => escapeIcal summary
      else [] := by
  unfold buildValarms
  induction reminderMinutes reminders with
  | nil =>
    rw [List.map_nil, List.map_nil, List.flatMap_nil, values_nil]
    cases head <;> rfl
  | cons m rest ih =>
    rw [List.flatMap_cons, values_append, ih]
    cases head <;> first | rfl | cases sought

section
variable (o : Occasion) (f : EventForm)

def escapedText (v : Str) : List Str :=
  if (trim v).isEmpty then [] else [escapeIcal (trim v)]

/-- What the event has under a head. -/
def detailValues (head : Head) : List Str :=
  match head with
  | .summary => [escapeIcal (trim f.summary)]
  | .location => escapedText f.location
  | .description => escapedText f.description ++
      (reminderMinutes f.reminders).map fun _ => escapeIcal (trim f.summary)
  | .categories =>
      if (formatCategories f.categories).isEmpty then [] else [formatCategories f.categories]
  | .attach => parseAttachmentUris f.attachments
  | .attendee => (parseAttendees f.attendees).map ("mailto:".toList ++ ·)
  | .room => (parseResourceEmails f.resources).map ("mailto:".toList ++ ·)
  | .trigger => (reminderMinutes f.reminders).map fun m : Nat =>
      "-PT".toList ++ display m ++ ['M']
  | _ => []

theorem values_organizerLines {head : Head} (sought : head.sought = true) :
    values head (organizerLines o) = [] := by
  have other : Head.organizer ≠ head := by
    rintro rfl
    cases sought
  unfold organizerLines
  split
  · rw [values_ite, values_nil, values_cons, if_neg other, values_nil]
    split <;> rfl
  · rfl

theorem values_details (live : o.method ≠ .cancel) {head : Head} (sought : head.sought = true) :
    values head (details o f) = detailValues f head := by
  unfold details
  simp only [if_neg live, if_pos live, values_append, values_organizerLines o sought, values_ite,
    values_cons, values_nil, values_map, values_map_id, values_nonempty,
    values_buildValarms sought]
  cases head <;> first
    | (cases sought; done)
    | simp only [reduceCtorEq, if_false, if_true, List.append_nil, List.nil_append, ite_self,
        detailValues, escapedText]

/-- All but the identifier stand among the details. -/
theorem values_fields (live : o.method ≠ .cancel) {head : Head} (sought : head.sought = true)
    (other : head ≠ .uid) (dtstart dtend : Str) :
    values head (fields o f dtstart dtend) = detailValues f head := by
  unfold fields opening ending
  simp only [values_append, values_details o f live sought, values_cons, values_nil]
  cases method : o.method with
  | stored =>
    cases head <;> first
      | (cases sought; done)
      | exact absurd rfl other
      | simp only [Method.text, Option.map_none, Option.toList_none, values_nil, reduceCtorEq,
          if_false, List.append_nil, List.nil_append]
  | request =>
    cases head <;> first
      | (cases sought; done)
      | exact absurd rfl other
      | simp only [Method.text, Option.map_some, Option.toList_some, values_cons, values_nil,
          reduceCtorEq, if_false, List.append_nil, List.nil_append]
  | cancel => exact absurd method live

end

/-! ### The calendar service -/

/-- The property under a head. -/
def Head.property : Head → Option Property
  | uid => some .uid
  | dtstamp => some .dtstamp
  | dtstart => some .dtstart
  | dtend => some .dtend
  | status => some .status
  | sequence => some .sequence
  | summary => some .summary
  | location => some .location
  | description => some .description
  | categories => some .categories
  | attach => some .attach
  | organizer => some .organizer
  | _ => none

theorem splitHead_text (head : Head) :
    Property.named (splitHead head.text.toList).1 = head.property := by
  cases head <;> rw [Head.text, String.toList_ofList] <;> decide

theorem chomp_lineOf (field : Field) :
    chomp (lineOf field) = field.1.text.toList ++ ':' :: chomp field.2 := by
  have text : lineOf field = (field.1.text.toList ++ [':']) ++ field.2 := by simp [lineOf]
  rw [text, CalDav.chomp_append (by simp)]
  simp

theorem settingOf_lineOf (field : Field) : settingOf (lineOf field) =
    field.1.property.map fun property =>
      ⟨property, (splitHead field.1.text.toList).2, chomp field.2⟩ := by
  have chomped := chomp_lineOf field
  unfold settingOf
  rw [show trimEndMatches '\r' (lineOf field) = _ from chomped,
    splitOnce_append (text_facts field.1).2.1, Option.bind_some]
  show Option.map _ (Property.named (splitHead field.1.text.toList).1) = _
  rw [splitHead_text]

/-- The head and the value of a line, in upper case. -/
theorem upper_lineOf (field : Field) :
    splitOnce ':' (toAsciiUppercase (trimEndMatches '\r' (lineOf field))) =
      some (toAsciiUppercase field.1.text.toList, toAsciiUppercase (chomp field.2)) := by
  have noColon : ':' ∉ toAsciiUppercase field.1.text.toList := by
    cases field.1 <;> rw [Head.text, String.toList_ofList] <;> decide
  have text : toAsciiUppercase (chomp (lineOf field)) =
      toAsciiUppercase field.1.text.toList ++ ':' :: toAsciiUppercase (chomp field.2) := by
    rw [chomp_lineOf]
    simp [toAsciiUppercase]
  rw [show trimEndMatches '\r' (lineOf field) = chomp (lineOf field) from rfl, text,
    splitOnce_append noColon]

theorem upper_text (head : Head) :
    (toAsciiUppercase head.text.toList = "BEGIN".toList → head = .begins) ∧
      (toAsciiUppercase head.text.toList = "END".toList → head = .ends) := by
  cases head <;> rw [Head.text, String.toList_ofList] <;> decide

theorem opens_lineOf_iff (field : Field) : opens (lineOf field) = true ↔
    field.1 = .begins ∧ toAsciiUppercase (chomp field.2) = "VEVENT".toList := by
  have parts := upper_lineOf field
  have named : splitOnce ':' "BEGIN:VEVENT".toList =
      some ("BEGIN".toList, "VEVENT".toList) := by decide
  simp only [opens, CalDav.beginsEvent, decide_eq_true_eq]
  constructor
  · intro begins
    rw [begins, named] at parts
    obtain ⟨head, value⟩ := Prod.ext_iff.mp (Option.some.inj parts)
    exact ⟨(upper_text field.1).1 head.symm, value.symm⟩
  · rintro ⟨head, value⟩
    rw [show trimEndMatches '\r' (lineOf field) = chomp (lineOf field) from rfl, chomp_lineOf, head]
    simp only [toAsciiUppercase, List.map_append, List.map_cons] at value ⊢
    rw [value]
    decide

theorem closes_lineOf_iff (field : Field) : closes (lineOf field) = true ↔
    field.1 = .ends ∧ toAsciiUppercase (chomp field.2) = "VEVENT".toList := by
  have parts := upper_lineOf field
  have named : splitOnce ':' "END:VEVENT".toList =
      some ("END".toList, "VEVENT".toList) := by decide
  simp only [closes, CalDav.endsEvent, decide_eq_true_eq]
  constructor
  · intro ends
    rw [ends, named] at parts
    obtain ⟨head, value⟩ := Prod.ext_iff.mp (Option.some.inj parts)
    exact ⟨(upper_text field.1).2 head.symm, value.symm⟩
  · rintro ⟨head, value⟩
    rw [show trimEndMatches '\r' (lineOf field) = chomp (lineOf field) from rfl, chomp_lineOf, head]
    simp only [toAsciiUppercase, List.map_append, List.map_cons] at value ⊢
    rw [value]
    decide

/-- A component that is no event. -/
def Delimits (field : Field) : Prop :=
  (field.1 = .begins ∨ field.1 = .ends) ∧ toAsciiUppercase (chomp field.2) = "VEVENT".toList

theorem apart_lineOf {field : Field} (other : ¬ Delimits field) : Apart (lineOf field) := by
  constructor
  · apply Bool.eq_false_iff.mpr
    intro begins
    obtain ⟨head, value⟩ := (opens_lineOf_iff field).mp begins
    exact other ⟨.inl head, value⟩
  · apply Bool.eq_false_iff.mpr
    intro ends
    obtain ⟨head, value⟩ := (closes_lineOf_iff field).mp ends
    exact other ⟨.inr head, value⟩

section
variable {crates : Crates}

theorem parseLines_skip {l : List Str} (apart : ∀ line ∈ l, Apart line) (rest : List Str)
    (ev : ParsedEvent) :
    parseLines crates (l ++ rest) false ev = parseLines crates rest false ev := by
  induction l with
  | nil => rfl
  | cons line others ih =>
    obtain ⟨begins, ends⟩ := apart line List.mem_cons_self
    rw [List.cons_append, CalDav.Nested.parseLines_cons, begins, ends,
      if_neg Bool.false_ne_true, if_neg Bool.false_ne_true, if_neg Bool.false_ne_true]
    exact ih fun later member => apart later (List.mem_cons_of_mem line member)

section
variable (o : Occasion) (f : EventForm)

/-- The lines inside the event. -/
def insideFields (dtstart dtend : Str) : List Field :=
  ([(.uid, o.uid), (.dtstamp, formatUtc o.now), (.dtstart, dtstart), (.dtend, dtend)] :
    List Field) ++ details o f

def containerFields : List Field :=
  ([(.begins, "VCALENDAR".toList), (.version, "2.0".toList),
    (.prodid, "-//expresso//web//PT-BR".toList)] : List Field) ++
  (o.method.text.map fun m => (Head.method, m.toList)).toList

theorem fields_eq (dtstart dtend : Str) : fields o f dtstart dtend =
    containerFields o ++ (.begins, "VEVENT".toList) :: (insideFields o f dtstart dtend ++
      ending) := by
  simp only [fields, opening, containerFields, insideFields, List.append_assoc, List.cons_append,
    List.nil_append]

/-- No event begins or ends there. -/
def Within (l : List Field) : Prop := ∀ field ∈ l, ¬ Delimits field

theorem within_append {l l' : List Field} : Within (l ++ l') ↔ Within l ∧ Within l' :=
  List.forall_mem_append

theorem within_nil : Within [] := List.forall_mem_nil _

theorem within_cons {field : Field} {l : List Field} :
    Within (field :: l) ↔ ¬ Delimits field ∧ Within l := List.forall_mem_cons

theorem within_map {head : Head} (plain : head ≠ .begins ∧ head ≠ .ends) (l : List Str) :
    Within (l.map fun v => (head, v)) := by
  intro field member
  obtain ⟨v, -, rfl⟩ := List.mem_map.mp member
  exact fun delimits => delimits.1.elim plain.1 plain.2

theorem within_plain {head : Head} (plain : head ≠ .begins ∧ head ≠ .ends) (v : Str)
    {l : List Field} (rest : Within l) : Within ((head, v) :: l) :=
  within_cons.2 ⟨fun delimits => delimits.1.elim plain.1 plain.2, rest⟩

theorem within_other {head : Head} {v : Str}
    (other : toAsciiUppercase (chomp v) ≠ "VEVENT".toList) {l : List Field} (rest : Within l) :
    Within ((head, v) :: l) :=
  within_cons.2 ⟨fun delimits => other delimits.2, rest⟩

theorem within_ite {c : Prop} [Decidable c] {l l' : List Field} (yes : Within l)
    (no : Within l') : Within (if c then l else l') := by
  split
  · exact yes
  · exact no

theorem containerFields_within : Within (containerFields o) := by
  have method : Within (o.method.text.map fun m => (Head.method, m.toList)).toList := by
    cases o.method.text
    · exact within_nil
    · exact within_plain (by decide) _ within_nil
  unfold containerFields
  rw [within_append]
  exact ⟨within_other (by decide) (within_plain (by decide) _
    (within_plain (by decide) _ within_nil)), method⟩

theorem buildValarms_within (reminders summary : Str) :
    Within (buildValarms reminders summary) := by
  have alarm : toAsciiUppercase (chomp "VALARM".toList) ≠ "VEVENT".toList := by decide
  unfold buildValarms
  induction reminderMinutes reminders with
  | nil => exact within_nil
  | cons m rest ih =>
    rw [List.flatMap_cons, within_append]
    exact ⟨within_other alarm (within_plain (by decide) _ (within_plain (by decide) _
      (within_plain (by decide) _ (within_other alarm within_nil)))), ih⟩

theorem details_within : Within (details o f) := by
  have single {head : Head} (plain : head ≠ .begins ∧ head ≠ .ends) (v : Str) :
      Within [(head, v)] := within_plain plain v within_nil
  have organizer : Within (organizerLines o) := by
    unfold organizerLines
    split
    · exact within_ite within_nil (single (by decide) _)
    · exact within_nil
  have mails {head : Head} (plain : head ≠ .begins ∧ head ≠ .ends) (l : List Str) :
      Within (l.map fun email => (head, "mailto:".toList ++ email)) := by
    have mapped := within_map plain (l.map ("mailto:".toList ++ ·))
    rwa [List.map_map] at mapped
  unfold details nonempty
  simp only [within_append]
  exact ⟨⟨⟨⟨⟨⟨⟨⟨⟨within_ite (within_plain (by decide) _ (single (by decide) _)) within_nil,
    single (by decide) _⟩, within_ite within_nil (single (by decide) _)⟩,
    within_ite within_nil (single (by decide) _)⟩, within_ite within_nil (single (by decide) _)⟩,
    within_map (by decide) _⟩, organizer⟩, mails (by decide) _⟩, mails (by decide) _⟩,
    within_ite (buildValarms_within _ _) within_nil⟩

theorem insideFields_within (dtstart dtend : Str) : Within (insideFields o f dtstart dtend) := by
  unfold insideFields
  rw [within_append]
  exact ⟨within_plain (by decide) _ (within_plain (by decide) _ (within_plain (by decide) _
    (within_plain (by decide) _ within_nil))), details_within o f⟩

theorem Within.apart {l : List Field} (within : Within l) : ∀ line ∈ l.map lineOf, Apart line := by
  intro line member
  obtain ⟨field, among, rfl⟩ := List.mem_map.mp member
  exact apart_lineOf (within field among)

/-- The event is read from the lines inside it. -/
theorem parseLines_fields {dtstart dtend : Str}
    (oneLines : OneLines (fields o f dtstart dtend)) :
    parseLines crates (unfoldLines (terminated ((fields o f dtstart dtend).map lineOf))) false {} =
      applyAll crates (settings ((insideFields o f dtstart dtend).map lineOf)) {} := by
  have begins : opens (lineOf (.begins, "VEVENT".toList)) = true := by decide
  have ends : closes (lineOf (.ends, "VEVENT".toList)) = true := by decide
  rw [(unfoldLines_lineOf_iff _).mpr oneLines, fields_eq, List.map_append, List.append_assoc,
    parseLines_skip (containerFields_within o).apart, List.map_cons, List.cons_append,
    CalDav.Nested.parseLines_cons, if_pos begins, CalDav.Nested.parseLines_inside,
    List.map_append, List.append_assoc,
    CalDav.Nested.settingsUpTo_append (insideFields_within o f dtstart dtend).apart]
  have after : CalDav.Nested.settingsUpTo (ending.map lineOf ++ [[]]) = [] := by
    unfold ending CalDav.Nested.settingsUpTo
    rw [List.map_cons, List.cons_append, List.takeWhile_cons_of_neg (by rw [ends]; decide)]
    rfl
  rw [after, List.append_nil]

/-! ### Single properties -/

/-- The head of a property. -/
def headOf : Property → Head
  | .uid => .uid
  | .summary => .summary
  | .description => .description
  | .location => .location
  | .status => .status
  | .organizer => .organizer
  | .sequence => .sequence
  | .dtstart => .dtstart
  | .dtend => .dtend
  | .dtstamp => .dtstamp
  | .attach => .attach
  | .categories => .categories
  | .rrule | .classification | .transp => .ends

theorem headOf_property {head : Head} {property : Property}
    (is : head.property = some property) : headOf property = head := by
  cases head <;> cases is <;> rfl

theorem filter_settings {head : Head} {property : Property} (is : head.property = some property)
    (l : List Field) :
    ((settings (l.map lineOf)).filter fun s => s.property = property) =
      (values head l).map fun v => ⟨property, (splitHead head.text.toList).2, chomp v⟩ := by
  induction l with
  | nil => rfl
  | cons field rest ih =>
    obtain ⟨other, v⟩ := field
    have set := settingOf_lineOf (other, v)
    rw [values_cons, List.map_cons]
    by_cases same : other = head
    · subst same
      rw [is, Option.map_some] at set
      have first : settings (lineOf (other, v) :: rest.map lineOf) =
          ⟨property, (splitHead other.text.toList).2, chomp v⟩ :: settings (rest.map lineOf) := by
        unfold settings
        rw [List.filterMap_cons_some set]
      rw [first, List.filter_cons_of_pos (by simp), ih, if_pos rfl, List.map_cons]
    · rw [if_neg same, ← ih]
      cases named : other.property with
      | none =>
        rw [named, Option.map_none] at set
        have first : settings (lineOf (other, v) :: rest.map lineOf) =
            settings (rest.map lineOf) := by
          unfold settings
          rw [List.filterMap_cons_none set]
        rw [first]
      | some property' =>
        rw [named, Option.map_some] at set
        have first : settings (lineOf (other, v) :: rest.map lineOf) =
            ⟨property', (splitHead other.text.toList).2, chomp v⟩ ::
              settings (rest.map lineOf) := by
          unfold settings
          rw [List.filterMap_cons_some set]
        have apart : property' ≠ property := by
          rintro rfl
          exact same ((headOf_property named).symm.trans (headOf_property is))
        rw [first, List.filter_cons_of_neg (by simpa using apart)]

/-- The last line under the head of a property counts. -/
theorem only_fields {head : Head} {property : Property} (is : head.property = some property)
    (overwritten : CalDav.Nested.Overwritten property) {l : List Field} {vs : List Str}
    (under : values head l = vs) :
    CalDav.Nested.only (applyAll crates (settings (l.map lineOf)) {}) property =
      match vs.getLast? with
      | none => {}
      | some v => ParsedEvent.set crates {} (splitHead head.text.toList).2 (chomp v) property := by
  rw [CalDav.Nested.only_from_start overwritten, CalDav.Nested.effect, CalDav.Nested.lastOf,
    filter_settings is, under, List.getLast?_map]
  cases vs.getLast? <;> rfl

theorem values_inside (live : o.method ≠ .cancel) {head : Head} (sought : head.sought = true)
    (dtstart dtend : Str) : values head (insideFields o f dtstart dtend) =
      (if head = .uid then [o.uid] else []) ++ detailValues f head := by
  unfold insideFields
  simp only [values_append, values_details o f live sought, values_cons, values_nil]
  cases head <;> first
    | (cases sought; done)
    | simp only [reduceCtorEq, if_false, if_true, List.nil_append]

theorem unescapeText_escapeIcal (v : Str) :
    unescapeText (chomp (escapeIcal (trim v))) = trim v := by
  rw [escapeIcal_eq]
  apply (CalDav.unescaped_iff (trim v)).mpr
  intro last
  have blank := trimEnd_last (trimStart v) '\r' last
  revert blank
  decide

theorem getLast?_escapedText (v : Str) : ((escapedText v).getLast?.map fun text =>
    unescapeText (chomp text)) = if (trim v).isEmpty then none else some (trim v) := by
  unfold escapedText
  split
  · rfl
  · exact congrArg some (unescapeText_escapeIcal v)

/-- What is read of the texts of a stored event: with a reminder, the summary is the
description. -/
theorem read_texts (live : o.method ≠ .cancel) {dtstart dtend : Str}
    (oneLines : OneLines (fields o f dtstart dtend)) :
    ∃ ev, parseVevent crates (terminated ((fields o f dtstart dtend).map lineOf)) = .ok ev ∧
      ev.summary = some (trim f.summary) ∧
      ev.location = (if (trim f.location).isEmpty then none else some (trim f.location)) ∧
      ev.description = (if reminderMinutes f.reminders = [] then
          (if (trim f.description).isEmpty then none else some (trim f.description))
        else some (trim f.summary)) := by
  have read := @parseLines_fields crates o f dtstart dtend oneLines
  have texts {head : Head} {property : Property} (is : head.property = some property)
      (overwritten : CalDav.Nested.Overwritten property) (sought : head.sought = true) :=
    @only_fields crates _ _ is overwritten _ _ (values_inside o f live sought dtstart dtend)
  unfold parseVevent
  simp only [read]
  generalize applyAll crates (settings ((insideFields o f dtstart dtend).map lineOf)) {} = ev
    at texts
  have uid : ev.uid = o.uid := by
    have set := @texts .uid _ rfl ⟨nofun, nofun⟩ rfl
    calc ev.uid = chomp o.uid := congrArg ParsedEvent.uid set
      _ = o.uid := CalDav.chomp_of_getLast o.uid_plain.noReturn
  have summary : ev.summary = some (trim f.summary) := by
    have set := @texts .summary _ rfl ⟨nofun, nofun⟩ rfl
    calc ev.summary = some (unescapeText (chomp (escapeIcal (trim f.summary)))) :=
          congrArg ParsedEvent.summary set
      _ = some (trim f.summary) := congrArg some (unescapeText_escapeIcal _)
  have location : ev.location =
      (escapedText f.location).getLast?.map fun v => unescapeText (chomp v) := by
    have set := congrArg ParsedEvent.location (@texts .location _ rfl ⟨nofun, nofun⟩ rfl)
    refine Eq.trans set ?_
    show (match (escapedText f.location).getLast? with
      | none => ({} : ParsedEvent)
      | some v => ParsedEvent.set crates {} _ (chomp v) .location).location = _
    cases (escapedText f.location).getLast? <;> rfl
  have description : ev.description = (escapedText f.description ++
      (reminderMinutes f.reminders).map fun _ => escapeIcal (trim f.summary)).getLast?.map
        fun v => unescapeText (chomp v) := by
    have set := congrArg ParsedEvent.description
      (@texts .description _ rfl ⟨nofun, nofun⟩ rfl)
    refine Eq.trans set ?_
    show (match (escapedText f.description ++ (reminderMinutes f.reminders).map fun _ =>
        escapeIcal (trim f.summary)).getLast? with
      | none => ({} : ParsedEvent)
      | some v => ParsedEvent.set crates {} _ (chomp v) .description).description = _
    cases (escapedText f.description ++ (reminderMinutes f.reminders).map fun _ =>
      escapeIcal (trim f.summary)).getLast? <;> rfl
  have named : ¬ ev.uid.isEmpty = true := by
    rw [uid, List.isEmpty_iff]
    exact o.uid_nonempty
  rw [getLast?_escapedText] at location
  refine ⟨ev, if_neg named, summary, location, description.trans ?_⟩
  cases minutes : reminderMinutes f.reminders with
  | nil =>
    rw [List.map_nil, List.append_nil, getLast?_escapedText, if_pos rfl]
  | cons m rest =>
    rw [if_neg (List.cons_ne_nil m rest), List.getLast?_append_of_ne_nil _ (by simp),
      List.getLast?_map]
    obtain ⟨last, is⟩ := Option.isSome_iff_exists.mp
      (List.getLast?_isSome.mpr (List.cons_ne_nil m rest))
    rw [is]
    exact congrArg some (unescapeText_escapeIcal _)

end
end

end Expresso.Web
