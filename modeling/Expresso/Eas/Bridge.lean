import Expresso.Eas.Cards

/-! The iCalendar bodies that the ActiveSync bridge writes for an event of a device, and which
uploads, of contacts and of events, the services read back as they were. -/

namespace Expresso.Eas
open Text
open CalDav (escapeText terminated Plain Leads unfoldLines parseDt parseLines parseVevent
  ParsedEvent trimEndMatches)

def icalEscape (v : Str) : Str :=
  replaceChar '\n' "\\n".toList (replaceChar ',' "\\,".toList
    (replaceChar ';' "\\;".toList (replaceChar '\\' "\\\\".toList v)))

theorem icalEscape_eq (v : Str) : icalEscape v = escapeText v := vcardEscape_eq v

/-- An event as a device uploads it. -/
structure EventUpsert where
  uid : Str
  summary : Option Str
  location : Option Str
  startTime : Option Str
  endTime : Option Str
  deriving DecidableEq

namespace EventUpsert

def buildVevent (u : EventUpsert) : Str :=
  "BEGIN:VCALENDAR\r\nVERSION:2.0\r\nPRODID:-//Expresso//EAS//EN\r\nBEGIN:VEVENT\r\n".toList ++
    ("UID:".toList ++ u.uid ++ "\r\n".toList) ++
    (u.startTime.elim [] fun v => "DTSTART:".toList ++ v ++ "\r\n".toList) ++
    (u.endTime.elim [] fun v => "DTEND:".toList ++ v ++ "\r\n".toList) ++
    (u.summary.elim [] fun v => "SUMMARY:".toList ++ icalEscape v ++ "\r\n".toList) ++
    (u.location.elim [] fun v => "LOCATION:".toList ++ icalEscape v ++ "\r\n".toList) ++
    "END:VEVENT\r\nEND:VCALENDAR\r\n".toList

/-! ### What should come back -/

/-- The body, line by line. -/
def lines (u : EventUpsert) : List Str :=
  ["BEGIN:VCALENDAR".toList, line "VERSION".toList "2.0".toList,
    line "PRODID".toList "-//Expresso//EAS//EN".toList, "BEGIN:VEVENT".toList,
    line "UID".toList u.uid] ++
    (u.startTime.map fun v => line "DTSTART".toList v).toList ++
    (u.endTime.map fun v => line "DTEND".toList v).toList ++
    (u.summary.map fun v => line "SUMMARY".toList (escapeText v)).toList ++
    (u.location.map fun v => line "LOCATION".toList (escapeText v)).toList ++
    ["END:VEVENT".toList, "END:VCALENDAR".toList]

/-- The fields of the upload as the calendar service has them: the times that the texts are. -/
def sent (crates : CalDav.Crates) (u : EventUpsert) : ParsedEvent where
  uid := u.uid
  summary := u.summary
  location := u.location
  dtstart := u.startTime.bind (parseDt crates none)
  dtend := u.endTime.bind (parseDt crates none)

/-- The service finds the lines of the body and reads the uploaded fields. -/
def ReadsBack (crates : CalDav.Crates) (u : EventUpsert) : Prop :=
  (unfoldLines u.buildVevent).map (trimEndMatches '\r') = u.lines ++ [[]] ∧
    parseVevent crates u.buildVevent = .ok (u.sent crates)

/-- The UID and the times are single lines, the UID not empty; no text ends in a carriage
return. -/
structure Clean (u : EventUpsert) : Prop where
  uid : u.uid ≠ [] ∧ Plain u.uid
  startTime : ∀ v ∈ u.startTime, Plain v
  endTime : ∀ v ∈ u.endTime, Plain v
  summary : ∀ v ∈ u.summary, v.getLast? ≠ some '\r'
  location : ∀ v ∈ u.location, v.getLast? ≠ some '\r'

/-! ### The written lines -/

theorem buildVevent_eq (u : EventUpsert) : u.buildVevent = terminated u.lines := by
  have opening : terminated ["BEGIN:VCALENDAR".toList, line "VERSION".toList "2.0".toList,
      line "PRODID".toList "-//Expresso//EAS//EN".toList, "BEGIN:VEVENT".toList,
      line "UID".toList u.uid] =
      "BEGIN:VCALENDAR\r\nVERSION:2.0\r\nPRODID:-//Expresso//EAS//EN\r\nBEGIN:VEVENT\r\n".toList ++
        ("UID:".toList ++ u.uid ++ "\r\n".toList) := by
    simp [terminated, line]
  have starts := terminated_optional "DTSTART".toList (fun v => v) u.startTime
  have ends := terminated_optional "DTEND".toList (fun v => v) u.endTime
  have summary := terminated_optional "SUMMARY".toList escapeText u.summary
  have location := terminated_optional "LOCATION".toList escapeText u.location
  unfold buildVevent lines
  simp only [icalEscape_eq]
  rw [CalDav.terminated_append, CalDav.terminated_append, CalDav.terminated_append,
    CalDav.terminated_append, CalDav.terminated_append, opening, starts, ends, summary, location]
  rfl

theorem forall_lines {u : EventUpsert} {holds : Str → Prop} : (∀ l ∈ u.lines, holds l) ↔
    holds "BEGIN:VCALENDAR".toList ∧ holds (line "VERSION".toList "2.0".toList) ∧
      holds (line "PRODID".toList "-//Expresso//EAS//EN".toList) ∧
      holds "BEGIN:VEVENT".toList ∧ holds (line "UID".toList u.uid) ∧
      (∀ v ∈ u.startTime, holds (line "DTSTART".toList v)) ∧
      (∀ v ∈ u.endTime, holds (line "DTEND".toList v)) ∧
      (∀ v ∈ u.summary, holds (line "SUMMARY".toList (escapeText v))) ∧
      (∀ v ∈ u.location, holds (line "LOCATION".toList (escapeText v))) ∧
      holds "END:VEVENT".toList ∧ holds "END:VCALENDAR".toList := by
  unfold lines
  simp only [List.forall_mem_append, List.forall_mem_cons, forall_optional, and_assoc]
  simp

theorem lines_lead (u : EventUpsert) : ∀ l ∈ u.lines, Leads l := by
  rw [forall_lines]
  refine ⟨⟨by decide, by decide⟩, leads_line (by decide) (by decide),
    leads_line (by decide) (by decide), ⟨by decide, by decide⟩,
    leads_line (by decide) (by decide), fun _ _ => leads_line (by decide) (by decide),
    fun _ _ => leads_line (by decide) (by decide), fun _ _ => leads_line (by decide) (by decide),
    fun _ _ => leads_line (by decide) (by decide), ⟨by decide, by decide⟩,
    ⟨by decide, by decide⟩⟩

theorem unfoldLines_buildVevent {u : EventUpsert} (plain : ∀ l ∈ u.lines, Plain l) :
    unfoldLines u.buildVevent = u.lines ++ [[]] := by
  rw [buildVevent_eq, CalDav.unfoldLines_terminated plain,
    CalDav.refold_of_leads fun l member => ⟨(plain l member).noReturn, u.lines_lead l member⟩]

/-- Whether the lines of a body are read as they are meant. -/
theorem lines_plain_iff (u : EventUpsert) :
    (unfoldLines u.buildVevent).map (trimEndMatches '\r') = u.lines ++ [[]] ↔
      ∀ l ∈ u.lines, Plain l := by
  constructor
  · intro same l member
    have among : l ∈ (unfoldLines u.buildVevent).map (trimEndMatches '\r') :=
      same ▸ List.mem_append_left _ member
    obtain ⟨open_, inBody, rfl⟩ := List.mem_map.mp among
    exact CalDav.plain_trimEndMatches (CalDav.unfoldLines_oneLine _ open_ inBody)
  · intro plain
    rw [unfoldLines_buildVevent plain, List.map_append, CalDav.map_trim_of_plain plain]
    rfl

end EventUpsert

theorem plain_escapeText_iff {v : Str} : Plain (escapeText v) ↔ v.getLast? ≠ some '\r' := by
  constructor
  · intro plain last
    obtain ⟨front, rfl⟩ := List.getLast?_eq_some_iff.mp last
    apply plain.noReturn
    unfold escapeText
    rw [List.flatMap_append, List.flatMap_singleton, CalDav.escapeChar_of_not_special rfl]
    exact List.getLast?_concat
  · intro noReturn
    exact ⟨CalDav.escapeText_oneLine v, CalDav.escapeText_noReturn noReturn⟩

namespace EventUpsert

theorem plain_iff (u : EventUpsert) : (∀ l ∈ u.lines, Plain l) ↔
    Plain u.uid ∧ (∀ v ∈ u.startTime, Plain v) ∧ (∀ v ∈ u.endTime, Plain v) ∧
      (∀ v ∈ u.summary, v.getLast? ≠ some '\r') ∧ ∀ v ∈ u.location, v.getLast? ≠ some '\r' := by
  have uid := @plain_line "UID".toList u.uid ⟨by decide, by decide⟩
  have start (v : Str) := @plain_line "DTSTART".toList v ⟨by decide, by decide⟩
  have finish (v : Str) := @plain_line "DTEND".toList v ⟨by decide, by decide⟩
  have summary (v : Str) := @plain_line "SUMMARY".toList (escapeText v) ⟨by decide, by decide⟩
  have location (v : Str) := @plain_line "LOCATION".toList (escapeText v) ⟨by decide, by decide⟩
  rw [forall_lines]
  simp only [uid, start, finish, summary, location, plain_escapeText_iff]
  constructor
  · intro ⟨_, _, _, _, uid, start, finish, summary, location, _⟩
    exact ⟨uid, start, finish, summary, location⟩
  · intro ⟨uid, start, finish, summary, location⟩
    exact ⟨⟨by decide, by decide⟩, ⟨by decide, by decide⟩, ⟨by decide, by decide⟩,
      ⟨by decide, by decide⟩, uid, start, finish, summary, location, ⟨by decide, by decide⟩,
      ⟨by decide, by decide⟩⟩

end EventUpsert

/-! ### The fields that are read -/

/-- A name of a property of an event that is written without parameters. -/
structure NamesEvent (name : Str) (property : CalDav.Property) : Prop where
  noColon : ':' ∉ name
  head : CalDav.splitHead name = (name, none)
  named : CalDav.Property.named name = some property
  other : (toAsciiUppercase name).head?.all fun c => c ≠ 'B' && c ≠ 'E'

section
variable {crates : CalDav.Crates} {name value : Str} {property : CalDav.Property}

theorem parseLines_line (names : NamesEvent name property) (plain : Plain (line name value))
    (rest : List Str) (ev : ParsedEvent) :
    parseLines crates (line name value :: rest) true ev =
      parseLines crates rest true (ev.set crates none value property) := by
  have nonempty : ∃ c tail, name = c :: tail := by
    cases name with
    | nil =>
      have missing : CalDav.Property.named [] = none := by decide
      cases missing.symm.trans names.named
    | cons c tail => exact ⟨c, tail, rfl⟩
  obtain ⟨c, tail, rfl⟩ := nonempty
  have letter : c.toUpper ≠ 'B' ∧ c.toUpper ≠ 'E' := by
    simpa [toAsciiUppercase] using names.other
  have begins : toAsciiUppercase (line (c :: tail) value) ≠ "BEGIN:VEVENT".toList := fun same =>
    letter.1 (List.cons.inj same).1
  have ends : toAsciiUppercase (line (c :: tail) value) ≠ "END:VEVENT".toList := fun same =>
    letter.2 (List.cons.inj same).1
  have effect : CalDav.applyProperty crates ev (line (c :: tail) value) =
      ev.set crates none value property := by
    unfold CalDav.applyProperty line
    rw [splitOnce_append names.noColon]
    simp only [names.head, names.named]
  rw [parseLines, CalDav.trimEndMatches_of_getLast plain.noReturn]
  simp only [if_neg begins, if_neg ends, if_true, effect]

theorem parseLines_optional (names : NamesEvent name property) {f : Str → Str} {o : Option Str}
    (plain : ∀ v ∈ o, Plain (line name (f v))) (rest : List Str) (ev : ParsedEvent) :
    parseLines crates ((o.map fun v => line name (f v)).toList ++ rest) true ev =
      parseLines crates rest true (o.elim ev fun v => ev.set crates none (f v) property) := by
  cases o with
  | none => rfl
  | some v => exact parseLines_line names (plain v rfl) rest ev

end

theorem names_event : NamesEvent "UID".toList .uid ∧ NamesEvent "DTSTART".toList .dtstart ∧
    NamesEvent "DTEND".toList .dtend ∧ NamesEvent "SUMMARY".toList .summary ∧
    NamesEvent "LOCATION".toList .location :=
  ⟨⟨by decide, by decide, by decide, by decide⟩,
    ⟨by decide, by decide, by decide, by decide⟩,
    ⟨by decide, by decide, by decide, by decide⟩,
    ⟨by decide, by decide, by decide, by decide⟩,
    ⟨by decide, by decide, by decide, by decide⟩⟩

namespace EventUpsert

theorem parseLines_lines (crates : CalDav.Crates) {u : EventUpsert}
    (plain : ∀ l ∈ u.lines, Plain l) :
    parseLines crates (u.lines ++ [[]]) false {} = u.sent crates := by
  obtain ⟨-, -, -, -, uid, start, finish, summary, location, -, -⟩ := forall_lines.mp plain
  obtain ⟨namesUid, namesStart, namesEnd, namesSummary, namesLocation⟩ := names_event
  unfold lines
  simp only [List.cons_append, List.nil_append, List.append_assoc]
  show parseLines crates (line "UID".toList u.uid :: _) true {} = _
  rw [parseLines_line namesUid uid, parseLines_optional namesStart start,
    parseLines_optional namesEnd finish, parseLines_optional namesSummary summary,
    parseLines_optional namesLocation location]
  show (u.location.elim _ _ : ParsedEvent) = _
  unfold sent
  cases u.startTime <;> cases u.endTime <;> cases u.summary <;> cases u.location <;>
    simp only [Option.elim_none, Option.elim_some, ParsedEvent.set,
      CalDav.unescapeText_escapeText] <;> rfl

theorem readsBack_iff (crates : CalDav.Crates) (u : EventUpsert) :
    u.ReadsBack crates ↔ u.Clean := by
  have read (plain : ∀ l ∈ u.lines, Plain l) :
      parseVevent crates u.buildVevent = .ok (u.sent crates) ↔ u.uid ≠ [] := by
    unfold parseVevent
    rw [unfoldLines_buildVevent plain, parseLines_lines crates plain]
    show (if u.uid.isEmpty then _ else _ : Except CalDav.CalendarError ParsedEvent) = _ ↔ _
    cases u.uid with
    | nil => simp
    | cons c rest => simp
  unfold ReadsBack
  rw [lines_plain_iff]
  constructor
  · intro ⟨plain, values⟩
    obtain ⟨uid, start, finish, summary, location⟩ := u.plain_iff.mp plain
    exact ⟨⟨(read plain).mp values, uid⟩, start, finish, summary, location⟩
  · intro clean
    have plain := u.plain_iff.mpr
      ⟨clean.uid.2, clean.startTime, clean.endTime, clean.summary, clean.location⟩
    exact ⟨plain, (read plain).mpr clean.uid.1⟩

end EventUpsert

/-! ### Uploads -/

/-- What a device uploads. -/
inductive Upload where
  | contact (u : ContactUpsert)
  | event (u : EventUpsert)
  deriving DecidableEq

def Upload.ReadsBack (crates : CalDav.Crates) : Upload → Prop
  | contact u => u.ReadsBack
  | event u => u.ReadsBack crates

def Upload.Clean : Upload → Prop
  | contact u => u.Clean
  | event u => u.Clean

/-- Exactly the clean uploads come back: a value that is escaped or is more than one line comes
back altered, or as another property. -/
theorem upload_reads_back (crates : CalDav.Crates) (u : Upload) :
    u.ReadsBack crates ↔ u.Clean := by
  cases u with
  | contact u => exact u.readsBack_iff
  | event u => exact u.readsBack_iff crates

/-- A comma in the company. -/
def commaContact : ContactUpsert where
  uid := "1".toList
  first := some "Ana".toList
  last := some "Lima".toList
  fileAs := none
  email := none
  phone := none
  company := some "Lima, Ltd".toList

/-- A line break in the start time. -/
def repeatedEvent : EventUpsert where
  uid := "1".toList
  summary := none
  location := none
  startTime := some "20260101T100000Z\nRRULE:FREQ=DAILY".toList
  endTime := none

theorem upload_altered :
    (¬Upload.ReadsBack ⟨id, fun _ => none, fun _ => none⟩ (.contact commaContact) ∧
      (Contacts.parse commaContact.buildVcard).toOption.bind (·.organization) =
        some "Lima\\, Ltd".toList) ∧
    ¬Upload.ReadsBack ⟨id, fun _ => none, fun _ => none⟩ (.event repeatedEvent) ∧
      (parseVevent ⟨id, fun _ => none, fun _ => none⟩ repeatedEvent.buildVevent).toOption.bind
        (·.rrule) = some "FREQ=DAILY".toList := by
  have card : (Contacts.parse commaContact.buildVcard).toOption.bind (·.organization) =
      some "Lima\\, Ltd".toList := by decide
  have body : (parseVevent ⟨id, fun _ => none, fun _ => none⟩
      repeatedEvent.buildVevent).toOption.bind (·.rrule) = some "FREQ=DAILY".toList := by
    decide
  refine ⟨⟨?_, card⟩, ?_, body⟩
  · intro ⟨_, read⟩
    rw [read] at card
    exact absurd card (by decide)
  · intro ⟨_, read⟩
    rw [read] at body
    exact absurd body (by decide)

end Expresso.Eas
