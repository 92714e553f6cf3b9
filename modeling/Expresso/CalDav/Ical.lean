import Expresso.Recurrence.Rule
import Expresso.Text.Sha256
import Expresso.Text.Split

/-! The iCalendar property extractor of the calendar service: unfold the lines, take the
first `VEVENT` block, pick the properties that the tables index. -/

namespace Expresso.CalDav
open Text Time

abbrev Uuid := Nat

/-- Functions of other crates that the service calls. -/
structure Crates where
  /-- `Sha256::digest` -/
  sha256 : List UInt8 → List UInt8
  /-- `OffsetDateTime::parse(_, &Rfc3339)` -/
  parseRfc3339 : Str → Option OffsetDateTime
  /-- `Uuid::parse_str` -/
  parseUuid : Str → Option Uuid

inductive CalendarError where
  | database
  | eventNotFound (id : Uuid)
  | calendarNotFound (id : Uuid)
  | invalidICal (message : Str)
  | badRequest (message : Str)
  | forbidden
  deriving DecidableEq

structure ParsedAttachment where
  uri : Option Str
  fmttype : Option Str
  isInline : Bool
  deriving DecidableEq

/-- The properties of a `VEVENT`. The sequence is an `i32`. -/
structure ParsedEvent where
  uid : Str := []
  summary : Option Str := none
  description : Option Str := none
  location : Option Str := none
  dtstart : Option OffsetDateTime := none
  dtend : Option OffsetDateTime := none
  dtstamp : Option OffsetDateTime := none
  rrule : Option Str := none
  status : Option Str := none
  classification : Option Str := none
  transp : Option Str := none
  organizerEmail : Option Str := none
  sequence : Int := 0
  attachments : List ParsedAttachment := []
  categories : List Str := []
  deriving DecidableEq

/-! ### Lines -/

/-- One line appended to the unfolded lines before it: a leading space or tab continues the
last of them. -/
def unfoldLine (out : List Str) (line : Str) : List Str :=
  let stripped := (stripSuffix ['\r'] line).getD line
  match stripped, out.getLast? with
  | first :: rest, some previous =>
      if first = ' ' ∨ first = '\t' then out.dropLast ++ [previous ++ rest]
      else out ++ [stripped]
  | _, _ => out ++ [stripped]

def unfoldLines (raw : Str) : List Str :=
  (split '\n' raw).foldl unfoldLine []

/-- `str::trim_end_matches` of one character. -/
def trimEndMatches (c : Char) (s : Str) : Str := (s.reverse.dropWhile (· = c)).reverse

/-! ### Values -/

def unescapeText : Str → Str
  | [] => []
  | '\\' :: 'n' :: rest => '\n' :: unescapeText rest
  | '\\' :: 'N' :: rest => '\n' :: unescapeText rest
  | '\\' :: ',' :: rest => ',' :: unescapeText rest
  | '\\' :: ';' :: rest => ';' :: unescapeText rest
  | '\\' :: '\\' :: rest => '\\' :: unescapeText rest
  | '\\' :: other :: rest => '\\' :: other :: unescapeText rest
  | c :: rest => c :: unescapeText rest

example : unescapeText "a\\,b\\n".toList = "a,b\n".toList := by simp [unescapeText]

/-- `str::contains` of a text. -/
def contains (text s : Str) : Bool := s.tails.any text.isPrefixOf

/-- The value of a `KEY=value` parameter, the key in any case. -/
def attachParam (params key : Str) : Option Str :=
  (split ';' params).findSome? fun p => do
    let (k, v) ← splitOnce '=' p
    if toAsciiLowercase (trim k) = toAsciiLowercase key then some (trim v) else none

def parseAttach (params : Option Str) (value : Str) : ParsedAttachment :=
  let paramsUpper := (params.map toAsciiUppercase).getD []
  let isInline :=
    contains "ENCODING=BASE64".toList paramsUpper || contains "VALUE=BINARY".toList paramsUpper
  { uri := if isInline then none else some (trim value)
    fmttype := params.bind fun p => attachParam p "FMTTYPE".toList
    isInline }

def parseCategories (value : Str) : List Str :=
  ((split ',' value).map fun c => trim (unescapeText c)).filter fun c => !c.isEmpty

def extractMailto (v : Str) : Option Str :=
  let v := trim v
  (stripPrefix "mailto:".toList v).or (stripPrefix "MAILTO:".toList v)

/-- `[year][month][day]` with the sign a year may carry, and what follows. -/
def parseSignedDate : Str → Option (Date × Str)
  | '-' :: s => do
      let (year, s) ← Recurrence.fixedDigits 4 s
      let (month, s) ← Recurrence.fixedDigits 2 s
      let (day, s) ← Recurrence.fixedDigits 2 s
      let month ← Month.tryFrom month
      let date ← Date.fromCalendarDate (-year) month day
      some (date, s)
  | '+' :: s => Recurrence.parseDatePart s
  | s => Recurrence.parseDatePart s

/-- `PrimitiveDateTime::parse` of `[year][month][day]T[hour][minute][second]`, taken as UTC. -/
def parseDateTime (s : Str) : Option OffsetDateTime := do
  let (date, s) ← parseSignedDate s
  let s ← Recurrence.literal 'T' s
  let (hour, s) ← Recurrence.fixedDigits 2 s
  let (minute, s) ← Recurrence.fixedDigits 2 s
  let (second, s) ← Recurrence.fixedDigits 2 s
  let clock ← Recurrence.fromHms hour minute second
  if s = [] then some (OffsetDateTime.assumeUtc date clock.1 (Recurrence.fromHms_range clock))
  else none

/-- `Date::parse` of `[year][month][day]`, at midnight UTC. -/
def parseDateOnly (s : Str) : Option OffsetDateTime := do
  let (date, s) ← parseSignedDate s
  let clock ← Recurrence.fromHms 0 0 0
  if s = [] then some (OffsetDateTime.assumeUtc date clock.1 (Recurrence.fromHms_range clock))
  else none

/-- The properties that are read. -/
inductive Property where
  | uid | summary | description | location | rrule | status | classification | transp
  | organizer | sequence | dtstart | dtend | dtstamp | attach | categories
  deriving DecidableEq

def Property.name : Property → Str
  | uid => "UID".toList
  | summary => "SUMMARY".toList
  | description => "DESCRIPTION".toList
  | location => "LOCATION".toList
  | rrule => "RRULE".toList
  | status => "STATUS".toList
  | classification => "CLASS".toList
  | transp => "TRANSP".toList
  | organizer => "ORGANIZER".toList
  | sequence => "SEQUENCE".toList
  | dtstart => "DTSTART".toList
  | dtend => "DTEND".toList
  | dtstamp => "DTSTAMP".toList
  | attach => "ATTACH".toList
  | categories => "CATEGORIES".toList

def Property.all : List Property :=
  [uid, summary, description, location, rrule, status, classification, transp, organizer,
    sequence, dtstart, dtend, dtstamp, attach, categories]

def Property.named (name : Str) : Option Property := all.find? (·.name = name)

section
variable (crates : Crates)

def parseDt (params : Option Str) (value : Str) : Option OffsetDateTime :=
  let isDateOnly :=
    (params.map fun p => contains "VALUE=DATE".toList (toAsciiUppercase p)).getD false ||
      len value = 8
  if isDateOnly && len value = 8 then parseDateOnly value
  else match crates.parseRfc3339 value with
    | some dt => some dt
    | none =>
        match stripSuffix ['Z'] value with
        | some stripped => parseDateTime stripped
        | none => parseDateTime value

/-! ### The event -/

/-- `NAME[;PARAMS]` with the name in upper case. -/
def splitHead (head : Str) : Str × Option Str :=
  match splitOnce ';' head with
  | some (n, p) => (toAsciiUppercase n, some p)
  | none => (toAsciiUppercase head, none)

/-- The value of a property that the tables index. -/
def ParsedEvent.set (ev : ParsedEvent) (params : Option Str) (value : Str) :
    Property → ParsedEvent
  | .uid => { ev with uid := value }
  | .summary => { ev with summary := some (unescapeText value) }
  | .description => { ev with description := some (unescapeText value) }
  | .location => { ev with location := some (unescapeText value) }
  | .rrule => { ev with rrule := some value }
  | .status => { ev with status := some (toAsciiUppercase value) }
  | .classification => { ev with classification := some (toAsciiUppercase value) }
  | .transp => { ev with transp := some (toAsciiUppercase value) }
  | .organizer => { ev with organizerEmail := extractMailto value }
  | .sequence => { ev with sequence := (parseI32 value).getD 0 }
  | .dtstart => { ev with dtstart := parseDt crates params value }
  | .dtend => { ev with dtend := parseDt crates params value }
  | .dtstamp => { ev with dtstamp := parseDt crates params value }
  | .attach => { ev with attachments := ev.attachments ++ [parseAttach params value] }
  | .categories => { ev with categories := ev.categories ++ parseCategories value }

/-- The effect of one line `NAME[;PARAMS]:VALUE` of the block. -/
def applyProperty (ev : ParsedEvent) (line : Str) : ParsedEvent :=
  match splitOnce ':' line with
  | none => ev
  | some (head, value) =>
      let (name, params) := splitHead head
      match Property.named name with
      | none => ev
      | some property => ev.set crates params value property

/-- The loop over the lines: it ends at the first `END:VEVENT`. -/
def parseLines : List Str → Bool → ParsedEvent → ParsedEvent
  | [], _, ev => ev
  | line :: rest, inEvent, ev =>
      let trimmed := trimEndMatches '\r' line
      let upper := toAsciiUppercase trimmed
      if upper = "BEGIN:VEVENT".toList then parseLines rest true ev
      else if upper = "END:VEVENT".toList then ev
      else if inEvent then parseLines rest true (applyProperty crates ev trimmed)
      else parseLines rest false ev

def parseVevent (raw : Str) : Except CalendarError ParsedEvent :=
  let ev := parseLines crates (unfoldLines raw) false {}
  if ev.uid.isEmpty then .error (.invalidICal "missing UID".toList) else .ok ev

/-! ### The entity tag -/

def hexDigit (n : Nat) : Char :=
  if n < 10 then Char.ofNat (48 + n) else Char.ofNat (87 + n)

def hexByte (b : UInt8) : Str := [hexDigit (b.toNat / 16), hexDigit (b.toNat % 16)]

def computeEtag (raw : Str) : Str := (crates.sha256 (asBytes raw)).flatMap hexByte

end

/-! ### The range of the sequence -/

theorem parseI32_range {s : Str} {n : Int} (value : parseI32 s = some n) :
    -2 ^ 31 ≤ n ∧ n < 2 ^ 31 := by
  simp only [parseI32, parseSigned, Option.bind_eq_some_iff, Option.ite_none_right_eq_some,
    Option.some.injEq] at value
  obtain ⟨_, -, range, rfl⟩ := value
  omega

/-- Only a `SEQUENCE` line sets the sequence. -/
theorem applyProperty_sequence (crates : Crates) (ev : ParsedEvent) (line : Str) :
    (applyProperty crates ev line).sequence = ev.sequence ∨
      ∃ value, (applyProperty crates ev line).sequence = (parseI32 value).getD 0 := by
  unfold applyProperty
  cases splitOnce ':' line with
  | none => exact .inl rfl
  | some pair =>
    cases named : Property.named (splitHead pair.1).1 with
    | none => simp [named]
    | some property =>
      simp only [named]
      cases property with
      | sequence => exact .inr ⟨pair.2, rfl⟩
      | _ => exact .inl rfl

theorem parseLines_sequence {crates : Crates} {lines : List Str} {inEvent : Bool}
    {ev : ParsedEvent} (range : -2 ^ 31 ≤ ev.sequence ∧ ev.sequence < 2 ^ 31) :
    -2 ^ 31 ≤ (parseLines crates lines inEvent ev).sequence ∧
      (parseLines crates lines inEvent ev).sequence < 2 ^ 31 := by
  induction lines generalizing inEvent ev with
  | nil => exact range
  | cons line rest ih =>
    simp only [parseLines]
    split
    · exact ih range
    · split
      · exact range
      · split
        · apply ih
          rcases applyProperty_sequence crates ev (trimEndMatches '\r' line) with kept | ⟨value, set⟩
          · rwa [kept]
          · rw [set]
            cases parsed : parseI32 value with
            | none => decide
            | some n => exact parseI32_range parsed
        · exact ih range

theorem parseVevent_sequence {crates : Crates} {raw : Str} {parsed : ParsedEvent}
    (accepted : parseVevent crates raw = .ok parsed) :
    -2 ^ 31 ≤ parsed.sequence ∧ parsed.sequence < 2 ^ 31 := by
  simp only [parseVevent] at accepted
  split at accepted
  · cases accepted
  · cases accepted
    exact parseLines_sequence (by decide)

/-! ### A body with nothing but a UID -/

def plainBody (uid : Str) : Str := "BEGIN:VEVENT\nUID:".toList ++ uid

theorem stripSuffix_of_not_mem {c : Char} {s : Str} (absent : c ∉ s) :
    stripSuffix [c] s = none := by
  have noSuffix : ¬[c].isSuffixOf s := fun suffix =>
    absent ((List.isSuffixOf_iff_suffix.mp suffix).subset List.mem_cons_self)
  rw [stripSuffix, if_neg noSuffix]

theorem trimEndMatches_of_not_mem {c : Char} {s : Str} (absent : c ∉ s) :
    trimEndMatches c s = s := by
  have kept : s.reverse.dropWhile (· = c) = s.reverse := by
    cases reversed : s.reverse with
    | nil => rfl
    | cons last rest =>
      have member : last ∈ s := List.mem_reverse.mp (reversed ▸ List.mem_cons_self)
      have other : last ≠ c := fun same => absent (same ▸ member)
      rw [List.dropWhile_cons_of_neg (by simpa using other)]
  rw [trimEndMatches, kept, List.reverse_reverse]

theorem parseVevent_plainBody (crates : Crates) {uid : Str} (nonempty : uid ≠ [])
    (oneLine : '\n' ∉ uid) (noReturn : '\r' ∉ uid) :
    parseVevent crates (plainBody uid) = .ok { uid } := by
  have lines : split '\n' (plainBody uid) =
      ["BEGIN:VEVENT".toList, 'U' :: 'I' :: 'D' :: ':' :: uid] := by
    change split '\n' ('B' :: 'E' :: 'G' :: 'I' :: 'N' :: ':' :: 'V' :: 'E' :: 'V' :: 'E' ::
      'N' :: 'T' :: '\n' :: 'U' :: 'I' :: 'D' :: ':' :: uid) = _
    simp only [split, split_of_not_mem oneLine, Char.reduceEq, if_false, if_true]
    rfl
  have noReturn' : '\r' ∉ 'U' :: 'I' :: 'D' :: ':' :: uid := by
    simpa using noReturn
  have unfolded : unfoldLines (plainBody uid) =
      ["BEGIN:VEVENT".toList, 'U' :: 'I' :: 'D' :: ':' :: uid] := by
    rw [unfoldLines, lines, List.foldl_cons, List.foldl_cons, List.foldl_nil]
    have first : unfoldLine [] "BEGIN:VEVENT".toList = ["BEGIN:VEVENT".toList] := by decide
    rw [first, unfoldLine, stripSuffix_of_not_mem noReturn']
    rfl
  have applied : applyProperty crates {} ('U' :: 'I' :: 'D' :: ':' :: uid) = { uid } := rfl
  have inside : parseLines crates ['U' :: 'I' :: 'D' :: ':' :: uid] true {} = { uid } := by
    simp only [parseLines, trimEndMatches_of_not_mem noReturn', if_true, applied]
    have begins : toAsciiUppercase ('U' :: 'I' :: 'D' :: ':' :: uid) =
        'U' :: 'I' :: 'D' :: ':' :: toAsciiUppercase uid := rfl
    rw [begins, if_neg (by simp), if_neg (by simp)]
  have parsed : parseLines crates (unfoldLines (plainBody uid)) false {} = { uid } := by
    rw [unfolded, parseLines]
    exact inside
  simp only [parseVevent, parsed, List.isEmpty_iff, if_neg nonempty]

/-! ### Functions to run the model with -/

def hexValue (c : Char) : Option Nat :=
  if '0' ≤ c ∧ c ≤ '9' then some (c.toNat - 48)
  else if 'a' ≤ c ∧ c ≤ 'f' then some (c.toNat - 87)
  else if 'A' ≤ c ∧ c ≤ 'F' then some (c.toNat - 55)
  else none

/-- The value of a UUID in its hyphenated form. -/
def parseHyphenated (s : Str) : Option Uuid :=
  if (split '-' s).map (·.length) = [8, 4, 4, 4, 12] then
    (s.filter (· ≠ '-')).foldlM (fun value c => (hexValue c).map fun digit => 16 * value + digit) 0
  else none

/-- SHA-256, UUIDs in their hyphenated form, and no date in the form of RFC 3339. -/
def sampleCrates : Crates where
  sha256 := Sha256.digest
  parseRfc3339 _ := none
  parseUuid := parseHyphenated

end Expresso.CalDav
