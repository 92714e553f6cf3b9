import Expresso.CalDav.Export

/-! The attendees of an event and the reply of one of them: the reader works on unfolded
lines of the first `VEVENT`, the writer on the physical lines of the whole text. -/

namespace Expresso.CalDav.Itip
open Text

structure Attendee where
  email : Str
  cn : Option Str := none
  role : Option Str := none
  partstat : Option Str := none
  rsvp : Option Bool := none
  cutype : Option Str := none
  deriving DecidableEq

/-- `unfold` repeats `unfold_lines`. -/
def unfold (raw : Str) : List Str := unfoldLines raw

/-- In lower case, with or without `mailto:`; anything with an `@` is an address. -/
def extractMailto (v : Str) : Option Str :=
  let lower := toAsciiLowercase v
  let rest := (stripPrefix "mailto:".toList lower).getD lower
  let cleaned := trim rest
  if '@' ∈ cleaned then some cleaned else none

/-- `str::trim_matches` of one character. -/
def trimMatches (c : Char) (s : Str) : Str := trimEndMatches c (s.dropWhile (· = c))

/-- One parameter `KEY=value` of the property. -/
def Attendee.set (a : Attendee) (part : Str) : Attendee :=
  match splitOnce '=' part with
  | none => a
  | some (k, v) =>
      let key := toAsciiUppercase k
      if key = "CN".toList then { a with cn := some (trimMatches '"' v) }
      else if key = "ROLE".toList then { a with role := some (toAsciiUppercase v) }
      else if key = "PARTSTAT".toList then { a with partstat := some (toAsciiUppercase v) }
      else if key = "RSVP".toList then
        { a with rsvp := some (toAsciiUppercase v = "TRUE".toList) }
      else if key = "CUTYPE".toList then { a with cutype := some (toAsciiUppercase v) }
      else a

/-- The attendee a line of the event names. -/
def attendeeOf (line : Str) : Option Attendee :=
  match splitOnce ':' line with
  | none => none
  | some (head, value) =>
      let (name, params) := splitHead head
      if name = "ATTENDEE".toList then
        (extractMailto value).map fun email =>
          (params.elim [] (split ';')).foldl Attendee.set { email }
      else none

/-- The loop of `parse_attendees`. -/
def attendeeLines : List Str → Bool → List Attendee
  | [], _ => []
  | line :: rest, inEvent =>
      let trimmed := trimEndMatches '\r' line
      if beginsEvent trimmed then attendeeLines rest true
      else if endsEvent trimmed then []
      else if inEvent then (attendeeOf trimmed).toList ++ attendeeLines rest true
      else attendeeLines rest false

def parseAttendees (raw : Str) : List Attendee := attendeeLines (unfold raw) false

/-! ### The reply -/

def partstats : List Str :=
  ["NEEDS-ACTION".toList, "ACCEPTED".toList, "DECLINED".toList, "TENTATIVE".toList,
    "DELEGATED".toList]

def validatePartstat (p : Str) : Except CalendarError Unit :=
  if toAsciiUppercase p ∈ partstats then .ok ()
  else .error (.badRequest ("invalid PARTSTAT: ".toList ++ p))

def partstatParam (partstat : Str) : Str := "PARTSTAT=".toList ++ toAsciiUppercase partstat

def isPartstat (seg : Str) : Bool := "PARTSTAT=".toList.isPrefixOf (toAsciiUppercase seg)

/-- The `PARTSTAT` parameter replaced, or added at the end. -/
def setPartstat (partstat : Str) : List Str → List Str
  | [] => []
  | name :: params =>
      if params.any isPartstat then
        name :: params.map fun seg => if isPartstat seg then partstatParam partstat else seg
      else name :: params ++ [partstatParam partstat]

/-- A physical line that the loop takes for the attendee's, edited. -/
def replyLine (target partstat line : Str) : Option Str :=
  if "ATTENDEE".toList.isPrefixOf (toAsciiUppercase line) then
    match splitOnce ':' line with
    | none => none
    | some (head, value) =>
        match extractMailto value with
        | none => none
        | some lineEmail =>
            if toAsciiLowercase lineEmail = target then
              some (List.intercalate [';'] (setPartstat partstat (split ';' head)) ++
                ':' :: value)
            else none
  else none

/-- The first such line edited, if there is one. -/
def replyLines (target partstat : Str) : List Str → Option (List Str)
  | [] => none
  | line :: rest =>
      match replyLine target partstat line with
      | some edited => some (edited :: rest)
      | none => (replyLines target partstat rest).map (line :: ·)

example {target partstat line edited : Str} (taken : replyLine target partstat line = some edited) :
    replyLines target partstat [line, line] = some [edited, line] := by
  simp [replyLines, taken]

def newAttendeeLine (email partstat : Str) : Str :=
  "ATTENDEE;".toList ++ partstatParam partstat ++ ":mailto:".toList ++ email

/-- A line inserted before the first physical `END:VEVENT`. -/
def insertBeforeEnd (line : Str) : List Str → Option (List Str)
  | [] => none
  | l :: rest =>
      if endsEvent l then some (line :: l :: rest) else (insertBeforeEnd line rest).map (l :: ·)

def physicalLines (raw : Str) : List Str := (split '\n' raw).map (trimEndMatches '\r')

def applyRsvp (raw email partstat : Str) : Except CalendarError Str := do
  validatePartstat partstat
  let lines := physicalLines raw
  match replyLines (toAsciiLowercase email) partstat lines with
  | some lines => .ok (joinLines lines)
  | none =>
      match insertBeforeEnd (newAttendeeLine email partstat) lines with
      | some lines => .ok (joinLines lines)
      | none => .error (.invalidICal "END:VEVENT not found".toList)

/-! ### Comments -/

/-- `decode_text` repeats `unescape_text`. -/
def decodeText (s : Str) : Str := unescapeText s

/-- The loop of `parse_comment`. A line of the event without a colon ends it. -/
def commentLines : List Str → Bool → Option Str
  | [], _ => none
  | line :: rest, inEvent =>
      let trimmed := trimEndMatches '\r' line
      if beginsEvent trimmed then commentLines rest true
      else if endsEvent trimmed then none
      else if inEvent then
        match splitOnce ':' trimmed with
        | none => none
        | some (head, value) =>
            if toAsciiUppercase (head.takeWhile (· ≠ ';')) = "COMMENT".toList then
              if (decodeText value).isEmpty then none else some (decodeText value)
            else commentLines rest true
      else commentLines rest false

def parseComment (raw : Str) : Option Str := commentLines (unfold raw) false

/-! ### Changes of the first event -/

/-- The physical lines between the first `BEGIN:VEVENT` and the first `END:VEVENT`. -/
def eventLines : List Str → Bool → List Str
  | [], _ => []
  | line :: rest, inEvent =>
      if beginsEvent line then eventLines rest true
      else if endsEvent line then []
      else if inEvent then line :: eventLines rest true
      else eventLines rest false

/-- The loop of `set_status` and of `apply_proposed_times`. -/
def editEvent (edit : Str → Str) : List Str → Bool → List Str
  | [], _ => []
  | line :: rest, inEvent =>
      if beginsEvent line then line :: editEvent edit rest true
      else if endsEvent line then line :: rest
      else (if inEvent then edit line else line) :: editEvent edit rest inEvent

def startsWith (name line : Str) : Bool := name.isPrefixOf (toAsciiUppercase line)

def isStatusLine (line : Str) : Bool :=
  startsWith "STATUS:".toList line || startsWith "STATUS;".toList line

def setStatus (raw status : Str) : Except CalendarError Str :=
  let lines := physicalLines raw
  let new := "STATUS:".toList ++ toAsciiUppercase status
  if (eventLines lines false).any isStatusLine then
    .ok (joinLines (editEvent (fun l => if isStatusLine l then new else l) lines false))
  else
    match insertBeforeEnd new lines with
    | some lines => .ok (joinLines lines)
    | none => .error (.invalidICal "END:VEVENT not found".toList)

/-- `YYYYMMDDTHHMMSSZ` of a time in UTC. -/
def fmtDt (t : Time.OffsetDateTime) : Str :=
  let seconds := t.nanos / 1000000000
  padded 4 t.date.year ++ padded 2 t.date.month.number ++ padded 2 t.date.day ++ "T".toList ++
    padded 2 (seconds / 3600) ++ padded 2 (seconds / 60 % 60) ++ padded 2 (seconds % 60) ++
    "Z".toList

/-- The line of a proposed time, if there is one. -/
def proposedLine (name : Str) (proposed : Option Time.OffsetDateTime) : Option Str :=
  proposed.map fun t => name ++ ':' :: fmtDt t

def editTimes (start stop : Option Time.OffsetDateTime) (line : Str) : Str :=
  if startsWith "DTSTART".toList line then (proposedLine "DTSTART".toList start).getD line
  else if startsWith "DTEND".toList line then (proposedLine "DTEND".toList stop).getD line
  else line

/-- A proposed time for which the event has no line. -/
def insertTime (name : Str) (proposed : Option Time.OffsetDateTime) (found : Bool)
    (lines : List Str) : List Str :=
  if found then lines
  else ((proposedLine name proposed).bind (insertBeforeEnd · lines)).getD lines

def applyProposedTimes (raw : Str) (start stop : Option Time.OffsetDateTime) :
    Except CalendarError Str :=
  let event := eventLines (physicalLines raw) false
  let lines := editEvent (editTimes start stop) (physicalLines raw) false
  if lines.any endsEvent then
    .ok (joinLines (insertTime "DTEND".toList stop (event.any (startsWith "DTEND".toList))
      (insertTime "DTSTART".toList start (event.any (startsWith "DTSTART".toList)) lines)))
  else .error (.invalidICal "END:VEVENT not found".toList)

end Expresso.CalDav.Itip
