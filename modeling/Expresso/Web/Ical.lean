import Expresso.CalDav.Vtodo
import Expresso.Imap.Mime
import Expresso.Query.Unique
import Expresso.Text.Replace
import Mathlib.Data.Char
import Mathlib.Data.List.Lex

/-! The iCalendar text that the web service writes for an event form, and the fields of the form
that it takes back from such a text. -/

namespace Expresso.Web
open Text hiding contains
open Time
open CalDav (terminated formatUtc contains)
open Imap (lines)
open Query (sortUnique)

structure EventForm where
  summary : Str
  location : Str
  description : Str
  dtstart : Str
  dtend : Str
  attendees : Str
  reminders : Str
  categories : Str
  resources : Str
  attachments : Str

/-- `[&str]::join` -/
def join (sep : String) (pieces : List Str) : Str := List.intercalate sep.toList pieces

/-! ### Lists in a field -/

def separatesUris (c : Char) : Bool := c = '\n' || c = ',' || c = ' ' || c = '\t'

def knownScheme (s : Str) : Bool :=
  ["http://", "https://", "mailto:", "cid:"].any fun scheme => scheme.toList.isPrefixOf s

def parseAttachmentUris (raw : Str) : List Str :=
  ((((raw.splitOnP separatesUris).map trim).filter knownScheme).destutter (· ≠ ·)).take 20

def separatesEmails (c : Char) : Bool := c = ',' || c = ';' || isWhitespace c

def emails (raw : Str) : List Str :=
  (((raw.splitOnP separatesEmails).map trim).filter fun s => !s.isEmpty && s.contains '@').map
    toAsciiLowercase

def parseResourceEmails (raw : Str) : List Str := (sortUnique (emails raw)).take 50

/-- Of `routes.rs`. -/
def parseAttendees (raw : Str) : List Str := emails raw

/-- `str::get` of a range of bytes. -/
def get (first last : Nat) (s : Str) : Option Str :=
  match splitAt first s with
  | .ok (_, rest) => match splitAt (last - first) rest with
    | .ok (inside, _) => some inside
    | .error _ => none
  | .error _ => none

/-- The date, the hour and the minute of a local time. -/
def localParts (s : Str) : Option (Str × Str × Str) := do
  let (date, rest) ← splitOnce 'T' s
  let h ← get 0 2 rest
  let m ← get 3 5 rest
  some (date, h, m)

def localToIcalUtc (s : Str) : Option Str :=
  (localParts s).map fun (date, h, m) =>
    date.filter (· ≠ '-') ++ ['T'] ++ h ++ m ++ "00Z".toList

def escapeIcal (s : Str) : Str :=
  replaceChar ';' "\\;".toList (replaceChar ',' "\\,".toList
    (replaceChar '\n' "\\n".toList (replaceChar '\\' "\\\\".toList s)))

def u32Max : Nat := 2 ^ 32 - 1

def reminderMinutes (reminders : Str) : List Nat :=
  (sortUnique ((split ',' reminders).filterMap fun s => parseUnsigned u32Max (trim s))).take 10

def keptCategories (raw : Str) : List Str :=
  (((split ',' raw).map trim).filter (!·.isEmpty)).take 32

def formatCategories (raw : Str) : Str := join "," ((keptCategories raw).map escapeIcal)

/-! ### The text of an event -/

/-- What stands before the colon of a line. -/
inductive Head where
  | begins | version | prodid | method | uid | dtstamp | dtstart | dtend | status | sequence
  | summary | location | description | categories | attach | organizer | attendee | room
  | action | trigger | ends
  deriving DecidableEq

def Head.text : Head → String
  | begins => "BEGIN"
  | version => "VERSION"
  | prodid => "PRODID"
  | method => "METHOD"
  | uid => "UID"
  | dtstamp => "DTSTAMP"
  | dtstart => "DTSTART"
  | dtend => "DTEND"
  | status => "STATUS"
  | sequence => "SEQUENCE"
  | summary => "SUMMARY"
  | location => "LOCATION"
  | description => "DESCRIPTION"
  | categories => "CATEGORIES"
  | attach => "ATTACH"
  | organizer => "ORGANIZER"
  | attendee => "ATTENDEE;ROLE=REQ-PARTICIPANT;PARTSTAT=NEEDS-ACTION;RSVP=TRUE"
  | room => "ATTENDEE;CUTYPE=ROOM;ROLE=NON-PARTICIPANT;RSVP=FALSE"
  | action => "ACTION"
  | trigger => "TRIGGER"
  | ends => "END"

abbrev Field := Head × Str

def lineOf (field : Field) : Str := field.1.text.toList ++ ':' :: field.2

def buildValarms (reminders summary : Str) : List Field :=
  (reminderMinutes reminders).flatMap fun m : Nat =>
    [(.begins, "VALARM".toList), (.action, "DISPLAY".toList),
      (.trigger, "-PT".toList ++ display m ++ ['M']), (.description, escapeIcal summary),
      (.ends, "VALARM".toList)]

/-- What the text is for: to be stored, to invite, or to call off. -/
inductive Method where
  | stored | request | cancel
  deriving DecidableEq

def Method.text : Method → Option String
  | stored => none
  | request => some "REQUEST"
  | cancel => some "CANCEL"

/-- What `build_vcalendar` is told beside the form. The identifier was made by the service or read
from an event, the organizer is one address. -/
structure Occasion where
  uid : Str
  uid_plain : CalDav.Plain uid
  uid_nonempty : uid ≠ []
  organizer : Option { s : Str // '\n' ∉ s }
  method : Method
  now : OffsetDateTime

section
variable (o : Occasion) (f : EventForm)

def nonempty (head : Head) (value : Str) : List Field :=
  if value.isEmpty then [] else [(head, value)]

/-- The lines before the start. -/
def opening : List Field :=
  ([(.begins, "VCALENDAR".toList), (.version, "2.0".toList),
    (.prodid, "-//expresso//web//PT-BR".toList)] : List Field) ++
  (o.method.text.map fun m => (Head.method, m.toList)).toList ++
  ([(.begins, "VEVENT".toList), (.uid, o.uid), (.dtstamp, formatUtc o.now)] : List Field)

def organizerLines : List Field :=
  match o.organizer with
  | some email => if email.1.isEmpty then [] else [(.organizer, "mailto:".toList ++ email.1)]
  | none => []

/-- The lines between the end time and the end of the event. -/
def details : List Field :=
  (if o.method = .cancel then [(.status, "CANCELLED".toList), (.sequence, "1".toList)] else [] :
    List Field) ++
  ([(.summary, escapeIcal (trim f.summary))] : List Field) ++
  (if (trim f.location).isEmpty then [] else [(.location, escapeIcal (trim f.location))] :
    List Field) ++
  (if (trim f.description).isEmpty then []
    else [(.description, escapeIcal (trim f.description))] : List Field) ++
  nonempty .categories (formatCategories f.categories) ++
  (parseAttachmentUris f.attachments).map (fun uri => (Head.attach, uri)) ++
  organizerLines o ++
  (parseAttendees f.attendees).map (fun a => (Head.attendee, "mailto:".toList ++ a)) ++
  (parseResourceEmails f.resources).map (fun r => (Head.room, "mailto:".toList ++ r)) ++
  (if o.method ≠ .cancel then buildValarms f.reminders (trim f.summary) else [] : List Field)

def ending : List Field := [(.ends, "VEVENT".toList), (.ends, "VCALENDAR".toList)]

/-- The properties that the form calls for. -/
def fields (dtstart dtend : Str) : List Field :=
  opening o ++ ([(.dtstart, dtstart), (.dtend, dtend)] : List Field) ++ details o f ++ ending

def buildVcalendar : Option Str := do
  let dtstart ← localToIcalUtc f.dtstart
  let dtend ← localToIcalUtc f.dtend
  some (terminated ((fields o f dtstart dtend).map lineOf))

end

/-! ### The fields of the form -/

/-- The multiplication wraps, as in a release build. -/
def parseNegDurationMinutes (body : Str) : Option Nat :=
  let b := toAsciiUppercase (trim body)
  match stripPrefix ['T'] b with
  | some d => match stripSuffix ['H'] d with
    | some h => (parseUnsigned u32Max h).map (· * 60 % 2 ^ 32)
    | none => (stripSuffix ['M'] d).bind (parseUnsigned u32Max)
  | none => (stripSuffix ['D'] b).bind fun days =>
      (parseUnsigned u32Max days).map (· * 24 % 2 ^ 32 * 60 % 2 ^ 32)

def triggerMinutes (line : Str) : Option Nat :=
  ((stripPrefix "TRIGGER:-P".toList (trim line)).or
    (stripPrefix "TRIGGER:-p".toList (trim line))).bind parseNegDurationMinutes

def valarmMinutes (ical : Str) : Str :=
  join "," ((sortUnique ((lines ical).filterMap triggerMinutes)).map fun m : Nat => display m)

/-- `str::rfind` of a text that is not empty, by characters. -/
def rfind (needle : Str) : Str → Option Nat
  | [] => none
  | c :: rest => match rfind needle rest with
    | some at' => some (at' + 1)
    | none => if needle.isPrefixOf (c :: rest) then some 0 else none

/-- The address of a line for a room. -/
def bookedResource (line : Str) : Option Str :=
  let l := trim line
  let upper := toAsciiUppercase l
  if "ATTENDEE".toList.isPrefixOf upper &&
      (contains "CUTYPE=ROOM".toList upper || contains "CUTYPE=RESOURCE".toList upper) then
    ((rfind "MAILTO:".toList upper).map fun at' =>
      toAsciiLowercase (trim (l.drop (at' + 7)))).filter (!·.isEmpty)
  else none

def bookedResourcesFromIcal (ical : Str) : List Str :=
  (lines ical).foldl (fun out line =>
    match bookedResource line with
    | some email => if email ∈ out then out else out ++ [email]
    | none => out) []

/-- The categories of a line. -/
def lineCategories (line : Str) : List Str :=
  let l := trimStart line
  match (stripPrefix "CATEGORIES:".toList l).or (stripPrefix "CATEGORIES;".toList l) with
  | some rest =>
      let val := ((splitOnce ':' rest).map (·.2)).getD rest
      ((split ',' val).map fun c =>
        replacePair '\\' '\\' ['\\'] (replacePair '\\' ',' [','] (trim c))).filter (!·.isEmpty)
  | none => []

def categoriesFromIcal (ical : Str) : Str := join ", " ((lines ical).flatMap lineCategories)

/-- The link of a line. -/
def attachedUri (line : Str) : Option Str :=
  ((stripPrefix "ATTACH:".toList (trimStart line)).map trim).filter (!·.isEmpty)

def attachmentsFromIcal (ical : Str) : Str := join "\n" ((lines ical).filterMap attachedUri)

/-- The form of a stored event, with the resources that are checked. -/
def reseeded (f : EventForm) (ical : Str) : EventForm :=
  { f with
    categories := categoriesFromIcal ical
    reminders := valarmMinutes ical
    attachments := attachmentsFromIcal ical
    resources := join "," (bookedResourcesFromIcal ical) }

end Expresso.Web
