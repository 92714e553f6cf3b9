import Expresso.Imip.Folding
import Expresso.CalDav.Vtodo
import Expresso.Transition.Runs

/-! The body of an invitation: the properties that an invite calls for, one to a line, and what a
reader makes of the folded lines. -/

namespace Expresso.Imip
open Text Time
open CalDav (Leads unfoldLine unfoldLines unescapeText)

inductive ImipError where
  | time
  | invalid (message : Str)
  | panic (panic : Panic)
  deriving DecidableEq

inductive Method where
  | request | cancel
  deriving DecidableEq

def Method.asStr : Method → Str
  | request => "REQUEST".toList
  | cancel => "CANCEL".toList

structure Attendee where
  email : Str
  commonName : Option Str
  rsvp : Bool

structure EventInvite where
  uid : Str
  sequence : UInt32
  summary : Str
  description : Option Str
  location : Option Str
  dtstart : OffsetDateTime
  dtend : OffsetDateTime
  organizerEmail : Str
  organizerCn : Option Str
  attendees : List Attendee

/-- The text of ISO 8601 without its separators, up to the fraction of a second. -/
def formatIcalUtc (iso : Str) : Str :=
  let out := (iso.takeWhile (· ≠ '.')).filter fun c => c ≠ '-' && c ≠ ':'
  if out.getLast? = some 'Z' then out else out ++ ['Z']

def escapeChar (c : Char) : Str :=
  if c = '\\' then ['\\', '\\'] else if c = ';' then ['\\', ';'] else if c = ',' then ['\\', ',']
  else if c = '\n' then ['\\', 'n'] else if c = '\r' then [] else [c]

def escapeText (input : Str) : Str := input.flatMap escapeChar

def isQuoted (c : Char) : Bool :=
  c = ':' || c = ';' || c = ',' || c = '"' || isWhitespace c

/-- A name with anything special in it is quoted, without the quotes inside. -/
def quoteCn (cn : Str) : Str :=
  if cn.any isQuoted then '"' :: cn.filter (· ≠ '"') ++ ['"'] else cn

def property (name : String) (value : Str) : Str := name.toList ++ ':' :: value

def organizerLine (invite : EventInvite) : Str :=
  match invite.organizerCn with
  | some cn =>
      "ORGANIZER;CN=".toList ++ quoteCn cn ++ ":mailto:".toList ++ invite.organizerEmail
  | none => "ORGANIZER:mailto:".toList ++ invite.organizerEmail

def attendeeLine (method : Method) (a : Attendee) : Str :=
  let partstat := match method with
    | .request => "NEEDS-ACTION".toList
    | .cancel => "DECLINED".toList
  let rsvp := if a.rsvp then "TRUE".toList else "FALSE".toList
  let tail := ";ROLE=REQ-PARTICIPANT;PARTSTAT=".toList ++ partstat ++ ";RSVP=".toList ++ rsvp ++
    ":mailto:".toList ++ a.email
  match a.commonName with
  | some cn => "ATTENDEE;CN=".toList ++ quoteCn cn ++ tail
  | none => "ATTENDEE".toList ++ tail

/-- The lines in the order in which they are written. -/
def icalLines (invite : EventInvite) (method : Method) (dtstamp dtstart dtend : Str) : List Str :=
  ["BEGIN:VCALENDAR".toList, "VERSION:2.0".toList,
    "PRODID:-//Expresso//expresso-imip 0.1//PT".toList, property "METHOD" method.asStr,
    "CALSCALE:GREGORIAN".toList, "BEGIN:VEVENT".toList, property "UID" (escapeText invite.uid),
    property "SEQUENCE" (display invite.sequence.toNat), property "DTSTAMP" dtstamp,
    property "DTSTART" dtstart, property "DTEND" dtend,
    property "SUMMARY" (escapeText invite.summary)] ++
  (invite.description.map fun v => property "DESCRIPTION" (escapeText v)).toList ++
  (invite.location.map fun v => property "LOCATION" (escapeText v)).toList ++
  organizerLine invite :: invite.attendees.map (attendeeLine method) ++
  (if method = .cancel then ["STATUS:CANCELLED".toList] else []) ++
  ["END:VEVENT".toList, "END:VCALENDAR".toList]

section
-- `OffsetDateTime::format` of ISO 8601
variable (iso8601 : OffsetDateTime → Option Str)

def formatted (t : OffsetDateTime) : Except ImipError Str :=
  ((iso8601 t).map formatIcalUtc).elim (.error .time) .ok

def buildIcal (invite : EventInvite) (method : Method) (now : OffsetDateTime) :
    Except ImipError Str :=
  if invite.attendees.isEmpty then .error (.invalid "attendees empty".toList)
  else if invite.dtend.instant ≤ invite.dtstart.instant then
    .error (.invalid "dtend <= dtstart".toList)
  else do
    let dtstamp ← formatted iso8601 now
    let dtstart ← formatted iso8601 invite.dtstart
    let dtend ← formatted iso8601 invite.dtend
    (foldLines (terminate (icalLines invite method dtstamp dtstart dtend))).mapError .panic

end

/-! ### Readers -/

/-- A line that is written whole and begins with no blank. -/
structure Sound (line : Str) : Prop where
  oneLine : '\n' ∉ line
  leads : Leads line

theorem unfoldLine_returned {line : Str} (leads : Leads line) (out : List Str) :
    unfoldLine out (line ++ ['\r']) = out ++ [line] := by
  simp only [unfoldLine, CalDav.stripReturn_append, Option.getD_some]
  cases line with
  | nil => rfl
  | cons first rest =>
    cases out.getLast? with
    | none => rfl
    | some previous =>
      have other : ¬(first = ' ' ∨ first = '\t') := by simpa [Leads] using leads
      simp only [if_neg other]

theorem unfoldLine_continued (out : List Str) (previous chunk : Str) :
    unfoldLine (out ++ [previous]) (' ' :: chunk ++ ['\r']) = out ++ [previous ++ chunk] := by
  simp only [unfoldLine, CalDav.stripReturn_append, Option.getD_some, List.getLast?_concat,
    true_or, if_true, List.dropLast_concat]

theorem foldl_continued (out : List Str) (previous : Str) (chunks : List Str) :
    ((chunks.map (' ' :: ·)).map (· ++ ['\r'])).foldl unfoldLine (out ++ [previous]) =
      out ++ [previous ++ chunks.flatten] := by
  induction chunks generalizing previous with
  | nil => simp
  | cons chunk chunks ih =>
    rw [List.map_cons, List.map_cons, List.foldl_cons, unfoldLine_continued, ih,
      List.flatten_cons, List.append_assoc]

/-- The folded line is taken in as the line that it was. -/
theorem foldl_physical {line : Str} (leads : Leads line) (out : List Str) :
    ((physical (chunksOf line)).map (· ++ ['\r'])).foldl unfoldLine out = out ++ [line] := by
  obtain ⟨first, rest, pieces, filled⟩ := chunksOf_cons line
  have whole := chunksOf_flatten line
  rw [pieces, List.flatten_cons] at whole
  have begins : Leads first := by
    cases first with
    | nil => exact ⟨by simp, by simp⟩
    | cons c first =>
      rw [← whole] at leads
      exact leads
  rw [pieces]
  unfold physical
  rw [List.map_cons, List.foldl_cons, unfoldLine_returned begins, foldl_continued, whole]

theorem split_terminate {lines : List Str} (oneLine : ∀ l ∈ lines, '\n' ∉ l) :
    split '\n' (terminate lines) = lines.map (· ++ ['\r']) ++ [[]] := by
  induction lines with
  | nil => rfl
  | cons line lines ih =>
    have here : '\n' ∉ line ++ ['\r'] :=
      List.not_mem_append (oneLine line List.mem_cons_self) (by decide)
    have text : line ++ (crlf ++ terminate lines) = (line ++ ['\r']) ++ '\n' :: terminate lines := by
      simp [crlf]
    rw [terminate_cons, text, split_append_cons here,
      ih fun l member => oneLine l (List.mem_cons_of_mem line member)]
    rfl

/-- A reader that ends lines at LF, and one that ends them at CRLF alone, find the lines again. -/
theorem read_folded {lines : List Str} (nonempty : lines ≠ [])
    (sound : ∀ l ∈ lines, Sound l) {out : Str} (folded : foldLines (terminate lines) = .ok out) :
    unfoldLines out = lines ++ [[]] ∧ contentLines (unfoldText out) = lines := by
  have unbroken : ∀ l ∈ lines, Unbroken l := fun l member broken =>
    (sound l member).oneLine (broken.subset (by decide))
  have same : contentLines (terminate lines) = lines := contentLines_terminate nonempty unbroken
  rw [foldLines_eq, physicalLines, same] at folded
  cases folded
  have oneLine : ∀ l ∈ lines.flatMap fun line => physical (chunksOf line), '\n' ∉ l := by
    intro l member feed
    obtain ⟨line, among, inside⟩ := List.mem_flatMap.mp member
    apply (sound line among).oneLine
    rw [← chunksOf_flatten line]
    cases pieces : chunksOf line with
    | nil =>
      rw [pieces] at inside
      cases inside
    | cons first rest =>
      rw [pieces] at inside
      rcases List.mem_cons.mp inside with rfl | later
      · exact List.mem_flatten.mpr ⟨l, List.mem_cons_self, feed⟩
      · obtain ⟨chunk, among, rfl⟩ := List.mem_map.mp later
        have within := (List.mem_cons.mp feed).resolve_left (by decide)
        exact List.mem_flatten.mpr ⟨chunk, List.mem_cons_of_mem first among, within⟩
  constructor
  · rw [unfoldLines, split_terminate oneLine, List.foldl_append]
    have taken (before : List Str) : ∀ ls : List Str, (∀ l ∈ ls, Sound l) →
        ((ls.flatMap fun line => physical (chunksOf line)).map (· ++ ['\r'])).foldl unfoldLine
          before = before ++ ls := by
      intro ls
      induction ls generalizing before with
      | nil => exact fun _ => (List.append_nil before).symm
      | cons line ls ih =>
        intro each
        rw [List.flatMap_cons, List.map_append, List.foldl_append,
          foldl_physical (each line List.mem_cons_self).leads,
          ih _ fun l member => each l (List.mem_cons_of_mem line member), List.append_assoc]
        rfl
    rw [taken [] lines sound]
    rfl
  · have leads : ∀ l ∈ lines, l.head? ≠ some ' ' := fun l member => (sound l member).leads.1
    rw [(unfoldText_terminate unbroken).1]
    have kept : ∀ ls : List Str, (∀ l ∈ ls, Unbroken l ∧ l.head? ≠ some ' ') →
        unfoldText (terminate ls) = terminate ls := by
      intro ls
      induction ls with
      | nil => exact fun _ => rfl
      | cons line ls ih =>
        intro each
        have rest := ih fun l member => each l (List.mem_cons_of_mem line member)
        have blank : (terminate ls).head? ≠ some ' ' := by
          cases ls with
          | nil => simp [terminate]
          | cons next ls =>
            have other := (each next (List.mem_cons_of_mem line List.mem_cons_self)).2
            rw [terminate_cons]
            cases next with
            | nil => exact fun starts => absurd (Option.some.inj starts) (by decide)
            | cons c next => exact other
        rw [terminate_cons, unfoldText_append (each line List.mem_cons_self).1 (head_crlf _),
          unfoldText_crlf blank, rest]
    rw [kept lines fun l member => ⟨unbroken l member, leads l member⟩, same]

/-! ### Fields -/

theorem escapeText_eq (v : Str) : escapeText v = CalDav.escapeText (v.filter (· ≠ '\r')) := by
  induction v with
  | nil => rfl
  | cons c rest ih =>
    have step : escapeText (c :: rest) = escapeChar c ++ escapeText rest := rfl
    rw [step, ih]
    by_cases return_ : c = '\r'
    · subst return_
      rfl
    have kept : (c :: rest).filter (· ≠ '\r') = c :: rest.filter (· ≠ '\r') :=
      List.filter_cons_of_pos (by simpa using return_)
    have same : escapeChar c = CalDav.escapeChar c := by
      simp only [escapeChar, CalDav.escapeChar, if_neg return_]
      by_cases backslash : c = '\\'
      · simp [backslash]
      by_cases semicolon : c = ';'
      · simp [semicolon]
      by_cases comma : c = ','
      · simp [comma]
      · simp [backslash, semicolon, comma]
    rw [kept, same]
    rfl

theorem escapeText_oneLine (v : Str) : '\n' ∉ escapeText v := by
  rw [escapeText_eq]
  exact CalDav.escapeText_oneLine _

/-- A text comes back without its carriage returns. -/
theorem unescape_escapeText_iff (v : Str) : unescapeText (escapeText v) = v ↔ '\r' ∉ v := by
  rw [escapeText_eq, CalDav.unescapeText_escapeText, List.filter_eq_self]
  constructor
  · intro kept return_
    exact absurd (kept '\r' return_) (by decide)
  · intro absent c member
    have other : c ≠ '\r' := fun same => absent (same ▸ member)
    simpa using other

theorem feed_quoteCn (cn : Str) : '\n' ∈ quoteCn cn ↔ '\n' ∈ cn := by
  rw [quoteCn]
  split
  · simp
  · rfl

/-- The names and addresses that are written as they are. -/
def rawFields (invite : EventInvite) : List Str :=
  invite.organizerCn.toList ++ invite.organizerEmail ::
    invite.attendees.flatMap fun a => a.commonName.toList ++ [a.email]

/-- The fields that are written with escapes. -/
def textFields (invite : EventInvite) : List Str :=
  invite.uid :: invite.summary :: (invite.description.toList ++ invite.location.toList)

theorem feed_organizerLine (invite : EventInvite) : '\n' ∉ organizerLine invite ↔
    (∀ cn ∈ invite.organizerCn, '\n' ∉ cn) ∧ '\n' ∉ invite.organizerEmail := by
  have texts : '\n' ∉ "ORGANIZER;CN=".toList ∧ '\n' ∉ ":mailto:".toList ∧
      '\n' ∉ "ORGANIZER:mailto:".toList := by decide
  unfold organizerLine
  cases invite.organizerCn with
  | none => simp only [List.mem_append, texts.2.2, false_or, Option.not_mem_none, false_implies,
      implies_true, true_and]
  | some cn => simp only [List.mem_append, texts.1, texts.2.1, false_or, or_false, feed_quoteCn,
      not_or, Option.mem_some_iff, forall_eq']

theorem feed_attendeeLine (method : Method) (a : Attendee) : '\n' ∉ attendeeLine method a ↔
    (∀ cn ∈ a.commonName, '\n' ∉ cn) ∧ '\n' ∉ a.email := by
  have texts : '\n' ∉ "ATTENDEE;CN=".toList ∧ '\n' ∉ "ATTENDEE".toList ∧
      '\n' ∉ ";ROLE=REQ-PARTICIPANT;PARTSTAT=".toList ∧ '\n' ∉ ";RSVP=".toList ∧
      '\n' ∉ ":mailto:".toList := by decide
  have partstat : '\n' ∉ (match method with
      | .request => "NEEDS-ACTION".toList
      | .cancel => "DECLINED".toList) := by cases method <;> decide
  have rsvp : '\n' ∉ (if a.rsvp then "TRUE".toList else "FALSE".toList) := by
    split <;> decide
  obtain ⟨named, plain, role, answer, mailto⟩ := texts
  unfold attendeeLine
  cases a.commonName with
  | none => simp only [List.mem_append, plain, role, partstat, answer, rsvp, mailto, false_or,
      Option.not_mem_none, false_implies, implies_true, true_and]
  | some cn => simp only [List.mem_append, named, role, partstat, answer, rsvp, mailto, false_or,
      feed_quoteCn, not_or, Option.mem_some_iff, forall_eq']

theorem feed_property {name : String} (oneLine : '\n' ∉ name.toList) (value : Str) :
    '\n' ∉ property name value ↔ '\n' ∉ value := by
  have colon : '\n' ≠ ':' := by decide
  rw [property, List.mem_append, List.mem_cons, not_or, not_or]
  exact ⟨fun each => each.2.2, fun value => ⟨oneLine, colon, value⟩⟩

theorem display_oneLine (n : Nat) : '\n' ∉ display n := fun feed =>
  absurd (CalDav.display_isDigit (Int.natCast_nonneg n) '\n' feed) (by decide)

section
variable (invite : EventInvite) (method : Method) {dtstamp dtstart dtend : Str}

/-- The lines are written whole, just where no name and no address holds a line feed. -/
theorem icalLines_oneLine_iff (stamp : '\n' ∉ dtstamp) (start : '\n' ∉ dtstart)
    (stop : '\n' ∉ dtend) : (∀ l ∈ icalLines invite method dtstamp dtstart dtend, '\n' ∉ l) ↔
      ∀ field ∈ rawFields invite, '\n' ∉ field := by
  have header : (∀ l ∈ ["BEGIN:VCALENDAR".toList, "VERSION:2.0".toList,
      "PRODID:-//Expresso//expresso-imip 0.1//PT".toList, property "METHOD" method.asStr,
      "CALSCALE:GREGORIAN".toList, "BEGIN:VEVENT".toList, property "UID" (escapeText invite.uid),
      property "SEQUENCE" (display invite.sequence.toNat), property "DTSTAMP" dtstamp,
      property "DTSTART" dtstart, property "DTEND" dtend,
      property "SUMMARY" (escapeText invite.summary)], '\n' ∉ l) := by
    simp only [List.forall_mem_cons]
    refine ⟨by decide, by decide, by decide, by cases method <;> decide, by decide, by decide,
      (feed_property (by decide) _).mpr (escapeText_oneLine _),
      (feed_property (by decide) _).mpr (display_oneLine _),
      (feed_property (by decide) _).mpr stamp, (feed_property (by decide) _).mpr start,
      (feed_property (by decide) _).mpr stop,
      (feed_property (by decide) _).mpr (escapeText_oneLine _), List.forall_mem_nil _⟩
  have described : ∀ l ∈ (invite.description.map fun v =>
      property "DESCRIPTION" (escapeText v)).toList, '\n' ∉ l := by
    cases invite.description with
    | none => exact List.forall_mem_nil _
    | some v =>
      exact List.forall_mem_singleton.mpr
        ((feed_property (by decide) _).mpr (escapeText_oneLine v))
  have located : ∀ l ∈ (invite.location.map fun v =>
      property "LOCATION" (escapeText v)).toList, '\n' ∉ l := by
    cases invite.location with
    | none => exact List.forall_mem_nil _
    | some v =>
      exact List.forall_mem_singleton.mpr
        ((feed_property (by decide) _).mpr (escapeText_oneLine v))
  have cancelled : ∀ l ∈ (if method = .cancel then ["STATUS:CANCELLED".toList] else []),
      '\n' ∉ l := by
    split <;> decide
  have footer : ∀ l ∈ ["END:VEVENT".toList, "END:VCALENDAR".toList], '\n' ∉ l := by decide
  have people : (∀ l ∈ organizerLine invite :: invite.attendees.map (attendeeLine method),
      '\n' ∉ l) ↔ ∀ field ∈ rawFields invite, '\n' ∉ field := by
    rw [rawFields, List.forall_mem_cons, List.forall_mem_map, List.forall_mem_append,
      List.forall_mem_cons, List.forall_mem_flatMap, feed_organizerLine, and_assoc]
    apply and_congr
    · simp
    · apply and_congr Iff.rfl
      apply forall₂_congr
      intro a _
      rw [feed_attendeeLine, List.forall_mem_append, List.forall_mem_singleton]
      simp
  unfold icalLines
  rw [List.forall_mem_append, List.forall_mem_append, List.forall_mem_append,
    List.forall_mem_append, List.forall_mem_append, people]
  tauto

theorem leads_append {front : Str} (leads : Leads front) (nonempty : front ≠ []) (rest : Str) :
    Leads (front ++ rest) := by
  cases front with
  | nil => exact absurd rfl nonempty
  | cons c front => exact leads

/-- A line begins with the letter its property begins with. -/
theorem leads_named (c : Char) (rest : Str) (letter : c ≠ ' ' ∧ c ≠ '\t') : Leads (c :: rest) :=
  ⟨fun same => letter.1 (Option.some.inj same), fun same => letter.2 (Option.some.inj same)⟩

theorem icalLines_leads : ∀ l ∈ icalLines invite method dtstamp dtstart dtend, Leads l := by
  have organizer : Leads (organizerLine invite) := by
    unfold organizerLine
    split <;> exact leads_named 'O' _ (by decide)
  have attendees : ∀ a : Attendee, Leads (attendeeLine method a) := by
    intro a
    unfold attendeeLine
    dsimp only
    split <;> exact leads_named 'A' _ (by decide)
  have named {name : String} {c : Char} {rest : Str} (spelt : name.toList = c :: rest)
      (letter : c ≠ ' ' ∧ c ≠ '\t') (value : Str) : Leads (property name value) := by
    rw [property, spelt]
    exact leads_named c _ letter
  unfold icalLines
  simp only [List.forall_mem_append, List.forall_mem_cons, List.forall_mem_map]
  refine ⟨⟨⟨⟨⟨?_, ?_⟩, ?_⟩, organizer, fun a _ => attendees a⟩, ?_⟩, ?_⟩
  · refine ⟨leads_named 'B' _ (by decide), leads_named 'V' _ (by decide),
      leads_named 'P' _ (by decide), named rfl (by decide) _, leads_named 'C' _ (by decide),
      leads_named 'B' _ (by decide), named rfl (by decide) _, named rfl (by decide) _,
      named rfl (by decide) _, named rfl (by decide) _, named rfl (by decide) _,
      named rfl (by decide) _, List.forall_mem_nil _⟩
  · cases invite.description with
    | none => exact List.forall_mem_nil _
    | some v => exact List.forall_mem_singleton.mpr (named rfl (by decide) _)
  · cases invite.location with
    | none => exact List.forall_mem_nil _
    | some v => exact List.forall_mem_singleton.mpr (named rfl (by decide) _)
  · split
    · exact List.forall_mem_singleton.mpr (leads_named 'S' _ (by decide))
    · exact List.forall_mem_nil _
  · exact ⟨leads_named 'E' _ (by decide), leads_named 'E' _ (by decide), List.forall_mem_nil _⟩

end

/-! ### The sequence of properties -/

def isDelimiter (c : Char) : Bool := c = ':' || c = ';'

def nameOf (line : Str) : Str := line.takeWhile (!isDelimiter ·)

/-- The value of a property without parameters. -/
def valueOf (line : Str) : Str := (line.dropWhile (!isDelimiter ·)).drop 1

def valuesOf (name : String) (lines : List Str) : List Str :=
  (lines.filter (nameOf · = name.toList)).map valueOf

/-- The properties that an invite calls for, whatever its texts are. -/
def properties (invite : EventInvite) (method : Method) : List String :=
  ["BEGIN", "VERSION", "PRODID", "METHOD", "CALSCALE", "BEGIN", "UID", "SEQUENCE", "DTSTAMP",
    "DTSTART", "DTEND", "SUMMARY"] ++
  (if invite.description.isSome then ["DESCRIPTION"] else []) ++
  (if invite.location.isSome then ["LOCATION"] else []) ++
  "ORGANIZER" :: List.replicate invite.attendees.length "ATTENDEE" ++
  (if method = .cancel then ["STATUS"] else []) ++ ["END", "END"]

/-- The texts of an invite, each with its property. -/
def texts (invite : EventInvite) : List (String × List Str) :=
  [("UID", [invite.uid]), ("SUMMARY", [invite.summary]),
    ("DESCRIPTION", invite.description.toList), ("LOCATION", invite.location.toList)]

theorem nameOf_append {name : Str} (plain : name.all (!isDelimiter ·) = true) {c : Char}
    (delimiter : isDelimiter c = true) (rest : Str) : nameOf (name ++ c :: rest) = name := by
  have whole : ∀ d ∈ name, (!isDelimiter d) = true := List.all_eq_true.mp plain
  rw [nameOf, List.takeWhile_append_of_pos whole,
    List.takeWhile_cons_of_neg (by simp [delimiter]), List.append_nil]

theorem nameOf_property {name : String} (plain : name.toList.all (!isDelimiter ·) = true)
    (value : Str) : nameOf (property name value) = name.toList :=
  nameOf_append plain rfl value

theorem valueOf_property {name : String} (plain : name.toList.all (!isDelimiter ·) = true)
    (value : Str) : valueOf (property name value) = value := by
  have whole : ∀ d ∈ name.toList, (!isDelimiter d) = true := List.all_eq_true.mp plain
  rw [valueOf, property, List.dropWhile_append_of_pos whole,
    List.dropWhile_cons_of_neg (by decide)]
  rfl

theorem valuesOf_append (name : String) (front back : List Str) :
    valuesOf name (front ++ back) = valuesOf name front ++ valuesOf name back := by
  rw [valuesOf, List.filter_append, List.map_append]
  rfl

theorem valuesOf_fields {fields : List (String × Str)}
    (plain : ∀ f ∈ fields, f.1.toList.all (!isDelimiter ·) = true) (name : String) :
    valuesOf name (fields.map fun f => property f.1 f.2) =
      (fields.filter (·.1 = name)).map (·.2) := by
  induction fields with
  | nil => rfl
  | cons f fields ih =>
    have here := plain f List.mem_cons_self
    have rest := ih fun g member => plain g (List.mem_cons_of_mem f member)
    unfold valuesOf at rest ⊢
    rw [List.map_cons]
    by_cases same : f.1 = name
    · have spelt : nameOf (property f.1 f.2) = name.toList := same ▸ nameOf_property here f.2
      rw [List.filter_cons_of_pos (by simpa using spelt),
        List.filter_cons_of_pos (by simpa using same), List.map_cons, List.map_cons,
        valueOf_property here, rest]
    · have apart : f.1.toList ≠ name.toList := fun spelt => same (String.toList_inj.mp spelt)
      rw [List.filter_cons_of_neg (by simpa [nameOf_property here] using apart),
        List.filter_cons_of_neg (by simpa using same), rest]

theorem valuesOf_other {name : String} {lines : List Str}
    (other : ∀ l ∈ lines, nameOf l ≠ name.toList) : valuesOf name lines = [] := by
  have none_ : lines.filter (nameOf · = name.toList) = [] :=
    List.filter_eq_nil_iff.mpr fun l member => by simpa using other l member
  rw [valuesOf, none_]
  rfl

theorem valuesOf_optional {name : String} (plain : name.toList.all (!isDelimiter ·) = true)
    (other : String) (value : Option Str) :
    valuesOf other (value.map fun v => property name (escapeText v)).toList =
      if name = other then value.toList.map escapeText else [] := by
  cases value with
  | none => exact (ite_self []).symm
  | some v =>
    have alone : ∀ f ∈ [(name, escapeText v)], f.1.toList.all (!isDelimiter ·) = true :=
      List.forall_mem_singleton.mpr plain
    calc valuesOf other [property name (escapeText v)]
        = ([(name, escapeText v)].filter (·.1 = other)).map (·.2) := valuesOf_fields alone other
      _ = if name = other then [escapeText v] else [] := by
        by_cases same : name = other <;> simp [same]

theorem nameOf_organizerLine (invite : EventInvite) :
    nameOf (organizerLine invite) = "ORGANIZER".toList := by
  unfold organizerLine
  split
  · exact @nameOf_append "ORGANIZER".toList (by decide) ';' (by decide) _
  · exact @nameOf_append "ORGANIZER".toList (by decide) ':' (by decide) _

theorem nameOf_attendeeLine (method : Method) (a : Attendee) :
    nameOf (attendeeLine method a) = "ATTENDEE".toList := by
  unfold attendeeLine
  dsimp only
  split <;> exact @nameOf_append "ATTENDEE".toList (by decide) ';' (by decide) _

section
variable (invite : EventInvite) (method : Method) (dtstamp dtstart dtend : Str)

/-- No text of an invite changes what properties stand in which order. -/
theorem icalLines_names : (icalLines invite method dtstamp dtstart dtend).map nameOf =
    (properties invite method).map String.toList := by
  have described : ((invite.description.map fun v =>
      property "DESCRIPTION" (escapeText v)).toList).map nameOf =
        (if invite.description.isSome then ["DESCRIPTION"] else []).map String.toList := by
    cases invite.description with
    | none => rfl
    | some v => exact congrArg (· :: []) (nameOf_property (by decide) _)
  have located : ((invite.location.map fun v =>
      property "LOCATION" (escapeText v)).toList).map nameOf =
        (if invite.location.isSome then ["LOCATION"] else []).map String.toList := by
    cases invite.location with
    | none => rfl
    | some v => exact congrArg (· :: []) (nameOf_property (by decide) _)
  have attended : (invite.attendees.map (attendeeLine method)).map nameOf =
      (List.replicate invite.attendees.length "ATTENDEE").map String.toList := by
    rw [List.map_map, List.map_replicate, ← List.map_const']
    apply List.map_congr_left
    intro a _
    exact nameOf_attendeeLine method a
  have cancelled : (if method = .cancel then ["STATUS:CANCELLED".toList] else []).map nameOf =
      (if method = .cancel then ["STATUS"] else []).map String.toList := by
    split <;> rfl
  unfold icalLines properties
  simp only [List.map_append, List.map_cons, described, located, attended, cancelled,
    nameOf_organizerLine]
  rfl

/-- The properties before the first that an invite may leave out. -/
def headerFields : List (String × Str) :=
  [("BEGIN", "VCALENDAR".toList), ("VERSION", "2.0".toList),
    ("PRODID", "-//Expresso//expresso-imip 0.1//PT".toList), ("METHOD", method.asStr),
    ("CALSCALE", "GREGORIAN".toList), ("BEGIN", "VEVENT".toList), ("UID", escapeText invite.uid),
    ("SEQUENCE", display invite.sequence.toNat), ("DTSTAMP", dtstamp), ("DTSTART", dtstart),
    ("DTEND", dtend), ("SUMMARY", escapeText invite.summary)]

def footerFields : List (String × Str) := [("END", "VEVENT".toList), ("END", "VCALENDAR".toList)]

theorem icalLines_eq : icalLines invite method dtstamp dtstart dtend =
    (headerFields invite method dtstamp dtstart dtend).map (fun f => property f.1 f.2) ++
    (invite.description.map fun v => property "DESCRIPTION" (escapeText v)).toList ++
    (invite.location.map fun v => property "LOCATION" (escapeText v)).toList ++
    organizerLine invite :: invite.attendees.map (attendeeLine method) ++
    (if method = .cancel then ["STATUS:CANCELLED".toList] else []) ++
    footerFields.map fun f => property f.1 f.2 := rfl

theorem valuesOf_header (name : String) :
    valuesOf name ((headerFields invite method dtstamp dtstart dtend).map fun f =>
      property f.1 f.2) =
        ((headerFields invite method dtstamp dtstart dtend).filter (·.1 = name)).map (·.2) := by
  have plain : ((headerFields invite method dtstamp dtstart dtend).map (·.1)).all
      (fun name => name.toList.all (!isDelimiter ·)) = true := by
    have names : ["BEGIN", "VERSION", "PRODID", "METHOD", "CALSCALE", "BEGIN", "UID", "SEQUENCE",
      "DTSTAMP", "DTSTART", "DTEND", "SUMMARY"].all
        (fun name => name.toList.all (!isDelimiter ·)) = true := by decide
    exact names
  apply valuesOf_fields
  rw [List.all_map, List.all_eq_true] at plain
  exact plain

/-- Each text stands once, as the value of its own property. -/
theorem icalLines_values : ∀ text ∈ texts invite,
    valuesOf text.1 (icalLines invite method dtstamp dtstart dtend) = text.2.map escapeText := by
  have people {name : String} (other : "ORGANIZER" ≠ name ∧ "ATTENDEE" ≠ name) :
      valuesOf name (organizerLine invite :: invite.attendees.map (attendeeLine method)) = [] := by
    apply valuesOf_other
    rw [List.forall_mem_cons, List.forall_mem_map, nameOf_organizerLine]
    refine ⟨fun spelt => other.1 (String.toList_inj.mp spelt), fun a _ => ?_⟩
    rw [nameOf_attendeeLine]
    exact fun spelt => other.2 (String.toList_inj.mp spelt)
  have cancelled {name : String} (other : "STATUS" ≠ name) :
      valuesOf name (if method = .cancel then ["STATUS:CANCELLED".toList] else []) = [] := by
    apply valuesOf_other
    split
    · exact List.forall_mem_singleton.mpr fun spelt => other (String.toList_inj.mp spelt)
    · exact List.forall_mem_nil _
  have ends {name : String} (other : "END" ≠ name) :
      valuesOf name (footerFields.map fun f => property f.1 f.2) = [] := by
    rw [valuesOf_fields (by decide)]
    simp [footerFields, other]
  have described (name : String) :=
    @valuesOf_optional "DESCRIPTION" (by decide) name invite.description
  have located (name : String) :=
    @valuesOf_optional "LOCATION" (by decide) name invite.location
  have values {name : String} (other : "ORGANIZER" ≠ name ∧ "ATTENDEE" ≠ name)
      (still : "STATUS" ≠ name) (inside : "END" ≠ name) :
      valuesOf name (icalLines invite method dtstamp dtstart dtend) =
        ((headerFields invite method dtstamp dtstart dtend).filter (·.1 = name)).map (·.2) ++
        (if "DESCRIPTION" = name then invite.description.toList.map escapeText else []) ++
        if "LOCATION" = name then invite.location.toList.map escapeText else [] := by
    rw [icalLines_eq, valuesOf_append, valuesOf_append, valuesOf_append, valuesOf_append,
      valuesOf_append, people other, cancelled still, ends inside, described, located,
      valuesOf_header, List.append_nil, List.append_nil, List.append_nil]
  unfold texts
  rw [List.forall_mem_cons, List.forall_mem_cons, List.forall_mem_cons, List.forall_mem_singleton]
  refine ⟨?uid, ?summary, ?description, ?location⟩ <;> dsimp only <;>
    rw [values (by decide) (by decide) (by decide)] <;> simp [headerFields]

end

/-! ### What an invitation says -/

section
variable {iso8601 : OffsetDateTime → Option Str}

/-- Of the characters of an ISO 8601 text. -/
def isStampChar (c : Char) : Bool := "0123456789+-.:TZ".toList.contains c

theorem formatted_oneLine
    (stamps : ∀ t text, iso8601 t = some text → ∀ c ∈ text, isStampChar c = true)
    {t : OffsetDateTime} {stamp : Str} (written : formatted iso8601 t = .ok stamp) :
    '\n' ∉ stamp := by
  rw [formatted] at written
  cases spelt : iso8601 t with
  | none =>
    rw [spelt] at written
    cases written
  | some iso =>
    rw [spelt] at written
    cases written
    have absent : '\n' ∉ iso := fun feed => absurd (stamps t iso spelt '\n' feed) (by decide)
    have kept : '\n' ∉ (iso.takeWhile (· ≠ '.')).filter fun c => c ≠ '-' && c ≠ ':' := fun feed =>
      absent ((List.takeWhile_sublist _).subset (List.mem_filter.mp feed).1)
    unfold formatIcalUtc
    dsimp only
    split
    · exact kept
    · exact List.not_mem_append kept (by decide)

variable (iso8601)

/-- The lines that an invite calls for. -/
def callsFor (invite : EventInvite) (method : Method) (now : OffsetDateTime) :
    Except ImipError (List Str) := do
  let dtstamp ← formatted iso8601 now
  let dtstart ← formatted iso8601 invite.dtstart
  let dtend ← formatted iso8601 invite.dtend
  .ok (icalLines invite method dtstamp dtstart dtend)

variable {iso8601} {invite : EventInvite} {method : Method} {now : OffsetDateTime} {out : Str}

theorem buildIcal_ok (built : buildIcal iso8601 invite method now = .ok out) :
    ∃ dtstamp dtstart dtend, formatted iso8601 now = .ok dtstamp ∧
      formatted iso8601 invite.dtstart = .ok dtstart ∧ formatted iso8601 invite.dtend = .ok dtend ∧
      foldLines (terminate (icalLines invite method dtstamp dtstart dtend)) = .ok out := by
  unfold buildIcal at built
  split at built
  · cases built
  split at built
  · cases built
  obtain ⟨dtstamp, now_, built⟩ := Transition.bind_eq_ok_iff.mp built
  obtain ⟨dtstart, start, built⟩ := Transition.bind_eq_ok_iff.mp built
  obtain ⟨dtend, stop, built⟩ := Transition.bind_eq_ok_iff.mp built
  refine ⟨dtstamp, dtstart, dtend, now_, start, stop, ?_⟩
  cases folded : foldLines (terminate (icalLines invite method dtstamp dtstart dtend)) with
  | error panic =>
    rw [folded] at built
    cases built
  | ok text =>
    rw [folded] at built
    cases built
    rfl

/-- The lines that are read are those called for, just where no name and no address holds a line
feed. -/
theorem read_built_iff
    (stamps : ∀ t text, iso8601 t = some text → ∀ c ∈ text, isStampChar c = true)
    (built : buildIcal iso8601 invite method now = .ok out) :
    (∃ lines, callsFor iso8601 invite method now = .ok lines ∧
      unfoldLines out = lines ++ [[]] ∧ contentLines (unfoldText out) = lines) ↔
        ∀ field ∈ rawFields invite, '\n' ∉ field := by
  obtain ⟨dtstamp, dtstart, dtend, now_, start, stop, folded⟩ := buildIcal_ok built
  have called : callsFor iso8601 invite method now =
      .ok (icalLines invite method dtstamp dtstart dtend) := by
    rw [callsFor, now_, start, stop]
    rfl
  have whole := icalLines_oneLine_iff invite method (formatted_oneLine stamps now_)
    (formatted_oneLine stamps start) (formatted_oneLine stamps stop)
  constructor
  · rintro ⟨lines, calls, read, -⟩
    cases called.symm.trans calls
    apply whole.mp
    intro l member
    apply CalDav.unfoldLines_oneLine out
    rw [read]
    exact List.mem_append_left _ member
  · intro raw
    have sound : ∀ l ∈ icalLines invite method dtstamp dtstart dtend, Sound l := fun l member =>
      ⟨whole.mpr raw l member, icalLines_leads invite method l member⟩
    have nonempty : icalLines invite method dtstamp dtstart dtend ≠ [] :=
      List.append_ne_nil_of_right_ne_nil _ (List.cons_ne_nil _ _)
    exact ⟨_, called, read_folded nonempty sound folded⟩

/-- Where no name and no address holds a line feed, both readers find the properties that the
invite calls for, and each text but for its carriage returns. -/
theorem invitation_reads_back
    (stamps : ∀ t text, iso8601 t = some text → ∀ c ∈ text, isStampChar c = true)
    (oneLine : ∀ field ∈ rawFields invite, '\n' ∉ field)
    (built : buildIcal iso8601 invite method now = .ok out) :
    ∃ lines, callsFor iso8601 invite method now = .ok lines ∧ unfoldLines out = lines ++ [[]] ∧
      contentLines (unfoldText out) = lines ∧
      lines.map nameOf = (properties invite method).map String.toList ∧
      ∀ text ∈ texts invite,
        (valuesOf text.1 lines).map unescapeText = text.2.map (·.filter (· ≠ '\r')) := by
  obtain ⟨lines, called, read, unfolded⟩ := (read_built_iff stamps built).mpr oneLine
  refine ⟨lines, called, read, unfolded, ?_⟩
  obtain ⟨dtstamp, dtstart, dtend, now_, start, stop, -⟩ := buildIcal_ok built
  rw [callsFor, now_, start, stop] at called
  cases called
  refine ⟨icalLines_names invite method dtstamp dtstart dtend, fun text member => ?_⟩
  rw [icalLines_values invite method dtstamp dtstart dtend text member, List.map_map]
  apply List.map_congr_left
  intro v _
  rw [Function.comp_apply, escapeText_eq, CalDav.unescapeText_escapeText]

end

private def isoSample (_ : OffsetDateTime) : Option Str :=
  some "2026-04-24T12:34:56.000000000Z".toList

private def april (day : Nat) (range : 1 ≤ day ∧ day ≤ 30) : OffsetDateTime :=
  .assumeUtc ⟨2026, .april, day, Time.year_2026, range⟩ 0 Time.midnight_range

private def sampleInvite (summary cn : String) : EventInvite where
  uid := "a@b".toList
  sequence := 0
  summary := summary.toList
  description := none
  location := none
  dtstart := april 24 (by decide)
  dtend := april 25 (by decide)
  organizerEmail := "o@b".toList
  organizerCn := some cn.toList
  attendees := [⟨"g@b".toList, none, true⟩]

private theorem sample_facts :
    ((buildIcal isoSample (sampleInvite "Plan\r" "Ana") .request (april 1 (by decide))).map
      fun out => (valuesOf "SUMMARY" (contentLines (unfoldText out))).map unescapeText) =
        .ok ["Plan".toList] ∧
    ((buildIcal isoSample (sampleInvite "Plan" "Ana\r\nSTATUS:CANCELLED") .request
        (april 1 (by decide))).map
      fun out => valuesOf "STATUS" (contentLines (unfoldText out))) =
        .ok ["CANCELLED\":mailto:o@b".toList] ∧
    (buildIcal isoSample (sampleInvite "Plan" "Ana") .request (april 1 (by decide))).isOk = true := by
  decide +kernel

/-- A carriage return in a summary is lost, and a name can hold a property. -/
theorem name_holds_property :
    ((buildIcal isoSample (sampleInvite "Plan\r" "Ana") .request (april 1 (by decide))).map
      fun out => (valuesOf "SUMMARY" (contentLines (unfoldText out))).map unescapeText) =
        .ok ["Plan".toList] ∧
    ((buildIcal isoSample (sampleInvite "Plan" "Ana\r\nSTATUS:CANCELLED") .request
        (april 1 (by decide))).map
      fun out => valuesOf "STATUS" (contentLines (unfoldText out))) =
        .ok ["CANCELLED\":mailto:o@b".toList] :=
  ⟨sample_facts.1, sample_facts.2.1⟩

theorem invitation_reads_back_plan : ∃ out lines,
    buildIcal isoSample (sampleInvite "Plan" "Ana") .request (april 1 (by decide)) = .ok out ∧
      contentLines (unfoldText out) = lines ∧
      (valuesOf "SUMMARY" lines).map unescapeText = ["Plan".toList] := by
  have succeeds := sample_facts.2.2
  cases built : buildIcal isoSample (sampleInvite "Plan" "Ana") .request (april 1 (by decide)) with
  | error e =>
    rw [built] at succeeds
    cases succeeds
  | ok out =>
    have stamps : ∀ t text, isoSample t = some text → ∀ c ∈ text, isStampChar c = true := by
      intro t text written
      cases written
      exact List.all_eq_true.mp (by decide)
    have oneLine : ∀ field ∈ rawFields (sampleInvite "Plan" "Ana"), '\n' ∉ field := by
      have names : ['\n'].all (fun c => (rawFields (sampleInvite "Plan" "Ana")).all
        fun field => !field.contains c) = true := by decide
      simpa using names
    obtain ⟨lines, -, -, unfolded, -, texts⟩ := invitation_reads_back stamps oneLine built
    have named : ("SUMMARY", ["Plan".toList]) ∈ Imip.texts (sampleInvite "Plan" "Ana") := by
      simp [Imip.texts, sampleInvite]
    exact ⟨out, lines, rfl, unfolded, texts _ named⟩

end Expresso.Imip
