import Expresso.CalDav.Rsvp
import Expresso.CalDav.TodoRoundTrip
import Expresso.Text.Replace

/-! The reply that is sent to the organizer, and what a reader makes of it. -/

namespace Expresso.CalDav.Itip
open Text Time

/-! ### Writing -/

/-- `to_offset` of UTC, which panics where the date is none. -/
def toUtc (t : OffsetDateTime) : Except Panic OffsetDateTime :=
  (Date.ofDays (t.instant / dayNanos)).elim (.error .dateRange) fun date =>
    .ok ⟨date, t.instant % dayNanos, 0, clock_range t.instant, OffsetDateTime.utc_range⟩

inductive ReplyError where
  | rejected (error : CalendarError)
  | panic (panic : Panic)
  deriving DecidableEq

def utcOf : Option OffsetDateTime → Except ReplyError (Option OffsetDateTime)
  | none => .ok none
  | some t => ((toUtc t).map some).mapError .panic

/-- The line of `write_dt`. -/
def timeLine (name : String) (utc : OffsetDateTime) : Str := name.toList ++ ':' :: formatUtc utc

def replySummary (summary : Str) : Str :=
  replaceChar '\n' ['\\', 'n'] (replaceChar '\r' [' '] summary)

/-- The properties, in the order in which they are written before the attendee. -/
def replyProperties (uid : Str) (dtstart dtend : Option OffsetDateTime) (summary : Option Str)
    (organizer : Str) : List (Property × Str) :=
  (Property.uid, uid) :: (dtstart.map fun t => (Property.dtstart, formatUtc t)).toList ++
    (dtend.map fun t => (Property.dtend, formatUtc t)).toList ++
    (summary.map fun s => (Property.summary, replySummary s)).toList ++
    [(Property.organizer, "mailto:".toList ++ organizer)]

def propertyLine (p : Property × Str) : Str := p.1.name ++ ':' :: p.2

def replyHeader : List Str :=
  ["BEGIN:VCALENDAR".toList, "VERSION:2.0".toList, "PRODID:-//Expresso//iTIP//EN".toList,
    "METHOD:REPLY".toList, "BEGIN:VEVENT".toList]

def replyFooter : List Str := ["END:VEVENT".toList, "END:VCALENDAR".toList]

def replyLinesOf (properties : List (Property × Str)) (email partstat : Str) : List Str :=
  replyHeader ++ (properties.map propertyLine ++ newAttendeeLine email partstat :: replyFooter)

section
variable (crates : Crates)

def buildReply (raw email partstat : Str) : Except ReplyError Str :=
  match parseVevent crates raw with
  | .error e => .error (.rejected e)
  | .ok parsed =>
      match parsed.organizerEmail with
      | none => .error (.rejected (.badRequest "event has no ORGANIZER — cannot REPLY".toList))
      | some organizer => do
          let dtstart ← utcOf parsed.dtstart
          let dtend ← utcOf parsed.dtend
          .ok (terminated (replyLinesOf
            (replyProperties parsed.uid dtstart dtend parsed.summary organizer) email partstat))

/-! ### Summaries -/

/-- What stands after a backslash is taken for an escape, or will be. -/
def isEscaped (c : Char) : Bool := "nN,;\\\n".toList.contains c

/-- A backslash before such a character. -/
def Escaping (s : Str) : Prop :=
  ∃ before c after, s = before ++ '\\' :: c :: after ∧ isEscaped c = true

theorem escaping_cons_iff (c : Char) (rest : Str) : Escaping (c :: rest) ↔
    (c = '\\' ∧ ∃ d ∈ rest.head?, isEscaped d = true) ∨ Escaping rest := by
  constructor
  · rintro ⟨before, d, after, shape, special⟩
    cases before with
    | nil =>
      obtain ⟨rfl, rfl⟩ := List.cons.inj shape
      exact .inl ⟨rfl, d, rfl, special⟩
    | cons b before =>
      obtain ⟨rfl, rfl⟩ := List.cons.inj shape
      exact .inr ⟨before, d, after, rfl, special⟩
  · rintro (⟨rfl, d, next, special⟩ | ⟨before, d, after, rfl, special⟩)
    · cases rest with
      | nil => cases next
      | cons d' after =>
        cases next
        exact ⟨[], d, after, rfl, special⟩
    · exact ⟨c :: before, d, after, rfl, special⟩

theorem replySummary_cons (c : Char) (rest : Str) : replySummary (c :: rest) =
    (if c = '\n' then ['\\', 'n'] else if c = '\r' then [' '] else [c]) ++ replySummary rest := by
  unfold replySummary replaceChar
  rw [List.flatMap_cons, List.flatMap_append]
  congr 1
  by_cases feed : c = '\n'
  · subst feed
    rfl
  by_cases return_ : c = '\r'
  · subst return_
    rfl
  · simp [feed, return_]

theorem replySummary_noReturn (s : Str) : '\r' ∉ replySummary s ∧ '\n' ∉ replySummary s := by
  induction s with
  | nil => exact ⟨List.not_mem_nil, List.not_mem_nil⟩
  | cons c rest ih =>
    rw [replySummary_cons]
    by_cases feed : c = '\n'
    · rw [if_pos feed]
      exact ⟨List.not_mem_append (by decide) ih.1, List.not_mem_append (by decide) ih.2⟩
    by_cases return_ : c = '\r'
    · rw [if_neg feed, if_pos return_]
      exact ⟨List.not_mem_append (by decide) ih.1, List.not_mem_append (by decide) ih.2⟩
    · rw [if_neg feed, if_neg return_]
      exact ⟨List.not_mem_append (by simpa using Ne.symm return_) ih.1,
        List.not_mem_append (by simpa using Ne.symm feed) ih.2⟩

/-- A character that begins no escape. -/
theorem unescapeText_plain {c : Char} (plain : c ≠ '\\') (rest : Str) :
    unescapeText (c :: rest) = c :: unescapeText rest := by
  rw [unescapeText] <;> simp_all

theorem unescapeText_backslash {d : Char} (plain : isEscaped d = false) (rest : Str) :
    unescapeText ('\\' :: d :: rest) = '\\' :: d :: unescapeText rest := by
  have others : d ≠ 'n' ∧ d ≠ 'N' ∧ d ≠ ',' ∧ d ≠ ';' ∧ d ≠ '\\' := by
    refine ⟨?_, ?_, ?_, ?_, ?_⟩ <;> rintro rfl <;> exact absurd plain (by decide)
  obtain ⟨n, N, comma, semicolon, backslash⟩ := others
  rw [unescapeText] <;> simp_all

/-- A summary and what is read of it, from one escape to the next. -/
inductive ReadAs : Str → Str → Prop
  | nil : ReadAs [] []
  | last : ReadAs ['\\'] ['\\']
  | plain {c : Char} {rest read : Str} : c ≠ '\\' → c ≠ '\r' → ReadAs rest read →
      ReadAs (c :: rest) (c :: read)
  | return_ {rest read : Str} : ReadAs rest read → ReadAs ('\r' :: rest) (' ' :: read)
  | pair {d : Char} {rest read : Str} : isEscaped d = false → d ≠ '\r' → ReadAs rest read →
      ReadAs ('\\' :: d :: rest) ('\\' :: d :: read)
  | pairReturn {rest read : Str} : ReadAs rest read →
      ReadAs ('\\' :: '\r' :: rest) ('\\' :: ' ' :: read)
  | pairFeed {rest read : Str} : ReadAs rest read →
      ReadAs ('\\' :: '\n' :: rest) ('\\' :: 'n' :: read)
  | escape {d x : Char} {rest read : Str} : isEscaped d = true → ReadAs rest read →
      ReadAs ('\\' :: d :: rest) (x :: read)

theorem readAs_unescapeText (s : Str) : ReadAs s (unescapeText (replySummary s)) := by
  induction size : s.length using Nat.strong_induction_on generalizing s with
  | _ n ih =>
    subst size
    have shorter (t : Str) (less : t.length < s.length) := ih t.length less t rfl
    cases s with
    | nil => exact .nil
    | cons c rest =>
      by_cases plain : c ≠ '\\'
      · rw [replySummary_cons]
        by_cases feed : c = '\n'
        · subst feed
          exact .plain (by decide) (by decide) (shorter rest (Nat.lt_succ_self _))
        by_cases return_ : c = '\r'
        · subst return_
          exact .return_ (shorter rest (Nat.lt_succ_self _))
        · rw [if_neg feed, if_neg return_, List.singleton_append, unescapeText_plain plain]
          exact .plain plain return_ (shorter rest (Nat.lt_succ_self _))
      · rw [not_not] at plain
        subst plain
        cases rest with
        | nil => exact .last
        | cons d rest =>
          have less : rest.length < ('\\' :: d :: rest).length :=
            Nat.lt_succ_of_lt (Nat.lt_succ_self _)
          have before := replySummary_cons '\\' (d :: rest)
          rw [if_neg (by decide), if_neg (by decide), List.singleton_append] at before
          rw [before, replySummary_cons]
          by_cases feed : d = '\n'
          · subst feed
            exact .pairFeed (shorter rest less)
          by_cases return_ : d = '\r'
          · subst return_
            exact .pairReturn (shorter rest less)
          rw [if_neg feed, if_neg return_, List.singleton_append]
          cases special : isEscaped d with
          | false =>
            rw [unescapeText_backslash special]
            exact .pair special return_ (shorter rest less)
          | true =>
            have among : d = 'n' ∨ d = 'N' ∨ d = ',' ∨ d = ';' ∨ d = '\\' := by
              simpa [isEscaped, feed] using special
            rcases among with rfl | rfl | rfl | rfl | rfl <;>
              exact .escape special (shorter rest less)

theorem ReadAs.length_le {s read : Str} (as : ReadAs s read) : read.length ≤ s.length := by
  induction as with
  | nil | last => exact Nat.le_refl _
  | plain _ _ _ ih | return_ _ ih => exact Nat.succ_le_succ ih
  | pair _ _ _ ih | pairReturn _ ih | pairFeed _ ih => exact Nat.succ_le_succ (Nat.succ_le_succ ih)
  | escape _ _ ih => exact Nat.succ_le_succ (Nat.le_succ_of_le ih)

/-- A summary is read as it was, just where it holds no carriage return and no backslash that would
begin an escape. -/
theorem unescapeText_replySummary_iff (s : Str) :
    unescapeText (replySummary s) = s ↔ '\r' ∉ s ∧ ¬Escaping s := by
  have as := readAs_unescapeText s
  generalize unescapeText (replySummary s) = read at as
  induction as with
  | nil => exact iff_of_true rfl ⟨List.not_mem_nil, fun ⟨_, _, _, shape, _⟩ => by simp at shape⟩
  | last =>
    refine iff_of_true rfl ⟨by decide, ?_⟩
    rw [escaping_cons_iff]
    rintro (⟨-, d, next, -⟩ | ⟨_, _, _, shape, _⟩)
    · cases next
    · simp at shape
  | @plain c rest read other noReturn _ ih =>
    rw [List.cons_eq_cons, escaping_cons_iff, List.mem_cons, not_or, not_or]
    constructor
    · rintro ⟨-, same⟩
      obtain ⟨absent, none_⟩ := ih.mp same
      exact ⟨⟨noReturn.symm, absent⟩, fun escape => other escape.1, none_⟩
    · rintro ⟨⟨-, absent⟩, -, none_⟩
      exact ⟨rfl, ih.mpr ⟨absent, none_⟩⟩
  | return_ _ _ =>
    exact iff_of_false (fun same => absurd (List.cons.inj same).1 (by decide))
      fun both => both.1 List.mem_cons_self
  | @pair d rest read plain noReturn _ ih =>
    have one : d ≠ '\\' := by
      rintro rfl
      exact absurd plain (by decide)
    rw [List.cons_eq_cons, List.cons_eq_cons, escaping_cons_iff, escaping_cons_iff, List.mem_cons,
      List.mem_cons, not_or, not_or, not_or, not_or]
    constructor
    · rintro ⟨-, -, same⟩
      obtain ⟨absent, none_⟩ := ih.mp same
      refine ⟨⟨by decide, noReturn.symm, absent⟩, ?_, fun escape => one escape.1, none_⟩
      rintro ⟨-, _, ⟨⟩, special⟩
      exact absurd special (by rw [plain]; decide)
    · rintro ⟨⟨-, -, absent⟩, -, -, none_⟩
      exact ⟨rfl, rfl, ih.mpr ⟨absent, none_⟩⟩
  | pairReturn _ _ =>
    exact iff_of_false (fun same => absurd (List.cons.inj (List.cons.inj same).2).1 (by decide))
      fun both => both.1 (List.mem_cons_of_mem _ List.mem_cons_self)
  | pairFeed _ _ =>
    refine iff_of_false
      (fun same => absurd (List.cons.inj (List.cons.inj same).2).1 (by decide)) fun both => ?_
    exact both.2 ((escaping_cons_iff _ _).mpr (.inl ⟨rfl, '\n', rfl, by decide⟩))
  | @escape d x rest read special as ih =>
    refine iff_of_false (fun same => ?_) fun both => ?_
    · have sizes := congrArg List.length same
      have bound := as.length_le
      simp only [List.length_cons] at sizes
      omega
    · exact both.2 ((escaping_cons_iff _ _).mpr (.inl ⟨rfl, d, rfl, special⟩))

/-! ### What is written -/

theorem property_facts (p : Property) :
    (':' ∉ p.name ∧ ';' ∉ p.name ∧ '\n' ∉ p.name) ∧ toAsciiUppercase p.name = p.name ∧
      Property.named p.name = some p ∧ p.name ≠ "ATTENDEE".toList ∧ p.name ≠ "METHOD".toList := by
  cases p <;> decide

theorem property_head (p : Property) :
    ∃ c rest, p.name = c :: rest ∧ c ≠ ' ' ∧ c ≠ '\t' ∧ c.toUpper ≠ 'B' ∧ c.toUpper ≠ 'E' := by
  have checked : p.name.head?.any (fun c =>
      c ≠ ' ' && c ≠ '\t' && c.toUpper ≠ 'B' && c.toUpper ≠ 'E') = true := by
    cases p <;> rfl
  obtain ⟨c, first, kept⟩ := (Option.any_eq_true _ _).mp checked
  obtain ⟨rest, written⟩ := List.head?_eq_some_iff.mp first
  exact ⟨c, rest, written, by simpa [and_assoc] using kept⟩

theorem propertyLine_leads (p : Property × Str) : Leads (propertyLine p) := by
  obtain ⟨c, rest, written, blank, tab, -⟩ := property_head p.1
  rw [propertyLine, written]
  exact ⟨by simpa using blank, by simpa using tab⟩

theorem propertyLine_quiet (p : Property × Str) :
    beginsEvent (propertyLine p) = false ∧ endsEvent (propertyLine p) = false := by
  obtain ⟨c, rest, written, -, -, begins, ends⟩ := property_head p.1
  simp only [beginsEvent, endsEvent, decide_eq_false_iff_not, propertyLine, written]
  exact ⟨fun same => begins (List.cons.inj same).1, fun same => ends (List.cons.inj same).1⟩

/-- A value of one line, with no carriage return at its end. -/
def OneLine (value : Str) : Prop := '\n' ∉ value ∧ value.getLast? ≠ some '\r'

theorem propertyLine_plain {p : Property × Str} (value : OneLine p.2) : Plain (propertyLine p) := by
  obtain ⟨⟨-, -, name⟩, -⟩ := property_facts p.1
  have text : propertyLine p = (p.1.name ++ [':']) ++ p.2 := by simp [propertyLine]
  refine ⟨by simp [propertyLine, name, value.1], ?_⟩
  rw [text]
  cases p.2.eq_nil_or_concat' with
  | inl empty => simp [empty]
  | inr last =>
    obtain ⟨front, c, shape⟩ := last
    have other := value.2
    rw [shape, List.getLast?_concat] at other
    rw [shape, ← List.append_assoc (p.1.name ++ [':']), List.getLast?_concat]
    exact other

theorem applyProperty_propertyLine (ev : ParsedEvent) (p : Property × Str) :
    applyProperty crates ev (propertyLine p) = ev.set crates none p.2 p.1 := by
  obtain ⟨⟨noColon, noSemicolon, -⟩, upper, named, -⟩ := property_facts p.1
  simp only [applyProperty, propertyLine, splitOnce_append noColon, splitHead,
    splitOnce_of_not_mem noSemicolon, upper, named]

theorem attendeeOf_propertyLine (p : Property × Str) : attendeeOf (propertyLine p) = none := by
  obtain ⟨⟨noColon, noSemicolon, -⟩, upper, -, other, -⟩ := property_facts p.1
  simp only [attendeeOf, propertyLine, splitOnce_append noColon, splitHead,
    splitOnce_of_not_mem noSemicolon, upper, if_neg other]

theorem parseLines_properties {properties : List (Property × Str)}
    (values : ∀ p ∈ properties, OneLine p.2) (rest : List Str) (ev : ParsedEvent) :
    parseLines crates (properties.map propertyLine ++ rest) true ev =
      parseLines crates rest true
        (properties.foldl (fun acc p => acc.set crates none p.2 p.1) ev) := by
  induction properties generalizing ev with
  | nil => rfl
  | cons p others ih =>
    obtain ⟨here, later⟩ := List.forall_mem_cons.mp values
    obtain ⟨begins, ends⟩ := propertyLine_quiet p
    simp only [beginsEvent, endsEvent, decide_eq_false_iff_not] at begins ends
    rw [List.map_cons, List.cons_append, parseLines]
    simp only [trimEndMatches_of_getLast (propertyLine_plain here).noReturn, if_neg begins,
      if_neg ends, if_true, applyProperty_propertyLine]
    exact ih later _

theorem attendeeLines_properties {properties : List (Property × Str)}
    (values : ∀ p ∈ properties, OneLine p.2) (rest : List Str) :
    attendeeLines (properties.map propertyLine ++ rest) true = attendeeLines rest true := by
  induction properties with
  | nil => rfl
  | cons p others ih =>
    obtain ⟨here, later⟩ := List.forall_mem_cons.mp values
    obtain ⟨begins, ends⟩ := propertyLine_quiet p
    rw [List.map_cons, List.cons_append, attendeeLines]
    simp only [trimEndMatches_of_getLast (propertyLine_plain here).noReturn, begins, ends,
      Bool.false_eq_true, if_false, if_true, attendeeOf_propertyLine, Option.toList_none,
      List.nil_append]
    exact ih later

/-! ### The lines of the calendar -/

/-- The lines outside the events. -/
def calendarLines : List Str → Bool → List Str
  | [], _ => []
  | line :: rest, inEvent =>
      let trimmed := trimEndMatches '\r' line
      if beginsEvent trimmed then calendarLines rest true
      else if endsEvent trimmed then calendarLines rest false
      else if inEvent then calendarLines rest true
      else trimmed :: calendarLines rest false

def isMethod (line : Str) : Bool :=
  (splitOnce ':' line).any fun halves => (splitHead halves.1).1 = "METHOD".toList

/-- The lines that name a method, outside the events. -/
def methodLines (raw : Str) : List Str := (calendarLines (unfold raw) false).filter isMethod

/-- Lines inside an event that do not end it. -/
theorem calendarLines_inside {lines : List Str}
    (quiet : ∀ l ∈ lines, Plain l ∧ beginsEvent l = false ∧ endsEvent l = false)
    (rest : List Str) : calendarLines (lines ++ rest) true = calendarLines rest true := by
  induction lines with
  | nil => rfl
  | cons line others ih =>
    obtain ⟨⟨plain, begins, ends⟩, later⟩ := List.forall_mem_cons.mp quiet
    rw [List.cons_append, calendarLines]
    simp only [trimEndMatches_of_getLast plain.noReturn, begins, ends, Bool.false_eq_true, if_false,
      if_true]
    exact ih later

/-! ### The fields of an event -/

/-- What holds from the start and through every line holds of the event. -/
theorem parseLines_rule {holds : ParsedEvent → Prop} {lines : List Str} {inEvent : Bool}
    {ev : ParsedEvent} (start : holds ev)
    (step : ∀ line ∈ lines, ∀ ev, holds ev →
      holds (applyProperty crates ev (trimEndMatches '\r' line))) :
    holds (parseLines crates lines inEvent ev) := by
  induction lines generalizing inEvent ev with
  | nil => exact start
  | cons line rest ih =>
    obtain ⟨here, later⟩ := List.forall_mem_cons.mp step
    simp only [parseLines]
    split
    · exact ih start later
    · split
      · exact start
      · split
        · exact ih (here ev start) later
        · exact ih start later

/-- The fields that are written as they were read. -/
structure Copied (ev : ParsedEvent) : Prop where
  uid : OneLine ev.uid
  organizer : ∀ o ∈ ev.organizerEmail, OneLine o ∧
    CalDav.extractMailto ("mailto:".toList ++ o) = some o

theorem mailto_facts : ("mailto:".toList.length = 7 ∧ "MAILTO:".toList.length = 7) ∧
    trim "mailto:".toList = "mailto:".toList ∧
    ∀ c ∈ "mailto:".toList.head?, isWhitespace c = false := by
  refine ⟨by decide, by decide, fun c here => ?_⟩
  cases here
  decide

theorem extractMailto_shape {value o : Str} (found : CalDav.extractMailto value = some o) :
    ∃ scheme : Str, trim value = scheme ++ o := by
  simp only [CalDav.extractMailto, Option.or_eq_some_iff] at found
  cases found with
  | inl lower => exact ⟨_, stripPrefix_eq_some lower⟩
  | inr upper => exact ⟨_, stripPrefix_eq_some upper.2⟩

theorem extractMailto_copied {value o : Str} (found : CalDav.extractMailto value = some o) :
    CalDav.extractMailto ("mailto:".toList ++ o) = some o := by
  obtain ⟨scheme, shape⟩ := extractMailto_shape found
  have kept : trim ("mailto:".toList ++ o) = "mailto:".toList ++ o := by
    apply trim_eq_self_iff.mpr
    refine ⟨mailto_facts.2.2, ?_⟩
    cases o.eq_nil_or_concat' with
    | inl empty =>
      rw [empty, List.append_nil]
      exact (trim_eq_self_iff.mp mailto_facts.2.1).2
    | inr last =>
      obtain ⟨front, c, rfl⟩ := last
      have ends := (trim_eq_self_iff.mp (shape ▸ trim_trim value)).2
      rw [← List.append_assoc, List.getLast?_concat] at ends
      rw [← List.append_assoc, List.getLast?_concat]
      exact ends
  simp only [CalDav.extractMailto, kept, stripPrefix_append, Option.some_or]

theorem oneLine_of_extractMailto {value o : Str} (oneLine : '\n' ∉ value)
    (found : CalDav.extractMailto value = some o) : OneLine o := by
  obtain ⟨scheme, shape⟩ := extractMailto_shape found
  refine ⟨fun member => oneLine (trim_subset value ?_), fun ending => ?_⟩
  · rw [shape]
    exact List.mem_append_right _ member
  · have last := (trim_eq_self_iff.mp (trim_trim value)).2
    rw [shape, List.getLast?_append, ending] at last
    exact absurd (last '\r' rfl) (by decide)

theorem applyProperty_copied {ev : ParsedEvent} {line : Str} (copied : Copied ev)
    (plain : Plain line) : Copied (applyProperty crates ev line) := by
  unfold applyProperty
  cases cut : splitOnce ':' line with
  | none => exact copied
  | some halves =>
    obtain ⟨text, -⟩ := splitOnce_some cut
    have value : OneLine halves.2 := by
      have whole := text ▸ plain
      refine ⟨fun member => whole.oneLine (by simp [member]), fun ending => whole.noReturn ?_⟩
      rw [List.getLast?_append, List.getLast?_cons, ending]
      rfl
    cases named : Property.named (splitHead halves.1).1 with
    | none => simpa only [named] using copied
    | some property =>
      simp only [named]
      cases property with
      | uid => exact ⟨value, copied.organizer⟩
      | organizer =>
        exact ⟨copied.uid, fun o found =>
          ⟨oneLine_of_extractMailto value.1 found, extractMailto_copied found⟩⟩
      | _ => exact ⟨copied.uid, copied.organizer⟩

theorem parseVevent_copied {raw : Str} {parsed : ParsedEvent}
    (accepted : parseVevent crates raw = .ok parsed) : Copied parsed ∧ parsed.uid ≠ [] := by
  simp only [parseVevent] at accepted
  split at accepted
  · cases accepted
  next named =>
    cases accepted
    refine ⟨parseLines_rule crates ⟨⟨List.not_mem_nil, by simp⟩, by simp⟩ ?_,
      by simpa using named⟩
    intro line member ev copied
    exact applyProperty_copied crates copied
      (plain_trimEndMatches (unfoldLines_oneLine raw line member))

/-! ### Times -/

theorem instant_second (t : OffsetDateTime) :
    t.instant % 1000000000 = 0 ↔ t.nanos % 1000000000 = 0 := by
  unfold OffsetDateTime.instant dayNanos
  omega

theorem toUtc_instant {t u : OffsetDateTime} (made : toUtc t = .ok u) :
    u.instant = t.instant ∧ u.offset = 0 := by
  unfold toUtc at made
  cases found : Date.ofDays (t.instant / dayNanos) with
  | none => simp [found] at made
  | some date =>
    simp only [found, Option.elim_some, Except.ok.injEq] at made
    subst made
    refine ⟨?_, rfl⟩
    have days := Date.toDays_of_ofDays found
    simp only [OffsetDateTime.instant] at days ⊢
    rw [days]
    have whole := Int.ediv_mul_add_emod t.instant dayNanos
    simp only [OffsetDateTime.instant] at whole
    omega

theorem parseDt_instant_iff (extended : ExtendedOnly crates) {t u : OffsetDateTime}
    (made : toUtc t = .ok u) :
    (parseDt crates none (formatUtc u)).map (·.instant) = some t.instant ↔
      t.nanos % 1000000000 = 0 := by
  obtain ⟨instant, utc⟩ := toUtc_instant made
  have second := parseDt_chomp_iff extended u
  rw [escapeText_formatUtc, chomp_of_getLast (formatUtc_noReturn u)] at second
  rw [← instant_second t, ← instant, instant_second u]
  constructor
  · intro same
    obtain ⟨v, read, same⟩ := Option.map_eq_some_iff.mp same
    have whole := parseDt_wholeSecond extended read
    rw [← instant_second u, ← same, instant_second v]
    exact whole.whole
  · intro whole
    rw [second.mpr ⟨utc, whole⟩]
    rfl

theorem utcOf_instants_iff (extended : ExtendedOnly crates) {time utc : Option OffsetDateTime}
    (made : utcOf time = .ok utc) :
    (utc.bind fun u => parseDt crates none (formatUtc u)).map (·.instant) =
        time.map (·.instant) ↔ ∀ t ∈ time, t.nanos % 1000000000 = 0 := by
  cases time with
  | none =>
    cases made
    simp
  | some t =>
    change ((toUtc t).map some).mapError ReplyError.panic = .ok utc at made
    cases converted : toUtc t with
    | error panic =>
      rw [converted] at made
      cases made
    | ok u =>
      rw [converted] at made
      cases made
      simpa using parseDt_instant_iff crates extended converted

/-! ### The reply read back -/

/-- The event that a reader makes of the reply. -/
def replyEvent (parsed : ParsedEvent) (dtstart dtend : Option OffsetDateTime) (organizer : Str) :
    ParsedEvent where
  uid := parsed.uid
  summary := parsed.summary.map fun s => unescapeText (replySummary s)
  dtstart := dtstart.bind fun t => parseDt crates none (formatUtc t)
  dtend := dtend.bind fun t => parseDt crates none (formatUtc t)
  organizerEmail := some organizer

theorem foldl_replyProperties {parsed : ParsedEvent} {organizer : Str}
    (read : CalDav.extractMailto ("mailto:".toList ++ organizer) = some organizer)
    (dtstart dtend : Option OffsetDateTime) :
    (replyProperties parsed.uid dtstart dtend parsed.summary organizer).foldl
        (fun acc p => acc.set crates none p.2 p.1) {} =
      replyEvent crates parsed dtstart dtend organizer := by
  simp only [replyProperties, List.foldl_append, List.foldl_cons, List.foldl_nil, replyEvent]
  generalize "mailto:".toList ++ organizer = line at read
  cases dtstart <;> cases dtend <;> cases parsed.summary <;>
    simp only [ParsedEvent.set, List.foldl_cons, List.foldl_nil, Option.map_none, Option.map_some,
      Option.toList_none, Option.toList_some, Option.bind_none, Option.bind_some, read]

theorem buildReply_ok_iff {raw email partstat out : Str} {parsed : ParsedEvent}
    (accepted : parseVevent crates raw = .ok parsed) :
    buildReply crates raw email partstat = .ok out ↔
      ∃ organizer dtstart dtend, parsed.organizerEmail = some organizer ∧
        utcOf parsed.dtstart = .ok dtstart ∧ utcOf parsed.dtend = .ok dtend ∧
        out = terminated (replyLinesOf
          (replyProperties parsed.uid dtstart dtend parsed.summary organizer) email partstat) := by
  unfold buildReply
  simp only [accepted]
  cases parsed.organizerEmail with
  | none => simp
  | some organizer =>
    cases utcOf parsed.dtstart with
    | error => simp [bind, Except.bind]
    | ok dtstart =>
      cases utcOf parsed.dtend with
      | error => simp [bind, Except.bind]
      | ok dtend => simp [bind, Except.bind, eq_comm]

theorem replyProperties_oneLine {parsed : ParsedEvent} (copied : Copied parsed) {organizer : Str}
    (organized : parsed.organizerEmail = some organizer) (dtstart dtend : Option OffsetDateTime) :
    ∀ p ∈ replyProperties parsed.uid dtstart dtend parsed.summary organizer, OneLine p.2 := by
  have time (t : OffsetDateTime) : OneLine (formatUtc t) :=
    ⟨formatUtc_oneLine t, formatUtc_noReturn t⟩
  have summary (s : Str) : OneLine (replySummary s) :=
    ⟨(replySummary_noReturn s).2, fun ending =>
      (replySummary_noReturn s).1 (List.mem_of_getLast? ending)⟩
  have organizer : OneLine ("mailto:".toList ++ organizer) := by
    obtain ⟨⟨feed, ending⟩, -⟩ := copied.organizer organizer organized
    refine ⟨List.not_mem_append (by decide) feed, ?_⟩
    rw [List.getLast?_append]
    cases last : organizer.getLast? with
    | none => decide
    | some c => rwa [last] at ending
  intro p member
  simp only [replyProperties, List.mem_append, List.mem_cons, Option.mem_toList,
    Option.map_eq_some_iff, List.cons_append, List.not_mem_nil, or_false,
    List.append_assoc] at member
  rcases member with rfl | ⟨t, -, rfl⟩ | ⟨t, -, rfl⟩ | ⟨s, -, rfl⟩ | rfl
  · exact copied.uid
  · exact time t
  · exact time t
  · exact summary s
  · exact organizer

theorem reply_container : ∀ l ∈ replyHeader ++ replyFooter, '\n' ∉ l ∧ Leads l := by
  unfold Leads
  decide

section Lines
variable {properties : List (Property × Str)} {email partstat : Str}
  (values : ∀ p ∈ properties, OneLine p.2) (readable : Itip.Readable (toAsciiLowercase email))
  (valid : toAsciiUppercase partstat ∈ partstats)
include values readable valid

theorem unfoldLines_reply : unfoldLines (terminated (replyLinesOf properties email partstat)) =
    replyLinesOf properties email partstat ++ [[]] := by
  rw [unfoldLines, foldl_unfoldLine_terminated, List.nil_append]
  intro l member
  simp only [replyLinesOf, List.mem_append, List.mem_cons] at member
  cases member with
  | inl header => exact reply_container l (List.mem_append_left _ header)
  | inr member =>
    cases member with
    | inl property =>
      obtain ⟨p, given, rfl⟩ := List.mem_map.mp property
      exact ⟨(propertyLine_plain (values p given)).oneLine, propertyLine_leads p⟩
    | inr member =>
      cases member with
      | inl attendee =>
        subst attendee
        exact ⟨(newAttendeeLine_plain readable valid).oneLine,
          (newAttendeeLine_starts email partstat).leads⟩
      | inr footer => exact reply_container l (List.mem_append_right _ footer)

theorem parseLines_reply :
    parseLines crates (unfoldLines (terminated (replyLinesOf properties email partstat))) false {} =
      properties.foldl (fun acc p => acc.set crates none p.2 p.1) {} := by
  have opened : ∀ rest, parseLines crates (replyHeader ++ rest) false {} =
      parseLines crates rest true {} := fun _ => rfl
  rw [unfoldLines_reply values readable valid, replyLinesOf, List.append_assoc, opened,
    List.append_assoc, parseLines_properties crates values, List.cons_append,
    parseLines_starts (newAttendeeLine_plain readable valid)
      (newAttendeeLine_starts email partstat)]
  rfl

theorem parseAttendees_reply :
    parseAttendees (terminated (replyLinesOf properties email partstat)) =
      [{ email := toAsciiLowercase email, partstat := some (toAsciiUppercase partstat) }] := by
  have opened : ∀ rest, attendeeLines (replyHeader ++ rest) false = attendeeLines rest true :=
    fun _ => rfl
  rw [parseAttendees, unfold, unfoldLines_reply values readable valid, replyLinesOf,
    List.append_assoc, opened, List.append_assoc, attendeeLines_properties values, List.cons_append,
    attendeeLines_starts (newAttendeeLine_plain readable valid)
      (newAttendeeLine_starts email partstat), if_pos rfl, newAttendeeLine_reads readable valid]
  rfl

theorem methodLines_reply :
    methodLines (terminated (replyLinesOf properties email partstat)) =
      ["METHOD:REPLY".toList] := by
  have opened : ∀ rest, (calendarLines (replyHeader ++ rest) false).filter isMethod =
      "METHOD:REPLY".toList :: (calendarLines rest true).filter isMethod := fun _ => rfl
  have quiet : ∀ l ∈ properties.map propertyLine ++ [newAttendeeLine email partstat],
      Plain l ∧ beginsEvent l = false ∧ endsEvent l = false := by
    intro l member
    rw [List.mem_append, List.mem_singleton] at member
    cases member with
    | inl property =>
      obtain ⟨p, given, rfl⟩ := List.mem_map.mp property
      exact ⟨propertyLine_plain (values p given), propertyLine_quiet p⟩
    | inr attendee =>
      subst attendee
      exact ⟨newAttendeeLine_plain readable valid, (newAttendeeLine_starts email partstat).quiet⟩
  have grouped : properties.map propertyLine ++ newAttendeeLine email partstat :: replyFooter ++
      [[]] = (properties.map propertyLine ++ [newAttendeeLine email partstat]) ++
        (replyFooter ++ [[]]) := by simp
  rw [methodLines, unfold, unfoldLines_reply values readable valid, replyLinesOf,
    List.append_assoc, opened, grouped, calendarLines_inside quiet]
  rfl

end Lines

/-- The reply says of the event what the event says, and answers for the one attendee. -/
structure Faithful (parsed : ParsedEvent) (email partstat reply : Str) : Prop where
  event : ∃ read, parseVevent crates reply = .ok read ∧ read.uid = parsed.uid ∧
    read.dtstart.map (·.instant) = parsed.dtstart.map (·.instant) ∧
    read.dtend.map (·.instant) = parsed.dtend.map (·.instant) ∧
    read.summary = parsed.summary ∧ read.organizerEmail = parsed.organizerEmail ∧
    read.sequence = parsed.sequence
  attendee : parseAttendees reply =
    [{ email := toAsciiLowercase email, partstat := some (toAsciiUppercase partstat) }]
  method : methodLines reply = ["METHOD:REPLY".toList]

theorem map_eq_self_iff {α : Type} (f : α → α) (value : Option α) :
    value.map f = value ↔ ∀ a ∈ value, f a = a := by
  cases value <;> simp

/-- A reply is faithful just where the event has no revision, its summary nothing to escape and its
times no parts of seconds, and the address can be read of a line. -/
theorem buildReply_faithful_iff (extended : ExtendedOnly crates) {raw email partstat reply : Str}
    {parsed : ParsedEvent} (valid : toAsciiUppercase partstat ∈ partstats)
    (accepted : parseVevent crates raw = .ok parsed)
    (written : buildReply crates raw email partstat = .ok reply) :
    Faithful crates parsed email partstat reply ↔
      parsed.sequence = 0 ∧ (∀ s ∈ parsed.summary, '\r' ∉ s ∧ ¬Escaping s) ∧
        (∀ t ∈ parsed.dtstart, t.nanos % 1000000000 = 0) ∧
        (∀ t ∈ parsed.dtend, t.nanos % 1000000000 = 0) ∧
        Itip.Readable (toAsciiLowercase email) := by
  obtain ⟨copied, named⟩ := parseVevent_copied crates accepted
  obtain ⟨organizer, dtstart, dtend, organized, starts, ends, rfl⟩ :=
    (buildReply_ok_iff crates accepted).mp written
  have values := replyProperties_oneLine copied organized dtstart dtend
  by_cases readable : Itip.Readable (toAsciiLowercase email)
  · have lines := parseLines_reply crates values readable valid
    rw [foldl_replyProperties crates (copied.organizer organizer organized).2] at lines
    have read : parseVevent crates (terminated (replyLinesOf
        (replyProperties parsed.uid dtstart dtend parsed.summary organizer) email partstat)) =
        .ok (replyEvent crates parsed dtstart dtend organizer) := by
      rw [parseVevent, lines]
      exact if_neg (by simpa [replyEvent] using named)
    have event : Faithful crates parsed email partstat (terminated (replyLinesOf
        (replyProperties parsed.uid dtstart dtend parsed.summary organizer) email partstat)) ↔
        (replyEvent crates parsed dtstart dtend organizer).sequence = parsed.sequence ∧
          (replyEvent crates parsed dtstart dtend organizer).summary = parsed.summary ∧
          (replyEvent crates parsed dtstart dtend organizer).dtstart.map (·.instant) =
            parsed.dtstart.map (·.instant) ∧
          (replyEvent crates parsed dtstart dtend organizer).dtend.map (·.instant) =
            parsed.dtend.map (·.instant) := by
      constructor
      · intro faithful
        obtain ⟨event, same, -, starts, ends, summary, -, sequence⟩ := faithful.event
        cases read.symm.trans same
        exact ⟨sequence, summary, starts, ends⟩
      · rintro ⟨sequence, summary, starts, ends⟩
        exact ⟨⟨_, read, rfl, starts, ends, summary, organized.symm, sequence⟩,
          parseAttendees_reply values readable valid, methodLines_reply values readable valid⟩
    rw [event, ← utcOf_instants_iff crates extended starts,
      ← utcOf_instants_iff crates extended ends]
    have summary := map_eq_self_iff (fun s => unescapeText (replySummary s)) parsed.summary
    simp only [unescapeText_replySummary_iff] at summary
    simp only [replyEvent, summary, readable, and_true, eq_comm (a := (0 : Int))]
  · refine iff_of_false (fun faithful => readable ?_) fun all => readable all.2.2.2.2
    have member := faithful.attendee ▸ List.mem_singleton_self _
    exact readable_of_mem member

end

def bob : Str := "Bob@x.org".toList

/-- A revision of an event; the summary holds an escaped backslash. -/
def meeting (sequence summary : String) : Str :=
  "BEGIN:VEVENT\r\nUID:1\r\nDTSTART:20260501T140000Z\r\nSUMMARY:".toList ++ summary.toList ++
    "\r\nSEQUENCE:".toList ++ sequence.toList ++
    "\r\nORGANIZER:mailto:ann@x.org\r\nEND:VEVENT\r\n".toList

def meetingStart : OffsetDateTime :=
  .assumeUtc ⟨2026, .may, 1, Time.year_2026, Time.may_first⟩ 50400000000000 (by decide)

/-- What is read of it. -/
def meetingRead (sequence : Int) (summary : String) : ParsedEvent where
  uid := "1".toList
  dtstart := some meetingStart
  summary := some summary.toList
  sequence
  organizerEmail := some "ann@x.org".toList

def meetingReply (summary : String) : Str :=
  terminated (replyLinesOf (replyProperties "1".toList (some meetingStart) none
    (some (summary.toList)) "ann@x.org".toList) bob "accepted".toList)

theorem buildReply_meeting {raw : Str} {sequence : Int} {summary : String}
    (accepted : parseVevent sampleCrates raw = .ok (meetingRead sequence summary)) :
    buildReply sampleCrates raw bob "accepted".toList = .ok (meetingReply summary) := by
  have utc : utcOf (some meetingStart) = .ok (some meetingStart) := by decide
  exact (buildReply_ok_iff sampleCrates accepted).mpr ⟨_, _, _, rfl, utc, rfl, rfl⟩

theorem buildReply_faithful_meeting :
    Faithful sampleCrates (meetingRead 0 "Budget") bob "accepted".toList
      (meetingReply "Budget") := by
  have accepted : parseVevent sampleCrates (meeting "0" "Budget") =
      .ok (meetingRead 0 "Budget") := by decide
  apply (buildReply_faithful_iff sampleCrates (fun _ _ => rfl) (by decide) accepted
    (buildReply_meeting accepted)).mpr
  refine ⟨rfl, ?_, by decide, by decide, by decide, by decide, by decide⟩
  intro s given
  cases given
  exact (unescapeText_replySummary_iff _).mp (by decide)

/-- The reply to a third revision is taken for one to the first, and a folder named in the summary
is cut by a line end. -/
theorem buildReply_unfaithful :
    parseVevent sampleCrates (meeting "3" "C:\\\\news") = .ok (meetingRead 3 "C:\\news") ∧
      buildReply sampleCrates (meeting "3" "C:\\\\news") bob "accepted".toList =
        .ok (meetingReply "C:\\news") ∧
      (parseVevent sampleCrates (meetingReply "C:\\news")).toOption.map (fun read =>
        (read.sequence, read.summary)) = some (0, some "C:\news".toList) ∧
      ¬Faithful sampleCrates (meetingRead 3 "C:\\news") bob "accepted".toList
        (meetingReply "C:\\news") := by
  have accepted : parseVevent sampleCrates (meeting "3" "C:\\\\news") =
      .ok (meetingRead 3 "C:\\news") := by decide
  have read : parseVevent sampleCrates (meetingReply "C:\\news") =
      .ok (meetingRead 0 "C:\news") := by decide
  refine ⟨accepted, buildReply_meeting accepted, by rw [read]; rfl, fun faithful => ?_⟩
  obtain ⟨event, same, _, _, _, _, _, sequence⟩ := faithful.event
  cases read.symm.trans same
  exact absurd sequence (by decide)

end Expresso.CalDav.Itip
