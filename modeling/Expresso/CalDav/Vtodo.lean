import Expresso.CalDav.AttendeeLine

/-! The text of a task: the extractor of the first `VTODO` block, and the writer that the tasks
without a body of their own use. -/

namespace Expresso.CalDav
open Text Time

/-- The properties of a `VTODO`. Priority and percentage are `i16`. -/
structure ParsedTask where
  uid : Str := []
  summary : Option Str := none
  description : Option Str := none
  status : Option Str := none
  priority : Int := 0
  percentComplete : Int := 0
  dtstart : Option OffsetDateTime := none
  due : Option OffsetDateTime := none
  completed : Option OffsetDateTime := none
  rrule : Option Str := none
  deriving DecidableEq

/-- The properties that are read. -/
inductive TodoProperty where
  | uid | summary | description | status | priority | percentComplete | dtstart | due
  | completed | rrule
  deriving DecidableEq

def TodoProperty.name : TodoProperty → Str
  | uid => "UID".toList
  | summary => "SUMMARY".toList
  | description => "DESCRIPTION".toList
  | status => "STATUS".toList
  | priority => "PRIORITY".toList
  | percentComplete => "PERCENT-COMPLETE".toList
  | dtstart => "DTSTART".toList
  | due => "DUE".toList
  | completed => "COMPLETED".toList
  | rrule => "RRULE".toList

def TodoProperty.all : List TodoProperty :=
  [uid, summary, description, status, priority, percentComplete, dtstart, due, completed, rrule]

def TodoProperty.named (name : Str) : Option TodoProperty := all.find? (·.name = name)

/-- `value.parse().unwrap_or(0).clamp(0, most)` of an `i16`. -/
def parseClamped (most : Int) (value : Str) : Int :=
  max 0 (min most ((parseSigned (-2 ^ 15) (2 ^ 15 - 1) value).getD 0))

/-! ### Reading -/

section
variable (crates : Crates)

def ParsedTask.set (t : ParsedTask) (params : Option Str) (value : Str) :
    TodoProperty → ParsedTask
  | .uid => { t with uid := value }
  | .summary => { t with summary := some (unescapeText value) }
  | .description => { t with description := some (unescapeText value) }
  | .status => { t with status := some (toAsciiUppercase value) }
  | .priority => { t with priority := parseClamped 9 value }
  | .percentComplete => { t with percentComplete := parseClamped 100 value }
  | .dtstart => { t with dtstart := parseDt crates params value }
  | .due => { t with due := parseDt crates params value }
  | .completed => { t with completed := parseDt crates params value }
  | .rrule => { t with rrule := some value }

/-- The effect of one line `NAME[;PARAMS]:VALUE` of the block. -/
def applyTodoProperty (t : ParsedTask) (line : Str) : ParsedTask :=
  match splitOnce ':' line with
  | none => t
  | some (head, value) =>
      let (name, params) := splitHead head
      match TodoProperty.named name with
      | none => t
      | some property => t.set crates params value property

/-- The loop over the lines: it ends at the first `END:VTODO`. -/
def parseTodoLines : List Str → Bool → ParsedTask → ParsedTask
  | [], _, t => t
  | line :: rest, inTodo, t =>
      let trimmed := trimEndMatches '\r' line
      let upper := toAsciiUppercase trimmed
      if upper = "BEGIN:VTODO".toList then parseTodoLines rest true t
      else if upper = "END:VTODO".toList then t
      else if inTodo then parseTodoLines rest true (applyTodoProperty crates t trimmed)
      else parseTodoLines rest false t

def parseVtodo (raw : Str) : Except CalendarError ParsedTask :=
  let t := parseTodoLines crates (unfoldLines raw) false {}
  if t.uid.isEmpty then .error (.invalidICal "missing UID".toList) else .ok t

end

/-! ### Writing -/

/-- The fields that are written. -/
structure Vtodo where
  uid : Str
  summary : Str
  description : Option Str
  status : Str
  priority : Int
  percentComplete : Int
  dtstart : Option OffsetDateTime
  due : Option OffsetDateTime
  completed : Option OffsetDateTime
  rrule : Option Str

def escapeChar (c : Char) : Str :=
  if c = '\\' then ['\\', '\\']
  else if c = '\n' then ['\\', 'n']
  else if c = ',' then ['\\', ',']
  else if c = ';' then ['\\', ';']
  else [c]

def escapeText (v : Str) : Str := v.flatMap escapeChar

/-- `YYYYMMDDTHHMMSSZ` of a time in UTC. The sign of the year is not one of its four digits. -/
def formatUtc (t : OffsetDateTime) : Str :=
  let seconds := t.nanos / 1000000000
  (if t.date.year < 0 then ['-'] else []) ++ padded 4 t.date.year.natAbs ++
    padded 2 t.date.month.number ++ padded 2 t.date.day ++ 'T' ::
    padded 2 (seconds / 3600) ++ padded 2 (seconds / 60 % 60) ++ padded 2 (seconds % 60) ++ ['Z']

def pushProp (name value : Str) : Str := name ++ ':' :: escapeText value ++ "\r\n".toList

/-- The properties with their values, in the order they are pushed. -/
def Vtodo.properties (t : Vtodo) : List (TodoProperty × Str) :=
  [(TodoProperty.uid, t.uid), (TodoProperty.summary, t.summary)] ++
    (t.description.map fun d => (TodoProperty.description, d)).toList ++
    [(TodoProperty.status, t.status), (TodoProperty.priority, display t.priority),
      (TodoProperty.percentComplete, display t.percentComplete)] ++
    (t.dtstart.map fun dt => (TodoProperty.dtstart, formatUtc dt)).toList ++
    (t.due.map fun dt => (TodoProperty.due, formatUtc dt)).toList ++
    (t.completed.map fun dt => (TodoProperty.completed, formatUtc dt)).toList ++
    (t.rrule.map fun rrule => (TodoProperty.rrule, rrule)).toList

def serializeVtodo (t : Vtodo) : Str :=
  "BEGIN:VCALENDAR\r\nVERSION:2.0\r\nPRODID:-//Expresso//Calendar//EN\r\n".toList ++
    "BEGIN:VTODO\r\n".toList ++ (t.properties.flatMap fun p => pushProp p.1.name p.2) ++
    "END:VTODO\r\nEND:VCALENDAR\r\n".toList

/-! ### Escapes -/

/-- The characters that are escaped. -/
def isSpecial (c : Char) : Bool := c = '\\' || c = '\n' || c = ',' || c = ';'

theorem escapeChar_of_not_special {c : Char} (plain : isSpecial c = false) :
    escapeChar c = [c] := by
  simp only [isSpecial, Bool.or_eq_false_iff, decide_eq_false_iff_not] at plain
  simp [escapeChar, plain]

theorem escapeText_of_plain {v : Str} (plain : ∀ c ∈ v, isSpecial c = false) :
    escapeText v = v := by
  induction v with
  | nil => rfl
  | cons c rest ih =>
    rw [escapeText, List.flatMap_cons, escapeChar_of_not_special (plain c List.mem_cons_self)]
    exact congrArg (c :: ·) (ih fun d later => plain d (List.mem_cons_of_mem c later))

theorem unescapeText_cons {c : Char} (other : c ≠ '\\') (rest : Str) :
    unescapeText (c :: rest) = c :: unescapeText rest := by
  rw [unescapeText] <;> simp [other]

theorem unescapeText_escapeText (v : Str) : unescapeText (escapeText v) = v := by
  induction v with
  | nil => rfl
  | cons c rest ih =>
    rw [escapeText, List.flatMap_cons]
    change unescapeText (escapeChar c ++ escapeText rest) = c :: rest
    by_cases backslash : c = '\\'
    · subst backslash
      simp [escapeChar, unescapeText, ih]
    by_cases feed : c = '\n'
    · subst feed
      simp [escapeChar, unescapeText, ih]
    by_cases comma : c = ','
    · subst comma
      simp [escapeChar, unescapeText, ih]
    by_cases semicolon : c = ';'
    · subst semicolon
      simp [escapeChar, unescapeText, ih]
    have plain : escapeChar c = [c] := by simp [escapeChar, backslash, feed, comma, semicolon]
    rw [plain, List.singleton_append, unescapeText_cons backslash, ih]

theorem escapeChar_oneLine (c : Char) : '\n' ∉ escapeChar c := by
  unfold escapeChar
  repeat' split
  all_goals simp_all [eq_comm]

theorem escapeText_oneLine (v : Str) : '\n' ∉ escapeText v := by
  intro member
  obtain ⟨c, -, escaped⟩ := List.mem_flatMap.mp member
  exact escapeChar_oneLine c escaped

theorem escapeText_noComma {v : Str} (noComma : ',' ∉ v) : ',' ∉ escapeText v := by
  intro comma
  obtain ⟨d, member, here⟩ := List.mem_flatMap.mp comma
  have other : d ≠ ',' := fun same => noComma (same ▸ member)
  by_cases special : isSpecial d = true
  · simp only [isSpecial, Bool.or_eq_true, decide_eq_true_eq] at special
    rcases special with ((rfl | rfl) | rfl) | rfl
    · revert here
      decide
    · revert here
      decide
    · exact other rfl
    · revert here
      decide
  · rw [escapeChar_of_not_special (by simpa using special)] at here
    exact other (List.mem_singleton.mp here).symm

theorem getLast_escapeChar {c : Char} (other : c ≠ '\r') : (escapeChar c).getLast? ≠ some '\r' := by
  unfold escapeChar
  repeat' split
  all_goals simp_all

theorem escapeText_noReturn {v : Str} (noReturn : v.getLast? ≠ some '\r') :
    (escapeText v).getLast? ≠ some '\r' := by
  rcases List.eq_nil_or_concat' v with rfl | ⟨front, last, rfl⟩
  · simp [escapeText]
  · have other : last ≠ '\r' := by simpa using noReturn
    have tail := getLast_escapeChar other
    rw [escapeText, List.flatMap_append, List.flatMap_singleton, List.getLast?_append]
    cases found : (escapeChar last).getLast? with
    | none =>
      have empty := List.getLast?_eq_none_iff.mp found
      unfold escapeChar at empty
      repeat' split at empty
      all_goals cases empty
    | some d => rwa [found] at tail

/-! ### What is written is read line by line -/

/-- The line that `push_prop` writes. -/
def propLine (p : TodoProperty × Str) : Str := p.1.name ++ ':' :: escapeText p.2

theorem name_facts (p : TodoProperty) :
    ':' ∉ p.name ∧ ';' ∉ p.name ∧ '\n' ∉ p.name ∧ toAsciiUppercase p.name = p.name ∧
      TodoProperty.named p.name = some p := by
  cases p <;> decide

theorem applyTodoProperty_propLine (crates : Crates) (t : ParsedTask) (p : TodoProperty × Str) :
    applyTodoProperty crates t (propLine p) = t.set crates none (escapeText p.2) p.1 := by
  obtain ⟨noColon, noSemicolon, -, upper, named⟩ := name_facts p.1
  unfold applyTodoProperty propLine
  simp only [splitOnce_append noColon, splitHead, splitOnce_of_not_mem noSemicolon, upper,
    named]

theorem plain_propLine {p : TodoProperty × Str} (noReturn : p.2.getLast? ≠ some '\r') :
    Plain (propLine p) where
  oneLine := by
    obtain ⟨-, -, oneLine, -⟩ := name_facts p.1
    simp [propLine, oneLine, escapeText_oneLine]
  noReturn := by
    have last := escapeText_noReturn noReturn
    rw [propLine, List.getLast?_append]
    cases escaped : escapeText p.2 with
    | nil => simp
    | cons c rest =>
      rw [escaped] at last
      rw [List.getLast?_cons_cons]
      cases found : (c :: rest).getLast? with
      | none => simp at found
      | some d =>
        rw [found] at last
        simpa using last

/-- No name starts like a line that is folded or delimits the block. -/
theorem name_head (p : TodoProperty) :
    ∃ c rest, p.name = c :: rest ∧ c ≠ ' ' ∧ c ≠ '\t' ∧ c.toUpper ≠ 'B' ∧ c.toUpper ≠ 'E' := by
  have checked : p.name.head?.any (fun c =>
      c ≠ ' ' && c ≠ '\t' && c.toUpper ≠ 'B' && c.toUpper ≠ 'E') = true := by
    cases p <;> rfl
  obtain ⟨c, first, kept⟩ := (Option.any_eq_true _ _).mp checked
  obtain ⟨rest, written⟩ := List.head?_eq_some_iff.mp first
  exact ⟨c, rest, written, by simpa [and_assoc] using kept⟩

theorem leads_propLine (p : TodoProperty × Str) : Leads (propLine p) := by
  obtain ⟨c, rest, written, blank, tab, -⟩ := name_head p.1
  rw [propLine, written]
  exact ⟨by simpa using blank, by simpa using tab⟩

theorem quiet_propLine (p : TodoProperty × Str) :
    toAsciiUppercase (propLine p) ≠ "BEGIN:VTODO".toList ∧
      toAsciiUppercase (propLine p) ≠ "END:VTODO".toList := by
  obtain ⟨c, rest, written, -, -, begins, ends⟩ := name_head p.1
  rw [propLine, written]
  constructor
  · intro same
    exact begins (List.cons.inj same).1
  · intro same
    exact ends (List.cons.inj same).1

theorem parseTodoLines_propLines (crates : Crates) {properties : List (TodoProperty × Str)}
    (noReturn : ∀ p ∈ properties, p.2.getLast? ≠ some '\r') (rest : List Str) (t : ParsedTask) :
    parseTodoLines crates (properties.map propLine ++ rest) true t =
      parseTodoLines crates rest true
        (properties.foldl (fun acc p => acc.set crates none (escapeText p.2) p.1) t) := by
  induction properties generalizing t with
  | nil => rfl
  | cons p others ih =>
    have line := plain_propLine (noReturn p List.mem_cons_self)
    obtain ⟨begins, ends⟩ := quiet_propLine p
    rw [List.map_cons, List.cons_append, parseTodoLines]
    simp only [trimEndMatches_of_getLast line.noReturn, if_neg begins, if_neg ends, if_true,
      applyTodoProperty_propLine]
    exact ih (fun q later => noReturn q (List.mem_cons_of_mem p later)) _

/-- The lines around the properties. -/
def todoHeader : List Str :=
  ["BEGIN:VCALENDAR".toList, "VERSION:2.0".toList, "PRODID:-//Expresso//Calendar//EN".toList,
    "BEGIN:VTODO".toList]

def todoFooter : List Str := ["END:VTODO".toList, "END:VCALENDAR".toList]

theorem terminated_propLine (properties : List (TodoProperty × Str)) :
    (properties.flatMap fun p => pushProp p.1.name p.2) = terminated (properties.map propLine) := by
  rw [terminated, List.flatMap_map]
  apply List.flatMap_congr
  intro p _
  simp [pushProp, propLine]

/-- The written header and footer, and their lines. -/
theorem container_texts :
    "BEGIN:VCALENDAR\r\nVERSION:2.0\r\nPRODID:-//Expresso//Calendar//EN\r\n".toList ++
        "BEGIN:VTODO\r\n".toList = terminated todoHeader ∧
      "END:VTODO\r\nEND:VCALENDAR\r\n".toList = terminated todoFooter ∧
      ∀ l ∈ todoHeader ++ todoFooter, '\n' ∉ l ∧ l.getLast? ≠ some '\r' ∧
        l.head? ≠ some ' ' ∧ l.head? ≠ some '\t' := by
  unfold todoHeader todoFooter
  repeat rw [String.toList_ofList]
  decide

theorem serializeVtodo_eq (t : Vtodo) :
    serializeVtodo t = terminated (todoHeader ++ t.properties.map propLine ++ todoFooter) := by
  rw [terminated_append, terminated_append, ← terminated_propLine]
  exact congrArg₂ _ (congrArg₂ _ container_texts.1 rfl) container_texts.2.1

theorem todo_container : ∀ l ∈ todoHeader ++ todoFooter, Plain l ∧ Leads l := by
  intro l member
  obtain ⟨oneLine, noReturn, blank, tab⟩ := container_texts.2.2 l member
  exact ⟨⟨oneLine, noReturn⟩, blank, tab⟩

theorem parseTodoLines_serializeVtodo (crates : Crates) {t : Vtodo}
    (noReturn : ∀ p ∈ t.properties, p.2.getLast? ≠ some '\r') :
    parseTodoLines crates (unfoldLines (serializeVtodo t)) false {} =
      t.properties.foldl (fun acc p => acc.set crates none (escapeText p.2) p.1) {} := by
  have lines : ∀ l ∈ todoHeader ++ t.properties.map propLine ++ todoFooter, Plain l ∧ Leads l := by
    intro l member
    rcases List.mem_append.mp member with front | last
    · rcases List.mem_append.mp front with first | middle
      · exact todo_container l (List.mem_append_left _ first)
      · obtain ⟨p, listed, rfl⟩ := List.mem_map.mp middle
        exact ⟨plain_propLine (noReturn p listed), leads_propLine p⟩
    · exact todo_container l (List.mem_append_right _ last)
  have folded := refold_of_leads fun l member => ⟨(lines l member).1.noReturn, (lines l member).2⟩
  rw [serializeVtodo_eq, unfoldLines_terminated fun l member => (lines l member).1, folded,
    List.append_assoc, List.append_assoc]
  have opened : ∀ rest, parseTodoLines crates (todoHeader ++ rest) false {} =
      parseTodoLines crates rest true {} := by
    intro rest
    rfl
  rw [opened, parseTodoLines_propLines crates noReturn]
  rfl

/-! ### Times -/

theorem fixedDigits_padded {width n : Nat} (positive : 0 < width) (small : n < 10 ^ width)
    (rest : Str) :
    Recurrence.fixedDigits width (padded width (n : Int) ++ rest) = some (n, rest) := by
  have size := length_padded positive small
  have front : (padded width (n : Int) ++ rest).take width = padded width (n : Int) :=
    List.take_left' size
  have back : (padded width (n : Int) ++ rest).drop width = rest := List.drop_left' size
  rw [Recurrence.fixedDigits, front, back, if_pos size, digits_padded]
  rfl

/-- A time in UTC that falls on a whole second. -/
structure WholeSecond (t : OffsetDateTime) : Prop where
  utc : t.offset = 0
  whole : t.nanos % 1000000000 = 0

theorem fromCalendarDate_self (d : Date) : Date.fromCalendarDate d.year d.month d.day = some d := by
  rw [Date.fromCalendarDate, dif_pos ⟨d.year_range, d.day_range⟩]

/-- The three numbers of a date, and what follows. -/
theorem fixedDigits_date (d : Date) (rest : Str) :
    Recurrence.fixedDigits 4 (padded 4 d.year.natAbs ++ (padded 2 d.month.number ++
        (padded 2 d.day ++ rest))) =
      some (d.year.natAbs, padded 2 d.month.number ++ (padded 2 d.day ++ rest)) ∧
    Recurrence.fixedDigits 2 (padded 2 d.month.number ++ (padded 2 d.day ++ rest)) =
      some (d.month.number, padded 2 d.day ++ rest) ∧
    Recurrence.fixedDigits 2 (padded 2 d.day ++ rest) = some (d.day, rest) := by
  have year := d.year_range
  have month := d.month.number_range
  have days := Month.length_range d.year d.month
  have day := d.day_range
  exact ⟨fixedDigits_padded (by decide) (by omega) _, fixedDigits_padded (by decide) (by omega) _,
    fixedDigits_padded (by decide) (by omega) _⟩

theorem parseSignedDate_formatted (d : Date) (rest : Str) :
    parseSignedDate ((if d.year < 0 then ['-'] else []) ++ (padded 4 d.year.natAbs ++
      (padded 2 d.month.number ++ (padded 2 d.day ++ rest)))) = some (d, rest) := by
  obtain ⟨readYear, readMonth, readDay⟩ := fixedDigits_date d rest
  have built := fromCalendarDate_self d
  by_cases negative : d.year < 0
  · have year : -(d.year.natAbs : Int) = d.year := by omega
    simp only [if_pos negative, List.cons_append, List.nil_append, parseSignedDate, readYear,
      readMonth, readDay, Option.bind_eq_bind, Option.bind_some, Month.tryFrom_number, year, built]
  · have year : (d.year.natAbs : Int) = d.year := by omega
    have unsigned : ∀ s : Str, (∀ c ∈ s.head?, c.isDigit) →
        parseSignedDate s = Recurrence.parseDatePart s := by
      intro s first
      unfold parseSignedDate
      split
      · exact absurd (first '-' rfl) (by decide)
      · exact absurd (first '+' rfl) (by decide)
      · rfl
    have digit : ∀ c ∈ (padded 4 d.year.natAbs ++ (padded 2 d.month.number ++
        (padded 2 d.day ++ rest))).head?, c.isDigit := by
      intro c first
      have small : d.year.natAbs < 10 ^ 4 := by
        have range := d.year_range
        omega
      have size := length_padded (by decide) small
      rw [List.head?_append_of_ne_nil _ (List.ne_nil_of_length_pos (by omega))] at first
      exact padded_isDigit 4 d.year.natAbs c (List.mem_of_head? first)
    rw [if_neg negative, List.nil_append, unsigned _ digit]
    simp only [Recurrence.parseDatePart, readYear, readMonth, readDay, Option.bind_eq_bind,
      Option.bind_some, Month.tryFrom_number]
    rw [year, built]
    rfl

/-- The reading of a clock, in seconds of the day. -/
theorem fixedDigits_clock {seconds : Int} (range : 0 ≤ seconds ∧ seconds < 86400) (rest : Str) :
    Recurrence.fixedDigits 2 (padded 2 (seconds / 3600) ++ (padded 2 (seconds / 60 % 60) ++
        (padded 2 (seconds % 60) ++ rest))) =
      some ((seconds / 3600).toNat, padded 2 (seconds / 60 % 60) ++
        (padded 2 (seconds % 60) ++ rest)) ∧
    Recurrence.fixedDigits 2 (padded 2 (seconds / 60 % 60) ++ (padded 2 (seconds % 60) ++ rest)) =
      some ((seconds / 60 % 60).toNat, padded 2 (seconds % 60) ++ rest) ∧
    Recurrence.fixedDigits 2 (padded 2 (seconds % 60) ++ rest) =
      some ((seconds % 60).toNat, rest) := by
  have read : ∀ (n : Int) (rest : Str), 0 ≤ n → n < 100 →
      Recurrence.fixedDigits 2 (padded 2 n ++ rest) = some (n.toNat, rest) := by
    intro n rest nonneg small
    have number : n = (n.toNat : Int) := by omega
    conv_lhs => rw [number]
    exact fixedDigits_padded (by decide) (by omega) rest
  exact ⟨read _ _ (by omega) (by omega), read _ _ (by omega) (by omega),
    read _ _ (by omega) (by omega)⟩

theorem parseDateTime_formatted {t : OffsetDateTime} (second : WholeSecond t) :
    ∃ text, formatUtc t = text ++ ['Z'] ∧ parseDateTime text = some t := by
  have range : 0 ≤ t.nanos / 1000000000 ∧ t.nanos / 1000000000 < 86400 := by
    have bounds := t.nanos_range
    simp only [dayNanos] at bounds
    omega
  obtain ⟨readHour, readMinute, readSecond⟩ := fixedDigits_clock range []
  refine ⟨(if t.date.year < 0 then ['-'] else []) ++ (padded 4 t.date.year.natAbs ++
    (padded 2 t.date.month.number ++ (padded 2 t.date.day ++ 'T' ::
      (padded 2 (t.nanos / 1000000000 / 3600) ++ (padded 2 (t.nanos / 1000000000 / 60 % 60) ++
        (padded 2 (t.nanos / 1000000000 % 60) ++ [])))))), ?_, ?_⟩
  · simp only [formatUtc, List.append_assoc, List.cons_append, List.append_nil]
  · have clock : Recurrence.fromHms (t.nanos / 1000000000 / 3600).toNat
        (t.nanos / 1000000000 / 60 % 60).toNat (t.nanos / 1000000000 % 60).toNat =
          some ⟨t.nanos, t.nanos_range⟩ := by
      have whole := second.whole
      rw [Recurrence.fromHms, dif_pos (by omega)]
      congr 2
      omega
    simp only [parseDateTime, parseSignedDate_formatted, Option.bind_eq_bind, Option.bind_some,
      Recurrence.literal, if_true, readHour, readMinute, readSecond, clock]
    rw [OffsetDateTime.assumeUtc]
    congr 1
    cases t
    cases second.utc
    rfl

/-- RFC 3339 puts a hyphen after the four digits of the year. -/
def ExtendedOnly (crates : Crates) : Prop :=
  ∀ value : Str, value[4]? ≠ some '-' → crates.parseRfc3339 value = none

/-- A digit, or one of the two letters. -/
def isStamp (c : Char) : Bool := c.isDigit || c = 'T' || c = 'Z'

theorem formatUtc_shape (t : OffsetDateTime) :
    ∃ stamp, formatUtc t = (if t.date.year < 0 then ['-'] else []) ++ stamp ∧
      (∀ c ∈ stamp, isStamp c = true) ∧ 9 ≤ stamp.length := by
  have range : 0 ≤ t.nanos / 1000000000 := by
    have bounds := t.nanos_range
    omega
  have digits : ∀ (width : Nat) (n : Int), 0 ≤ n → ∀ c ∈ padded width n, isStamp c = true := by
    intro width n nonneg c member
    have number : n = (n.toNat : Int) := by omega
    rw [number] at member
    simp [isStamp, padded_isDigit width n.toNat c member]
  have year := t.date.year_range
  have month := t.date.month.number_range
  have days := Month.length_range t.date.year t.date.month
  have day := t.date.day_range
  refine ⟨padded 4 t.date.year.natAbs ++ (padded 2 t.date.month.number ++ (padded 2 t.date.day ++
    'T' :: (padded 2 (t.nanos / 1000000000 / 3600) ++ (padded 2 (t.nanos / 1000000000 / 60 % 60) ++
      (padded 2 (t.nanos / 1000000000 % 60) ++ ['Z']))))), ?_, ?_, ?_⟩
  · simp only [formatUtc, List.append_assoc, List.cons_append]
  · intro c member
    simp only [List.mem_append, List.mem_cons, List.not_mem_nil, or_false] at member
    rcases member with h | h | h | rfl | h | h | h | rfl
    · exact digits 4 _ (by omega) c h
    · exact digits 2 _ (by omega) c h
    · exact digits 2 _ (by omega) c h
    · decide
    · exact digits 2 _ (by omega) c h
    · exact digits 2 _ (by omega) c h
    · exact digits 2 _ (by omega) c h
    · decide
  · have wide : (padded 4 (t.date.year.natAbs : Int)).length = 4 :=
      length_padded (by decide) (by omega)
    have middle : (padded 2 (t.date.month.number : Int)).length = 2 :=
      length_padded (by decide) (by omega)
    have last : (padded 2 (t.date.day : Int)).length = 2 :=
      length_padded (by decide) (by omega)
    simp only [List.length_append, List.length_cons, wide, middle, last]
    omega

theorem escapeText_formatUtc (t : OffsetDateTime) : escapeText (formatUtc t) = formatUtc t := by
  obtain ⟨stamp, written, stamps, -⟩ := formatUtc_shape t
  have plain : ∀ c, isStamp c = true → isSpecial c = false := by
    intro c letter
    by_contra special
    simp only [Bool.not_eq_false, isSpecial, Bool.or_eq_true, decide_eq_true_eq] at special
    rcases special with ((rfl | rfl) | rfl) | rfl <;> exact absurd letter (by decide)
  apply escapeText_of_plain
  intro c member
  rw [written] at member
  rcases List.mem_append.mp member with sign | later
  · split at sign
    · rw [List.mem_singleton.mp sign]
      decide
    · cases sign
  · exact plain c (stamps c later)

theorem formatUtc_noHyphen (t : OffsetDateTime) : (formatUtc t)[4]? ≠ some '-' := by
  obtain ⟨stamp, written, stamps, -⟩ := formatUtc_shape t
  intro hyphen
  have inside : '-' ∈ stamp := by
    rw [written] at hyphen
    split at hyphen
    · exact List.mem_of_getElem? (by simpa using hyphen)
    · exact List.mem_of_getElem? (by simpa using hyphen)
  exact absurd (stamps '-' inside) (by decide)

theorem length_le_len (s : Str) : s.length ≤ len s := by
  have each := List.length_le_sum_of_one_le (s.map Char.utf8Size) fun n member => by
    obtain ⟨c, -, rfl⟩ := List.mem_map.mp member
    exact c.utf8Size_pos
  rwa [List.length_map] at each

theorem parseDt_formatUtc {crates : Crates} (extended : ExtendedOnly crates) {t : OffsetDateTime}
    (second : WholeSecond t) : parseDt crates none (escapeText (formatUtc t)) = some t := by
  obtain ⟨stamp, written, -, long⟩ := formatUtc_shape t
  obtain ⟨text, ending, parsed⟩ := parseDateTime_formatted second
  have notEight : ¬ len (formatUtc t) = 8 := by
    have bytes := length_le_len (formatUtc t)
    have size := congrArg List.length written
    rw [List.length_append] at size
    omega
  have zulu : stripSuffix ['Z'] (formatUtc t) = some text := by
    rw [ending, stripSuffix, if_pos (List.isSuffixOf_iff_suffix.mpr (List.suffix_append text _))]
    simp
  rw [escapeText_formatUtc, parseDt]
  simp only [notEight, decide_false, Bool.and_false, Bool.false_eq_true, if_false,
    extended (formatUtc t) (formatUtc_noHyphen t), zulu, parsed]

/-! ### What is written is read back -/

/-- Texts that the reader gives back as they are. -/
structure Vtodo.Readable (t : Vtodo) : Prop where
  uid : t.uid ≠ [] ∧ (∀ c ∈ t.uid, isSpecial c = false) ∧ t.uid.getLast? ≠ some '\r'
  summary : t.summary.getLast? ≠ some '\r'
  description : ∀ d ∈ t.description, d.getLast? ≠ some '\r'
  status : toAsciiUppercase t.status = t.status ∧ (∀ c ∈ t.status, isSpecial c = false) ∧
    t.status.getLast? ≠ some '\r'
  priority : 0 ≤ t.priority ∧ t.priority ≤ 9
  percentComplete : 0 ≤ t.percentComplete ∧ t.percentComplete ≤ 100
  dtstart : ∀ dt ∈ t.dtstart, WholeSecond dt
  due : ∀ dt ∈ t.due, WholeSecond dt
  completed : ∀ dt ∈ t.completed, WholeSecond dt
  rrule : ∀ r ∈ t.rrule, (∀ c ∈ r, isSpecial c = false) ∧ r.getLast? ≠ some '\r'

def Vtodo.parsed (t : Vtodo) : ParsedTask :=
  ⟨t.uid, some t.summary, t.description, some t.status, t.priority, t.percentComplete, t.dtstart,
    t.due, t.completed, t.rrule⟩

theorem display_isDigit {n : Int} (nonneg : 0 ≤ n) : ∀ c ∈ display n, c.isDigit := by
  intro c member
  obtain ⟨k, rfl⟩ := Int.eq_ofNat_of_zero_le nonneg
  exact Nat.isDigit_of_mem_toDigits (by decide) (by decide) member

theorem escapeText_display {n : Int} (nonneg : 0 ≤ n) : escapeText (display n) = display n := by
  apply escapeText_of_plain
  intro c member
  have digit := display_isDigit nonneg c member
  by_contra special
  simp only [Bool.not_eq_false, isSpecial, Bool.or_eq_true, decide_eq_true_eq] at special
  rcases special with ((rfl | rfl) | rfl) | rfl <;> exact absurd digit (by decide)

theorem parseClamped_display {n most : Int} (range : 0 ≤ n ∧ n ≤ most) (small : most < 2 ^ 15) :
    parseClamped most (escapeText (display n)) = n := by
  rw [escapeText_display range.1, parseClamped, parseSigned_display (by omega) (by omega)]
  simp only [Option.getD_some]
  omega

/-- A property that is written only when it has a value. -/
theorem foldl_optional {α : Type} (crates : Crates) {value : Option α} {property : TodoProperty}
    {text : α → Str} (acc : ParsedTask) (put : Option α → ParsedTask)
    (given : ∀ a ∈ value, acc.set crates none (escapeText (text a)) property = put (some a))
    (absent : put none = acc) :
    (value.map fun a => (property, text a)).toList.foldl
        (fun acc p => acc.set crates none (escapeText p.2) p.1) acc = put value := by
  cases value with
  | none => exact absent.symm
  | some a => exact given a rfl

theorem Vtodo.Readable.noReturn {t : Vtodo} (readable : t.Readable) :
    ∀ p ∈ t.properties, p.2.getLast? ≠ some '\r' := by
  have stamped : ∀ dt, (formatUtc dt).getLast? ≠ some '\r' := by
    intro dt
    simp only [formatUtc, List.getLast?_append, List.getLast?_singleton, Option.some_or]
    decide
  have number : ∀ n : Int, 0 ≤ n → (display n).getLast? ≠ some '\r' := by
    intro n nonneg last
    exact absurd (display_isDigit nonneg '\r' (List.mem_of_getLast? last)) (by decide)
  intro p member
  simp only [Vtodo.properties, List.mem_append, List.mem_cons, List.not_mem_nil, or_false,
    Option.mem_toList, Option.map_eq_some_iff] at member
  rcases member with ((((((rfl | rfl) | ⟨d, given, rfl⟩) | rfl | rfl | rfl) | ⟨dt, -, rfl⟩) |
    ⟨dt, -, rfl⟩) | ⟨dt, -, rfl⟩) | ⟨r, given, rfl⟩
  · exact readable.uid.2.2
  · exact readable.summary
  · exact readable.description d given
  · exact readable.status.2.2
  · exact number _ readable.priority.1
  · exact number _ readable.percentComplete.1
  · exact stamped dt
  · exact stamped dt
  · exact stamped dt
  · exact (readable.rrule r given).2

theorem foldl_properties {crates : Crates} (extended : ExtendedOnly crates) {t : Vtodo}
    (readable : t.Readable) :
    t.properties.foldl (fun acc p => acc.set crates none (escapeText p.2) p.1) {} = t.parsed := by
  have time : ∀ {value : Option OffsetDateTime}, (∀ dt ∈ value, WholeSecond dt) →
      ∀ dt ∈ value, parseDt crates none (escapeText (formatUtc dt)) = some dt :=
    fun whole dt given => parseDt_formatUtc extended (whole dt given)
  have first : [(TodoProperty.uid, t.uid), (.summary, t.summary)].foldl
      (fun acc p => acc.set crates none (escapeText p.2) p.1) ({} : ParsedTask) =
        { uid := t.uid, summary := some t.summary } := by
    simp only [List.foldl_cons, List.foldl_nil, ParsedTask.set, unescapeText_escapeText,
      escapeText_of_plain readable.uid.2.1]
  have numbers : ∀ acc : ParsedTask,
      [(TodoProperty.status, t.status), (.priority, display t.priority),
        (.percentComplete, display t.percentComplete)].foldl
      (fun acc p => acc.set crates none (escapeText p.2) p.1) acc =
        { acc with status := some t.status, priority := t.priority
                   percentComplete := t.percentComplete } := by
    intro acc
    simp only [List.foldl_cons, List.foldl_nil, ParsedTask.set,
      escapeText_of_plain readable.status.2.1, readable.status.1,
      parseClamped_display readable.priority (by decide),
      parseClamped_display readable.percentComplete (by decide)]
  simp only [Vtodo.properties, List.foldl_append]
  rw [first, foldl_optional crates _ (fun v => ⟨t.uid, some t.summary, v, none, 0, 0, none, none,
      none, none⟩) ?_ rfl, numbers,
    foldl_optional crates _ (fun v => ⟨t.uid, some t.summary, t.description, some t.status,
      t.priority, t.percentComplete, v, none, none, none⟩) ?_ rfl,
    foldl_optional crates _ (fun v => ⟨t.uid, some t.summary, t.description, some t.status,
      t.priority, t.percentComplete, t.dtstart, v, none, none⟩) ?_ rfl,
    foldl_optional crates _ (fun v => ⟨t.uid, some t.summary, t.description, some t.status,
      t.priority, t.percentComplete, t.dtstart, t.due, v, none⟩) ?_ rfl,
    foldl_optional crates _ (fun v => ⟨t.uid, some t.summary, t.description, some t.status,
      t.priority, t.percentComplete, t.dtstart, t.due, t.completed, v⟩) ?_ rfl]
  · rfl
  · intro r given
    simp only [ParsedTask.set, escapeText_of_plain (readable.rrule r given).1]
  · intro dt given
    simp only [ParsedTask.set, time readable.completed dt given]
  · intro dt given
    simp only [ParsedTask.set, time readable.due dt given]
  · intro dt given
    simp only [ParsedTask.set, time readable.dtstart dt given]
  · intro d given
    simp only [ParsedTask.set, unescapeText_escapeText]

theorem parseVtodo_serializeVtodo {crates : Crates} (extended : ExtendedOnly crates) {t : Vtodo}
    (readable : t.Readable) : parseVtodo crates (serializeVtodo t) = .ok t.parsed := by
  have named : t.parsed.uid.isEmpty = false := by
    simpa [Vtodo.parsed] using readable.uid.1
  rw [parseVtodo, parseTodoLines_serializeVtodo crates readable.noReturn,
    foldl_properties extended readable]
  simp [named]

end Expresso.CalDav
