import Expresso.CalDav.Vtodo
import Mathlib.Data.List.Induction

/-! What a written task reads back as, whatever its texts: the reader drops the carriage returns
at the end of a value, and undoes the escapes of the summary and the description only. -/

namespace Expresso.CalDav
open Text Time

/-- A value without the carriage returns at its end. -/
abbrev chomp (v : Str) : Str := trimEndMatches '\r' v

/-! ### Values -/

theorem chomp_of_getLast {v : Str} (noReturn : v.getLast? ≠ some '\r') : chomp v = v :=
  trimEndMatches_of_getLast noReturn

theorem getLast_chomp (v : Str) : (chomp v).getLast? ≠ some '\r' := getLast_trimEndMatches '\r' v

theorem chomp_return (v : Str) : chomp (v ++ ['\r']) = chomp v := trimEndMatches_append '\r' v

theorem escapeText_append (v w : Str) : escapeText (v ++ w) = escapeText v ++ escapeText w :=
  List.flatMap_append

theorem chomp_escapeText (v : Str) : chomp (escapeText v) = escapeText (chomp v) := by
  induction v using List.reverseRecOn with
  | nil => rfl
  | append_singleton front last ih =>
    by_cases ending : last = '\r'
    · subst ending
      have same : escapeText ['\r'] = ['\r'] := by decide
      rw [escapeText_append, same, chomp_return, chomp_return, ih]
    · have other : (front ++ [last]).getLast? ≠ some '\r' := by simpa using ending
      rw [chomp_of_getLast other, chomp_of_getLast (escapeText_noReturn other)]

theorem length_escapeChar (c : Char) :
    1 ≤ (escapeChar c).length ∧ (isSpecial c = true → 2 ≤ (escapeChar c).length) := by
  by_cases special : isSpecial c = true
  · have both : 2 ≤ (escapeChar c).length := by
      simp only [isSpecial, Bool.or_eq_true, decide_eq_true_eq] at special
      rcases special with ((rfl | rfl) | rfl) | rfl <;> decide
    omega
  · rw [escapeChar_of_not_special (by simpa using special)]
    exact ⟨le_rfl, fun yes => absurd yes special⟩

/-- Escaping never shortens a text, and lengthens every text it changes. -/
theorem length_escapeText (v : Str) : v.length ≤ (escapeText v).length ∧
    ((escapeText v).length ≤ v.length → ∀ c ∈ v, isSpecial c = false) := by
  induction v with
  | nil => exact ⟨le_rfl, fun _ _ member => absurd member List.not_mem_nil⟩
  | cons c rest ih =>
    obtain ⟨least, longer⟩ := length_escapeChar c
    have size : (escapeText (c :: rest)).length =
        (escapeChar c).length + (escapeText rest).length := by
      rw [escapeText, List.flatMap_cons, List.length_append]
      rfl
    rw [size, List.length_cons]
    refine ⟨by omega, fun bounded d member => ?_⟩
    rcases List.mem_cons.mp member with rfl | later
    · by_contra special
      have two := longer (by simpa using special)
      omega
    · exact ih.2 (by omega) d later

theorem chomp_eq_self_iff (v : Str) : chomp v = v ↔ v.getLast? ≠ some '\r' :=
  ⟨fun same => same ▸ getLast_chomp v, chomp_of_getLast⟩

/-- A value that is not unescaped comes back just where it holds nothing to escape. -/
theorem kept_iff (v : Str) : chomp (escapeText v) = v ↔
    (∀ c ∈ v, isSpecial c = false) ∧ v.getLast? ≠ some '\r' := by
  rw [chomp_escapeText]
  constructor
  · intro same
    have noReturn : v.getLast? ≠ some '\r' :=
      same ▸ escapeText_noReturn (getLast_chomp v)
    rw [chomp_of_getLast noReturn] at same
    exact ⟨(length_escapeText v).2 (congrArg List.length same).le, noReturn⟩
  · intro ⟨plain, noReturn⟩
    rw [chomp_of_getLast noReturn, escapeText_of_plain plain]

theorem toUpper_eq_return {c : Char} (upper : c.toUpper = '\r') : c = '\r' :=
  Itip.eq_of_toUpper upper (by decide)

theorem kept_upper_iff (v : Str) : toAsciiUppercase (chomp (escapeText v)) = v ↔
    toAsciiUppercase v = v ∧ (∀ c ∈ v, isSpecial c = false) ∧ v.getLast? ≠ some '\r' := by
  rw [chomp_escapeText]
  constructor
  · intro same
    have noReturn : v.getLast? ≠ some '\r' := by
      intro ending
      rw [← same, toAsciiUppercase, List.getLast?_map, Option.map_eq_some_iff] at ending
      obtain ⟨c, last, upper⟩ := ending
      rw [toUpper_eq_return upper] at last
      exact escapeText_noReturn (getLast_chomp v) last
    rw [chomp_of_getLast noReturn] at same
    have size : (escapeText v).length = v.length := by
      have lengths := congrArg List.length same
      rwa [toAsciiUppercase, List.length_map] at lengths
    have plain := (length_escapeText v).2 size.le
    rw [escapeText_of_plain plain] at same
    exact ⟨same, plain, noReturn⟩
  · rintro ⟨upper, plain, noReturn⟩
    rw [chomp_of_getLast noReturn, escapeText_of_plain plain, upper]

theorem parseClamped_range {most : Int} (nonneg : 0 ≤ most) (v : Str) :
    0 ≤ parseClamped most v ∧ parseClamped most v ≤ most := by
  unfold parseClamped
  omega

theorem parseClamped_chomp_iff {n most : Int} (nonneg : 0 ≤ most) (small : most < 2 ^ 15) :
    parseClamped most (chomp (escapeText (display n))) = n ↔ 0 ≤ n ∧ n ≤ most := by
  constructor
  · intro same
    exact same ▸ parseClamped_range nonneg _
  · intro range
    have noReturn : (display n).getLast? ≠ some '\r' := by
      intro last
      exact absurd (display_isDigit range.1 '\r' (List.mem_of_getLast? last)) (by decide)
    rw [chomp_escapeText, chomp_of_getLast noReturn, parseClamped_display range small]

/-! ### Times -/

theorem parseDateTime_wholeSecond {s : Str} {t : OffsetDateTime}
    (read : parseDateTime s = some t) : WholeSecond t := by
  simp only [parseDateTime, Option.bind_eq_bind, Option.bind_eq_some_iff] at read
  obtain ⟨_, _, _, _, ⟨hour, _⟩, _, ⟨minute, _⟩, _, ⟨second, _⟩, _, clock, valid, made⟩ := read
  split at made
  · cases made
    refine ⟨rfl, ?_⟩
    unfold Recurrence.fromHms at valid
    split at valid
    · cases valid
      show _ * 1000000000 % 1000000000 = (0 : Int)
      omega
    · cases valid
  · cases made

theorem formatUtc_noReturn (t : OffsetDateTime) : (formatUtc t).getLast? ≠ some '\r' := by
  simp only [formatUtc, List.getLast?_append, List.getLast?_singleton, Option.some_or]
  decide

theorem formatUtc_oneLine (t : OffsetDateTime) : '\n' ∉ formatUtc t := by
  rw [← escapeText_formatUtc]
  exact escapeText_oneLine _

theorem parseDt_wholeSecond {crates : Crates} (extended : ExtendedOnly crates) {t u : OffsetDateTime}
    (read : parseDt crates none (formatUtc t) = some u) : WholeSecond u := by
  obtain ⟨stamp, written, -, long⟩ := formatUtc_shape t
  have notEight : ¬ len (formatUtc t) = 8 := by
    have bytes := length_le_len (formatUtc t)
    have size := congrArg List.length written
    rw [List.length_append] at size
    omega
  simp only [parseDt, notEight, decide_false, Bool.and_false, Bool.false_eq_true, if_false,
    extended (formatUtc t) (formatUtc_noHyphen t)] at read
  split at read
  · exact parseDateTime_wholeSecond read
  · exact parseDateTime_wholeSecond read

theorem parseDt_chomp_iff {crates : Crates} (extended : ExtendedOnly crates) (t : OffsetDateTime) :
    parseDt crates none (chomp (escapeText (formatUtc t))) = some t ↔ WholeSecond t := by
  rw [chomp_escapeText, chomp_of_getLast (formatUtc_noReturn t)]
  constructor
  · intro read
    rw [escapeText_formatUtc] at read
    exact parseDt_wholeSecond extended read
  · exact parseDt_formatUtc extended

/-! ### The lines -/

theorem chomp_append {front : Str} (noReturn : front.getLast? ≠ some '\r') (v : Str) :
    chomp (front ++ v) = front ++ chomp v := by
  induction v using List.reverseRecOn with
  | nil =>
    rw [List.append_nil, chomp_of_getLast noReturn]
    exact (List.append_nil front).symm
  | append_singleton rest last ih =>
    by_cases ending : last = '\r'
    · subst ending
      rw [← List.append_assoc, chomp_return, chomp_return, ih]
    · have other : (rest ++ [last]).getLast? ≠ some '\r' := by simpa using ending
      have whole : (front ++ (rest ++ [last])).getLast? ≠ some '\r' := by
        rw [← List.append_assoc]
        simpa using ending
      rw [chomp_of_getLast other, chomp_of_getLast whole]

/-- Each line written ends in one carriage return more, and no line continues another. -/
theorem foldl_unfoldLine_terminated {lines : List Str} (out : List Str)
    (each : ∀ l ∈ lines, '\n' ∉ l ∧ Leads l) :
    (split '\n' (terminated lines)).foldl unfoldLine out = out ++ lines ++ [[]] := by
  induction lines generalizing out with
  | nil =>
    show unfoldLine out [] = _
    rw [unfoldLine_leads plain_nil.noReturn leads_nil, List.append_nil]
  | cons line rest ih =>
    obtain ⟨oneLine, leads⟩ := each line List.mem_cons_self
    have text : terminated (line :: rest) = (line ++ ['\r']) ++ '\n' :: terminated rest := by
      simp [terminated]
    have first : unfoldLine out (line ++ ['\r']) = out ++ [line] := by
      simp only [unfoldLine, stripReturn_append, Option.getD_some]
      cases line with
      | nil => rfl
      | cons c others =>
        cases out.getLast? with
        | none => rfl
        | some previous =>
          have other : ¬ (c = ' ' ∨ c = '\t') := by simpa [Leads] using leads
          simp only [if_neg other]
    rw [text, split_append_cons (by simpa using oneLine), List.foldl_cons, first,
      ih _ fun l later => each l (List.mem_cons_of_mem line later)]
    simp only [List.append_assoc, List.cons_append, List.nil_append]

theorem propLine_oneLine (p : TodoProperty × Str) : '\n' ∉ propLine p := by
  obtain ⟨-, -, oneLine, -⟩ := name_facts p.1
  simp [propLine, oneLine, escapeText_oneLine]

theorem chomp_propLine (p : TodoProperty × Str) :
    chomp (propLine p) = p.1.name ++ ':' :: chomp (escapeText p.2) := by
  have text : propLine p = (p.1.name ++ [':']) ++ escapeText p.2 := by simp [propLine]
  rw [text, chomp_append (by simp)]
  simp

theorem parseTodoLines_propLine (crates : Crates) (p : TodoProperty × Str) (rest : List Str)
    (t : ParsedTask) : parseTodoLines crates (propLine p :: rest) true t =
      parseTodoLines crates rest true (t.set crates none (chomp (escapeText p.2)) p.1) := by
  obtain ⟨noColon, noSemicolon, -, upper, named⟩ := name_facts p.1
  obtain ⟨c, others, written, -, -, begins, ends⟩ := name_head p.1
  have opens : toAsciiUppercase (chomp (propLine p)) ≠ "BEGIN:VTODO".toList := by
    rw [chomp_propLine, written]
    exact fun same => begins (List.cons.inj same).1
  have closes : toAsciiUppercase (chomp (propLine p)) ≠ "END:VTODO".toList := by
    rw [chomp_propLine, written]
    exact fun same => ends (List.cons.inj same).1
  rw [parseTodoLines]
  simp only [if_neg opens, if_neg closes, if_true]
  congr 1
  rw [applyTodoProperty]
  simp only [chomp_propLine, splitOnce_append noColon, splitHead,
    splitOnce_of_not_mem noSemicolon, upper, named]

/-- What the reader makes of the properties, one after the other. -/
def rereadAll (crates : Crates) (properties : List (TodoProperty × Str)) (t : ParsedTask) :
    ParsedTask :=
  properties.foldl (fun acc p => acc.set crates none (chomp (escapeText p.2)) p.1) t

theorem parseTodoLines_written (crates : Crates) (t : Vtodo) :
    parseTodoLines crates (unfoldLines (serializeVtodo t)) false {} =
      rereadAll crates t.properties {} := by
  have lines : ∀ l ∈ todoHeader ++ t.properties.map propLine ++ todoFooter,
      '\n' ∉ l ∧ Leads l := by
    intro l member
    rcases List.mem_append.mp member with front | last
    · rcases List.mem_append.mp front with first | middle
      · have here := todo_container l (List.mem_append_left _ first)
        exact ⟨here.1.oneLine, here.2⟩
      · obtain ⟨p, _, rfl⟩ := List.mem_map.mp middle
        exact ⟨propLine_oneLine p, leads_propLine p⟩
    · have here := todo_container l (List.mem_append_right _ last)
      exact ⟨here.1.oneLine, here.2⟩
  have properties : ∀ (l : List (TodoProperty × Str)) (rest : List Str) (acc : ParsedTask),
      parseTodoLines crates (l.map propLine ++ rest) true acc =
        parseTodoLines crates rest true (rereadAll crates l acc) := by
    intro l
    induction l with
    | nil => exact fun _ _ => rfl
    | cons p others ih =>
      intro rest acc
      rw [List.map_cons, List.cons_append, parseTodoLines_propLine, ih]
      rfl
  have opened : ∀ rest, parseTodoLines crates (todoHeader ++ rest) false {} =
      parseTodoLines crates rest true {} := fun _ => rfl
  rw [serializeVtodo_eq, unfoldLines, foldl_unfoldLine_terminated [] lines, List.nil_append,
    List.append_assoc, List.append_assoc, opened, properties]
  rfl

/-! ### The fields -/

/-- The fields that a written task reads back as. -/
def Vtodo.reread (crates : Crates) (t : Vtodo) : ParsedTask where
  uid := chomp (escapeText t.uid)
  summary := some (unescapeText (chomp (escapeText t.summary)))
  description := t.description.map fun d => unescapeText (chomp (escapeText d))
  status := some (toAsciiUppercase (chomp (escapeText t.status)))
  priority := parseClamped 9 (chomp (escapeText (display t.priority)))
  percentComplete := parseClamped 100 (chomp (escapeText (display t.percentComplete)))
  dtstart := t.dtstart.bind fun dt => parseDt crates none (chomp (escapeText (formatUtc dt)))
  due := t.due.bind fun dt => parseDt crates none (chomp (escapeText (formatUtc dt)))
  completed := t.completed.bind fun dt => parseDt crates none (chomp (escapeText (formatUtc dt)))
  rrule := t.rrule.map fun r => chomp (escapeText r)

theorem rereadAll_append (crates : Crates) (first second : List (TodoProperty × Str))
    (t : ParsedTask) :
    rereadAll crates (first ++ second) t = rereadAll crates second (rereadAll crates first t) :=
  List.foldl_append

theorem rereadAll_properties (crates : Crates) (t : Vtodo) :
    rereadAll crates t.properties {} = t.reread crates := by
  obtain ⟨uid, summary, description, status, priority, percent, dtstart, due, completed, rrule⟩ := t
  simp only [Vtodo.properties, rereadAll_append]
  cases description <;> cases dtstart <;> cases due <;> cases completed <;> cases rrule <;>
    simp only [rereadAll, Vtodo.reread, ParsedTask.set, List.foldl_cons, List.foldl_nil,
      Option.map_none, Option.map_some, Option.toList_none, Option.toList_some, Option.bind_none,
      Option.bind_some]

/-- A text that is unescaped comes back just where no carriage return ends it. -/
theorem unescaped_iff (v : Str) :
    unescapeText (chomp (escapeText v)) = v ↔ v.getLast? ≠ some '\r' := by
  rw [chomp_escapeText, unescapeText_escapeText, chomp_eq_self_iff]

theorem eq_of_mem_map {α : Type} {value : Option α} {f : α → α} (same : value.map f = value) :
    ∀ a ∈ value, f a = a := by
  intro a given
  rw [Option.mem_def] at given
  rw [given] at same
  exact Option.some.inj same

theorem readable_of_reread {crates : Crates} (extended : ExtendedOnly crates) {t : Vtodo}
    (read : parseVtodo crates (serializeVtodo t) = .ok t.parsed) : t.Readable := by
  rw [parseVtodo, parseTodoLines_written, rereadAll_properties] at read
  split at read
  · cases read
  · next named =>
    have same : t.reread crates = t.parsed := Except.ok.inj read
    simp only [Vtodo.reread, Vtodo.parsed, ParsedTask.mk.injEq, Option.some.injEq] at same
    obtain ⟨uid, summary, description, status, priority, percent, dtstart, due, completed, rrule⟩ :=
      same
    have times : ∀ {value : Option OffsetDateTime}, (value.bind fun dt =>
        parseDt crates none (chomp (escapeText (formatUtc dt)))) = value →
        ∀ dt ∈ value, WholeSecond dt := by
      intro value equal dt given
      rw [Option.mem_def] at given
      rw [given, Option.bind_some] at equal
      exact (parseDt_chomp_iff extended dt).mp equal
    have present : t.uid ≠ [] := by
      intro empty
      apply named
      show (chomp (escapeText t.uid)).isEmpty = true
      rw [uid, empty]
      rfl
    exact
      { uid := ⟨present, (kept_iff t.uid).mp uid⟩
        summary := (unescaped_iff t.summary).mp summary
        description := fun d given => (unescaped_iff d).mp (eq_of_mem_map description d given)
        status := (kept_upper_iff t.status).mp status
        priority := (parseClamped_chomp_iff (by omega) (by omega)).mp priority
        percentComplete := (parseClamped_chomp_iff (by omega) (by omega)).mp percent
        dtstart := times dtstart
        due := times due
        completed := times completed
        rrule := fun r given => (kept_iff r).mp (eq_of_mem_map rrule r given) }

def Vtodo.times (t : Vtodo) : List OffsetDateTime :=
  t.dtstart.toList ++ t.due.toList ++ t.completed.toList

/-- The times are in UTC, as the tables give them. -/
def Vtodo.InUtc (t : Vtodo) : Prop := ∀ dt ∈ t.times, dt.offset = 0

/-- The fields that the reader gives back: where it does not unescape there is nothing to escape,
no text ends in a carriage return, the numbers are in range and the times on whole seconds. -/
structure Vtodo.Legible (t : Vtodo) : Prop where
  uid : t.uid ≠ [] ∧ (∀ c ∈ t.uid, isSpecial c = false) ∧ t.uid.getLast? ≠ some '\r'
  summary : t.summary.getLast? ≠ some '\r'
  description : ∀ d ∈ t.description, d.getLast? ≠ some '\r'
  status : toAsciiUppercase t.status = t.status ∧ (∀ c ∈ t.status, isSpecial c = false) ∧
    t.status.getLast? ≠ some '\r'
  priority : 0 ≤ t.priority ∧ t.priority ≤ 9
  percentComplete : 0 ≤ t.percentComplete ∧ t.percentComplete ≤ 100
  times : ∀ dt ∈ t.times, dt.nanos % 1000000000 = 0
  rrule : ∀ r ∈ t.rrule, (∀ c ∈ r, isSpecial c = false) ∧ r.getLast? ≠ some '\r'

theorem readable_iff {t : Vtodo} (utc : t.InUtc) : t.Readable ↔ t.Legible := by
  constructor
  · intro readable
    refine ⟨readable.uid, readable.summary, readable.description, readable.status,
      readable.priority, readable.percentComplete, fun dt member => ?_, readable.rrule⟩
    simp only [Vtodo.times, List.mem_append, Option.mem_toList] at member
    rcases member with (starts | due) | completed
    · exact (readable.dtstart dt starts).whole
    · exact (readable.due dt due).whole
    · exact (readable.completed dt completed).whole
  · intro legible
    have whole : ∀ dt ∈ t.times, WholeSecond dt :=
      fun dt member => ⟨utc dt member, legible.times dt member⟩
    simp only [Vtodo.times, List.mem_append, Option.mem_toList] at whole
    exact
      { uid := legible.uid
        summary := legible.summary
        description := legible.description
        status := legible.status
        priority := legible.priority
        percentComplete := legible.percentComplete
        dtstart := fun dt given => whole dt (.inl (.inl given))
        due := fun dt given => whole dt (.inl (.inr given))
        completed := fun dt given => whole dt (.inr given)
        rrule := legible.rrule }

/-- A task is read back as it was written just where its fields are legible. -/
theorem vtodo_round_trip_iff {crates : Crates} (extended : ExtendedOnly crates) {t : Vtodo}
    (utc : t.InUtc) : parseVtodo crates (serializeVtodo t) = .ok t.parsed ↔ t.Legible := by
  rw [← readable_iff utc]
  exact ⟨readable_of_reread extended, parseVtodo_serializeVtodo extended⟩

/-- A weekly task, due on Monday, 18 May 2026. -/
def weeklyTodo (rrule : Str) : Vtodo where
  uid := "1".toList
  summary := "Plan, then; review".toList
  description := none
  status := "NEEDS-ACTION".toList
  priority := 5
  percentComplete := 0
  dtstart := none
  due := some
    (.assumeUtc ⟨2026, .may, 18, Time.year_2026, Time.may_eighteenth⟩ 0 Time.midnight_range)
  completed := none
  rrule := some rrule

theorem weeklyTodo_inUtc (rrule : Str) : (weeklyTodo rrule).InUtc := by
  intro dt member
  rw [List.mem_singleton.mp member]
  rfl

theorem vtodo_round_trip_weekly :
    parseVtodo sampleCrates (serializeVtodo (weeklyTodo "FREQ=WEEKLY".toList)) =
        .ok (weeklyTodo "FREQ=WEEKLY".toList).parsed ↔
      (weeklyTodo "FREQ=WEEKLY".toList).Legible :=
  vtodo_round_trip_iff (fun _ _ => rfl) (weeklyTodo_inUtc "FREQ=WEEKLY".toList)

/-- The rule comes back with the backslash that was put before its semicolon. -/
theorem vtodo_rrule_escaped :
    parseVtodo sampleCrates (serializeVtodo (weeklyTodo "FREQ=WEEKLY;BYDAY=MO".toList)) =
      .ok { (weeklyTodo []).parsed with rrule := some "FREQ=WEEKLY\\;BYDAY=MO".toList } ∧
    "FREQ=WEEKLY\\;BYDAY=MO".toList ≠ "FREQ=WEEKLY;BYDAY=MO".toList := by
  decide +kernel

end Expresso.CalDav
