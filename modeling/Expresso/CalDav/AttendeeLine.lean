import Expresso.CalDav.Itip

/-! One attendee line under the writer's edit: the parameters change by the answer alone, and
the line keeps its place among the lines whatever continues it. -/

namespace Expresso.CalDav.Itip
open Text

/-! ### Pieces of a line -/

theorem intercalate_cons (separator : Char) (piece next : Str) (rest : List Str) :
    List.intercalate [separator] (piece :: next :: rest) =
      piece ++ separator :: List.intercalate [separator] (next :: rest) := by
  simp [List.intercalate]

theorem split_intercalate {separator : Char} {pieces : List Str} (nonempty : pieces ≠ [])
    (absent : ∀ p ∈ pieces, separator ∉ p) :
    split separator (List.intercalate [separator] pieces) = pieces := by
  induction pieces with
  | nil => exact absurd rfl nonempty
  | cons piece rest ih =>
    have here := absent piece List.mem_cons_self
    cases rest with
    | nil => simpa [List.intercalate] using split_of_not_mem here
    | cons next others =>
      rw [intercalate_cons, split_append_cons here,
        ih (by simp) fun p later => absent p (List.mem_cons_of_mem piece later)]

/-- Name and parameters are the pieces between semicolons. -/
theorem splitHead_eq {head n : Str} {params : List Str} (pieces : split ';' head = n :: params) :
    (splitHead head).1 = toAsciiUppercase n ∧
      (splitHead head).2.elim [] (split ';') = params := by
  simp only [splitHead]
  cases cut : splitOnce ';' head with
  | none =>
    rw [split_of_not_mem (splitOnce_none cut)] at pieces
    cases pieces
    exact ⟨rfl, rfl⟩
  | some halves =>
    obtain ⟨a, b⟩ := halves
    obtain ⟨whole, absent⟩ := splitOnce_some cut
    rw [whole, split_append_cons absent] at pieces
    cases pieces
    exact ⟨rfl, rfl⟩

theorem attendeeOf_eq {head value n : Str} {params : List Str} (absent : ':' ∉ head)
    (pieces : split ';' head = n :: params) :
    attendeeOf (head ++ ':' :: value) =
      if toAsciiUppercase n = "ATTENDEE".toList then
        (extractMailto value).map fun email => params.foldl Attendee.set { email }
      else none := by
  obtain ⟨name, rest⟩ := splitHead_eq pieces
  simp only [attendeeOf, splitOnce_append absent, name, rest]

/-! ### The edited parameters -/

/-- The attendee with another answer. -/
def Attendee.answer (a : Attendee) (partstat : Option Str) : Attendee :=
  { a with partstat := partstat }

theorem eq_of_toUpper {c d : Char} (upper : c.toUpper = d) (other : d.isUpper = false) : c = d := by
  subst upper
  simp only [Char.toUpper] at other ⊢
  split
  · next lower =>
    rw [dif_pos lower] at other
    obtain ⟨low, high⟩ := lower
    simp only [Char.isUpper, UInt32.le_iff_toNat_le, ge_iff_le, UInt32.toNat_add] at low high other
    simp at low high other
    omega
  · rfl

/-- The parameter that is written, for each of the answers. -/
theorem partstat_facts :
    ("PARTSTAT=".toList = "PARTSTAT".toList ++ ['='] ∧ '=' ∉ "PARTSTAT".toList ∧
      toAsciiUppercase "PARTSTAT".toList = "PARTSTAT".toList) ∧
    (∀ upper ∈ partstats,
      splitOnce '=' ("PARTSTAT=".toList ++ upper) = some ("PARTSTAT".toList, upper) ∧
        toAsciiUppercase upper = upper) ∧
    ∀ upper ∈ partstats, ';' ∉ "PARTSTAT=".toList ++ upper ∧
      ':' ∉ "PARTSTAT=".toList ++ upper ∧ '\n' ∉ "PARTSTAT=".toList ++ upper := by
  decide

/-- The name of the line is no delimiter, and that of no other property. -/
theorem attendee_facts :
    ((Char.toUpper ':' ∉ "ATTENDEE".toList ∧ Char.toUpper ';' ∉ "ATTENDEE".toList) ∧
      ¬ "ATTENDEE".toList <+: "BEGIN:VEVENT".toList ∧
      ¬ "ATTENDEE".toList <+: "END:VEVENT".toList) ∧
    (∀ property ∈ Property.all, ¬ "ATTENDEE".toList <+: property.name) ∧
    extractMailto [] = none := by
  decide

theorem isPartstat_iff (seg : Str) :
    isPartstat seg = true ↔
      ∃ k v, splitOnce '=' seg = some (k, v) ∧ toAsciiUppercase k = "PARTSTAT".toList := by
  obtain ⟨text, noEquals, -⟩ := partstat_facts.1
  constructor
  · intro starts
    obtain ⟨rest, whole⟩ := List.isPrefixOf_iff_prefix.mp starts
    rw [text, List.append_assoc] at whole
    obtain ⟨k, tail, rfl, key, others⟩ := List.map_eq_append_iff.mp whole.symm
    obtain ⟨c, v, rfl, sign, _⟩ := List.map_eq_cons_iff.mp others
    have equals : c = '=' := eq_of_toUpper sign (by decide)
    have absent : '=' ∉ k := by
      intro member
      exact noEquals (key ▸ List.mem_map.mpr ⟨'=', member, by decide⟩)
    subst equals
    exact ⟨k, v, splitOnce_append absent v, key⟩
  · rintro ⟨k, v, cut, key⟩
    obtain ⟨rfl, _⟩ := splitOnce_some cut
    apply List.isPrefixOf_iff_prefix.mpr
    refine ⟨toAsciiUppercase v, ?_⟩
    rw [text, List.append_assoc, ← key]
    simp only [toAsciiUppercase, List.map_append, List.map_cons]
    rfl

theorem set_of_key {seg k v : Str} (cut : splitOnce '=' seg = some (k, v))
    (key : toAsciiUppercase k = "PARTSTAT".toList) (a : Attendee) :
    a.set seg = a.answer (some (toAsciiUppercase v)) := by
  simp only [Attendee.set, cut, key]
  rw [if_neg (by decide), if_neg (by decide), if_pos trivial]
  rfl

theorem set_partstat {seg : Str} (named : isPartstat seg = true) :
    ∃ value, ∀ a : Attendee, a.set seg = a.answer (some value) := by
  obtain ⟨k, v, cut, key⟩ := (isPartstat_iff seg).mp named
  exact ⟨toAsciiUppercase v, set_of_key cut key⟩

theorem answer_ite {c : Prop} [Decidable c] {x y x' y' : Attendee} {partstat : Option Str}
    (yes : x = x'.answer partstat) (no : y = y'.answer partstat) :
    (if c then x else y) = (if c then x' else y').answer partstat := by
  split
  · exact yes
  · exact no

theorem set_answer {seg : Str} (other : isPartstat seg = false) (a : Attendee)
    (partstat : Option Str) : (a.answer partstat).set seg = (a.set seg).answer partstat := by
  simp only [Attendee.set]
  cases cut : splitOnce '=' seg with
  | none => rfl
  | some halves =>
    obtain ⟨k, v⟩ := halves
    have key : toAsciiUppercase k ≠ "PARTSTAT".toList := by
      intro key
      rw [(isPartstat_iff seg).mpr ⟨k, v, cut, key⟩] at other
      cases other
    simp only [if_neg key]
    exact answer_ite rfl (answer_ite rfl (answer_ite rfl (answer_ite rfl rfl)))

theorem set_partstatParam {partstat : Str} (valid : toAsciiUppercase partstat ∈ partstats)
    (a : Attendee) :
    a.set (partstatParam partstat) = a.answer (some (toAsciiUppercase partstat)) := by
  obtain ⟨cut, same⟩ := partstat_facts.2.1 _ valid
  have set := set_of_key cut partstat_facts.1.2.2 a
  rwa [same] at set

/-- An answer given first does not matter once another is given last. -/
theorem foldl_set_answer (params : List Str) (a : Attendee) (first last : Option Str) :
    (params.foldl Attendee.set (a.answer first)).answer last =
      (params.foldl Attendee.set a).answer last := by
  induction params generalizing a with
  | nil => rfl
  | cons seg rest ih =>
    rw [List.foldl_cons, List.foldl_cons]
    by_cases named : isPartstat seg = true
    · obtain ⟨value, sets⟩ := set_partstat named
      rw [sets, sets]
      rfl
    · rw [set_answer (by simpa using named)]
      exact ih _

theorem foldl_set_of_none {params : List Str} (others : params.any isPartstat = false)
    (a : Attendee) (partstat : Option Str) :
    params.foldl Attendee.set (a.answer partstat) =
      (params.foldl Attendee.set a).answer partstat := by
  induction params generalizing a with
  | nil => rfl
  | cons seg rest ih =>
    obtain ⟨here, later⟩ := Bool.or_eq_false_iff.mp (List.any_cons ▸ others)
    rw [List.foldl_cons, List.foldl_cons, set_answer here, ih later]

/-- The edited parameters read as the old ones with the new answer. -/
theorem foldl_setPartstat {partstat : Str} (valid : toAsciiUppercase partstat ∈ partstats)
    (name : Str) (params : List Str) :
    ∃ edited, setPartstat partstat (name :: params) = name :: edited ∧
      ∀ a, edited.foldl Attendee.set a =
        (params.foldl Attendee.set a).answer (some (toAsciiUppercase partstat)) := by
  by_cases found : params.any isPartstat = true
  · refine ⟨_, by rw [setPartstat, if_pos found], ?_⟩
    intro a
    induction params generalizing a with
    | nil => cases found
    | cons seg rest ih =>
      rw [List.map_cons, List.foldl_cons, List.foldl_cons]
      have others : rest.any isPartstat = false → ∀ a : Attendee,
          (rest.map fun seg => if isPartstat seg then partstatParam partstat else seg).foldl
            Attendee.set a = rest.foldl Attendee.set a := by
        intro none a
        congr 1
        conv_rhs => rw [← List.map_id rest]
        refine List.map_congr_left fun seg member => ?_
        rw [if_neg (by simpa using List.any_eq_false.mp none seg member)]
        rfl
      by_cases named : isPartstat seg = true
      · obtain ⟨value, sets⟩ := set_partstat named
        rw [if_pos named, set_partstatParam valid, sets]
        by_cases again : rest.any isPartstat = true
        · rw [ih again, foldl_set_answer, foldl_set_answer]
        · rw [others (by simpa using again), foldl_set_answer,
            foldl_set_of_none (by simpa using again)]
      · rw [if_neg named]
        exact ih (by simpa [named] using found) _
  · refine ⟨params ++ [partstatParam partstat],
      by rw [setPartstat, if_neg found, List.cons_append], ?_⟩
    intro a
    rw [List.foldl_append, List.foldl_cons, List.foldl_nil, set_partstatParam valid]

/-! ### Lines that begin with `ATTENDEE` -/

def StartsAttendee (line : Str) : Prop := "ATTENDEE".toList <+: toAsciiUppercase line

theorem StartsAttendee.append {line : Str} (starts : StartsAttendee line) (c : Str) :
    StartsAttendee (line ++ c) := by
  unfold StartsAttendee toAsciiUppercase at *
  rw [List.map_append]
  exact starts.trans (List.prefix_append _ _)

theorem prefix_of_prefix_append {p a b : Str} {separator : Char} (absent : separator ∉ p)
    (before : p <+: a ++ separator :: b) : p <+: a := by
  induction p generalizing a with
  | nil => exact List.nil_prefix
  | cons c rest ih =>
    obtain ⟨other, later⟩ := not_or.mp (List.mem_cons.not.mp absent)
    cases a with
    | nil => exact absurd (List.cons_prefix_cons.mp before).1.symm other
    | cons c' a =>
      obtain ⟨rfl, inRest⟩ := List.cons_prefix_cons.mp before
      exact List.cons_prefix_cons.mpr ⟨rfl, ih later inRest⟩

/-- The name of such a line begins so too. -/
theorem StartsAttendee.head {head value n : Str} {params : List Str}
    (starts : StartsAttendee (head ++ ':' :: value)) (pieces : split ';' head = n :: params) :
    StartsAttendee n := by
  have inHead : StartsAttendee head := by
    unfold StartsAttendee toAsciiUppercase at *
    rw [List.map_append, List.map_cons] at starts
    exact prefix_of_prefix_append attendee_facts.1.1.1 starts
  cases cut : splitOnce ';' head with
  | none =>
    rw [split_of_not_mem (splitOnce_none cut)] at pieces
    cases pieces
    exact inHead
  | some halves =>
    obtain ⟨a, b⟩ := halves
    obtain ⟨whole, absent⟩ := splitOnce_some cut
    rw [whole, split_append_cons absent] at pieces
    cases pieces
    unfold StartsAttendee toAsciiUppercase at *
    rw [whole, List.map_append, List.map_cons] at inHead
    exact prefix_of_prefix_append attendee_facts.1.1.2 inHead

theorem StartsAttendee.leads {line : Str} (starts : StartsAttendee line) : Leads line := by
  obtain ⟨rest, whole⟩ := starts
  exact leads_of_toUpper whole.symm (by decide) (by decide)

theorem StartsAttendee.quiet {line : Str} (starts : StartsAttendee line) :
    beginsEvent line = false ∧ endsEvent line = false := by
  simp only [beginsEvent, endsEvent, decide_eq_false_iff_not]
  constructor
  · intro upper
    rw [StartsAttendee, upper] at starts
    exact attendee_facts.1.2.1 starts
  · intro upper
    rw [StartsAttendee, upper] at starts
    exact attendee_facts.1.2.2 starts

/-- They are none of the properties that the tables index. -/
theorem StartsAttendee.applyProperty {line : Str} (starts : StartsAttendee line) (crates : Crates)
    (ev : ParsedEvent) : applyProperty crates ev line = ev := by
  unfold CalDav.applyProperty
  cases cut : splitOnce ':' line with
  | none => rfl
  | some halves =>
    obtain ⟨head, value⟩ := halves
    obtain ⟨whole, _⟩ := splitOnce_some cut
    obtain ⟨n, params, pieces⟩ := List.exists_cons_of_ne_nil (split_ne_nil ';' head)
    rw [whole] at starts
    have name := (splitHead_eq pieces).1
    have unknown : Property.named (splitHead head).1 = none := by
      rw [name]
      apply List.find?_eq_none.mpr
      intro property member same
      have begins := starts.head pieces
      rw [StartsAttendee, ← of_decide_eq_true same] at begins
      exact attendee_facts.2.1 property member begins
    simp only [unknown]

/-! ### The edited line -/

/-- A physical line that the writer takes for the attendee's. -/
def takenFor (target line : Str) : Bool := (replyLine target [] line).isSome

theorem replyLine_isSome (target partstat line : Str) :
    (replyLine target partstat line).isSome = takenFor target line := by
  simp only [takenFor, replyLine]
  split
  · split
    · rfl
    · split
      · rfl
      · split <;> rfl
  · rfl

/-- What the edit of a line amounts to: it keeps its place among the lines, and whatever
continues it, the attendee read from it has the new answer and nothing else changed. -/
structure Edited (partstat line edited : Str) : Prop where
  before : StartsAttendee line
  after : StartsAttendee edited
  plain : Plain line → Plain edited
  reads : ∀ c, attendeeOf (edited ++ c) =
    (attendeeOf (line ++ c)).map (·.answer (some (toAsciiUppercase partstat)))

theorem mem_setPartstat {partstat seg : Str} {segs : List Str}
    (member : seg ∈ setPartstat partstat segs) : seg ∈ segs ∨ seg = partstatParam partstat := by
  cases segs with
  | nil => cases member
  | cons name params =>
    rw [setPartstat] at member
    split at member
    · rcases List.mem_cons.mp member with rfl | edited
      · exact .inl List.mem_cons_self
      · obtain ⟨old, among, changed⟩ := List.mem_map.mp edited
        split at changed
        · exact .inr changed.symm
        · exact .inl (changed ▸ List.mem_cons_of_mem name among)
    · rcases List.mem_append.mp member with old | new
      · exact .inl old
      · exact .inr (List.mem_singleton.mp new)

theorem mem_intercalate {separator c : Char} {pieces : List Str}
    (member : c ∈ List.intercalate [separator] pieces) :
    c = separator ∨ ∃ p ∈ pieces, c ∈ p := by
  induction pieces with
  | nil => simp [List.intercalate] at member
  | cons piece rest ih =>
    cases rest with
    | nil => exact .inr ⟨piece, by simp, by simpa [List.intercalate] using member⟩
    | cons next others =>
      rw [intercalate_cons] at member
      rcases List.mem_append.mp member with here | later
      · exact .inr ⟨piece, by simp, here⟩
      · rcases List.mem_cons.mp later with same | further
        · exact .inl same
        · exact (ih further).imp id fun ⟨p, among, inPiece⟩ =>
            ⟨p, List.mem_cons_of_mem piece among, inPiece⟩

/-- The characters of an edited head are those of the head, or of the new parameter. -/
theorem head_subset {partstat head : Str} {c : Char} (other : c ≠ ';')
    (member : c ∈ List.intercalate [';'] (setPartstat partstat (split ';' head))) :
    c ∈ head ∨ c ∈ partstatParam partstat := by
  rcases mem_intercalate member with same | ⟨p, among, inPiece⟩
  · exact absurd same other
  · rcases mem_setPartstat among with old | rfl
    · exact .inl (subset_of_mem_split old inPiece)
    · exact .inr inPiece

theorem partstatParam_plain {partstat : Str} (valid : toAsciiUppercase partstat ∈ partstats) :
    ';' ∉ partstatParam partstat ∧ ':' ∉ partstatParam partstat ∧
      '\n' ∉ partstatParam partstat :=
  partstat_facts.2.2 _ valid

theorem replyLine_edited {target partstat line edited : Str}
    (valid : toAsciiUppercase partstat ∈ partstats)
    (found : replyLine target partstat line = some edited) : Edited partstat line edited := by
  simp only [replyLine] at found
  split at found
  · next starts =>
    have starts : StartsAttendee line := List.isPrefixOf_iff_prefix.mp starts
    split at found
    · cases found
    · next head value cut =>
      obtain ⟨rfl, absent⟩ := splitOnce_some cut
      split at found
      · cases found
      · next lineEmail mail =>
        split at found
        · cases found
          obtain ⟨n, params, pieces⟩ := List.exists_cons_of_ne_nil (split_ne_nil ';' head)
          obtain ⟨edited, segs, reads⟩ := foldl_setPartstat valid n params
          obtain ⟨noSemi, noColon, noFeed⟩ := partstatParam_plain valid
          have absent' : ':' ∉ List.intercalate [';'] (setPartstat partstat (split ';' head)) :=
            fun member => (head_subset (by decide) member).elim absent noColon
          have pieces' : split ';' (List.intercalate [';']
              (setPartstat partstat (split ';' head))) = n :: edited := by
            rw [pieces, segs]
            apply split_intercalate (by simp)
            intro p member
            rcases mem_setPartstat (segs ▸ member) with old | rfl
            · exact not_mem_of_mem_split (pieces ▸ old)
            · exact noSemi
          have nonempty : value ≠ [] := by
            rintro rfl
            rw [attendee_facts.2.2] at mail
            cases mail
          refine ⟨starts, ?_, ?_, ?_⟩
          · -- the name stays in front
            rw [pieces, segs]
            have first : ∃ rest, List.intercalate [';'] (n :: edited) = n ++ rest := by
              cases edited with
              | nil => exact ⟨[], by simp [List.intercalate]⟩
              | cons next others => exact ⟨_, intercalate_cons ';' n next others⟩
            obtain ⟨rest, whole⟩ := first
            rw [whole]
            exact ((starts.head pieces).append rest).append (':' :: value)
          · intro plain
            refine ⟨?_, ?_⟩
            · have inLine := plain.oneLine
              simp only [List.mem_append, List.mem_cons, not_or] at inLine ⊢
              exact ⟨fun member => (head_subset (by decide) member).elim inLine.1 noFeed,
                by decide, inLine.2.2⟩
            · have last := plain.noReturn
              rw [List.append_cons, List.getLast?_append_of_ne_nil _ nonempty] at last ⊢
              exact last
          · intro c
            rw [List.append_assoc, List.append_assoc, List.cons_append,
              attendeeOf_eq absent' pieces', attendeeOf_eq absent pieces]
            split
            · simp only [reads, Option.map_map]
              rfl
            · rfl
        · cases found
  · cases found

end Expresso.CalDav.Itip
