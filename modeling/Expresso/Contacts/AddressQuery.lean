import Expresso.Contacts.FilterDocument
import Mathlib.Data.List.ReduceOption

/-! The parser and the matcher against the meaning of a filter. -/

namespace Expresso.Contacts.CardDav
open Text
open Imap (lines)

/-! ### Queries that the parser knows -/

/-- At most one run of text: no reference, CDATA section or comment inside. -/
def TextElement.Plain (t : TextElement) : Prop :=
  t.content = none ∨ t.content = some [] ∨ ∃ s, t.content = some [.text s]

def Condition.Plain : Condition → Prop
  | text t => t.Plain
  | param _ => False
  | comment => True

def PropElement.Plain (e : PropElement) : Prop :=
  match e.test with
  | .conditions cs => ∀ c ∈ cs, c.Plain
  | _ => True

def Query.Plain (q : Query) : Prop := ∀ e ∈ q.filter.props, e.Plain

/-! ### What the parser makes of a filter -/

def Condition.declared : Condition → Option TextMatch
  | text t => some (textMatchOf t.tag t.text)
  | _ => none

def PropElement.declared (e : PropElement) : PropFilter :=
  match e.test with
  | .defined => propFilterOf e.tag
  | .absent _ => { propFilterOf e.tag with isNotDefined := true }
  | .conditions cs => { propFilterOf e.tag with textMatches := cs.filterMap Condition.declared }

def FilterElement.declared (f : FilterElement) : Filter :=
  { op := parseTestAttr f.tag .anyOf, props := f.props.map PropElement.declared }

theorem xmlSpace_blank {c : Char} (space : isXmlSpace c = true) : isWhitespace c = true := by
  unfold isXmlSpace at space
  simp only [Bool.or_eq_true, decide_eq_true_eq] at space
  rcases space with ((rfl | rfl) | rfl) | rfl <;> decide

theorem trim_readerTrim (s : Str) : trim (readerTrim s) = trim s := by
  have front : trim s = trim (s.dropWhile isXmlSpace) := by
    conv_lhs => rw [← @List.takeWhile_append_dropWhile _ isXmlSpace s]
    exact trim_blank_append (fun c member => xmlSpace_blank (List.mem_takeWhile_imp member)) _
  rw [front, readerTrim]
  generalize s.dropWhile isXmlSpace = u
  have whole : u = (u.reverse.dropWhile isXmlSpace).reverse ++
      (u.reverse.takeWhile isXmlSpace).reverse := by
    rw [← List.reverse_append, List.takeWhile_append_dropWhile, List.reverse_reverse]
  conv_rhs => rw [whole]
  refine (trim_append_blank (fun c member => ?_) _).symm
  exact xmlSpace_blank (List.mem_takeWhile_imp (List.mem_reverse.mp member))

section Parsing

variable {found : Bool} {f : Filter} {rest : List Event}

theorem parseLoop_foreign {events : List Event} (foreign : ∀ e ∈ events, Foreign e)
    (s : Reading) (outside : s.curTm = none) :
    parseLoop (events ++ rest) s = parseLoop rest s := by
  induction events with
  | nil => rfl
  | cons e events ih =>
    have here := foreign e List.mem_cons_self
    have later := ih fun e' member => foreign e' (List.mem_cons_of_mem e member)
    rw [List.cons_append]
    cases e with
    | start tag =>
      have unknown : elementOf tag.name = none := here
      rw [parseLoop, Reading.opened, unknown]
      exact later
    | empty tag =>
      have unknown : elementOf tag.name = none := here
      rw [parseLoop, Reading.opened, unknown]
      exact later
    | text t =>
      rw [parseLoop, Reading.texted, outside]
      exact later
    | close name =>
      have unknown : elementOf name = none := here
      rw [parseLoop, unknown]
      exact later
    | other => exact later

/-- A text match goes to the property filter that is open. -/
theorem parseLoop_text {t : TextElement} (plain : t.Plain) (pf : PropFilter) :
    parseLoop (t.events ++ rest) ⟨found, f, some pf, none, []⟩ =
      parseLoop rest ⟨found, f, some (pf.push (textMatchOf t.tag t.text)), none, []⟩ := by
  obtain ⟨tag, content, named⟩ := t
  rcases plain with rfl | rfl | ⟨s, rfl⟩
  · show parseLoop rest (Reading.opened _ tag true) = _
    rw [Reading.opened, named]
    rfl
  · show parseLoop (.close tag.name :: rest) (Reading.opened _ tag false) = _
    rw [Reading.opened, named, parseLoop, named]
    rfl
  · have events : TextElement.events ⟨tag, some [.text s], named⟩ ++ rest =
        .start tag :: (Piece.events (.text s) ++ .close tag.name :: rest) := by
      simp [TextElement.events]
    have text : TextElement.text ⟨tag, some [.text s], named⟩ = trim (readerTrim s) := by
      rw [trim_readerTrim, TextElement.text]
      simp [Piece.meaning]
    rw [events, text, parseLoop, Reading.opened, named]
    by_cases blank : readerTrim s = []
    · rw [Piece.events, if_pos blank, blank, List.nil_append, parseLoop, named]
      rfl
    · rw [Piece.events, if_neg blank, List.cons_append, List.nil_append, parseLoop, parseLoop,
        named]
      rfl

theorem parseLoop_conditions {cs : List Condition} (plain : ∀ c ∈ cs, c.Plain) (pf : PropFilter) :
    parseLoop (cs.flatMap Condition.events ++ rest) ⟨found, f, some pf, none, []⟩ =
      parseLoop rest ⟨found, f, some { pf with
        textMatches := pf.textMatches ++ cs.filterMap Condition.declared }, none, []⟩ := by
  induction cs generalizing pf with
  | nil => simp
  | cons c cs ih =>
    have here := plain c List.mem_cons_self
    have later := ih fun c' member => plain c' (List.mem_cons_of_mem c member)
    rw [List.flatMap_cons, List.append_assoc]
    cases c with
    | text t =>
      rw [Condition.events, parseLoop_text here, later]
      simp [PropFilter.push, Condition.declared]
    | param p => exact here.elim
    | comment =>
      rw [List.filterMap_cons_none rfl]
      exact later pf

theorem parseLoop_absent (a : AbsentElement) (pf : PropFilter) :
    parseLoop (a.events ++ rest) ⟨found, f, some pf, none, []⟩ =
      parseLoop rest ⟨found, f, some { pf with isNotDefined := true }, none, []⟩ := by
  obtain ⟨tag, empty, named⟩ := a
  cases empty with
  | true =>
    show parseLoop rest (Reading.opened _ tag true) = _
    rw [Reading.opened, named]
    rfl
  | false =>
    show parseLoop (.close tag.name :: rest) (Reading.opened _ tag false) = _
    rw [Reading.opened, named, parseLoop, named]
    rfl

/-- A property filter is added to the filter with all its tests. -/
theorem parseLoop_prop {e : PropElement} (plain : e.Plain) :
    parseLoop (e.events ++ rest) ⟨found, f, none, none, []⟩ =
      parseLoop rest ⟨found, f.push e.declared, none, none, []⟩ := by
  obtain ⟨tag, test, named⟩ := e
  cases test with
  | defined =>
    show parseLoop rest (Reading.opened _ tag true) = _
    rw [Reading.opened, named]
    rfl
  | absent a =>
    have events : PropElement.events ⟨tag, .absent a, named⟩ ++ rest =
        .start tag :: (a.events ++ .close tag.name :: rest) := by
      simp [PropElement.events]
    rw [events, parseLoop, Reading.opened, named]
    show parseLoop (a.events ++ _) ⟨found, f, some (propFilterOf tag), none, []⟩ = _
    rw [parseLoop_absent, parseLoop, named]
    rfl
  | conditions cs =>
    have events : PropElement.events ⟨tag, .conditions cs, named⟩ ++ rest =
        .start tag :: (cs.flatMap Condition.events ++ .close tag.name :: rest) := by
      simp [PropElement.events]
    rw [events, parseLoop, Reading.opened, named]
    show parseLoop (cs.flatMap Condition.events ++ _)
      ⟨found, f, some (propFilterOf tag), none, []⟩ = _
    rw [parseLoop_conditions plain, parseLoop, named]
    rfl

theorem parseLoop_children {children : List (Option PropElement)}
    (plain : ∀ e ∈ children.reduceOption, e.Plain) :
    parseLoop (children.flatMap childEvents ++ rest) ⟨found, f, none, none, []⟩ =
      parseLoop rest ⟨found, { f with
        props := f.props ++ children.reduceOption.map PropElement.declared }, none, none, []⟩ := by
  induction children generalizing f with
  | nil => simp
  | cons child children ih =>
    rw [List.flatMap_cons, List.append_assoc]
    cases child with
    | none =>
      rw [List.reduceOption_cons_of_none] at plain ⊢
      exact ih plain
    | some e =>
      rw [List.reduceOption_cons_of_some] at plain ⊢
      rw [childEvents, parseLoop_prop (plain e List.mem_cons_self),
        ih fun e' member => plain e' (List.mem_cons_of_mem e member)]
      simp [Filter.push]

end Parsing

/-- The filter of a query, with everything that its elements say. -/
theorem parse_query {q : Query} (plain : q.Plain) : parse q.events = some q.filter.declared := by
  obtain ⟨before, ⟨tag, children, named⟩, after, foreign⟩ := q
  have front := fun e member => foreign e (List.mem_append_left after member)
  have back := fun e member => foreign e (List.mem_append_right before member)
  have final : parseLoop (Query.events ⟨before, ⟨tag, children, named⟩, after, foreign⟩) {} =
      ⟨true, FilterElement.declared ⟨tag, children, named⟩, none, none, []⟩ := by
    rw [Query.events, parseLoop_foreign front _ rfl]
    cases children with
    | none =>
      show parseLoop after (Reading.opened _ tag true) = _
      rw [Reading.opened, named]
      have rest := @parseLoop_foreign [] after back
        ⟨true, FilterElement.declared ⟨tag, none, named⟩, none, none, []⟩ rfl
      rwa [List.append_nil] at rest
    | some children =>
      have events : FilterElement.events ⟨tag, some children, named⟩ ++ after =
          .start tag :: (children.flatMap childEvents ++ .close tag.name :: after) := by
        simp [FilterElement.events]
      rw [events, parseLoop, Reading.opened, named]
      show parseLoop (children.flatMap childEvents ++ _)
        ⟨true, { op := parseTestAttr tag .anyOf, props := [] }, none, none, []⟩ = _
      have rest := @parseLoop_children true { op := parseTestAttr tag .anyOf }
        (.close tag.name :: after) children plain
      rw [rest, parseLoop, named]
      rfl
  rw [parse, final]
  rfl

/-! ### Evaluation -/

/-- The properties as the matcher sees them: every line by itself, with the first colon. -/
def lineProperty (line : Str) : Option Property :=
  (splitOnce ':' line).map fun (head, value) => ⟨trim (bareName head), [], value⟩

def lineProperties (vcard : Str) : List Property := (lines vcard).filterMap lineProperty

/-- The values that the matcher finds are those of these properties. -/
def Shows (vcard : Str) (props : List Property) : Prop :=
  ∀ name v, v ∈ vcardValues vcard name ↔ ∃ p ∈ props, SameName p.name name ∧ p.value = v

theorem combine_iff {α : Type} (op : Op) (l : List α) (f : α → Bool) :
    combine op (l.map f) = true ↔ op.Of l (f · = true) := by
  cases op with
  | allOf => simp [combine, Op.Of]
  | anyOf => simp [combine, Op.Of]

theorem Op.of_congr {α β : Type} (op : Op) {l : List α} {g : α → β} {p : β → Prop} :
    op.Of (l.map g) p ↔ op.Of l (fun a => p (g a)) := by
  cases op with
  | allOf => simp [Op.Of]
  | anyOf => simp [Op.Of]

theorem Op.of_iff {α : Type} (op : Op) {l : List α} {p q : α → Prop}
    (same : ∀ a ∈ l, (p a ↔ q a)) : op.Of l p ↔ op.Of l q := by
  cases op with
  | allOf => exact forall₂_congr same
  | anyOf => exact exists_congr fun a => and_congr_right (same a)

theorem MatchType.hit_iff (kind : MatchType) (text v : Str) :
    kind.hit (toAsciiLowercase v) (toAsciiLowercase text) = true ↔
      kind.Of toAsciiLowercase text v := by
  cases kind with
  | contains => simp [MatchType.hit, MatchType.Of]
  | startsWith => simp [MatchType.hit, MatchType.Of]
  | endsWith => simp [MatchType.hit, MatchType.Of]
  | equals => simp [MatchType.hit, MatchType.Of, eq_comm]

theorem tmMatch_iff (t : TextElement) (v : Str) :
    tmMatch v (textMatchOf t.tag t.text) = true ↔ t.Holds toAsciiLowercase v := by
  unfold tmMatch textMatchOf TextElement.Holds
  rw [← MatchType.hit_iff]
  cases parseNegate t.tag <;> simp

/-- The tests of a plain property filter are its text matches. -/
theorem tests_plain {cs : List Condition} (plain : ∀ c ∈ cs, c.Plain) :
    ∃ texts : List TextElement, cs.filterMap Condition.test = texts.map .text ∧
      cs.filterMap Condition.declared = texts.map fun t => textMatchOf t.tag t.text := by
  induction cs with
  | nil => exact ⟨[], rfl, rfl⟩
  | cons c cs ih =>
    obtain ⟨texts, tests, declared⟩ := ih fun c' member => plain c' (List.mem_cons_of_mem c member)
    have here := plain c List.mem_cons_self
    cases c with
    | text t =>
      refine ⟨t :: texts, ?_, ?_⟩
      · rw [List.filterMap_cons, tests]
        rfl
      · rw [List.filterMap_cons, declared]
        rfl
    | param p => exact here.elim
    | comment =>
      refine ⟨texts, ?_, ?_⟩
      · rw [List.filterMap_cons_none rfl, tests]
      · rw [List.filterMap_cons_none rfl, declared]

theorem shows_nil_iff {vcard : Str} {props : List Property} (shows : Shows vcard props)
    (name : Str) : vcardValues vcard name = [] ↔ ∀ p ∈ props, ¬SameName p.name name := by
  constructor
  · intro empty p member same
    have inside := (shows name p.value).mpr ⟨p, member, same, rfl⟩
    rw [empty] at inside
    exact List.not_mem_nil inside
  · intro missing
    rw [List.eq_nil_iff_forall_not_mem]
    intro v inside
    obtain ⟨p, member, same, -⟩ := (shows name v).mp inside
    exact missing p member same

theorem matchesProp_values {pf : PropFilter} (wanted : pf.isNotDefined = false) (vcard : Str) :
    matchesProp vcard pf = true ↔ ∃ v ∈ vcardValues vcard pf.name,
      pf.textMatches = [] ∨ combine pf.op (pf.textMatches.map (tmMatch v)) = true := by
  dsimp only [matchesProp]
  rw [wanted, if_neg Bool.false_ne_true]
  generalize vcardValues vcard pf.name = vals
  cases vals with
  | nil => simp
  | cons v vals =>
    rw [List.isEmpty_cons, if_neg Bool.false_ne_true]
    cases tests : pf.textMatches with
    | nil => simp
    | cons tm more => simp

theorem matchesProp_iff {vcard : Str} {props : List Property} (shows : Shows vcard props)
    {e : PropElement} (plain : e.Plain) :
    matchesProp vcard e.declared = true ↔ e.Holds toAsciiLowercase props := by
  obtain ⟨tag, test, named⟩ := e
  cases test with
  | defined =>
    rw [matchesProp_values rfl]
    show (∃ v ∈ vcardValues vcard (nameOf tag), [] = [] ∨ _) ↔
      ∃ p ∈ props, SameName p.name (nameOf tag)
    constructor
    · rintro ⟨v, member, -⟩
      obtain ⟨p, inside, same, -⟩ := (shows (nameOf tag) v).mp member
      exact ⟨p, inside, same⟩
    · rintro ⟨p, inside, same⟩
      exact ⟨p.value, (shows (nameOf tag) p.value).mpr ⟨p, inside, same, rfl⟩, .inl rfl⟩
  | absent a =>
    show (vcardValues vcard (nameOf tag)).isEmpty = true ↔ ∀ p ∈ props, _
    rw [List.isEmpty_iff, shows_nil_iff shows]
  | conditions cs =>
    obtain ⟨texts, tests, declared⟩ := tests_plain plain
    have combined (p : Property) :
        (texts.map (fun t => textMatchOf t.tag t.text) = [] ∨
          combine (parseTestAttr tag .anyOf)
            ((texts.map fun t => textMatchOf t.tag t.text).map (tmMatch p.value)) = true) ↔
        (texts.map Test.text = [] ∨
          (parseTestAttr tag .anyOf).Of (texts.map Test.text) (Test.Holds toAsciiLowercase p)) := by
      rw [List.map_eq_nil_iff, List.map_eq_nil_iff, combine_iff, Op.of_congr, Op.of_congr]
      exact or_congr_right (Op.of_iff _ fun t _ => tmMatch_iff t p.value)
    rw [matchesProp_values rfl]
    show (∃ v ∈ vcardValues vcard (nameOf tag), cs.filterMap Condition.declared = [] ∨
        combine (parseTestAttr tag .anyOf)
          ((cs.filterMap Condition.declared).map (tmMatch v)) = true) ↔
      ∃ p ∈ props, SameName p.name (nameOf tag) ∧ (cs.filterMap Condition.test = [] ∨
        (parseTestAttr tag .anyOf).Of (cs.filterMap Condition.test)
          (Test.Holds toAsciiLowercase p))
    rw [tests, declared]
    constructor
    · rintro ⟨v, member, pass⟩
      obtain ⟨p, inside, same, rfl⟩ := (shows (nameOf tag) v).mp member
      exact ⟨p, inside, same, (combined p).mp pass⟩
    · rintro ⟨p, inside, same, pass⟩
      exact ⟨p.value, (shows (nameOf tag) p.value).mpr ⟨p, inside, same, rfl⟩,
        (combined p).mpr pass⟩

theorem matchesCard_iff {vcard : Str} {props : List Property} (shows : Shows vcard props)
    {q : Query} (plain : q.Plain) :
    matchesCard vcard q.filter.declared = true ↔ q.filter.Holds toAsciiLowercase props := by
  show combine _ ((q.filter.props.map PropElement.declared).map (matchesProp vcard)) = true ↔ _
  rw [combine_iff, Op.of_congr]
  exact Op.of_iff _ fun e member => matchesProp_iff shows (plain e member)

/-! ### The properties that the matcher sees -/

theorem mem_vcardValues {vcard name v : Str} :
    v ∈ vcardValues vcard name ↔ ∃ line ∈ lines vcard, ∃ head,
      splitOnce ':' line = some (head, v) ∧ SameName (trim (bareName head)) name := by
  unfold vcardValues
  rw [List.mem_filterMap]
  refine exists_congr fun line => and_congr_right fun _ => ?_
  cases splitOnce ':' line with
  | none => simp
  | some sides =>
    obtain ⟨head, value⟩ := sides
    dsimp only
    rw [Option.ite_none_right_eq_some]
    constructor
    · rintro ⟨same, equal⟩
      cases equal
      exact ⟨head, rfl, same⟩
    · rintro ⟨head', equal, same⟩
      cases equal
      exact ⟨same, rfl⟩

theorem shows_lines (vcard : Str) : Shows vcard (lineProperties vcard) := by
  intro name v
  rw [mem_vcardValues]
  constructor
  · rintro ⟨line, member, head, cut, same⟩
    refine ⟨⟨trim (bareName head), [], v⟩, List.mem_filterMap.mpr ⟨line, member, ?_⟩, same, rfl⟩
    rw [lineProperty, cut]
    rfl
  · rintro ⟨p, member, same, rfl⟩
    obtain ⟨line, inside, found⟩ := List.mem_filterMap.mp member
    obtain ⟨⟨head, value⟩, cut, rfl⟩ := Option.map_eq_some_iff.mp found
    exact ⟨line, inside, head, cut, same⟩

/-- A line of its own, without a group and without quotes before its value. -/
structure Flat (line : Str) : Prop where
  own : continues line = false
  simple : ∀ head value, splitOnce ':' line = some (head, value) →
    '"' ∉ head ∧ '.' ∉ bareName head

theorem unfolded_flat {content : List Str} (flat : ∀ line ∈ content, continues line = false) :
    unfolded content = content := by
  have all (out : List Str) : content.foldl (fun out line =>
      if continues line then out.dropLast ++ [out.getLast?.getD [] ++ line.tail]
      else out ++ [line]) out = out ++ content := by
    induction content generalizing out with
    | nil => simp
    | cons line content ih =>
      rw [List.foldl_cons, flat line List.mem_cons_self, if_neg Bool.false_ne_true,
        ih fun l member => flat l (List.mem_cons_of_mem line member), List.append_assoc]
      rfl
  exact all []

theorem cutOutside_missing {line : Str} (missing : ':' ∉ line) (quoted : Bool) :
    cutOutside ':' quoted line = none := by
  induction line generalizing quoted with
  | nil => rfl
  | cons c rest ih =>
    obtain ⟨other, later⟩ := not_or.mp (List.mem_cons.not.mp missing)
    rw [cutOutside, if_neg fun both => other both.1.symm, ih later]
    rfl

theorem cutOutside_eq {line : Str}
    (unquoted : ∀ head value, splitOnce ':' line = some (head, value) → '"' ∉ head) :
    cutOutside ':' false line = splitOnce ':' line := by
  induction line with
  | nil => rfl
  | cons c rest ih =>
    rw [cutOutside, splitOnce]
    by_cases colon : c = ':'
    · rw [if_pos ⟨colon, rfl⟩, if_pos colon]
    · rw [if_neg fun both => colon both.1, if_neg colon]
      cases cut : splitOnce ':' rest with
      | none => rw [cutOutside_missing (splitOnce_none cut)]
      | some sides =>
        obtain ⟨head, value⟩ := sides
        have whole : splitOnce ':' (c :: rest) = some (c :: head, value) := by
          rw [splitOnce, if_neg colon, cut]
          rfl
        obtain ⟨other, -⟩ := not_or.mp (List.mem_cons.not.mp (unquoted _ _ whole))
        have here : (false != decide (c = '"')) = false := by simp [Ne.symm other]
        rw [here, ih, cut]
        intro head' value' cut'
        rw [cut] at cut'
        cases cut'
        exact fun inside => unquoted _ _ whole (List.mem_cons_of_mem c inside)

theorem propertyOfLine_flat {line : Str} (flat : Flat line) :
    (propertyOfLine line).map (fun p => (p.name, p.value)) =
      (lineProperty line).map fun p => (p.name, p.value) := by
  unfold propertyOfLine lineProperty
  rw [cutOutside_eq fun head value cut => (flat.simple head value cut).1]
  cases cut : splitOnce ':' line with
  | none => rfl
  | some sides =>
    obtain ⟨head, value⟩ := sides
    have ungrouped := (flat.simple head value cut).2
    simp [split_of_not_mem ungrouped]

/-- Where the lines are flat, the matcher sees the properties of the card. -/
theorem shows_properties {vcard : Str} (flat : ∀ line ∈ lines vcard, Flat line) :
    Shows vcard (properties vcard) := by
  intro name v
  rw [shows_lines vcard name v]
  have same : (properties vcard).map (fun p => (p.name, p.value)) =
      (lineProperties vcard).map fun p => (p.name, p.value) := by
    unfold properties lineProperties
    rw [unfolded_flat fun line member => (flat line member).own, List.map_filterMap,
      List.map_filterMap]
    exact List.filterMap_congr fun line member => propertyOfLine_flat (flat line member)
  have through (props : List Property) : (∃ p ∈ props, SameName p.name name ∧ p.value = v) ↔
      ∃ pair ∈ props.map fun p => (p.name, p.value), SameName pair.1 name ∧ pair.2 = v := by
    simp
  rw [through, through, same]

/-- For a query of plain filters the cards that come through are the ones that the filter holds
of, by their lines, and by their properties where every line is flat. -/
theorem addressbookQuery_exact {q : Query} (plain : q.Plain) (vcard : Str) :
    ∃ f, parse q.events = some f ∧
      (matchesCard vcard f = true ↔ q.filter.Holds toAsciiLowercase (lineProperties vcard)) ∧
      ((∀ line ∈ lines vcard, Flat line) →
        (matchesCard vcard f = true ↔ q.filter.Holds toAsciiLowercase (properties vcard))) :=
  ⟨q.filter.declared, parse_query plain, matchesCard_iff (shows_lines vcard) plain,
    fun flat => matchesCard_iff (shows_properties flat) plain⟩

/-- A text match for one kind of match. -/
def matchOf (kind : String) (content : List Piece) : TextElement :=
  ⟨⟨"C:text-match".toList, [("match-type".toList, some kind.toList)]⟩, some content,
    show elementOf "C:text-match".toList = some .textMatch by decide⟩

theorem propFilter_named : elementOf "C:prop-filter".toList = some .propFilter := by decide

/-- The query with one property filter. -/
def queryOf (name : String) (cs : List Condition) : Query where
  before := []
  filter := ⟨⟨"C:filter".toList, []⟩, some [some ⟨⟨"C:prop-filter".toList,
    [("name".toList, some name.toList)]⟩, .conditions cs, propFilter_named⟩], by decide⟩
  after := []
  foreign := fun _ member => (nomatch member)

theorem name_query_exact :
    ∃ f, parse (queryOf "FN" [.text (matchOf "contains" [.text "doe".toList])]).events = some f ∧
      (matchesCard "FN:John Doe\r\n".toList f = true ↔
        (queryOf "FN" [.text (matchOf "contains" [.text "doe".toList])]).filter.Holds
          toAsciiLowercase (lineProperties "FN:John Doe\r\n".toList)) ∧
      ((∀ line ∈ lines "FN:John Doe\r\n".toList, Flat line) →
        (matchesCard "FN:John Doe\r\n".toList f = true ↔
          (queryOf "FN" [.text (matchOf "contains" [.text "doe".toList])]).filter.Holds
            toAsciiLowercase (properties "FN:John Doe\r\n".toList))) := by
  apply addressbookQuery_exact
  intro e member
  have same : e = ⟨⟨"C:prop-filter".toList, [("name".toList, some "FN".toList)]⟩,
      .conditions [.text (matchOf "contains" [.text "doe".toList])], propFilter_named⟩ :=
    List.mem_singleton.mp member
  subst same
  intro c inside
  rw [List.mem_singleton.mp inside]
  exact .inr (.inr ⟨_, rfl⟩)

def passes (q : Query) (vcard : String) : Option Bool :=
  (parse q.events).map (matchesCard vcard.toList)

/-- A case mapping beyond ASCII. -/
def casemapAccents (s : Str) : Str := (toAsciiLowercase s).map fun c => if c = 'É' then 'é' else c

/-- Cards that a filter holds of and that do not come through: a folded value, a grouped property, a
quoted colon, a parameter filter, a reference in the text, and a letter outside ASCII. -/
theorem filter_misses_cards :
    (let q := queryOf "FN" [.text (matchOf "contains" [.text "John Doe".toList])]
     passes q "FN:John\r\n  Doe\r\n" = some false ∧
       q.filter.Holds toAsciiLowercase (properties "FN:John\r\n  Doe\r\n".toList)) ∧
    (let q := queryOf "EMAIL" [.text (matchOf "equals" [.text "a@b".toList])]
     passes q "item1.EMAIL:a@b\r\n" = some false ∧
       q.filter.Holds toAsciiLowercase (properties "item1.EMAIL:a@b\r\n".toList)) ∧
    (let q := queryOf "TEL" [.text (matchOf "equals" [.text "5".toList])]
     passes q "TEL;X=\"a:b\":5\r\n" = some false ∧
       q.filter.Holds toAsciiLowercase (properties "TEL;X=\"a:b\":5\r\n".toList)) ∧
    (let q := queryOf "TEL" [.param ⟨⟨"C:param-filter".toList,
        [("name".toList, some "TYPE".toList)]⟩,
        .matching (matchOf "equals" [.text "home".toList]), by decide⟩]
     passes q "TEL;TYPE=HOME:5\r\n" = some false ∧
       q.filter.Holds toAsciiLowercase (properties "TEL;TYPE=HOME:5\r\n".toList)) ∧
    (let q := queryOf "ORG" [.text (matchOf "equals"
        [.text "R".toList, .reference "&".toList, .text "D".toList])]
     passes q "ORG:R&D\r\n" = some false ∧
       q.filter.Holds toAsciiLowercase (properties "ORG:R&D\r\n".toList)) ∧
    (let q := queryOf "FN" [.text (matchOf "equals" [.text "é".toList])]
     passes q "FN:É\r\n" = some false ∧
       q.filter.Holds casemapAccents (properties "FN:É\r\n".toList)) := by
  decide

end Expresso.Contacts.CardDav
