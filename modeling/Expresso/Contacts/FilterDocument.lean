import Expresso.Contacts.Filter
import Expresso.Text.Split
import Expresso.Text.Trim

/-! What an address book query asks for: filter documents, the properties of a card, and the cards
that a filter holds of. -/

namespace Expresso.Contacts.CardDav
open Text
open Imap (lines)

/-! ### Properties of a card -/

structure Property where
  name : Str
  params : List (Str × List Str)
  value : Str
  deriving DecidableEq

/-- The two sides of the first separator outside quotes. -/
def cutOutside (separator : Char) : Bool → Str → Option (Str × Str)
  | _, [] => none
  | quoted, c :: rest =>
      if c = separator ∧ quoted = false then some ([], rest)
      else (cutOutside separator (quoted != (c = '"')) rest).map
        fun sides => (c :: sides.1, sides.2)

/-- The pieces between the separators outside quotes. -/
def piecesOutside (separator : Char) : Bool → Str → List Str
  | _, [] => [[]]
  | quoted, c :: rest =>
      if c = separator ∧ quoted = false then [] :: piecesOutside separator quoted rest
      else match piecesOutside separator (quoted != (c = '"')) rest with
        | first :: more => (c :: first) :: more
        | [] => [[c]]

/-- The name before the parameters. -/
def bareName (head : Str) : Str := (split ';' head).headD head

/-- A parameter with its values, without quotes. -/
def paramOf (piece : Str) : Str × List Str :=
  match splitOnce '=' piece with
  | some (name, values) => (name, (piecesOutside ',' false values).map (·.filter (· ≠ '"')))
  | none => (piece, [])

/-- The property of a content line, its group left out. -/
def propertyOfLine (line : Str) : Option Property :=
  (cutOutside ':' false line).map fun (head, value) =>
    { name := trim (((split '.' (bareName head)).getLast?).getD [])
      params := ((piecesOutside ';' false head).drop 1).map paramOf
      value }

/-- A line that begins with a blank goes on from the line before it. -/
def unfolded (content : List Str) : List Str :=
  content.foldl (fun out line =>
    if continues line then out.dropLast ++ [out.getLast?.getD [] ++ line.tail]
    else out ++ [line]) []

def properties (vcard : Str) : List Property := (unfolded (lines vcard)).filterMap propertyOfLine

/-! ### Filter documents -/

/-- A part of an element's text. -/
inductive Piece where
  | text (s : Str)
  | reference (s : Str)
  | cdata (s : Str)
  | comment
  deriving DecidableEq

def Piece.meaning : Piece → Str
  | text s | reference s | cdata s => s
  | comment => []

def isXmlSpace (c : Char) : Bool := c = ' ' || c = '\t' || c = '\r' || c = '\n'

/-- A text as the reader passes it on, without the blanks around it. -/
def readerTrim (s : Str) : Str := ((s.dropWhile isXmlSpace).reverse.dropWhile isXmlSpace).reverse

def Piece.events : Piece → List Event
  | text s => if readerTrim s = [] then [] else [.text (readerTrim s)]
  | _ => [.other]

/-- A text match; it has no content where it is written as an empty element. -/
structure TextElement where
  tag : Tag
  content : Option (List Piece)
  named : elementOf tag.name = some .textMatch

/-- The text, without the blanks around it. -/
def TextElement.text (t : TextElement) : Str :=
  trim ((t.content.getD []).flatMap Piece.meaning)

def TextElement.events (t : TextElement) : List Event :=
  match t.content with
  | none => [.empty t.tag]
  | some pieces => .start t.tag :: (pieces.flatMap Piece.events ++ [.close t.tag.name])

/-- `is-not-defined`, as an empty element or with an end tag. -/
structure AbsentElement where
  tag : Tag
  empty : Bool
  named : elementOf tag.name = some .isNotDefined

def AbsentElement.events (a : AbsentElement) : List Event :=
  if a.empty then [.empty a.tag] else [.start a.tag, .close a.tag.name]

inductive ParamTest where
  | defined
  | absent (a : AbsentElement)
  | matching (t : TextElement)

structure ParamElement where
  tag : Tag
  test : ParamTest
  named : localName tag.name = "param-filter".toList

def ParamElement.events (p : ParamElement) : List Event :=
  match p.test with
  | .defined => [.empty p.tag]
  | .absent a => .start p.tag :: (a.events ++ [.close p.tag.name])
  | .matching t => .start p.tag :: (t.events ++ [.close p.tag.name])

/-- The children of a property filter; a comment may stand anywhere. -/
inductive Condition where
  | text (t : TextElement)
  | param (p : ParamElement)
  | comment

def Condition.events : Condition → List Event
  | text t => t.events
  | param p => p.events
  | comment => [.other]

inductive PropTest where
  | defined
  | absent (a : AbsentElement)
  | conditions (cs : List Condition)

structure PropElement where
  tag : Tag
  test : PropTest
  named : elementOf tag.name = some .propFilter

def PropElement.events (p : PropElement) : List Event :=
  match p.test with
  | .defined => [.empty p.tag]
  | .absent a => .start p.tag :: (a.events ++ [.close p.tag.name])
  | .conditions cs => .start p.tag :: (cs.flatMap Condition.events ++ [.close p.tag.name])

/-- The filter with its property filters, `none` for a comment between them; it has no children
where it is written as an empty element. -/
structure FilterElement where
  tag : Tag
  children : Option (List (Option PropElement))
  named : elementOf tag.name = some .filter

def childEvents : Option PropElement → List Event
  | some p => p.events
  | none => [.other]

def FilterElement.events (f : FilterElement) : List Event :=
  match f.children with
  | none => [.empty f.tag]
  | some children => .start f.tag :: (children.flatMap childEvents ++ [.close f.tag.name])

def FilterElement.props (f : FilterElement) : List PropElement := (f.children.getD []).reduceOption

/-- An event that has no part in a filter. -/
def Foreign : Event → Prop
  | .start tag | .empty tag => elementOf tag.name = none
  | .close name => elementOf name = none
  | .text _ | .other => True

/-- The body of a query with one filter in it. -/
structure Query where
  before : List Event
  filter : FilterElement
  after : List Event
  foreign : ∀ e ∈ before ++ after, Foreign e

def Query.events (q : Query) : List Event := q.before ++ (q.filter.events ++ q.after)

/-! ### What a filter asks for -/

/-- All of them, or any of them. -/
def Op.Of {α : Type} (op : Op) (l : List α) (p : α → Prop) : Prop :=
  match op with
  | allOf => ∀ a ∈ l, p a
  | anyOf => ∃ a ∈ l, p a

section Meaning

variable (casemap : Str → Str)

def MatchType.Of (kind : MatchType) (text value : Str) : Prop :=
  match kind with
  | contains => casemap text <:+: casemap value
  | startsWith => casemap text <+: casemap value
  | endsWith => casemap text <:+ casemap value
  | equals => casemap text = casemap value

def TextElement.Holds (t : TextElement) (value : Str) : Prop :=
  ((parseMatchType t.tag).Of casemap t.text value) ↔ parseNegate t.tag = false

def SameName (a b : Str) : Prop := toAsciiUppercase a = toAsciiUppercase b

def nameOf (tag : Tag) : Str := (attr tag "name".toList).getD []

def ParamElement.Holds (e : ParamElement) (p : Property) : Prop :=
  match e.test with
  | .defined => ∃ q ∈ p.params, SameName q.1 (nameOf e.tag)
  | .absent _ => ∀ q ∈ p.params, ¬SameName q.1 (nameOf e.tag)
  | .matching t => ∃ q ∈ p.params, SameName q.1 (nameOf e.tag) ∧ ∃ v ∈ q.2, t.Holds casemap v

/-- The tests of a property filter, comments left out. -/
inductive Test where
  | text (t : TextElement)
  | param (p : ParamElement)

def Condition.test : Condition → Option Test
  | text t => some (.text t)
  | param p => some (.param p)
  | comment => none

def Test.Holds (p : Property) : Test → Prop
  | text t => t.Holds casemap p.value
  | param e => e.Holds casemap p

/-- Some property of this name meets the tests, or there is none of it. -/
def PropElement.Holds (e : PropElement) (props : List Property) : Prop :=
  match e.test with
  | .defined => ∃ p ∈ props, SameName p.name (nameOf e.tag)
  | .absent _ => ∀ p ∈ props, ¬SameName p.name (nameOf e.tag)
  | .conditions cs => ∃ p ∈ props, SameName p.name (nameOf e.tag) ∧
      (cs.filterMap Condition.test = [] ∨
        (parseTestAttr e.tag .anyOf).Of (cs.filterMap Condition.test) (Test.Holds casemap p))

def FilterElement.Holds (f : FilterElement) (props : List Property) : Prop :=
  (parseTestAttr f.tag .anyOf).Of f.props fun e => e.Holds casemap props

end Meaning

section Decisions

variable (casemap : Str → Str)

instance {α : Type} (op : Op) (l : List α) (p : α → Prop) [DecidablePred p] :
    Decidable (op.Of l p) :=
  match op with
  | .allOf => inferInstanceAs (Decidable (∀ a ∈ l, p a))
  | .anyOf => inferInstanceAs (Decidable (∃ a ∈ l, p a))

instance (kind : MatchType) (text value : Str) : Decidable (kind.Of casemap text value) :=
  match kind with
  | .contains => inferInstanceAs (Decidable (casemap text <:+: casemap value))
  | .startsWith => inferInstanceAs (Decidable (casemap text <+: casemap value))
  | .endsWith => inferInstanceAs (Decidable (casemap text <:+ casemap value))
  | .equals => inferInstanceAs (Decidable (casemap text = casemap value))

instance (t : TextElement) (value : Str) : Decidable (t.Holds casemap value) :=
  inferInstanceAs (Decidable (_ ↔ _))

instance (a b : Str) : Decidable (SameName a b) :=
  inferInstanceAs (Decidable (toAsciiUppercase a = toAsciiUppercase b))

instance (e : ParamElement) (p : Property) : Decidable (e.Holds casemap p) :=
  match e with
  | ⟨tag, .defined, _⟩ =>
      inferInstanceAs (Decidable (∃ q ∈ p.params, SameName q.1 (nameOf tag)))
  | ⟨tag, .absent _, _⟩ =>
      inferInstanceAs (Decidable (∀ q ∈ p.params, ¬SameName q.1 (nameOf tag)))
  | ⟨tag, .matching t, _⟩ =>
      inferInstanceAs (Decidable (∃ q ∈ p.params, SameName q.1 (nameOf tag) ∧
        ∃ v ∈ q.2, t.Holds casemap v))

instance (p : Property) : DecidablePred (Test.Holds casemap p)
  | .text t => inferInstanceAs (Decidable (t.Holds casemap p.value))
  | .param e => inferInstanceAs (Decidable (e.Holds casemap p))

instance (e : PropElement) (props : List Property) : Decidable (e.Holds casemap props) :=
  match e with
  | ⟨tag, .defined, _⟩ => inferInstanceAs (Decidable (∃ p ∈ props, SameName p.name (nameOf tag)))
  | ⟨tag, .absent _, _⟩ => inferInstanceAs (Decidable (∀ p ∈ props, ¬SameName p.name (nameOf tag)))
  | ⟨tag, .conditions cs, _⟩ =>
      have : Decidable (cs.filterMap Condition.test = []) :=
        decidable_of_iff _ List.isEmpty_iff
      inferInstanceAs (Decidable (∃ p ∈ props, SameName p.name (nameOf tag) ∧
        (cs.filterMap Condition.test = [] ∨
          (parseTestAttr tag .anyOf).Of (cs.filterMap Condition.test) (Test.Holds casemap p))))

instance (f : FilterElement) (props : List Property) : Decidable (f.Holds casemap props) :=
  inferInstanceAs (Decidable ((parseTestAttr f.tag .anyOf).Of f.props _))

end Decisions

end Expresso.Contacts.CardDav
