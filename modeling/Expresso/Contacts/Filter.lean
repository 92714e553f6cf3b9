import Expresso.Contacts.VCard
import Mathlib.Data.List.Infix

/-! The filter of an address book query: its elements as the events of the document tell them, and
the cards that it lets through. -/

namespace Expresso.Contacts.CardDav
open Text
open Imap (lines)

inductive Op where
  | allOf
  | anyOf
  deriving DecidableEq

inductive MatchType where
  | contains
  | startsWith
  | endsWith
  | equals
  deriving DecidableEq

structure TextMatch where
  value : Str
  matchType : MatchType
  negate : Bool
  deriving DecidableEq

structure PropFilter where
  name : Str := []
  op : Op := .anyOf
  isNotDefined : Bool := false
  textMatches : List TextMatch := []
  deriving DecidableEq

structure Filter where
  op : Op := .anyOf
  props : List PropFilter := []
  deriving DecidableEq

/-! ### Events of a document -/

/-- A tag with its attributes; the value is missing where it cannot be unescaped. -/
structure Tag where
  name : Str
  attributes : List (Str × Option Str) := []
  deriving DecidableEq

/-- What the XML reader tells one after the other. `other` stands for comments, CDATA sections,
entity references and the like, all of which the parser skips. -/
inductive Event where
  | start (tag : Tag)
  | empty (tag : Tag)
  | text (s : Str)
  | close (name : Str)
  | other
  deriving DecidableEq

/-- A name without its namespace prefix. -/
def unprefixed (raw : Str) : Str := ((split ':' raw).getLast?).getD raw

def localName (raw : Str) : Str := toAsciiLowercase (unprefixed raw)

/-- The value of the first attribute of this name. -/
def attr (tag : Tag) (key : Str) : Option Str :=
  tag.attributes.findSome? fun a => if unprefixed a.1 = key then a.2 else none

def parseTestAttr (tag : Tag) (default : Op) : Op :=
  let test := attr tag "test".toList
  if test = some "anyof".toList then .anyOf
  else if test = some "allof".toList then .allOf
  else default

def parseMatchType (tag : Tag) : MatchType :=
  let kind := attr tag "match-type".toList
  if kind = some "starts-with".toList then .startsWith
  else if kind = some "ends-with".toList then .endsWith
  else if kind = some "equals".toList then .equals
  else .contains

def parseNegate (tag : Tag) : Bool := attr tag "negate-condition".toList = some "yes".toList

/-! ### The parser -/

/-- The elements that the parser acts on. -/
inductive Element where
  | filter | propFilter | isNotDefined | textMatch
  deriving DecidableEq

def Element.name : Element → Str
  | filter => "filter".toList
  | propFilter => "prop-filter".toList
  | isNotDefined => "is-not-defined".toList
  | textMatch => "text-match".toList

def elementOf (raw : Str) : Option Element :=
  [.filter, .propFilter, .isNotDefined, .textMatch].find? fun e : Element => e.name = localName raw

structure Reading where
  found : Bool := false
  filter : Filter := {}
  curPf : Option PropFilter := none
  curTm : Option TextMatch := none
  tmText : Str := []
  deriving DecidableEq

def Filter.push (f : Filter) (pf : PropFilter) : Filter := { f with props := f.props ++ [pf] }

def PropFilter.push (pf : PropFilter) (tm : TextMatch) : PropFilter :=
  { pf with textMatches := pf.textMatches ++ [tm] }

def propFilterOf (tag : Tag) : PropFilter :=
  { name := (attr tag "name".toList).getD [], op := parseTestAttr tag .anyOf }

def textMatchOf (tag : Tag) (value : Str) : TextMatch :=
  ⟨value, parseMatchType tag, parseNegate tag⟩

namespace Reading

/-- The effect of a start tag, or of the tag of an empty element. -/
def opened (s : Reading) (tag : Tag) (isEmpty : Bool) : Reading :=
  match elementOf tag.name with
  | some .filter =>
      { s with found := true, filter := { s.filter with op := parseTestAttr tag .anyOf } }
  | some .propFilter =>
      if isEmpty then { s with filter := s.filter.push (propFilterOf tag) }
      else { s with curPf := some (propFilterOf tag) }
  | some .isNotDefined => { s with curPf := s.curPf.map fun pf => { pf with isNotDefined := true } }
  | some .textMatch =>
      if isEmpty then { s with curPf := s.curPf.map (·.push (textMatchOf tag [])) }
      else { s with curTm := some (textMatchOf tag []), tmText := [] }
  | none => s

/-- The text of a text match that is open. -/
def texted (s : Reading) (t : Str) : Reading :=
  if s.curTm.isSome then { s with tmText := s.tmText ++ t } else s

def closed (s : Reading) : Element → Reading
  | .textMatch =>
      { s with
        curTm := none
        curPf := match s.curTm with
          | some tm => s.curPf.map (·.push { tm with value := trim s.tmText })
          | none => s.curPf
        tmText := [] }
  | .propFilter =>
      match s.curPf with
      | some pf => { s with filter := s.filter.push pf, curPf := none }
      | none => s
  | _ => s

end Reading

/-- The events up to the end of the filter, of the document, or of what can be read of it. -/
def parseLoop : List Event → Reading → Reading
  | [], s => s
  | .start tag :: rest, s => parseLoop rest (s.opened tag false)
  | .empty tag :: rest, s => parseLoop rest (s.opened tag true)
  | .text t :: rest, s => parseLoop rest (s.texted t)
  | .close name :: rest, s =>
      match elementOf name with
      | some .filter => s
      | some e => parseLoop rest (s.closed e)
      | none => parseLoop rest s
  | .other :: rest, s => parseLoop rest s

example (s : Reading) : parseLoop [.other] s = s := by simp only [parseLoop]

def parse (events : List Event) : Option Filter :=
  let s := parseLoop events {}
  if s.found then some s.filter else none

/-! ### Cards -/

def combine (op : Op) (results : List Bool) : Bool :=
  match op with
  | .allOf => results.all id
  | .anyOf => results.any id

def MatchType.hit (kind : MatchType) (hay needle : Str) : Bool :=
  match kind with
  | contains => decide (needle <:+: hay)
  | startsWith => needle.isPrefixOf hay
  | endsWith => needle.isSuffixOf hay
  | equals => hay = needle

def tmMatch (value : Str) (tm : TextMatch) : Bool :=
  let hit := tm.matchType.hit (toAsciiLowercase value) (toAsciiLowercase tm.value)
  if tm.negate then !hit else hit

/-- The values of the property: what follows the first colon of its lines, each line as it
stands. -/
def vcardValues (vcard name : Str) : List Str :=
  (lines vcard).filterMap fun line =>
    match splitOnce ':' line with
    | none => none
    | some (head, value) =>
        let prop := toAsciiUppercase (trim ((split ';' head).headD head))
        if prop = toAsciiUppercase name then some value else none

def matchesProp (vcard : Str) (pf : PropFilter) : Bool :=
  let vals := vcardValues vcard pf.name
  if pf.isNotDefined then vals.isEmpty
  else if vals.isEmpty then false
  else if pf.textMatches.isEmpty then true
  else vals.any fun v => combine pf.op (pf.textMatches.map (tmMatch v))

def matchesCard (vcard : Str) (f : Filter) : Bool :=
  combine f.op (f.props.map (matchesProp vcard))

end Expresso.Contacts.CardDav
