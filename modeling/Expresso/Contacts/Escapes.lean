import Expresso.Contacts.Export
import Expresso.Text.Split
import Expresso.Text.Trim

/-! Escaped values in a card: the reader takes them as they stand, so that a text is read back
where it has nothing to escape. -/

namespace Expresso.Contacts
open Text CalDav
open Imap (lines)

/-! ### Escaped texts -/

def needsEscape (c : Char) : Bool := c = '\\' || c = ',' || c = ';' || c = '\n' || c = '\r'

/-- A backslash before what has a meaning of its own, and `\n` for a line break. -/
def escapeOne (c : Char) : Str :=
  if c = '\n' ∨ c = '\r' then ['\\', 'n'] else if needsEscape c then ['\\', c] else [c]

def escapeValue (s : Str) : Str := s.flatMap escapeOne

/-- Nothing to escape, and no blanks around it. -/
def AsItStands (s : Str) : Prop := s.any needsEscape = false ∧ trim s = s

/-! ### Fields -/

/-- A property with the texts that its value is made of. -/
inductive Field where
  | fn (s : Str)
  | org (s : Str)
  | nickname (s : Str)
  | n (components : List Str)
  | adr (components : List Str)

namespace Field

def property : Field → Property
  | fn _ => .fn
  | org _ => .org
  | nickname _ => .nickname
  | n _ => .n
  | adr _ => .adr

/-- Components between semicolons. -/
def structured : List Str → Str
  | [] => []
  | [s] => escapeValue s
  | s :: rest => escapeValue s ++ ';' :: structured rest

def value : Field → Str
  | fn s | org s | nickname s => escapeValue s
  | n components | adr components => structured components

/-- The texts that the tables have columns for: the family and given name of a name, and the seven
components of an address. -/
def texts : Field → List Str
  | fn s | org s | nickname s => [s]
  | n components => (List.range 2).map fun i => (components[i]?).getD []
  | adr components => (List.range 7).map fun i => (components[i]?).getD []

/-- The components of the address, empty ones for a card without one. -/
def addressTexts : List ContactAddress → List Str
  | [a] => [a.poBox, a.ext, a.street, a.locality, a.region, a.postalCode, a.country].map
      (·.getD [])
  | _ => List.replicate 7 []

/-- What the reader has of the property, empty where it has nothing. -/
def read (field : Field) (card : ParsedVCard) : List Str :=
  match field with
  | fn _ => [card.fullName.getD []]
  | org _ => [card.organization.getD []]
  | nickname _ => [card.nickname.getD []]
  | n _ => [card.familyName.getD [], card.givenName.getD []]
  | adr _ => addressTexts card.addresses

end Field

/-! ### Escaping -/

theorem escapeOne_length (c : Char) :
    (escapeOne c).length = if needsEscape c then 2 else 1 := by
  unfold escapeOne
  by_cases newline : c = '\n' ∨ c = '\r'
  · have special : needsEscape c = true := by
      rcases newline with rfl | rfl <;> decide
    rw [if_pos newline, special]
    rfl
  · rw [if_neg newline]
    split_ifs <;> rfl

theorem escapeValue_plain {s : Str} (plain : s.any needsEscape = false) : escapeValue s = s := by
  induction s with
  | nil => rfl
  | cons c s ih =>
    rw [List.any_cons, Bool.or_eq_false_iff] at plain
    have newline : ¬(c = '\n' ∨ c = '\r') := by
      rintro (rfl | rfl) <;> exact absurd plain.1 (by decide)
    rw [escapeValue, List.flatMap_cons, ← escapeValue, ih plain.2, escapeOne, if_neg newline,
      plain.1]
    rfl

theorem escapeValue_length (s : Str) :
    (escapeValue s).length = s.length + s.countP needsEscape := by
  induction s with
  | nil => rfl
  | cons c s ih =>
    rw [escapeValue, List.flatMap_cons, ← escapeValue, List.length_append, ih, escapeOne_length,
      List.countP_cons, List.length_cons]
    split_ifs <;> omega

theorem escapeValue_eq_iff {s : Str} : escapeValue s = s ↔ s.any needsEscape = false := by
  constructor
  · intro same
    have length := congrArg List.length same
    rw [escapeValue_length] at length
    have zero : s.countP needsEscape = 0 := by omega
    rw [List.countP_eq_zero] at zero
    rw [List.any_eq_false]
    exact zero
  · exact escapeValue_plain

theorem escapeOne_shape (c : Char) : ∃ front last, escapeOne c = front ++ [last] ∧
    (∀ d ∈ front, d = '\\') ∧ (last = c ∨ last = 'n') := by
  unfold escapeOne
  split_ifs
  · exact ⟨['\\'], 'n', rfl, by simp, .inr rfl⟩
  · exact ⟨['\\'], c, rfl, by simp, .inl rfl⟩
  · exact ⟨[], c, rfl, by simp, .inl rfl⟩

/-- Escapes put no blanks around a text. -/
theorem trim_escapeValue {s : Str} (trimmed : trim s = s) :
    trim (escapeValue s) = escapeValue s := by
  obtain ⟨head, last⟩ := trim_eq_self_iff.mp trimmed
  have letter : isWhitespace 'n' = false ∧ isWhitespace '\\' = false := by decide
  apply trim_eq_self_iff.mpr
  constructor
  · cases s with
    | nil => exact fun c missing => (nomatch missing)
    | cons c s =>
      obtain ⟨front, final, shape, slashes, kind⟩ := escapeOne_shape c
      intro d first
      rw [escapeValue, List.flatMap_cons, shape] at first
      cases front with
      | nil =>
        cases first
        rcases kind with rfl | rfl
        · exact head _ rfl
        · exact letter.1
      | cons e front =>
        cases first
        rw [slashes d List.mem_cons_self]
        exact letter.2
  · rcases s.eq_nil_or_concat' with rfl | ⟨front, c, rfl⟩
    · exact fun c missing => (nomatch missing)
    · obtain ⟨slashes, final, shape, -, kind⟩ := escapeOne_shape c
      intro d ends
      rw [escapeValue, List.flatMap_append, List.flatMap_cons, List.flatMap_nil, List.append_nil,
        shape, ← List.append_assoc, List.getLast?_concat] at ends
      cases ends
      rcases kind with rfl | rfl
      · exact last _ (by rw [List.getLast?_concat]; rfl)
      · exact letter.1

theorem trim_escape_iff {s : Str} : trim (escapeValue s) = s ↔ AsItStands s := by
  constructor
  · intro same
    have trimmed : trim s = s := by
      rw [← same]
      exact trim_trim _
    rw [trim_escapeValue trimmed] at same
    exact ⟨escapeValue_eq_iff.1 same, trimmed⟩
  · intro ⟨plain, trimmed⟩
    rw [escapeValue_plain plain, trimmed]

theorem mem_escapeValue {s : Str} {c : Char} (member : c ∈ escapeValue s) :
    c ∈ s ∨ c = '\\' ∨ c = 'n' := by
  obtain ⟨d, inside, here⟩ := List.mem_flatMap.mp member
  unfold escapeOne at here
  split_ifs at here
  · right
    simpa using here
  · rcases List.mem_cons.mp here with rfl | same
    · exact .inr (.inl rfl)
    · rw [List.mem_singleton.mp same]
      exact .inl inside
  · rw [List.mem_singleton.mp here]
    exact .inl inside

/-- The piece before the first separator, without blanks, is the text only where the text stands as
it is. -/
theorem trim_head_split_iff {separator : Char} (special : needsEscape separator = true)
    (other : separator ≠ '\\' ∧ separator ≠ 'n') {s first : Str} {more : List Str}
    (cut : split separator (escapeValue s) = first :: more) :
    trim first = s ↔ AsItStands s := by
  by_cases inside : separator ∈ s
  · constructor
    · rintro rfl
      have piece : first ∈ split separator (escapeValue (trim first)) := by
        rw [cut]
        exact List.mem_cons_self
      exact absurd (trim_subset first inside) (not_mem_of_mem_split piece)
    · intro stands
      have harmless := List.any_eq_false.mp stands.1 separator inside
      exact absurd special harmless
  · have absent : separator ∉ escapeValue s := by
      intro member
      rcases mem_escapeValue member with inText | same | same
      · exact inside inText
      · exact other.1 same
      · exact other.2 same
    rw [split_of_not_mem absent] at cut
    cases cut
    exact trim_escape_iff

/-! ### Components -/

theorem asItStands_nil : AsItStands [] := ⟨rfl, rfl⟩

theorem AsItStands.split {s : Str} (stands : AsItStands s) :
    split ';' (escapeValue s) = [s] := by
  rw [escapeValue_plain stands.1, split_of_not_mem]
  intro member
  exact absurd (List.any_eq_false.mp stands.1 ';' member) (by decide)

/-- A component that stands as it is is cut off from the others. -/
theorem split_structured {s : Str} (stands : AsItStands s) (rest : List Str) (i : Nat) :
    ((split ';' (Field.structured (s :: rest)))[i]?).getD [] =
      if i = 0 then s else ((split ';' (Field.structured rest))[i - 1]?).getD [] := by
  cases rest with
  | nil =>
    show ((split ';' (escapeValue s))[i]?).getD [] = if i = 0 then s else ([[]][i - 1]?).getD []
    rw [stands.split]
    cases i with
    | zero => rfl
    | succ i => cases i <;> rfl
  | cons t rest =>
    show ((split ';' (escapeValue s ++ ';' :: Field.structured (t :: rest)))[i]?).getD [] = _
    rw [split_append_sep, stands.split]
    cases i <;> rfl

theorem split_structured_head (s : Str) (rest : List Str) :
    ∃ first more others, split ';' (escapeValue s) = first :: more ∧
      split ';' (Field.structured (s :: rest)) = first :: others := by
  obtain ⟨first, more, cut⟩ := List.exists_cons_of_ne_nil (split_ne_nil ';' (escapeValue s))
  cases rest with
  | nil => exact ⟨first, more, more, cut, cut⟩
  | cons t rest =>
    refine ⟨first, more, more ++ split ';' (Field.structured (t :: rest)), cut, ?_⟩
    show split ';' (escapeValue s ++ ';' :: Field.structured (t :: rest)) = _
    rw [split_append_sep, cut]
    rfl

/-- The first components are read back if and only if each of them stands as it is. -/
theorem components_iff (count : Nat) (components : List Str) :
    (∀ i < count, trim (((split ';' (Field.structured components))[i]?).getD []) =
        (components[i]?).getD []) ↔
      ∀ i < count, AsItStands ((components[i]?).getD []) := by
  induction count generalizing components with
  | zero => exact ⟨fun _ i small => absurd small (Nat.not_lt_zero i),
      fun _ i small => absurd small (Nat.not_lt_zero i)⟩
  | succ count ih =>
    cases components with
    | nil =>
      refine iff_of_true (fun i _ => ?_) fun i _ => asItStands_nil
      show trim (([[]][i]?).getD []) = []
      cases i <;> rfl
    | cons s rest =>
      obtain ⟨first, more, others, cut, whole⟩ := split_structured_head s rest
      have head := @trim_head_split_iff ';' (by decide) (by decide) s first more cut
      constructor
      · intro all
        have stands : AsItStands s := by
          have here := all 0 (Nat.succ_pos count)
          rw [whole] at here
          exact head.mp here
        intro i small
        cases i with
        | zero => exact stands
        | succ i =>
          refine (ih rest).mp (fun k inside => ?_) i (Nat.lt_of_succ_lt_succ small)
          have later := all (k + 1) (Nat.succ_lt_succ inside)
          rwa [split_structured stands, if_neg (Nat.succ_ne_zero k)] at later
      · intro all
        have stands : AsItStands s := all 0 (Nat.succ_pos count)
        intro i small
        rw [split_structured stands]
        cases i with
        | zero => exact stands.2
        | succ i =>
          rw [if_neg (Nat.succ_ne_zero i)]
          exact (ih rest).mpr (fun k inside => all (k + 1) (Nat.succ_lt_succ inside)) i
            (Nat.lt_of_succ_lt_succ small)

theorem map_range_eq_iff {f g : Nat → Str} (count : Nat) :
    (List.range count).map f = (List.range count).map g ↔ ∀ i < count, f i = g i := by
  rw [List.map_inj_left]
  simp

/-! ### One property -/

namespace Field

/-- What the reader keeps for the property. -/
def core (field : Field) (card : ParsedVCard) :
    Option Str × Option Str × List ContactAddress :=
  match field with
  | fn _ => (card.fullName, none, [])
  | org _ => (card.organization, none, [])
  | nickname _ => (card.nickname, none, [])
  | n _ => (card.familyName, card.givenName, [])
  | adr _ => (none, none, card.addresses)

theorem read_of_core {field : Field} {card card' : ParsedVCard}
    (same : field.core card = field.core card') : field.read card = field.read card' := by
  cases field <;> simp_all [core, read]

theorem core_set_other {field : Field} {p : Property} (other : p ≠ field.property)
    (card : ParsedVCard) (head value : Str) :
    field.core (card.set head value p) = field.core card := by
  cases p <;> cases field <;> first
    | exact absurd rfl other
    | (simp only [ParsedVCard.set, core]; split <;> rfl)

theorem component_text (c : Str) : (component c).getD [] = trim c := by
  unfold component
  split_ifs with blank
  · exact blank.symm
  · rfl

theorem component_getD (parts : List Str) (i : Nat) :
    (((parts.map component)[i]?).join).getD [] = trim ((parts[i]?).getD []) := by
  rw [List.getElem?_map]
  cases parts[i]? with
  | none => rfl
  | some c => exact component_text c

/-- The components that the reader keeps of an address, whether or not it keeps the address. -/
theorem addressTexts_parseAdr (head value : Str) :
    addressTexts (parseAdr head value).toList =
      (List.range 7).map fun i => trim (((split ';' value)[i]?).getD []) := by
  simp only [← component_getD]
  dsimp only [parseAdr]
  generalize (split ';' value).map component = parts
  split_ifs with empty
  · simp only [Option.isNone_iff_eq_none, Option.or_eq_none_iff] at empty
    obtain ⟨poBox, ext, street, locality, region, code, country⟩ := empty
    simp only [List.range_succ, List.range_zero, List.nil_append, List.cons_append, List.map_cons,
      List.map_nil, poBox, ext, street, locality, region, code, country, Option.getD_none]
    rfl
  · rfl

/-- A part of a name, left out where it is empty. -/
theorem namePart (part : Option Str) :
    Option.getD (match part with
      | some (c :: rest) => some (trim (c :: rest))
      | _ => none) [] = trim (part.getD []) := by
  rcases part with _ | _ | ⟨c, rest⟩ <;> rfl

theorem addresses_set (out : ParsedVCard) (head value : Str) :
    (out.set head value .adr).addresses = out.addresses ++ (parseAdr head value).toList := by
  simp only [ParsedVCard.set]
  cases parseAdr head value with
  | none => exact (List.append_nil _).symm
  | some adr => rfl

/-- The texts of a property come back from its escaped value only as they stand. -/
theorem read_set {field : Field} {out : ParsedVCard} (fresh : field.core out = (none, none, []))
    (head : Str) :
    field.read (out.set head field.value field.property) = field.texts ↔
      ∀ s ∈ field.texts, AsItStands s := by
  cases field with
  | fn s =>
    have unset : out.fullName = none := (Prod.mk.inj fresh).1
    simp [property, value, read, texts, ParsedVCard.set, unset, trim_escape_iff]
  | org s =>
    have unset : out.organization = none := (Prod.mk.inj fresh).1
    simp [property, value, read, texts, ParsedVCard.set, unset, trim_escape_iff]
  | nickname s =>
    have unset : out.nickname = none := (Prod.mk.inj fresh).1
    obtain ⟨first, more, cut⟩ := List.exists_cons_of_ne_nil (split_ne_nil ',' (escapeValue s))
    have kept : (nickname s).read (out.set head (escapeValue s) .nickname) = [trim first] := by
      simp only [read, ParsedVCard.set, unset, cut, List.headD_cons]
      by_cases blank : trim first = []
      · simp [blank, unset]
      · simp [blank]
    show (nickname s).read (out.set head (escapeValue s) .nickname) = [s] ↔ ∀ t ∈ [s], AsItStands t
    rw [kept, List.forall_mem_singleton, List.singleton_inj]
    exact trim_head_split_iff (by decide) (by decide) cut
  | n components =>
    have unset : out.familyName = none ∧ out.givenName = none :=
      ⟨(Prod.mk.inj fresh).1, (Prod.mk.inj (Prod.mk.inj fresh).2).1⟩
    have kept : (n components).read (out.set head (structured components) .n) =
        (List.range 2).map fun i => trim (((split ';' (structured components))[i]?).getD []) := by
      simp only [read, ParsedVCard.set, unset, Option.isNone_none, if_true]
      exact congrArg₂ (fun family given => [family, given]) (namePart _) (namePart _)
    show (n components).read (out.set head (structured components) .n) = _ ↔ _
    rw [kept, texts, map_range_eq_iff, components_iff]
    simp
  | adr components =>
    have unset : out.addresses = [] := (Prod.mk.inj (Prod.mk.inj fresh).2).2
    have kept : (adr components).read (out.set head (structured components) .adr) =
        (List.range 7).map fun i => trim (((split ';' (structured components))[i]?).getD []) := by
      rw [← addressTexts_parseAdr head, read, addresses_set, unset, List.nil_append]
    show (adr components).read (out.set head (structured components) .adr) = _ ↔ _
    rw [kept, texts, map_range_eq_iff, components_iff]
    simp

end Field

/-! ### A card with the property -/

def propertyOf (head : Str) : Option Property :=
  Property.named (toAsciiUppercase ((split ';' head).headD head))

/-- The property of a content line, with its value. -/
def entry (line : Str) : Option (Property × Str) :=
  (splitOnce ':' line).bind fun pair => (propertyOf pair.1).map (·, pair.2)

/-- A card that has the property once, under an identifier. -/
structure Carries (raw : Str) (field : Field) (before after : List Str) (head : Str) : Prop where
  block : ∃ first last, beginsCard first = true ∧ endsCard last = true ∧
    body raw = first :: (before ++ (head ++ ':' :: field.value) :: after ++ [last])
  inside : ∀ line ∈ before ++ (head ++ ':' :: field.value) :: after,
    beginsCard line = false ∧ endsCard line = false
  absent : ':' ∉ head
  named : propertyOf head = some field.property
  once : ∀ line ∈ before ++ after, ∀ p value, entry line = some (p, value) → p ≠ field.property
  identified : ∃ line ∈ before ++ after, ∃ value, entry line = some (.uid, value) ∧ trim value ≠ []

/-- A line without a property that is indexed has no effect. -/
theorem apply_cases (line : Str) :
    (entry line = none ∧ ∀ out : ParsedVCard, out.apply line = out) ∨
      ∃ head p value, entry line = some (p, value) ∧
        ∀ out : ParsedVCard, out.apply line = out.set head value p := by
  unfold entry ParsedVCard.apply
  cases cut : splitOnce ':' line with
  | none => exact .inl ⟨rfl, fun _ => rfl⟩
  | some pair =>
    obtain ⟨head, value⟩ := pair
    cases found : propertyOf head with
    | none =>
      refine .inl ⟨by rw [Option.bind_some, found]; rfl, fun out => ?_⟩
      unfold propertyOf at found
      simp only [found]
    | some p =>
      refine .inr ⟨head, p, value, by rw [Option.bind_some, found]; rfl, fun out => ?_⟩
      unfold propertyOf at found
      simp only [found]

theorem foldl_core {field : Field} {content : List Str}
    (other : ∀ line ∈ content, ∀ p value, entry line = some (p, value) → p ≠ field.property)
    (out : ParsedVCard) : field.core (content.foldl ParsedVCard.apply out) = field.core out := by
  induction content generalizing out with
  | nil => rfl
  | cons line content ih =>
    rw [List.foldl_cons, ih fun l member => other l (List.mem_cons_of_mem line member)]
    obtain ⟨-, idle⟩ | ⟨head, p, value, found, effect⟩ := apply_cases line
    · rw [idle]
    · rw [effect]
      exact Field.core_set_other (other line List.mem_cons_self p value found) out head value

theorem uid_set (out : ParsedVCard) (head value : Str) (p : Property) :
    (out.set head value p).uid =
      if p = .uid ∧ out.uid.isEmpty = true then trim value else out.uid := by
  cases p <;> simp only [ParsedVCard.set] <;> split <;> simp_all

theorem uid_apply {out : ParsedVCard} (some : out.uid ≠ []) (line : Str) :
    (out.apply line).uid = out.uid := by
  obtain ⟨-, idle⟩ | ⟨head, p, value, -, effect⟩ := apply_cases line
  · rw [idle]
  · rw [effect, uid_set, if_neg]
    rintro ⟨-, empty⟩
    exact some (List.isEmpty_iff.mp empty)

theorem foldl_uid_kept {out : ParsedVCard} (some : out.uid ≠ []) (content : List Str) :
    (content.foldl ParsedVCard.apply out).uid = out.uid := by
  induction content generalizing out with
  | nil => rfl
  | cons line content ih =>
    have kept := uid_apply some line
    rw [List.foldl_cons, ih (kept ▸ some), kept]

/-- An identifier anywhere among the lines makes the card readable. -/
theorem foldl_uid {content : List Str} {line value : Str} (member : line ∈ content)
    (found : entry line = some (.uid, value)) (filled : trim value ≠ []) (out : ParsedVCard) :
    (content.foldl ParsedVCard.apply out).uid ≠ [] := by
  obtain ⟨before, after, rfl⟩ := List.append_of_mem member
  rw [List.foldl_append, List.foldl_cons]
  generalize before.foldl ParsedVCard.apply out = middle
  have here : (middle.apply line).uid ≠ [] := by
    by_cases some : middle.uid = []
    · obtain ⟨missing, -⟩ | ⟨head, p, value', found', effect⟩ := apply_cases line
      · rw [found] at missing
        cases missing
      · rw [found] at found'
        cases found'
        rw [effect, uid_set, if_pos ⟨rfl, by rw [some]; rfl⟩]
        exact filled
    · rwa [uid_apply some]
  rwa [foldl_uid_kept here]

/-- Between its delimiters a card is read line by line. -/
theorem parseLoop_content {content : List Str} (plain : ∀ line ∈ content, Plain line)
    (inside : ∀ line ∈ content, beginsCard line = false ∧ endsCard line = false)
    {last : Str} (plainLast : Plain last) (ends : endsCard last = true) (out : ParsedVCard) :
    parseLoop (content ++ [last]) true out = content.foldl ParsedVCard.apply out := by
  induction content generalizing out with
  | nil =>
    have other : beginsCard last = false := by
      by_contra both
      rw [Bool.not_eq_false] at both
      exact ends_of_begins both ends
    rw [List.nil_append, parseLoop, trimEndMatches_of_getLast plainLast.noReturn, other, ends]
    rfl
  | cons line content ih =>
    obtain ⟨open_, closed⟩ := inside line List.mem_cons_self
    have trimmed := trimEndMatches_of_getLast (plain line List.mem_cons_self).noReturn
    have later := ih (fun l member => plain l (List.mem_cons_of_mem line member))
      (fun l member => inside l (List.mem_cons_of_mem line member)) (out.apply line)
    rw [List.cons_append, parseLoop, trimmed, open_, closed]
    exact later

theorem Carries.reads {raw : Str} {field : Field} {before after : List Str} {head : Str}
    (carries : Carries raw field before after head) :
    ∃ out, parse raw = .ok out ∧
      (field.read out = field.texts ↔ ∀ s ∈ field.texts, AsItStands s) := by
  obtain ⟨first, last, begins, ends, shape⟩ := carries.block
  have plain := body_plain raw
  rw [shape] at plain
  have trimmed := trimEndMatches_of_getLast (plain first List.mem_cons_self).noReturn
  have content : parseLoop (body raw) false {} =
      (before ++ (head ++ ':' :: field.value) :: after).foldl ParsedVCard.apply {} := by
    rw [shape, parseLoop, trimmed, begins, if_pos rfl]
    refine parseLoop_content (fun line member => plain line ?_) carries.inside (plain last ?_) ends _
    · exact List.mem_cons_of_mem first (List.mem_append_left _ member)
    · exact List.mem_cons_of_mem first (List.mem_append_right _ List.mem_cons_self)
  obtain ⟨line, member, value, found, filled⟩ := carries.identified
  have member' : line ∈ before ++ (head ++ ':' :: field.value) :: after := by
    rw [List.mem_append] at member ⊢
    exact member.imp_right (List.mem_cons_of_mem _)
  have readable := foldl_uid member' found filled {}
  refine ⟨(before ++ (head ++ ':' :: field.value) :: after).foldl ParsedVCard.apply {}, ?_, ?_⟩
  · rw [parse_body, content, finish, if_neg]
    simpa [List.isEmpty_iff] using readable
  · have first' := @foldl_core field before
      (fun l inside => carries.once l (List.mem_append_left _ inside)) {}
    have rest := @foldl_core field after
      (fun l inside => carries.once l (List.mem_append_right _ inside))
    have effect (out : ParsedVCard) : out.apply (head ++ ':' :: field.value) =
        out.set head field.value field.property := by
      have named := carries.named
      unfold propertyOf at named
      simp only [ParsedVCard.apply, splitOnce_append carries.absent, named]
    rw [List.foldl_append, List.foldl_cons, Field.read_of_core (rest _), effect]
    refine Field.read_set ?_ head
    rw [first']
    cases field <;> rfl

/-- The escaped texts of a property are read back exactly where they have nothing to escape and no
blanks around them. -/
theorem escaped_texts_iff {raw : Str} {field : Field} {before after : List Str} {head : Str}
    (carries : Carries raw field before after head) :
    (∃ out, parse raw = .ok out ∧ field.read out = field.texts) ↔
      ∀ s ∈ field.texts, AsItStands s := by
  obtain ⟨out, readable, texts⟩ := carries.reads
  rw [← texts]
  constructor
  · rintro ⟨other, same, read⟩
    rw [readable] at same
    cases same
    exact read
  · exact fun read => ⟨out, readable, read⟩

/-- The card of one person. -/
def cardNamed (fn : String) : Str :=
  ("BEGIN:VCARD\r\nVERSION:4.0\r\nUID:1\r\nFN:" ++ fn ++ "\r\nEND:VCARD\r\n").toList

theorem plain_name_reads :
    Carries (cardNamed "Doe") (.fn "Doe".toList) ["VERSION:4.0".toList, "UID:1".toList] []
        "FN".toList ∧
      ((∃ out, parse (cardNamed "Doe") = .ok out ∧
          Field.read (.fn "Doe".toList) out = Field.texts (.fn "Doe".toList)) ↔
        ∀ s ∈ Field.texts (.fn "Doe".toList), AsItStands s) := by
  have carries : Carries (cardNamed "Doe") (.fn "Doe".toList)
      ["VERSION:4.0".toList, "UID:1".toList] [] "FN".toList :=
    { block := ⟨"BEGIN:VCARD".toList, "END:VCARD".toList, by decide, by decide, by decide⟩
      inside := by decide
      absent := by decide
      named := by decide
      once := by
        intro line member p value found
        have second : entry line = none ∨ entry line = some (.uid, "1".toList) := by
          simp only [List.append_nil, List.mem_cons, List.not_mem_nil, or_false] at member
          rcases member with rfl | rfl <;> decide
        rcases second with same | same <;> rw [same] at found <;> cases found
        decide
      identified := ⟨"UID:1".toList, by decide, "1".toList, by decide, by decide⟩ }
  exact ⟨carries, escaped_texts_iff carries⟩

/-- The backslash before a comma stays in the name. -/
theorem escaped_comma_stays :
    Field.value (.fn "Doe, John".toList) = "Doe\\, John".toList ∧
      (parse (cardNamed "Doe\\, John")).map (Field.read (.fn "Doe, John".toList)) =
        .ok ["Doe\\, John".toList] ∧
      Field.texts (.fn "Doe, John".toList) ≠ ["Doe\\, John".toList] := by
  decide

end Expresso.Contacts
