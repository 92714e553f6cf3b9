import Expresso.CalDav.Export
import Expresso.Imap.Mime

/-! The vCard reader of the contacts service: unfold the lines, take the first value of every
property that the tables index, all `EMAIL` and `ADR` properties; and the texts of many cards. -/

namespace Expresso.Contacts
open Text CalDav
open Imap (lines)

structure ContactEmail where
  address : Str
  label : Option Str
  deriving DecidableEq

structure ContactAddress where
  label : Option Str
  poBox : Option Str
  ext : Option Str
  street : Option Str
  locality : Option Str
  region : Option Str
  postalCode : Option Str
  country : Option Str
  deriving DecidableEq

structure ParsedVCard where
  uid : Str := []
  fullName : Option Str := none
  familyName : Option Str := none
  givenName : Option Str := none
  organization : Option Str := none
  email : Option Str := none
  phone : Option Str := none
  emails : List ContactEmail := []
  addresses : List ContactAddress := []
  birthday : Option Str := none
  nickname : Option Str := none
  deriving DecidableEq

/-! ### Lines -/

/-- A blank after a line end continues the line. -/
def unfold : Str → Str
  | '\r' :: '\n' :: ' ' :: rest => unfold rest
  | '\r' :: '\n' :: '\t' :: rest => unfold rest
  | '\r' :: '\n' :: rest => '\n' :: unfold rest
  | '\n' :: ' ' :: rest => unfold rest
  | '\n' :: '\t' :: rest => unfold rest
  | c :: rest => c :: unfold rest
  | [] => []

example : unfold "a\r\n b\n\tc".toList = "abc".toList := by simp [unfold]

def eqIgnoreAsciiCase (a b : Str) : Bool := toAsciiLowercase a = toAsciiLowercase b

def beginsCard (line : Str) : Bool := eqIgnoreAsciiCase line "BEGIN:VCARD".toList
def endsCard (line : Str) : Bool := eqIgnoreAsciiCase line "END:VCARD".toList

/-! ### Properties -/

/-- The label that a parameter gives, if it is more than the usual ones. -/
def typeToken (p : Str) : Option Str :=
  let p := trim p
  let value := (stripPrefix "TYPE=".toList p).or (stripPrefix "type=".toList p)
  let t := toAsciiLowercase (trim (value.getD p))
  if t = [] ∨ t = "internet".toList ∨ t = "pref".toList then none else some t

def emailTypeLabel (head : Str) : Option Str := ((split ';' head).drop 1).findSome? typeToken

def component (c : Str) : Option Str := if trim c = [] then none else some (trim c)

def parseAdr (head value : Str) : Option ContactAddress :=
  let parts := (split ';' value).map component
  let get (i : Nat) : Option Str := (parts[i]?).join
  let adr : ContactAddress := ⟨emailTypeLabel head, get 0, get 1, get 2, get 3, get 4, get 5, get 6⟩
  if (adr.poBox.or (adr.ext.or (adr.street.or (adr.locality.or (adr.region.or
    (adr.postalCode.or adr.country)))))).isNone then none else some adr

inductive Property where
  | uid | fn | org | email | tel | adr | bday | nickname | n
  deriving DecidableEq

def Property.name : Property → Str
  | uid => "UID".toList
  | fn => "FN".toList
  | org => "ORG".toList
  | email => "EMAIL".toList
  | tel => "TEL".toList
  | adr => "ADR".toList
  | bday => "BDAY".toList
  | nickname => "NICKNAME".toList
  | n => "N".toList

def Property.named (name : Str) : Option Property :=
  [uid, fn, org, email, tel, adr, bday, nickname, n].find? (·.name = name)

namespace ParsedVCard

/-- Of most properties only the first value counts. -/
def set (out : ParsedVCard) (head value : Str) : Property → ParsedVCard
  | .uid => if out.uid.isEmpty then { out with uid := trim value } else out
  | .fn => if out.fullName.isNone then { out with fullName := some (trim value) } else out
  | .org => if out.organization.isNone then { out with organization := some (trim value) } else out
  | .email =>
      let addr := trim value
      if addr = [] then out
      else { out with
        email := out.email.or (some addr)
        emails := out.emails ++ [⟨addr, emailTypeLabel head⟩] }
  | .tel => if out.phone.isNone then { out with phone := some (trim value) } else out
  | .adr => match parseAdr head value with
      | some adr => { out with addresses := out.addresses ++ [adr] }
      | none => out
  | .bday =>
      if out.birthday.isNone ∧ trim value ≠ [] then { out with birthday := some (trim value) }
      else out
  | .nickname =>
      let first := trim ((split ',' value).headD value)
      if out.nickname.isNone ∧ first ≠ [] then { out with nickname := some first } else out
  | .n =>
      if out.familyName.isNone then
        let parts := split ';' value
        { out with
          familyName := match parts[0]? with
            | some (c :: f) => some (trim (c :: f))
            | _ => out.familyName
          givenName := match parts[1]? with
            | some (c :: g) => some (trim (c :: g))
            | _ => out.givenName }
      else out

/-- The effect of one line `NAME[;PARAMS]:VALUE` of the card. -/
def apply (out : ParsedVCard) (line : Str) : ParsedVCard :=
  match splitOnce ':' line with
  | none => out
  | some (head, value) =>
      match Property.named (toAsciiUppercase ((split ';' head).headD head)) with
      | none => out
      | some property => out.set head value property

end ParsedVCard

def parseLoop : List Str → Bool → ParsedVCard → ParsedVCard
  | [], _, out => out
  | line :: rest, inside, out =>
      let trimmed := trimEndMatches '\r' line
      if beginsCard trimmed then parseLoop rest true out
      else if endsCard trimmed then parseLoop rest false out
      else if inside then parseLoop rest true (out.apply trimmed)
      else parseLoop rest false out

example (out : ParsedVCard) : parseLoop [] true out = out := by simp only [parseLoop]

def finish (out : ParsedVCard) : Except Str ParsedVCard :=
  if out.uid.isEmpty then .error "vCard missing UID property".toList else .ok out

def parse (raw : Str) : Except Str ParsedVCard := finish (parseLoop (lines (unfold raw)) false {})

/-! ### Many cards -/

def splitCards : List Str → Option (List Str) → List Str → List Str
  | [], _, out => out
  | line :: rest, buf, out =>
      let trimmed := trimEndMatches '\r' line
      if beginsCard trimmed then splitCards rest (some [trimmed]) out
      else if endsCard trimmed then
        match buf with
        | some b => splitCards rest none (out ++ [joinLines (b ++ [trimmed]) ++ ['\r', '\n']])
        | none => splitCards rest none out
      else splitCards rest (buf.map (· ++ [trimmed])) out

def splitVcards (raw : Str) : List Str := splitCards (lines (unfold raw)) none []

/-- A card with its last line ended. -/
def endCard (c : Str) : Str := if ['\n'].isSuffixOf c then c else c ++ ['\r', '\n']

def concatVcards (cards : List Str) : Str := cards.flatMap endCard

/-! ### The unfolded lines -/

/-- A line without the carriage return of its line end. -/
def bare (piece : Str) : Str := (stripSuffix ['\r'] piece).getD piece

/-- Whether a physical line continues the one before it. -/
def continues : Str → Bool
  | [] => false
  | c :: _ => c = ' ' || c = '\t'

/-- The unfolded text of physical lines. -/
def unfoldPieces : Str → List Str → Str
  | piece, [] => piece
  | piece, next :: rest =>
      if continues next then bare piece ++ unfoldPieces next.tail rest
      else bare piece ++ '\n' :: unfoldPieces next rest

theorem unfold_cons {c : Char} {rest : Str} (plain : c ≠ '\n')
    (inside : c = '\r' → rest.head? ≠ some '\n') : unfold (c :: rest) = c :: unfold rest := by
  rw [unfold]
  · rintro tail rfl rfl
    exact inside rfl rfl
  · rintro tail rfl rfl
    exact inside rfl rfl
  · rintro tail rfl rfl
    exact inside rfl rfl
  · rintro tail rfl
    exact absurd rfl plain
  · rintro tail rfl
    exact absurd rfl plain

/-- The unfolded text after a line end. -/
def afterEnd (rest : Str) : Str :=
  if continues rest then unfold rest.tail else '\n' :: unfold rest

theorem unfold_end (rest : Str) : unfold ('\n' :: rest) = afterEnd rest := by
  unfold afterEnd continues
  cases rest with
  | nil => rfl
  | cons c rest =>
    by_cases blank : c = ' '
    · subst blank
      rfl
    · by_cases tab : c = '\t'
      · subst tab
        rfl
      · simp only [blank, tab, decide_false, Bool.or_false, Bool.false_eq_true, if_false]
        rw [unfold]
        · exact fun _ same => absurd same (by decide)
        · exact fun _ same => absurd same (by decide)
        · exact fun _ same => absurd same (by decide)
        · rintro tail _ same
          exact blank (List.cons.inj same).1
        · rintro tail _ same
          exact tab (List.cons.inj same).1

theorem unfold_return (rest : Str) : unfold ('\r' :: '\n' :: rest) = afterEnd rest := by
  unfold afterEnd continues
  cases rest with
  | nil => rfl
  | cons c rest =>
    by_cases blank : c = ' '
    · subst blank
      rfl
    · by_cases tab : c = '\t'
      · subst tab
        rfl
      · simp only [blank, tab, decide_false, Bool.or_false, Bool.false_eq_true, if_false]
        rw [unfold]
        · intro tail same
          exact blank (List.cons.inj same).1
        · intro tail same
          exact tab (List.cons.inj same).1

theorem bare_cons {c : Char} {rest : Str} (inside : rest = [] → c ≠ '\r') :
    bare (c :: rest) = c :: bare rest := by
  unfold bare
  cases rest.eq_nil_or_concat' with
  | inl empty =>
    have other := inside empty
    subst empty
    rw [stripReturn_of_plain (by simpa using other)]
    rfl
  | inr some =>
    obtain ⟨front, last, rfl⟩ := some
    by_cases return' : last = '\r'
    · subst return'
      rw [stripReturn_append, ← List.cons_append, stripReturn_append]
      rfl
    · have short : (front ++ [last]).getLast? ≠ some '\r' := by simpa using return'
      have long : (c :: front ++ [last]).getLast? ≠ some '\r' := by
        rw [List.getLast?_concat]
        simpa using return'
      rw [stripReturn_of_plain short, ← List.cons_append, stripReturn_of_plain long]
      rfl

theorem unfold_line {piece : Str} (oneLine : '\n' ∉ piece) (rest : Str) :
    unfold (piece ++ '\n' :: rest) = bare piece ++ afterEnd rest := by
  induction piece with
  | nil => exact unfold_end rest
  | cons c piece ih =>
    obtain ⟨other, later⟩ := not_or.mp (List.mem_cons.not.mp oneLine)
    by_cases last : c = '\r' ∧ piece = []
    · obtain ⟨rfl, rfl⟩ := last
      exact unfold_return rest
    · have inside : piece = [] → c ≠ '\r' := fun empty same => last ⟨same, empty⟩
      rw [List.cons_append, unfold_cons (Ne.symm other), ih later, bare_cons inside]
      · rfl
      · intro same
        cases piece with
        | nil => exact absurd same (inside rfl)
        | cons d piece =>
          intro equal
          exact later (by simpa using Or.inl (Option.some.inj equal).symm)

theorem unfold_piece {piece : Str} (oneLine : '\n' ∉ piece) : unfold piece = piece := by
  induction piece with
  | nil => rfl
  | cons c piece ih =>
    obtain ⟨other, later⟩ := not_or.mp (List.mem_cons.not.mp oneLine)
    rw [unfold_cons (Ne.symm other), ih later]
    intro _ equal
    exact later (List.mem_of_mem_head? equal)

theorem continues_tail {next : Str} (blank : continues next = true) :
    ∃ c, next = c :: next.tail ∧ (c = ' ' ∨ c = '\t') := by
  cases next with
  | nil => cases blank
  | cons c rest =>
    unfold continues at blank
    simp only [Bool.or_eq_true, decide_eq_true_eq] at blank
    exact ⟨c, rfl, blank⟩

theorem continues_append {next rest : Str} (some : next ≠ []) :
    continues (next ++ rest) = continues next := by
  cases next with
  | nil => exact absurd rfl some
  | cons c tail => rfl

theorem continues_prefix {front next : Str} (initial : front <+: next)
    (plain : continues next = false) : continues front = false := by
  obtain ⟨rest, rfl⟩ := initial
  cases front with
  | nil => rfl
  | cons c tail => exact plain

/-- The unfolded text, by its physical lines. -/
theorem unfold_pieces {piece : Str} {pieces : List Str}
    (oneLine : ∀ l ∈ piece :: pieces, '\n' ∉ l) :
    unfold (List.intercalate ['\n'] (piece :: pieces)) = unfoldPieces piece pieces := by
  induction pieces generalizing piece with
  | nil =>
    rw [show List.intercalate ['\n'] [piece] = piece by simp [List.intercalate]]
    exact unfold_piece (oneLine piece List.mem_cons_self)
  | cons next rest ih =>
    have text : List.intercalate ['\n'] (piece :: next :: rest) =
        piece ++ '\n' :: List.intercalate ['\n'] (next :: rest) := by
      simp [List.intercalate]
    have later : ∀ l ∈ next :: rest, '\n' ∉ l := fun l member =>
      oneLine l (List.mem_cons_of_mem piece member)
    rw [text, unfold_line (oneLine piece List.mem_cons_self), unfoldPieces]
    unfold afterEnd
    have same : continues (List.intercalate ['\n'] (next :: rest)) = continues next := by
      cases rest with
      | nil => simp [List.intercalate]
      | cons other rest =>
        cases next with
        | nil => simp [List.intercalate, continues]
        | cons c tail => simp [List.intercalate, continues]
    rw [same]
    split_ifs with blank
    · obtain ⟨c, shape, _⟩ := continues_tail blank
      have tail : (List.intercalate ['\n'] (next :: rest)).tail =
          List.intercalate ['\n'] (next.tail :: rest) := by
        rw [shape]
        cases rest <;> simp [List.intercalate]
      rw [tail, ih]
      intro l member
      rcases List.mem_cons.mp member with rfl | inRest
      · exact fun inside => later next List.mem_cons_self (List.mem_of_mem_tail inside)
      · exact later l (List.mem_cons_of_mem next inRest)
    · rw [ih later]

/-- A line without the carriage returns at its end. -/
abbrev trimReturns (line : Str) : Str := trimEndMatches '\r' line

theorem trim_append_bare (acc piece : Str) :
    trimReturns (acc ++ bare piece) = trimReturns (acc ++ piece) := by
  rcases piece.eq_nil_or_concat' with rfl | ⟨front, last, rfl⟩
  · rfl
  · unfold bare
    by_cases return' : last = '\r'
    · subst return'
      rw [stripReturn_append, Option.getD_some, ← List.append_assoc]
      exact (trimEndMatches_append '\r' (acc ++ front)).symm
    · rw [stripReturn_of_plain (by simpa using return')]
      rfl

theorem bare_subset (piece : Str) : bare piece ⊆ piece := stripReturn_subset piece

theorem unfoldLine_first (piece : Str) : unfoldLine [] piece = [bare piece] := by
  unfold unfoldLine bare
  cases (stripSuffix ['\r'] piece).getD piece <;> rfl

theorem unfoldLine_bare (out : List Str) (line : Str) : unfoldLine out line =
    match bare line, out.getLast? with
    | first :: rest, some previous =>
        if first = ' ' ∨ first = '\t' then out.dropLast ++ [previous ++ rest]
        else out ++ [bare line]
    | _, _ => out ++ [bare line] := rfl

/-- How the next physical line goes on from the last line. -/
theorem unfoldLine_single (acc next : Str) :
    unfoldLine [acc] next =
      if continues next then [acc ++ bare next.tail] else [acc, bare next] := by
  cases next with
  | nil => rfl
  | cons c rest =>
    by_cases blank : c = ' ' ∨ c = '\t'
    · have other : c ≠ '\r' := by
        rcases blank with same | same <;> rw [same] <;> decide
      have isBlank : continues (c :: rest) = true := by
        unfold continues
        simpa using blank
      rw [if_pos isBlank, unfoldLine_bare]
      rw [bare_cons fun _ => other]
      show (if c = ' ' ∨ c = '\t' then _ else _ : List Str) = _
      rw [if_pos blank]
      rfl
    · have isPlain : continues (c :: rest) = false := by
        unfold continues
        simpa using blank
      rw [isPlain, if_neg Bool.false_ne_true, unfoldLine_bare]
      by_cases alone : rest = [] ∧ c = '\r'
      · obtain ⟨rfl, rfl⟩ := alone
        rfl
      · rw [bare_cons fun empty same => alone ⟨empty, same⟩]
        show (if c = ' ' ∨ c = '\t' then _ else _ : List Str) = _
        rw [if_neg blank]
        rfl

/-- The lines of the unfolded text are those of the calendar service's reader, but for carriage
returns at their ends. -/
theorem split_unfoldPieces {acc piece : Str} {pieces : List Str} (start : '\n' ∉ acc)
    (oneLine : ∀ l ∈ piece :: pieces, '\n' ∉ l) :
    (split '\n' (acc ++ unfoldPieces piece pieces)).map trimReturns =
      (pieces.foldl unfoldLine [acc ++ bare piece]).map trimReturns := by
  induction pieces generalizing acc piece with
  | nil =>
    have absent : '\n' ∉ acc ++ piece := by
      rw [List.mem_append, not_or]
      exact ⟨start, oneLine piece List.mem_cons_self⟩
    rw [unfoldPieces, split_of_not_mem absent]
    simp [trim_append_bare]
  | cons next rest ih =>
    have here : '\n' ∉ acc ++ bare piece := by
      rw [List.mem_append, not_or]
      exact ⟨start, fun inside => oneLine piece List.mem_cons_self (bare_subset piece inside)⟩
    have later : ∀ l ∈ next :: rest, '\n' ∉ l := fun l member =>
      oneLine l (List.mem_cons_of_mem piece member)
    rw [unfoldPieces, List.foldl_cons, unfoldLine_single]
    split_ifs with blank
    · rw [← List.append_assoc]
      apply ih here
      intro l member
      rcases List.mem_cons.mp member with rfl | inRest
      · exact fun inside => later next List.mem_cons_self (List.mem_of_mem_tail inside)
      · exact later l (List.mem_cons_of_mem next inRest)
    · have lines := @ih [] next List.not_mem_nil later
      rw [List.nil_append, List.nil_append] at lines
      rw [← List.append_assoc, split_append_cons here,
        show [acc ++ bare piece, bare next] = [acc ++ bare piece] ++ [bare next] from rfl,
        foldl_unfoldLine_append _ (List.cons_ne_nil _ _), List.map_append, ← lines]
      rfl

/-! ### The readers by their lines -/

theorem split_nonempty (raw : Str) : ∃ piece pieces, split '\n' raw = piece :: pieces :=
  List.exists_cons_of_ne_nil (split_ne_nil '\n' raw)

theorem intercalate_split (raw : Str) : List.intercalate ['\n'] (split '\n' raw) = raw := by
  induction raw with
  | nil => rfl
  | cons c rest ih =>
    rw [split]
    split_ifs with ends
    · obtain ⟨piece, pieces, shape⟩ := split_nonempty rest
      rw [shape] at ih ⊢
      subst ends
      simp only [List.intercalate, List.intersperse] at ih ⊢
      simpa using ih
    · obtain ⟨piece, pieces, shape⟩ := split_nonempty rest
      rw [shape] at ih ⊢
      cases pieces with
      | nil => simpa [List.intercalate] using ih
      | cons next others => simpa [List.intercalate] using ih

theorem unfold_split (raw : Str) :
    (split '\n' (unfold raw)).map trimReturns = (unfoldLines raw).map trimReturns := by
  obtain ⟨piece, pieces, shape⟩ := split_nonempty raw
  have oneLine : ∀ l ∈ piece :: pieces, '\n' ∉ l := fun l member =>
    not_mem_of_mem_split (shape ▸ member)
  have text := unfold_pieces oneLine
  rw [← shape, intercalate_split] at text
  have lines := @split_unfoldPieces [] piece pieces List.not_mem_nil oneLine
  rw [List.nil_append, List.nil_append] at lines
  rw [text, lines, unfoldLines, shape, List.foldl_cons, unfoldLine_first]

theorem trim_bare (line : Str) : trimReturns (bare line) = trimReturns line :=
  trim_append_bare [] line

/-- The lines, and an empty one after the last line end. -/
theorem lines_trimmed (text : Str) :
    (lines text).map trimReturns = (split '\n' text).map trimReturns ∨
      (lines text).map trimReturns ++ [[]] = (split '\n' text).map trimReturns := by
  obtain ⟨front, last, shape⟩ := (List.eq_nil_or_concat' _).resolve_left (split_ne_nil '\n' text)
  unfold lines
  rw [shape]
  have front' : (front.map bare).map trimReturns = front.map trimReturns := by
    rw [List.map_map]
    exact List.map_congr_left fun l _ => trim_bare l
  simp only [List.dropLast_concat, List.getLast?_concat, Option.toList_some]
  by_cases empty : last = []
  · subst empty
    right
    rw [List.map_append, List.map_append, List.append_assoc]
    show (front.map bare).map trimReturns ++ _ = _
    rw [front']
    rfl
  · left
    have kept : ([last].filter fun l => !l.isEmpty) = [last] := by simp [empty]
    rw [kept, List.map_append, List.map_append]
    show (front.map bare).map trimReturns ++ _ = _
    rw [front']

theorem trimReturns_twice (line : Str) : trimReturns (trimReturns line) = trimReturns line :=
  trimEndMatches_of_getLast (getLast_trimEndMatches '\r' line)

theorem parseLoop_trimmed (ls : List Str) (inside : Bool) (out : ParsedVCard) :
    parseLoop (ls.map trimReturns) inside out = parseLoop ls inside out := by
  induction ls generalizing inside out with
  | nil => rfl
  | cons line rest ih =>
    simp only [List.map_cons, parseLoop, trimReturns_twice, ih]

theorem apply_nil (out : ParsedVCard) : out.apply [] = out := rfl

theorem parseLoop_empty (ls : List Str) (inside : Bool) (out : ParsedVCard) :
    parseLoop (ls ++ [[]]) inside out = parseLoop ls inside out := by
  induction ls generalizing inside out with
  | nil => cases inside <;> rfl
  | cons line rest ih => simp only [List.cons_append, parseLoop, ih]

theorem splitCards_trimmed (ls : List Str) (buf : Option (List Str)) (out : List Str) :
    splitCards (ls.map trimReturns) buf out = splitCards ls buf out := by
  induction ls generalizing buf out with
  | nil => rfl
  | cons line rest ih =>
    simp only [List.map_cons, splitCards, trimReturns_twice, ih]

theorem splitCards_empty (ls : List Str) (buf : Option (List Str)) (out : List Str) :
    splitCards (ls ++ [[]]) buf out = splitCards ls buf out := by
  induction ls generalizing buf out with
  | nil => cases buf <;> rfl
  | cons line rest ih =>
    simp only [List.cons_append, splitCards, ih]

/-- The lines of a text, without carriage returns at their ends. -/
def cardLines (raw : Str) : List Str := (unfoldLines raw).map trimReturns

theorem parse_eq (raw : Str) : parse raw = finish (parseLoop (cardLines raw) false {}) := by
  unfold parse cardLines
  rw [← unfold_split, ← parseLoop_trimmed]
  rcases lines_trimmed (unfold raw) with same | more
  · rw [same]
  · rw [← more, parseLoop_empty]

theorem splitVcards_eq (raw : Str) : splitVcards raw = splitCards (cardLines raw) none [] := by
  unfold splitVcards cardLines
  rw [← unfold_split, ← splitCards_trimmed]
  rcases lines_trimmed (unfold raw) with same | more
  · rw [same]
  · rw [← more, splitCards_empty]

end Expresso.Contacts
