import Expresso.CalDav.Uri
import Expresso.CalDav.Lines
import Expresso.Text.Wire
import Expresso.Text.Lossy
import Expresso.Text.Trim

/-! The paths that the server gives for the objects of a calendar, read back by `classify`. -/

namespace Expresso.CalDav
open Text

/-! ### The path of an object -/

/-- How the hyphenated form of an id is read. -/
structure Displayed (crates : Crates) (text : Str) (id : Uuid) : Prop where
  parsed : crates.parseUuid text = some id
  digits : ∀ c ∈ text, c ∈ "-0123456789abcdef".toList

theorem digit_facts : "-0123456789abcdef".toList.all
    (fun c => !isWhitespace c && !(c == '/')) = true := by decide

section
variable {crates : Crates} {text : Str} {id : Uuid} (displayed : Displayed crates text id)
include displayed

theorem Displayed.plain : ∀ c ∈ text, isWhitespace c = false ∧ c ≠ '/' := by
  intro c member
  have facts := List.all_eq_true.mp digit_facts c (displayed.digits c member)
  simpa using facts

theorem Displayed.noSlash : '/' ∉ text := fun slash => (displayed.plain '/' slash).2 rfl

theorem Displayed.parseUuid : parseUuid crates text = some id := by
  have trimmed : trim text = text := trim_eq_self_iff.mpr
    ⟨fun c first => (displayed.plain c (List.mem_of_mem_head? first)).1,
      fun c last => (displayed.plain c (List.mem_of_mem_getLast? last)).1⟩
  rw [CalDav.parseUuid, trimmed, displayed.parsed]

end

/-- The path in an `href` of REPORT and of a sync report. -/
def objectHref (display : Uuid → Str) (userId calendarId : Uuid) (uid : Str) : Str :=
  "/caldav/".toList ++ (display userId ++ '/' :: (display calendarId ++
    '/' :: (uid ++ ".ics".toList)))

/-- The segments of a path that does not end in a slash. -/
theorem classify_segments (crates : Crates) {rest : Str} (nonempty : rest ≠ [])
    (noSlash : rest.getLast? ≠ some '/') :
    classify crates ("/caldav/".toList ++ rest) = classifyObject crates (split '/' rest) := by
  have collection : stripSuffix ['/'] rest = none := by
    apply if_neg
    intro suffix
    obtain ⟨front, whole⟩ := List.isSuffixOf_iff_suffix.mp suffix
    exact noSlash (by rw [← whole, List.getLast?_concat])
  simp only [classify, stripPrefix_append, collection, if_neg nonempty]

section
variable {crates : Crates} {display : Uuid → Str} {userId calendarId : Uuid}
  (user : Displayed crates (display userId) userId)
  (calendar : Displayed crates (display calendarId) calendarId)
include user calendar

theorem classify_objectHref (uid : Str) :
    classify crates (objectHref display userId calendarId uid) =
      if '/' ∈ uid then .unknown else .event userId calendarId (percentDecode uid) := by
  have last : (display userId ++ '/' :: (display calendarId ++
      '/' :: (uid ++ ".ics".toList))).getLast? ≠ some '/' := by
    have ics : ".ics".toList = ".ic".toList ++ ['s'] := by decide
    have whole : display userId ++ '/' :: (display calendarId ++ '/' :: (uid ++ ".ics".toList)) =
        (display userId ++ '/' :: (display calendarId ++ '/' :: (uid ++ ".ic".toList))) ++ ['s'] := by
      rw [ics]
      simp only [List.append_assoc, List.cons_append]
    rw [whole, List.getLast?_concat]
    decide
  have nonempty : display userId ++ '/' :: (display calendarId ++
      '/' :: (uid ++ ".ics".toList)) ≠ [] := List.append_ne_nil_of_right_ne_nil _ (List.cons_ne_nil _ _)
  unfold objectHref
  rw [classify_segments crates nonempty last,
    split_append_cons user.noSlash, split_append_cons calendar.noSlash]
  by_cases slash : '/' ∈ uid
  · have more : 2 ≤ (split '/' (uid ++ ".ics".toList)).length := by
      rw [split_length, List.count_append]
      have some_ := List.count_pos_iff.mpr slash
      omega
    rw [if_pos slash]
    match pieces : split '/' (uid ++ ".ics".toList) with
    | [] | [_] =>
      rw [pieces] at more
      simp at more
    | _ :: _ :: _ => rfl
  · have absent : '/' ∉ uid ++ ".ics".toList := List.not_mem_append slash (by decide)
    rw [if_neg slash, split_of_not_mem absent]
    simp only [classifyObject, user.parseUuid, calendar.parseUuid, stripSuffix_append]

end

/-! ### Percent escapes -/

def isHexDigit (c : Char) : Bool := c ∈ "0123456789abcdefABCDEF".toList

/-- A `%` with two hexadecimal digits after it. -/
def Escapes (s : Str) : Prop :=
  ∃ before a b after, s = before ++ '%' :: a :: b :: after ∧ isHexDigit a ∧ isHexDigit b

theorem hexVal_isSome_iff (b : UInt8) : (hexVal b).isSome = true ↔
    (0x30 ≤ b.toNat ∧ b.toNat ≤ 0x39) ∨ (0x61 ≤ b.toNat ∧ b.toNat ≤ 0x66) ∨
      (0x41 ≤ b.toNat ∧ b.toNat ≤ 0x46) := by
  unfold hexVal
  simp only [Bool.and_eq_true, decide_eq_true_eq, UInt8.le_iff_toNat_le]
  simp
  split
  · simp_all
  · split
    · simp_all
    · split <;> simp_all

theorem isHexDigit_iff (c : Char) : isHexDigit c = true ↔
    (0x30 ≤ c.toNat ∧ c.toNat ≤ 0x39) ∨ (0x61 ≤ c.toNat ∧ c.toNat ≤ 0x66) ∨
      (0x41 ≤ c.toNat ∧ c.toNat ≤ 0x46) := by
  have listed : c ∈ "0123456789abcdefABCDEF".toList ↔
      c.toNat ∈ ("0123456789abcdefABCDEF".toList.map Char.toNat) := by
    rw [List.mem_map]
    exact ⟨fun member => ⟨c, member, rfl⟩, fun ⟨d, member, same⟩ => Char.toNat_inj.mp same ▸ member⟩
  have codes : "0123456789abcdefABCDEF".toList.map Char.toNat =
      [48, 49, 50, 51, 52, 53, 54, 55, 56, 57, 97, 98, 99, 100, 101, 102, 65, 66, 67, 68, 69, 70] := by
    decide
  rw [isHexDigit, decide_eq_true_eq, listed, codes]
  simp only [List.mem_cons, List.not_mem_nil, or_false]
  omega

theorem hexVal_ascii {b : UInt8} (hex : (hexVal b).isSome = true) : b < 0x80 := by
  have range := (hexVal_isSome_iff b).mp hex
  rw [UInt8.lt_iff_toNat_lt]
  simp
  omega

theorem percentDecodeBytes_other {b : UInt8} (other : b ≠ 0x25) (rest : List UInt8) :
    percentDecodeBytes (b :: rest) = b :: percentDecodeBytes rest := by
  match rest with
  | [] | [_] => rfl
  | _ :: _ :: _ => rw [percentDecodeBytes, if_neg other]

theorem percentDecodeBytes_append {front : List UInt8} (plain : ∀ b ∈ front, b ≠ 0x25)
    (rest : List UInt8) :
    percentDecodeBytes (front ++ rest) = front ++ percentDecodeBytes rest := by
  induction front with
  | nil => rfl
  | cons b front ih =>
    rw [List.cons_append, percentDecodeBytes_other (plain b List.mem_cons_self),
      ih fun d member => plain d (List.mem_cons_of_mem b member)]
    rfl

theorem percentDecodeBytes_percent {rest : List UInt8}
    (kept : ∀ h1 h2 more, rest = h1 :: h2 :: more →
      ¬((hexVal h1).isSome = true ∧ (hexVal h2).isSome = true)) :
    percentDecodeBytes (0x25 :: rest) = 0x25 :: percentDecodeBytes rest := by
  match rest with
  | [] | [_] => rfl
  | h1 :: h2 :: more =>
    have digits := kept h1 h2 more rfl
    rw [percentDecodeBytes, if_pos rfl]
    cases first : hexVal h1 with
    | none => rfl
    | some high =>
      cases second : hexVal h2 with
      | none => rfl
      | some low => exact absurd ⟨by rw [first]; rfl, by rw [second]; rfl⟩ digits

/-- Every escape that is read takes two bytes below 128 away. -/
theorem asciiBytes_percentDecodeBytes (bytes : List UInt8) :
    asciiBytes (percentDecodeBytes bytes) ≤ asciiBytes bytes := by
  induction bytes using percentDecodeBytes.induct with
  | case1 h1 h2 rest high low second first ih =>
    have ascii1 := hexVal_ascii (b := h1) (by rw [first]; rfl)
    have ascii2 := hexVal_ascii (b := h2) (by rw [second]; rfl)
    rw [percentDecodeBytes, if_pos rfl, first, second]
    simp only [asciiBytes_cons, if_pos ascii1, if_pos ascii2]
    split <;> omega
  | case2 h1 h2 rest other ih =>
    rw [percentDecodeBytes_percent, asciiBytes_cons, asciiBytes_cons]
    · omega
    · rintro _ _ _ ⟨⟩ ⟨first, second⟩
      obtain ⟨high, first⟩ := Option.isSome_iff_exists.mp first
      obtain ⟨low, second⟩ := Option.isSome_iff_exists.mp second
      exact other high low first second
  | case3 b h1 h2 rest other ih =>
    rw [percentDecodeBytes_other other, asciiBytes_cons, asciiBytes_cons]
    omega
  | case4 b rest short ih =>
    match rest with
    | [] => exact Nat.le_refl _
    | [_] => exact Nat.le_refl _
    | h1 :: h2 :: more => exact absurd rfl (short h1 h2 more)
  | case5 => exact Nat.le_refl _

theorem asciiBytes_escaped {before after : List UInt8} {h1 h2 : UInt8}
    (first : (hexVal h1).isSome = true) (second : (hexVal h2).isSome = true) :
    asciiBytes (percentDecodeBytes (before ++ 0x25 :: h1 :: h2 :: after)) <
      asciiBytes (before ++ 0x25 :: h1 :: h2 :: after) := by
  generalize whole : before ++ 0x25 :: h1 :: h2 :: after = bytes
  induction bytes using percentDecodeBytes.induct generalizing before with
  | case1 g1 g2 rest high low found2 found1 ih =>
    have ascii1 := hexVal_ascii (b := g1) (by rw [found1]; rfl)
    have ascii2 := hexVal_ascii (b := g2) (by rw [found2]; rfl)
    have bound := asciiBytes_percentDecodeBytes rest
    have percent : (0x25 : UInt8) < 0x80 := by decide
    rw [percentDecodeBytes, if_pos rfl, found1, found2]
    simp only [asciiBytes_cons, if_pos ascii1, if_pos ascii2, if_pos percent]
    split <;> omega
  | case2 g1 g2 rest other ih =>
    cases before with
    | nil =>
      obtain ⟨-, rfl, rfl, rfl⟩ : (0x25 : UInt8) = 0x25 ∧ h1 = g1 ∧ h2 = g2 ∧ after = rest := by
        simpa using whole
      obtain ⟨high, found1⟩ := Option.isSome_iff_exists.mp first
      obtain ⟨low, found2⟩ := Option.isSome_iff_exists.mp second
      exact absurd found2 (other high low found1)
    | cons b before =>
      obtain ⟨-, tail⟩ := List.cons.inj whole
      have shorter := ih tail
      rw [percentDecodeBytes_percent, asciiBytes_cons, asciiBytes_cons]
      · omega
      · rintro _ _ _ ⟨⟩ ⟨digit1, digit2⟩
        obtain ⟨high, found1⟩ := Option.isSome_iff_exists.mp digit1
        obtain ⟨low, found2⟩ := Option.isSome_iff_exists.mp digit2
        exact other high low found1 found2
  | case3 b g1 g2 rest other ih =>
    cases before with
    | nil => exact absurd (List.cons.inj whole).1.symm other
    | cons d before =>
      have shorter := ih (List.cons.inj whole).2
      rw [percentDecodeBytes_other other, asciiBytes_cons, asciiBytes_cons]
      omega
  | case4 b rest short ih =>
    cases before with
    | nil => exact absurd (List.cons.inj whole).2.symm (short h1 h2 after)
    | cons d before =>
      obtain ⟨-, tail⟩ := List.cons.inj whole
      have long : (before ++ 0x25 :: h1 :: h2 :: after).length = rest.length :=
        congrArg List.length tail
      rw [List.length_append] at long
      match rest with
      | [] | [_] =>
        simp only [List.length_cons, List.length_nil] at long
        omega
      | g1 :: g2 :: more => exact absurd rfl (short g1 g2 more)
  | case5 =>
    cases before <;> cases whole

/-! ### Escapes in a text -/

theorem encode_ascii {c : Char} (ascii : c.toNat < 128) :
    String.utf8EncodeChar c = [UInt8.ofNat c.toNat] := by
  have small : c.val.toNat ≤ 0x7f := Nat.le_of_lt_succ ascii
  exact if_pos small

theorem hexVal_ofNat {c : Char} (hex : isHexDigit c = true) :
    c.toNat < 128 ∧ (hexVal (UInt8.ofNat c.toNat)).isSome = true := by
  have range := (isHexDigit_iff c).mp hex
  have same := ofNat_toNat (show c.toNat < 256 by omega)
  refine ⟨by omega, (hexVal_isSome_iff _).mpr ?_⟩
  rwa [same]

theorem asBytes_hex {rest : Str} {h : UInt8} {more : List UInt8} (hex : (hexVal h).isSome = true)
    (bytes : asBytes rest = h :: more) :
    ∃ c tail, rest = c :: tail ∧ asBytes tail = more ∧ isHexDigit c = true := by
  have ascii := hexVal_ascii hex
  have small : h.toNat < 128 := UInt8.lt_iff_toNat_lt.mp ascii
  have code : (Char.ofNat h.toNat).toNat = h.toNat := by
    rw [Char.ofNat, dif_pos (.inl (by omega))]
    rfl
  obtain ⟨tail, whole, later⟩ := (asBytes_ascii_cons ascii code more rest).mp bytes
  refine ⟨_, tail, whole, later, (isHexDigit_iff _).mpr ?_⟩
  rw [code]
  exact (hexVal_isSome_iff h).mp hex

theorem percentDecodeBytes_asBytes {s : Str} (plain : ¬Escapes s) :
    percentDecodeBytes (asBytes s) = asBytes s := by
  induction s with
  | nil => rfl
  | cons c rest ih =>
    have later : ¬Escapes rest := fun ⟨before, a, b, after, whole, hexes⟩ =>
      plain ⟨c :: before, a, b, after, by rw [whole]; rfl, hexes⟩
    rw [asBytes_cons]
    by_cases percent : c = '%'
    · subst percent
      show percentDecodeBytes (0x25 :: asBytes rest) = 0x25 :: asBytes rest
      rw [percentDecodeBytes_percent, ih later]
      rintro h1 h2 more bytes ⟨first, second⟩
      obtain ⟨a, tail, rfl, bytes', hexA⟩ := asBytes_hex first bytes
      obtain ⟨b, after, rfl, -, hexB⟩ := asBytes_hex second bytes'
      exact plain ⟨[], a, b, after, rfl, hexA, hexB⟩
    · rw [percentDecodeBytes_append, ih later]
      rintro b member rfl
      have inside : (0x25 : UInt8) ∈ asBytes [c] := by
        rw [asBytes_cons]
        exact List.mem_append_left _ member
      exact percent (List.mem_singleton.mp
        (ascii_mem_asBytes (c := '%') (by decide) (by decide) inside)).symm

/-- A text is its own decoding, just where it holds no escape. -/
theorem percentDecode_eq_iff (s : Str) : percentDecode s = s ↔ ¬Escapes s := by
  constructor
  · rintro same ⟨before, a, b, after, rfl, hexA, hexB⟩
    obtain ⟨ascii1, first⟩ := hexVal_ofNat hexA
    obtain ⟨ascii2, second⟩ := hexVal_ofNat hexB
    have bytes : asBytes (before ++ '%' :: a :: b :: after) = asBytes before ++
        0x25 :: UInt8.ofNat a.toNat :: UInt8.ofNat b.toNat :: asBytes after := by
      rw [asBytes_append, asBytes_cons, asBytes_cons, asBytes_cons, encode_ascii ascii1,
        encode_ascii ascii2]
      rfl
    have fewer := @asciiBytes_escaped (asBytes before) (asBytes after) _ _ first second
    rw [← bytes, asciiBytes_asBytes, ← asciiChars_fromUtf8Lossy] at fewer
    exact absurd (congrArg asciiChars same) (Nat.ne_of_lt fewer)
  · intro plain
    rw [percentDecode, percentDecodeBytes_asBytes plain, fromUtf8Lossy_asBytes]

/-! ### The text in the response -/

/-- `xml::escape`. -/
def xmlEscapeChar (c : Char) : Str :=
  if c = '<' then "&lt;".toList else if c = '>' then "&gt;".toList
  else if c = '&' then "&amp;".toList else if c = '"' then "&quot;".toList
  else if c = '\'' then "&apos;".toList else [c]

def xmlEscape (s : Str) : Str := s.flatMap xmlEscapeChar

/-- The text that a reader of XML takes from its entities. -/
def characterData : Str → Str
  | '&' :: 'l' :: 't' :: ';' :: rest => '<' :: characterData rest
  | '&' :: 'g' :: 't' :: ';' :: rest => '>' :: characterData rest
  | '&' :: 'a' :: 'm' :: 'p' :: ';' :: rest => '&' :: characterData rest
  | '&' :: 'q' :: 'u' :: 'o' :: 't' :: ';' :: rest => '"' :: characterData rest
  | '&' :: 'a' :: 'p' :: 'o' :: 's' :: ';' :: rest => '\'' :: characterData rest
  | c :: rest => c :: characterData rest
  | [] => []

theorem characterData_cons {c : Char} (other : c ≠ '&') (rest : Str) :
    characterData (c :: rest) = c :: characterData rest := by
  rw [characterData] <;> simp [other]

theorem characterData_xmlEscape (s : Str) : characterData (xmlEscape s) = s := by
  induction s with
  | nil => rfl
  | cons c rest ih =>
    have step : xmlEscape (c :: rest) = xmlEscapeChar c ++ xmlEscape rest := rfl
    rw [step]
    by_cases less : c = '<'
    · subst less
      exact congrArg ('<' :: ·) ih
    by_cases greater : c = '>'
    · subst greater
      exact congrArg ('>' :: ·) ih
    by_cases ampersand : c = '&'
    · subst ampersand
      exact congrArg ('&' :: ·) ih
    by_cases quote : c = '"'
    · subst quote
      exact congrArg ('"' :: ·) ih
    by_cases apostrophe : c = '\''
    · subst apostrophe
      exact congrArg ('\'' :: ·) ih
    have plain : xmlEscapeChar c = [c] := by
      simp [xmlEscapeChar, less, greater, ampersand, quote, apostrophe]
    rw [plain, List.singleton_append, characterData_cons ampersand, ih]

/-- The `href` of an object, as `append_object` and `push_member` write it. -/
def hrefText (display : Uuid → Str) (userId calendarId : Uuid) (uid : Str) : Str :=
  xmlEscape (objectHref display userId calendarId uid)

/-- The path leads back to its object, just where the UID has no slash and no escape in it. -/
theorem classify_href_iff {crates : Crates} {display : Uuid → Str} {userId calendarId : Uuid}
    (user : Displayed crates (display userId) userId)
    (calendar : Displayed crates (display calendarId) calendarId) (uid : Str) :
    classify crates (characterData (hrefText display userId calendarId uid)) =
        .event userId calendarId uid ↔
      '/' ∉ uid ∧ ¬Escapes uid := by
  rw [hrefText, characterData_xmlEscape, classify_objectHref user calendar, ← percentDecode_eq_iff]
  by_cases slash : '/' ∈ uid
  · rw [if_pos slash]
    exact iff_of_false (fun same => nomatch same) fun both => both.1 slash
  · rw [if_neg slash, Target.event.injEq]
    exact ⟨fun same => ⟨slash, same.2.2⟩, fun both => ⟨rfl, rfl, both.2⟩⟩

/-! ### UIDs with a slash or an escape -/

def sampleDisplay (id : Uuid) : Str :=
  if id = 1 then "00000000-0000-0000-0000-000000000001".toList
  else "00000000-0000-0000-0000-000000000002".toList

theorem sample_displayed : Displayed sampleCrates (sampleDisplay 1) 1 ∧
    Displayed sampleCrates (sampleDisplay 2) 2 := by
  have digits : (sampleDisplay 1 ++ sampleDisplay 2).all
      (fun c => c ∈ "-0123456789abcdef".toList) = true := by decide
  have inside : ∀ c ∈ sampleDisplay 1 ++ sampleDisplay 2, c ∈ "-0123456789abcdef".toList := by
    intro c member
    simpa using List.all_eq_true.mp digits c member
  exact ⟨⟨by decide, fun c member => inside c (List.mem_append_left _ member)⟩,
    by decide, fun c member => inside c (List.mem_append_right _ member)⟩

theorem classify_href_iff_plain :
    classify sampleCrates (characterData (hrefText sampleDisplay 1 2 "a&b@host 100%".toList)) =
        .event 1 2 "a&b@host 100%".toList ↔
      '/' ∉ "a&b@host 100%".toList ∧ ¬Escapes "a&b@host 100%".toList :=
  classify_href_iff sample_displayed.1 sample_displayed.2 _

/-- Both UIDs are stored: the path of the first is no path of an object, and that of the second
leads to another UID. -/
theorem href_leads_elsewhere :
    (parseVevent sampleCrates (plainBody "a/b".toList)).toOption.map (·.uid) =
        some "a/b".toList ∧
      classify sampleCrates (characterData (hrefText sampleDisplay 1 2 "a/b".toList)) = .unknown ∧
      (parseVevent sampleCrates (plainBody "a%41".toList)).toOption.map (·.uid) =
        some "a%41".toList ∧
      classify sampleCrates (characterData (hrefText sampleDisplay 1 2 "a%41".toList)) =
        .event 1 2 "aA".toList := by
  decide

end Expresso.CalDav
