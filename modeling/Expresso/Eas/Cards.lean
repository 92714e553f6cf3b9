import Expresso.Contacts.Export
import Expresso.CalDav.Vtodo
import Expresso.Text.Replace
import Expresso.Text.Trim

/-! The cards that the ActiveSync bridge writes for a contact of a device, and what the contacts
service reads in them. Its reader takes no escape back. -/

namespace Expresso.Eas
open Text
open CalDav (escapeText escapeChar isSpecial terminated Plain Leads)
open Contacts (ParsedVCard ContactEmail)

/-! ### The writer -/

def vcardEscape (v : Str) : Str :=
  replaceChar '\n' "\\n".toList (replaceChar ',' "\\,".toList
    (replaceChar ';' "\\;".toList (replaceChar '\\' "\\\\".toList v)))

theorem vcardEscape_eq (v : Str) : vcardEscape v = escapeText v := by
  unfold vcardEscape replaceChar escapeText
  rw [List.flatMap_assoc, List.flatMap_assoc, List.flatMap_assoc]
  apply List.flatMap_congr
  intro c _
  unfold escapeChar
  by_cases backslash : c = '\\'
  · subst backslash
    decide
  by_cases semicolon : c = ';'
  · subst semicolon
    decide
  by_cases comma : c = ','
  · subst comma
    decide
  by_cases feed : c = '\n'
  · subst feed
    decide
  simp [backslash, semicolon, comma, feed]

/-- One line for a value. -/
def line (head value : Str) : Str := head ++ ':' :: value

/-- A text that is written as it is, without blanks around it. -/
structure Verbatim (v : Str) : Prop where
  trimmed : trim v = v
  unescaped : ∀ c ∈ v, isSpecial c = false

/-- A contact as a device uploads it. -/
structure ContactUpsert where
  uid : Str
  first : Option Str
  last : Option Str
  fileAs : Option Str
  email : Option Str
  phone : Option Str
  company : Option Str
  deriving DecidableEq

namespace ContactUpsert

def fnDisplay (u : ContactUpsert) : Str :=
  u.fileAs.getD <| match u.first, u.last with
    | some f, some l => f ++ ' ' :: l
    | some f, none => f
    | none, some l => l
    | none, none => "Unnamed".toList

def buildVcard (u : ContactUpsert) : Str :=
  "BEGIN:VCARD\r\nVERSION:3.0\r\n".toList ++
    ("UID:".toList ++ u.uid ++ "\r\n".toList) ++
    ("N:".toList ++ vcardEscape (u.last.getD []) ++ ";".toList ++ vcardEscape (u.first.getD []) ++
      ";;;\r\n".toList) ++
    ("FN:".toList ++ vcardEscape u.fnDisplay ++ "\r\n".toList) ++
    (u.company.elim [] fun o => "ORG:".toList ++ vcardEscape o ++ "\r\n".toList) ++
    (u.email.elim [] fun e => "EMAIL;TYPE=INTERNET:".toList ++ e ++ "\r\n".toList) ++
    (u.phone.elim [] fun p => "TEL;TYPE=CELL:".toList ++ p ++ "\r\n".toList) ++
    "END:VCARD\r\n".toList

/-! ### What should come back -/

/-- The card, line by line. -/
def lines (u : ContactUpsert) : List Str :=
  ["BEGIN:VCARD".toList, line "VERSION".toList "3.0".toList, line "UID".toList u.uid,
    line "N".toList (escapeText (u.last.getD []) ++ ';' ::
      (escapeText (u.first.getD []) ++ ";;;".toList)),
    line "FN".toList (escapeText u.fnDisplay)] ++
    (u.company.map fun o => line "ORG".toList (escapeText o)).toList ++
    (u.email.map fun e => line "EMAIL;TYPE=INTERNET".toList e).toList ++
    (u.phone.map fun p => line "TEL;TYPE=CELL".toList p).toList ++ ["END:VCARD".toList]

/-- The fields of the upload as the contacts service has them. -/
def sent (u : ContactUpsert) : ParsedVCard where
  uid := u.uid
  fullName := some u.fnDisplay
  familyName := u.last
  givenName := u.first
  organization := u.company
  email := u.email
  phone := u.phone
  emails := (u.email.map fun e => ⟨e, none⟩).toList
  addresses := []
  birthday := none
  nickname := none

/-- The service finds the lines of the card and reads the uploaded fields. -/
def ReadsBack (u : ContactUpsert) : Prop :=
  Contacts.body u.buildVcard = u.lines ∧ Contacts.parse u.buildVcard = .ok u.sent

/-- The UID, the address and the number are single trimmed lines, the UID not empty; names, display
name and company have nothing to escape and no blanks around; no given field is empty that the
reader takes for a missing one. -/
structure Clean (u : ContactUpsert) : Prop where
  uid : u.uid ≠ [] ∧ trim u.uid = u.uid ∧ '\n' ∉ u.uid
  last : ∀ v ∈ u.last, v ≠ [] ∧ Verbatim v
  first : ∀ v ∈ u.first, v ≠ [] ∧ Verbatim v
  fileAs : ∀ v ∈ u.fileAs, Verbatim v
  company : ∀ v ∈ u.company, Verbatim v
  email : ∀ v ∈ u.email, v ≠ [] ∧ trim v = v ∧ '\n' ∉ v
  phone : ∀ v ∈ u.phone, trim v = v ∧ '\n' ∉ v

end ContactUpsert

/-! ### The written lines -/

theorem plain_append {head value : Str} (plain : Plain head) :
    Plain (head ++ value) ↔ Plain value := by
  constructor
  · intro whole
    refine ⟨fun inside => whole.oneLine (List.mem_append_right head inside), fun last => ?_⟩
    apply whole.noReturn
    rw [List.getLast?_append, last]
    rfl
  · intro part
    refine ⟨?_, ?_⟩
    · rw [List.mem_append, not_or]
      exact ⟨plain.oneLine, part.oneLine⟩
    · have last := part.noReturn
      rw [List.getLast?_append]
      cases found : value.getLast? with
      | none => exact plain.noReturn
      | some d => rwa [found] at last

theorem plain_line {head value : Str} (plain : Plain (line head [])) :
    Plain (line head value) ↔ Plain value := by
  have shape : line head value = line head [] ++ value := by simp [line]
  rw [shape]
  exact plain_append plain

theorem noReturn_of_trimmed {v : Str} (trimmed : trim v = v) : v.getLast? ≠ some '\r' := by
  intro last
  exact absurd ((trim_eq_self_iff.mp trimmed).2 '\r' last) (by decide)

theorem isSpecial_iff {c : Char} :
    isSpecial c = true ↔ c = '\\' ∨ c = '\n' ∨ c = ',' ∨ c = ';' := by
  simp [isSpecial, or_assoc]

theorem length_escapeText (v : Str) : v.length ≤ (escapeText v).length ∧
    ((escapeText v).length = v.length → ∀ c ∈ v, isSpecial c = false) := by
  induction v with
  | nil => exact ⟨le_refl _, fun _ => List.forall_mem_nil _⟩
  | cons c rest ih =>
    have text : escapeText (c :: rest) = escapeChar c ++ escapeText rest := List.flatMap_cons
    rw [text, List.length_append, List.length_cons]
    cases special : isSpecial c with
    | false =>
      rw [CalDav.escapeChar_of_not_special special]
      rw [List.length_singleton]
      refine ⟨by omega, fun same => ?_⟩
      have later := ih.2 (by omega)
      exact List.forall_mem_cons.mpr ⟨special, later⟩
    | true =>
      have two : (escapeChar c).length = 2 := by
        rcases isSpecial_iff.1 special with rfl | rfl | rfl | rfl <;> rfl
      rw [two]
      have longer := ih.1
      exact ⟨by omega, fun same => absurd same (by omega)⟩

theorem escapeChar_ends {c : Char} (visible : isWhitespace c = false) :
    (∀ d ∈ (escapeChar c).head?, isWhitespace d = false) ∧
      ∀ d ∈ (escapeChar c).getLast?, isWhitespace d = false := by
  cases special : isSpecial c with
  | false =>
    rw [CalDav.escapeChar_of_not_special special]
    simp [visible]
  | true =>
    rcases isSpecial_iff.1 special with rfl | rfl | rfl | rfl <;>
      exact ⟨by rintro d ⟨⟩; decide, by rintro d ⟨⟩; decide⟩

theorem escapeChar_ne_nil (c : Char) : escapeChar c ≠ [] := by
  unfold escapeChar
  split_ifs <;> exact List.cons_ne_nil _ _

theorem trim_escapeText {v : Str} (trimmed : trim v = v) :
    trim (escapeText v) = escapeText v := by
  obtain ⟨head, last⟩ := trim_eq_self_iff.mp trimmed
  refine trim_eq_self_iff.mpr ⟨?_, ?_⟩
  · cases v with
    | nil => exact head
    | cons c rest =>
      have text : escapeText (c :: rest) = escapeChar c ++ escapeText rest := List.flatMap_cons
      rw [text, List.head?_append_of_ne_nil _ (escapeChar_ne_nil c)]
      exact (escapeChar_ends (head c rfl)).1
  · rcases v.eq_nil_or_concat' with rfl | ⟨front, c, rfl⟩
    · exact last
    · have text : escapeText (front ++ [c]) = escapeText front ++ escapeChar c := by
        unfold escapeText
        rw [List.flatMap_append, List.flatMap_singleton]
      rw [text, List.getLast?_append_of_ne_nil _ (escapeChar_ne_nil c)]
      exact (escapeChar_ends (last c List.getLast?_concat)).2

/-- A value comes back as it was if and only if there was nothing to escape and to trim. -/
theorem trim_escapeText_iff {v : Str} : trim (escapeText v) = v ↔ Verbatim v := by
  constructor
  · intro same
    have trimmed : trim v = v := by
      rw [← same]
      exact trim_trim _
    rw [trim_escapeText trimmed] at same
    exact ⟨trimmed, (length_escapeText v).2 (congrArg List.length same)⟩
  · intro verbatim
    rw [CalDav.escapeText_of_plain verbatim.unescaped, verbatim.trimmed]

theorem forall_optional {α : Type} {f : α → Str} {o : Option α} {holds : Str → Prop} :
    (∀ l ∈ (o.map f).toList, holds l) ↔ ∀ v ∈ o, holds (f v) := by
  cases o <;> simp

theorem leads_line {c : Char} {head value : Str} (blank : c ≠ ' ') (tab : c ≠ '\t') :
    Leads (line (c :: head) value) :=
  ⟨fun same => blank (Option.some.inj same), fun same => tab (Option.some.inj same)⟩

/-- A line that is written only for a value that is there. -/
theorem terminated_optional {α : Type} (head : Str) (value : α → Str) (o : Option α) :
    CalDav.terminated (o.map fun v => line head (value v)).toList =
      o.elim [] fun v => (head ++ [':']) ++ value v ++ "\r\n".toList := by
  cases o <;> simp [terminated, line]

namespace ContactUpsert

theorem buildVcard_eq (u : ContactUpsert) : u.buildVcard = terminated u.lines := by
  unfold buildVcard lines
  have opening : terminated ["BEGIN:VCARD".toList, line "VERSION".toList "3.0".toList,
      line "UID".toList u.uid,
      line "N".toList (escapeText (u.last.getD []) ++ ';' ::
        (escapeText (u.first.getD []) ++ ";;;".toList)),
      line "FN".toList (escapeText u.fnDisplay)] =
      "BEGIN:VCARD\r\nVERSION:3.0\r\n".toList ++ ("UID:".toList ++ u.uid ++ "\r\n".toList) ++
        ("N:".toList ++ escapeText (u.last.getD []) ++ ";".toList ++
          escapeText (u.first.getD []) ++ ";;;\r\n".toList) ++
        ("FN:".toList ++ escapeText u.fnDisplay ++ "\r\n".toList) := by
    simp [terminated, line]
  have company := terminated_optional "ORG".toList escapeText u.company
  have email := terminated_optional "EMAIL;TYPE=INTERNET".toList (fun e => e) u.email
  have phone := terminated_optional "TEL;TYPE=CELL".toList (fun p => p) u.phone
  simp only [vcardEscape_eq]
  rw [CalDav.terminated_append, CalDav.terminated_append, CalDav.terminated_append,
    CalDav.terminated_append, opening, company, email, phone]
  rfl

theorem forall_lines {u : ContactUpsert} {holds : Str → Prop} : (∀ l ∈ u.lines, holds l) ↔
    holds "BEGIN:VCARD".toList ∧ holds (line "VERSION".toList "3.0".toList) ∧
      holds (line "UID".toList u.uid) ∧
      holds (line "N".toList (escapeText (u.last.getD []) ++ ';' ::
        (escapeText (u.first.getD []) ++ ";;;".toList))) ∧
      holds (line "FN".toList (escapeText u.fnDisplay)) ∧
      (∀ o ∈ u.company, holds (line "ORG".toList (escapeText o))) ∧
      (∀ e ∈ u.email, holds (line "EMAIL;TYPE=INTERNET".toList e)) ∧
      (∀ p ∈ u.phone, holds (line "TEL;TYPE=CELL".toList p)) ∧ holds "END:VCARD".toList := by
  unfold lines
  simp only [List.forall_mem_append, List.forall_mem_cons, forall_optional, and_assoc]
  simp

theorem lines_lead (u : ContactUpsert) : ∀ l ∈ u.lines, Leads l := by
  rw [forall_lines]
  refine ⟨⟨by decide, by decide⟩, leads_line (by decide) (by decide),
    leads_line (by decide) (by decide), leads_line (by decide) (by decide),
    leads_line (by decide) (by decide), fun _ _ => leads_line (by decide) (by decide),
    fun _ _ => leads_line (by decide) (by decide), fun _ _ => leads_line (by decide) (by decide),
    ⟨by decide, by decide⟩⟩

/-- Whether the lines of a card are read as they are meant. -/
theorem lines_plain_iff (u : ContactUpsert) :
    Contacts.body u.buildVcard = u.lines ↔ ∀ l ∈ u.lines, Plain l := by
  constructor
  · intro same
    rw [← same]
    exact Contacts.body_plain u.buildVcard
  · intro plain
    rw [buildVcard_eq]
    exact Contacts.body_lines plain u.lines_lead

theorem plain_names (u : ContactUpsert) : Plain (line "N".toList
    (escapeText (u.last.getD []) ++ ';' :: (escapeText (u.first.getD []) ++ ";;;".toList))) := by
  rw [plain_line ⟨by decide, by decide⟩]
  refine ⟨?_, ?_⟩
  · simp [CalDav.escapeText_oneLine]
  · simp [List.getLast?_append, List.getLast?_cons]

end ContactUpsert

/-! ### The fields that are read -/

/-- A head that names a property and delimits no card. -/
structure Names (head : Str) (property : Contacts.Property) : Prop where
  noColon : ':' ∉ head
  named : Contacts.Property.named (toAsciiUppercase ((split ';' head).headD head)) = some property
  nonempty : 1 ≤ head.length
  other : (toAsciiLowercase (head ++ [':'])).take 2 ∉ ["be".toList, "en".toList]

theorem take_of_sameLetters {head value text : Str} (nonempty : 1 ≤ head.length)
    (same : Contacts.eqIgnoreAsciiCase (line head value) text = true) :
    (toAsciiLowercase (head ++ [':'])).take 2 = (toAsciiLowercase text).take 2 := by
  have equal : toAsciiLowercase (line head value) = toAsciiLowercase text := of_decide_eq_true same
  have shape : toAsciiLowercase (line head value) =
      toAsciiLowercase (head ++ [':']) ++ toAsciiLowercase value := by
    simp [line, toAsciiLowercase]
  have long : 2 ≤ (toAsciiLowercase (head ++ [':'])).length := by
    simp only [toAsciiLowercase, List.length_map, List.length_append, List.length_singleton]
    omega
  rw [← equal, shape, List.take_append_of_le_length long]

section
variable {head value : Str} {property : Contacts.Property}

theorem parseLoop_line (names : Names head property) (plain : Plain (line head value))
    (rest : List Str) (out : ParsedVCard) :
    Contacts.parseLoop (line head value :: rest) true out =
      Contacts.parseLoop rest true (out.set head value property) := by
  have begins : Contacts.beginsCard (line head value) = false := by
    by_contra same
    rw [Bool.not_eq_false] at same
    have first := take_of_sameLetters names.nonempty same
    exact names.other (first ▸ (by decide))
  have ends : Contacts.endsCard (line head value) = false := by
    by_contra same
    rw [Bool.not_eq_false] at same
    have first := take_of_sameLetters names.nonempty same
    exact names.other (first ▸ (by decide))
  have effect : out.apply (line head value) = out.set head value property := by
    unfold ParsedVCard.apply line
    rw [splitOnce_append names.noColon]
    simp only [names.named]
  rw [Contacts.parseLoop, CalDav.trimEndMatches_of_getLast plain.noReturn, begins, ends, effect]
  rfl

theorem parseLoop_optional (names : Names head property) {f : Str → Str} {o : Option Str}
    (plain : ∀ v ∈ o, Plain (line head (f v))) (rest : List Str) (out : ParsedVCard) :
    Contacts.parseLoop ((o.map fun v => line head (f v)).toList ++ rest) true out =
      Contacts.parseLoop rest true (o.elim out fun v => out.set head (f v) property) := by
  cases o with
  | none => rfl
  | some v => exact parseLoop_line names (plain v rfl) rest out

end

/-- A component of a name, if it is not empty. -/
def namePart : Option Str → Option Str
  | some (c :: rest) => some (trim (c :: rest))
  | _ => none

namespace ContactUpsert

def nameParts (u : ContactUpsert) : List Str :=
  split ';' (escapeText (u.last.getD []) ++ ';' :: (escapeText (u.first.getD []) ++ ";;;".toList))

/-- The address, unless it is blank. -/
def address (u : ContactUpsert) : Option Str :=
  u.email.bind fun e => if trim e = [] then none else some (trim e)

/-- What the reader makes of the lines. -/
def received (u : ContactUpsert) : ParsedVCard where
  uid := trim u.uid
  fullName := some (trim (escapeText u.fnDisplay))
  familyName := namePart u.nameParts[0]?
  givenName := namePart u.nameParts[1]?
  organization := u.company.map fun o => trim (escapeText o)
  email := u.address
  phone := u.phone.map trim
  emails := (u.address.map fun e => ⟨e, none⟩).toList
  addresses := []
  birthday := none
  nickname := none

/-- The properties under the heads of an uploaded card, and the label of its address. -/
theorem head_facts :
    (["UID".toList, "N".toList, "FN".toList, "ORG".toList, "EMAIL;TYPE=INTERNET".toList,
        "TEL;TYPE=CELL".toList].map fun head =>
      Contacts.Property.named (toAsciiUppercase ((split ';' head).headD head))) =
        [some .uid, some .n, some .fn, some .org, some .email, some .tel] ∧
      Contacts.emailTypeLabel "EMAIL;TYPE=INTERNET".toList = none := by
  decide

theorem names_heads : Names "UID".toList .uid ∧ Names "N".toList .n ∧ Names "FN".toList .fn ∧
    Names "ORG".toList .org ∧ Names "EMAIL;TYPE=INTERNET".toList .email ∧
    Names "TEL;TYPE=CELL".toList .tel := by
  obtain ⟨uid, n, fn, org, email, tel⟩ : _ ∧ _ ∧ _ ∧ _ ∧ _ ∧ _ := by
    simpa only [List.map_cons, List.map_nil, List.cons.injEq, and_true] using head_facts.1
  exact ⟨⟨by decide, uid, by decide, by decide⟩, ⟨by decide, n, by decide, by decide⟩,
    ⟨by decide, fn, by decide, by decide⟩, ⟨by decide, org, by decide, by decide⟩,
    ⟨by decide, email, by decide, by decide⟩, ⟨by decide, tel, by decide, by decide⟩⟩

theorem parseLoop_lines {u : ContactUpsert} (plain : ∀ l ∈ u.lines, Plain l) :
    Contacts.parseLoop u.lines false {} = u.received := by
  obtain ⟨-, -, uid, n, fn, org, email, tel, -⟩ := forall_lines.mp plain
  unfold lines
  simp only [List.cons_append, List.nil_append, List.append_assoc]
  show Contacts.parseLoop (line "UID".toList u.uid :: _) true {} = _
  obtain ⟨namesUid, namesN, namesFn, namesOrg, namesEmail, namesTel⟩ := names_heads
  rw [parseLoop_line namesUid uid, parseLoop_line namesN n, parseLoop_line namesFn fn,
    parseLoop_optional namesOrg org, parseLoop_optional namesEmail email,
    parseLoop_optional namesTel tel]
  show (u.phone.elim _ _ : ParsedVCard) = _
  have label := head_facts.2
  have names : (({} : ParsedVCard).set "UID".toList u.uid .uid).set "N".toList _ .n =
      { uid := trim u.uid, familyName := namePart u.nameParts[0]?,
        givenName := namePart u.nameParts[1]? } := rfl
  rw [names]
  unfold received address
  cases u.email with
  | none => cases u.company <;> cases u.phone <;> rfl
  | some e =>
    by_cases blank : trim e = []
    · cases u.company <;> cases u.phone <;>
        simp only [Option.elim_none, Option.elim_some, Option.bind_some, ParsedVCard.set, label,
          if_pos blank] <;> rfl
    · cases u.company <;> cases u.phone <;>
        simp only [Option.elim_none, Option.elim_some, Option.bind_some, ParsedVCard.set, label,
          if_neg blank] <;> rfl

theorem parse_buildVcard {u : ContactUpsert} (plain : ∀ l ∈ u.lines, Plain l) :
    Contacts.parse u.buildVcard = Contacts.finish u.received := by
  rw [Contacts.parse_body, u.lines_plain_iff.mpr plain, parseLoop_lines plain]

end ContactUpsert

/-! ### The components of the name -/

theorem semicolon_escapeText {v : Str} (absent : ';' ∉ v) : ';' ∉ escapeText v := by
  intro inside
  obtain ⟨c, member, escaped⟩ := List.mem_flatMap.mp inside
  have same : c = ';' := by
    unfold escapeChar at escaped
    split_ifs at escaped <;> simp_all [eq_comm]
  exact absent (same ▸ member)

theorem split_escapeText {v : Str} (absent : ';' ∉ v) (rest : Str) :
    split ';' (escapeText v ++ ';' :: rest) = escapeText v :: split ';' rest :=
  split_append_cons (semicolon_escapeText absent) rest

theorem Verbatim.escape {v : Str} (verbatim : Verbatim v) : escapeText v = v :=
  CalDav.escapeText_of_plain verbatim.unescaped

theorem Verbatim.absent {v : Str} (verbatim : Verbatim v) {c : Char}
    (special : isSpecial c = true) : c ∉ v := by
  intro inside
  rw [verbatim.unescaped c inside] at special
  cases special

/-- A component of the name comes back if it has nothing to escape: a semicolon ends it early. -/
theorem namePart_iff (v : Option Str) (rest : Str) :
    namePart (split ';' (escapeText (v.getD []) ++ ';' :: rest))[0]? = v ↔
      ∀ w ∈ v, w ≠ [] ∧ Verbatim w := by
  cases v with
  | none => exact iff_of_true rfl nofun
  | some l =>
    have one : (∀ w ∈ some l, w ≠ [] ∧ Verbatim w) ↔ l ≠ [] ∧ Verbatim l := by simp
    rw [one, Option.getD_some]
    constructor
    · intro read
      obtain ⟨piece, pieces, shape⟩ :=
        List.exists_cons_of_ne_nil (split_ne_nil ';' (escapeText l ++ ';' :: rest))
      have noSemicolon : ';' ∉ piece :=
        not_mem_of_mem_split (shape ▸ List.mem_cons_self)
      rw [shape, List.getElem?_cons_zero] at read
      cases piece with
      | nil => cases read
      | cons c tail =>
        have trimmed : trim (c :: tail) = l := Option.some.inj read
        have absent : ';' ∉ l := fun inside =>
          noSemicolon (trim_subset _ (trimmed ▸ inside))
        rw [split_escapeText absent] at shape
        rw [← (List.cons.inj shape).1] at trimmed
        refine ⟨?_, trim_escapeText_iff.mp trimmed⟩
        rintro rfl
        cases (List.cons.inj shape).1
    · intro ⟨given, verbatim⟩
      rw [split_escapeText (verbatim.absent rfl), verbatim.escape, List.getElem?_cons_zero]
      cases l with
      | nil => exact absurd rfl given
      | cons c tail => exact congrArg Option.some verbatim.trimmed

theorem split_second {v : Option Str} (clean : ∀ w ∈ v, w ≠ [] ∧ Verbatim w) (rest : Str) :
    (split ';' (escapeText (v.getD []) ++ ';' :: rest))[1]? = (split ';' rest)[0]? := by
  have absent : ';' ∉ v.getD [] := by
    cases v with
    | none => exact List.not_mem_nil
    | some l => exact (clean l rfl).2.absent rfl
  rw [split_escapeText absent, List.getElem?_cons_succ]

theorem map_trim_iff {f : Str → Str} {holds : Str → Prop} (o : Option Str)
    (each : ∀ v, trim (f v) = v ↔ holds v) :
    (o.map fun v => trim (f v)) = o ↔ ∀ v ∈ o, holds v := by
  cases o with
  | none => exact iff_of_true rfl nofun
  | some v => simp [each]

namespace ContactUpsert

/-- A display name made of clean names is clean. -/
theorem verbatim_fnDisplay {u : ContactUpsert} (last : ∀ v ∈ u.last, v ≠ [] ∧ Verbatim v)
    (first : ∀ v ∈ u.first, v ≠ [] ∧ Verbatim v) :
    Verbatim u.fnDisplay ↔ ∀ v ∈ u.fileAs, Verbatim v := by
  obtain ⟨uid, f, l, fileAs, email, phone, company⟩ := u
  cases fileAs with
  | some v => simp [fnDisplay]
  | none =>
    apply iff_of_true _ nofun
    cases f with
    | none =>
      cases l with
      | none =>
        have plain : "Unnamed".toList.all (fun c => !isSpecial c) = true := by decide
        have unnamed : Verbatim "Unnamed".toList := ⟨by decide, by simpa using plain⟩
        exact unnamed
      | some l => exact (last l rfl).2
    | some f =>
      cases l with
      | none => exact (first f rfl).2
      | some l =>
        obtain ⟨someFirst, cleanFirst⟩ := first f rfl
        obtain ⟨someLast, cleanLast⟩ := last l rfl
        refine ⟨trim_eq_self_iff.mpr ⟨?_, ?_⟩, ?_⟩
        · show ∀ c ∈ (f ++ ' ' :: l).head?, _
          rw [List.head?_append_of_ne_nil _ someFirst]
          exact (trim_eq_self_iff.mp cleanFirst.trimmed).1
        · show ∀ c ∈ (f ++ ' ' :: l).getLast?, _
          rw [List.getLast?_append_of_ne_nil _ (List.cons_ne_nil _ _),
            ← List.singleton_append, List.getLast?_append_of_ne_nil _ someLast]
          exact (trim_eq_self_iff.mp cleanLast.trimmed).2
        · intro c member
          rcases List.mem_append.mp member with inFirst | later
          · exact cleanFirst.unescaped c inFirst
          · rcases List.mem_cons.mp later with rfl | inLast
            · rfl
            · exact cleanLast.unescaped c inLast

theorem address_iff (u : ContactUpsert) :
    u.address = u.email ↔ ∀ v ∈ u.email, v ≠ [] ∧ trim v = v := by
  unfold address
  cases u.email with
  | none => exact iff_of_true rfl nofun
  | some e =>
    have one : (∀ v ∈ some e, v ≠ [] ∧ trim v = v) ↔ e ≠ [] ∧ trim e = e := by simp
    rw [one, Option.bind_some]
    split_ifs with blank
    · constructor
      · nofun
      · intro ⟨given, trimmed⟩
        exact absurd (trimmed.symm.trans blank) given
    · rw [Option.some.injEq]
      constructor
      · intro trimmed
        exact ⟨trimmed ▸ blank, trimmed⟩
      · exact And.right

/-- The reader gives back what was sent. -/
theorem received_eq_sent_iff (u : ContactUpsert) : u.received = u.sent ↔
    trim u.uid = u.uid ∧ (∀ v ∈ u.last, v ≠ [] ∧ Verbatim v) ∧
      (∀ v ∈ u.first, v ≠ [] ∧ Verbatim v) ∧ (∀ v ∈ u.fileAs, Verbatim v) ∧
      (∀ v ∈ u.company, Verbatim v) ∧ (∀ v ∈ u.email, v ≠ [] ∧ trim v = v) ∧
      ∀ v ∈ u.phone, trim v = v := by
  have company := map_trim_iff u.company fun v => trim_escapeText_iff (v := v)
  have phone := map_trim_iff (f := fun v => v) u.phone fun v => Iff.rfl
  have last := namePart_iff u.last (escapeText (u.first.getD []) ++ ";;;".toList)
  have first : namePart (split ';' (escapeText (u.first.getD []) ++ ";;;".toList))[0]? = u.first ↔
      ∀ w ∈ u.first, w ≠ [] ∧ Verbatim w := namePart_iff u.first ";;".toList
  have parts : u.received = u.sent ↔ trim u.uid = u.uid ∧
      trim (escapeText u.fnDisplay) = u.fnDisplay ∧ namePart u.nameParts[0]? = u.last ∧
      namePart u.nameParts[1]? = u.first ∧
      (u.company.map fun o => trim (escapeText o)) = u.company ∧ u.address = u.email ∧
      (u.phone.map fun p => trim p) = u.phone := by
    unfold received sent
    rw [ParsedVCard.mk.injEq, Option.some.injEq]
    constructor
    · intro ⟨uid, fn, familyName, givenName, org, email, tel, _⟩
      exact ⟨uid, fn, familyName, givenName, org, email, tel⟩
    · intro ⟨uid, fn, familyName, givenName, org, email, tel⟩
      refine ⟨uid, fn, familyName, givenName, org, email, tel, ?_, rfl, rfl, rfl⟩
      rw [email]
  rw [parts, company, phone, address_iff, trim_escapeText_iff]
  apply and_congr_right
  intro _
  unfold nameParts
  rw [last]
  constructor
  · intro ⟨display, family, given, rest⟩
    rw [split_second family, first] at given
    exact ⟨family, given, (verbatim_fnDisplay family given).mp display, rest⟩
  · intro ⟨family, given, fileAs, rest⟩
    rw [split_second family, first]
    exact ⟨(verbatim_fnDisplay family given).mpr fileAs, family, given, rest⟩

theorem lines_plain {u : ContactUpsert} (clean : u.Clean) : ∀ l ∈ u.lines, Plain l := by
  have verbatim {v : Str} (given : Verbatim v) : Plain (escapeText v) := by
    rw [given.escape]
    exact ⟨given.absent rfl, noReturn_of_trimmed given.trimmed⟩
  rw [forall_lines]
  refine ⟨⟨by decide, by decide⟩, ⟨by decide, by decide⟩, ?_, u.plain_names, ?_, ?_, ?_, ?_,
    ⟨by decide, by decide⟩⟩
  · obtain ⟨_, trimmed, oneLine⟩ := clean.uid
    exact (plain_line ⟨by decide, by decide⟩).mpr ⟨oneLine, noReturn_of_trimmed trimmed⟩
  · have display := (verbatim_fnDisplay clean.last clean.first).mpr clean.fileAs
    exact (plain_line ⟨by decide, by decide⟩).mpr (verbatim display)
  · intro o member
    exact (plain_line ⟨by decide, by decide⟩).mpr (verbatim (clean.company o member))
  · intro e member
    obtain ⟨_, trimmed, oneLine⟩ := clean.email e member
    exact (plain_line ⟨by decide, by decide⟩).mpr ⟨oneLine, noReturn_of_trimmed trimmed⟩
  · intro p member
    obtain ⟨trimmed, oneLine⟩ := clean.phone p member
    exact (plain_line ⟨by decide, by decide⟩).mpr ⟨oneLine, noReturn_of_trimmed trimmed⟩

theorem finish_eq_ok {out p : ParsedVCard} :
    Contacts.finish out = .ok p ↔ out.uid ≠ [] ∧ out = p := by
  unfold Contacts.finish
  cases empty : out.uid with
  | nil => simp
  | cons c rest => simp

theorem readsBack_iff (u : ContactUpsert) : u.ReadsBack ↔ u.Clean := by
  unfold ReadsBack
  rw [lines_plain_iff]
  constructor
  · intro ⟨plain, read⟩
    rw [parse_buildVcard plain, finish_eq_ok] at read
    obtain ⟨given, same⟩ := read
    obtain ⟨-, -, uid, -, -, -, email, phone, -⟩ := forall_lines.mp plain
    obtain ⟨trimmed, last, first, fileAs, company, emails, phones⟩ :=
      (received_eq_sent_iff u).mp same
    have oneLine {head value : Str} (here : Plain (line head value)) : '\n' ∉ value :=
      fun inside => here.oneLine (List.mem_append_right _ (List.mem_cons_of_mem _ inside))
    refine ⟨⟨?_, trimmed, oneLine uid⟩, last, first, fileAs, company, ?_, ?_⟩
    · rw [same] at given
      exact given
    · exact fun v member => ⟨(emails v member).1, (emails v member).2, oneLine (email v member)⟩
    · exact fun v member => ⟨phones v member, oneLine (phone v member)⟩
  · intro clean
    have plain := lines_plain clean
    have same : u.received = u.sent := (received_eq_sent_iff u).mpr
      ⟨clean.uid.2.1, clean.last, clean.first, clean.fileAs, clean.company,
        fun v member => ⟨(clean.email v member).1, (clean.email v member).2.1⟩,
        fun v member => (clean.phone v member).1⟩
    refine ⟨plain, ?_⟩
    rw [parse_buildVcard plain, finish_eq_ok, same]
    exact ⟨clean.uid.1, rfl⟩

end ContactUpsert

/-! ### The UID of a card -/

theorem uid_set {out : ParsedVCard} (some : out.uid ≠ []) (head value : Str)
    (property : Contacts.Property) : (out.set head value property).uid = out.uid := by
  have given : out.uid.isEmpty = false := List.isEmpty_eq_false_iff.mpr some
  cases property <;> simp only [ParsedVCard.set, given, Bool.false_eq_true, if_false] <;>
    repeat' first | rfl | split

/-- The first UID of a card is the one that counts. -/
theorem uid_parseLoop {out : ParsedVCard} (some : out.uid ≠ []) (ls : List Str) (inside : Bool) :
    (Contacts.parseLoop ls inside out).uid = out.uid := by
  induction ls generalizing inside out with
  | nil => rfl
  | cons l rest ih =>
    have applied : (out.apply (CalDav.trimEndMatches '\r' l)).uid = out.uid := by
      unfold ParsedVCard.apply
      split
      · rfl
      · split
        · rfl
        · exact uid_set some _ _ _
    rw [Contacts.parseLoop]
    split_ifs
    · exact ih some true
    · exact ih some false
    · rw [ih (by rwa [applied]), applied]
    · exact ih some false

namespace ContactUpsert

/-- The UID comes before anything that a device gives. -/
theorem parse_uid {u : ContactUpsert} (given : u.uid ≠ []) (trimmed : trim u.uid = u.uid)
    (oneLine : '\n' ∉ u.uid) :
    ∃ p, Contacts.parse u.buildVcard = .ok p ∧ p.uid = u.uid := by
  have plain : Plain u.uid := ⟨oneLine, noReturn_of_trimmed trimmed⟩
  have uid := (@plain_line "UID".toList u.uid ⟨by decide, by decide⟩).mpr plain
  have heads : ∀ l ∈ ["BEGIN:VCARD".toList, line "VERSION".toList "3.0".toList,
      line "UID".toList u.uid], Plain l ∧ Leads l := by
    simp only [List.forall_mem_cons]
    exact ⟨⟨⟨by decide, by decide⟩, ⟨by decide, by decide⟩⟩,
      ⟨⟨by decide, by decide⟩, leads_line (by decide) (by decide)⟩,
      ⟨uid, leads_line (by decide) (by decide)⟩, List.forall_mem_nil _⟩
  obtain ⟨rest, text, opens⟩ : ∃ rest, u.buildVcard = terminated ["BEGIN:VCARD".toList,
      line "VERSION".toList "3.0".toList, line "UID".toList u.uid] ++ rest ∧
      Contacts.continues rest = false := by
    refine ⟨terminated (u.lines.drop 3), ?_, rfl⟩
    rw [buildVcard_eq, ← CalDav.terminated_append]
    rfl
  have body := Contacts.body_terminated (fun l member => (heads l member).1)
    (fun l member => (heads l member).2) opens
  have read : Contacts.parseLoop (Contacts.body u.buildVcard) false {} =
      Contacts.parseLoop (Contacts.body rest) true { uid := u.uid } := by
    rw [text, body]
    show Contacts.parseLoop (line "UID".toList u.uid :: Contacts.body rest) true {} = _
    rw [parseLoop_line names_heads.1 uid]
    show Contacts.parseLoop _ true { uid := trim u.uid } = _
    rw [trimmed]
  have kept := @uid_parseLoop { uid := u.uid } given (Contacts.body rest) true
  refine ⟨_, ?_, kept⟩
  rw [Contacts.parse_body, read]
  unfold Contacts.finish
  rw [kept, List.isEmpty_eq_false_iff.mpr given, if_neg Bool.false_ne_true]

end ContactUpsert
end Expresso.Eas
