import Expresso.CalDav.AttendeeLine
import Expresso.Text.Trim

/-! The outbox: an invitation goes out only under the address of the caller, as far as the check of
its organizer can see. -/

namespace Expresso.CalDav
open Text
open Itip (physicalLines)

/-! ### The check -/

/-- `str::eq_ignore_ascii_case`. -/
def eqIgnoreAsciiCase (s t : Str) : Bool := toAsciiLowercase s = toAsciiLowercase t

/-- The first line that begins with `METHOD:`, of the lines of `str::lines`. -/
def extractMethod (raw : Str) : Option Str :=
  (physicalLines raw).findSome? fun t =>
    (stripPrefix "METHOD:".toList t).map fun rest => toAsciiUppercase (trim rest)

def namesOrganizer (t : Str) : Bool := "ORGANIZER".toList.isPrefixOf (toAsciiUppercase t)

/-- Only the first line that begins with `ORGANIZER` is looked at. -/
def extractOrganizerEmail (raw : Str) : Option Str := do
  let t ← (physicalLines raw).find? namesOrganizer
  let (_, val) ← splitOnce ':' t
  let stripped := (stripPrefix "mailto:".toList val).getD
    ((stripPrefix "MAILTO:".toList val).getD val)
  some (trim stripped)

def bodyOrganizerAllowed (authenticated body : Str) : Bool :=
  match extractOrganizerEmail body with
  | none => true
  | some org => eqIgnoreAsciiCase (trim org) (trim authenticated)

inductive StatusCode where
  | badRequest | forbidden | serviceUnavailable
  deriving DecidableEq

section
variable {Mailbox Status : Type} (mailbox : Str → Option Mailbox)

/-- The checks of `dispatch_itip`, before the message is sent to each attendee. -/
def dispatchItip
    (send : Mailbox → Str → List Itip.Attendee → Str → Except StatusCode (List Status))
    (organizerEmail body : Str) : Except StatusCode (List Status) :=
  if trim body = [] then .error .badRequest
  else
    match mailbox organizerEmail with
    | none => .error .badRequest
    | some fromMbox =>
        if !bodyOrganizerAllowed organizerEmail body then .error .forbidden
        else
          let method := (extractMethod body).getD "REQUEST".toList
          let attendees := Itip.parseAttendees body
          if attendees = [] then .error .badRequest else send fromMbox method attendees body

/-- The request gets past the check of its organizer. -/
def PassesCheck (organizerEmail body : Str) : Prop :=
  trim body ≠ [] ∧ (mailbox organizerEmail).isSome ∧ bodyOrganizerAllowed organizerEmail body = true

/-- A request that does not get past the check is answered with an error, whatever sending does. -/
theorem dispatchItip_of_not_passes {organizerEmail body : Str}
    (stopped : ¬PassesCheck mailbox organizerEmail body)
    (send : Mailbox → Str → List Itip.Attendee → Str → Except StatusCode (List Status)) :
    dispatchItip mailbox send organizerEmail body = .error .badRequest ∨
      dispatchItip mailbox send organizerEmail body = .error .forbidden := by
  unfold dispatchItip
  by_cases blank : trim body = []
  · exact .inl (if_pos blank)
  rw [if_neg blank]
  cases parsed : mailbox organizerEmail with
  | none => exact .inl rfl
  | some fromMbox =>
    have refused : bodyOrganizerAllowed organizerEmail body = false := by
      by_contra allowed
      exact stopped ⟨blank, by rw [parsed]; rfl, by simpa using allowed⟩
    exact .inr (if_pos (by rw [refused]; rfl))

end

/-! ### The properties of the body -/

/-- What follows the first colon outside quotes. -/
def valueAfter : Bool → Str → Option Str
  | _, [] => none
  | quoted, c :: rest =>
      if c = '"' then valueAfter (!quoted) rest
      else if c = ':' ∧ quoted = false then some rest
      else valueAfter quoted rest

def propertyName (line : Str) : Str := line.takeWhile fun c => c ≠ ';' && c ≠ ':'

/-- The value of an `ORGANIZER`, whatever its parameters are. -/
def organizerOf (line : Str) : Option Str :=
  if toAsciiUppercase (propertyName line) = "ORGANIZER".toList then valueAfter false line else none

def organizers (body : Str) : List Str := (unfoldLines body).filterMap organizerOf

/-- The address of a `mailto` URI, however its scheme is spelt. -/
def uriAddress (value : Str) : Str :=
  if "mailto:".toList.isPrefixOf (toAsciiLowercase value) then value.drop 7 else value

/-- One address, but for case and blanks. -/
def SameAddress (a b : Str) : Prop := toAsciiLowercase (trim a) = toAsciiLowercase (trim b)

def Names (value authenticated : Str) : Prop := SameAddress (uriAddress value) authenticated

theorem bodyOrganizerAllowed_iff (authenticated body : Str) :
    bodyOrganizerAllowed authenticated body = true ↔
      ∀ a ∈ extractOrganizerEmail body, SameAddress a authenticated := by
  unfold bodyOrganizerAllowed
  cases extractOrganizerEmail body with
  | none => simp
  | some a => simp [eqIgnoreAsciiCase, SameAddress]

section
variable {Mailbox : Type} {mailbox : Str → Option Mailbox}

/-- Every caller who gets past the check is the organizer in every place, just where the address
that is looked at is that of every `ORGANIZER`, and there is none where nothing is looked at. -/
theorem organizer_checked_iff {a b : Str} (first : (mailbox a).isSome) (second : (mailbox b).isSome)
    (apart : ¬SameAddress a b) (body : Str) :
    (∀ caller, PassesCheck mailbox caller body → ∀ value ∈ organizers body, Names value caller) ↔
      (trim body ≠ [] →
        match extractOrganizerEmail body with
        | none => organizers body = []
        | some checked => (∃ caller, (mailbox caller).isSome ∧ SameAddress checked caller) →
            ∀ value ∈ organizers body, Names value checked) := by
  constructor
  · intro right written
    cases checked : extractOrganizerEmail body with
    | none =>
      have passes {caller : Str} (known : (mailbox caller).isSome) :
          PassesCheck mailbox caller body := by
        refine ⟨written, known, (bodyOrganizerAllowed_iff caller body).mpr ?_⟩
        rw [checked]
        exact fun _ none_ => nomatch none_
      apply List.eq_nil_iff_forall_not_mem.mpr
      intro value member
      have one := right a (passes first) value member
      have other := right b (passes second) value member
      exact apart (one.symm.trans other)
    | some address =>
      rintro ⟨caller, known, same⟩ value member
      have allowed : bodyOrganizerAllowed caller body = true := by
        rw [bodyOrganizerAllowed_iff, checked]
        rintro _ ⟨⟩
        exact same
      exact (right caller ⟨written, known, allowed⟩ value member).trans same.symm
  · rintro condition caller ⟨written, known, allowed⟩ value member
    have here := condition written
    rw [bodyOrganizerAllowed_iff] at allowed
    cases checked : extractOrganizerEmail body with
    | none =>
      rw [checked] at here
      rw [here] at member
      cases member
    | some address =>
      rw [checked] at here allowed
      have same := allowed address rfl
      exact (here ⟨caller, known, same⟩ value member).trans same

end

/-! ### What the check reads -/

theorem valueAfter_unquoted {line : Str} (unquoted : '"' ∉ line) :
    valueAfter false line = (splitOnce ':' line).map (·.2) := by
  induction line with
  | nil => rfl
  | cons c rest ih =>
    obtain ⟨other, later⟩ := not_or.mp (List.mem_cons.not.mp unquoted)
    rw [valueAfter, if_neg (Ne.symm other), splitOnce]
    by_cases colon : c = ':'
    · rw [if_pos ⟨colon, rfl⟩, if_pos colon]
      rfl
    · rw [if_neg fun both => colon both.1, if_neg colon, ih later]
      cases splitOnce ':' rest <;> rfl

/-- The one `ORGANIZER` of a body is checked, where it stands on a line of its own, without quotes,
and its scheme is spelt in one case. -/
theorem one_organizer_checked {Mailbox : Type} {mailbox : Str → Option Mailbox} {body t value : Str}
    (looked : (physicalLines body).find? namesOrganizer = some t) (unquoted : '"' ∉ t)
    (whole : organizerOf t = some value) (only : organizers body = [value])
    (spelt : uriAddress value = (stripPrefix "mailto:".toList value).getD
      ((stripPrefix "MAILTO:".toList value).getD value)) {caller : Str}
    (passes : PassesCheck mailbox caller body) : ∀ value ∈ organizers body, Names value caller := by
  rw [only, List.forall_mem_singleton, Names, spelt]
  have after : valueAfter false t = some value := by
    unfold organizerOf at whole
    split at whole
    · exact whole
    · cases whole
  rw [valueAfter_unquoted unquoted] at after
  obtain ⟨⟨head, val⟩, cut, rfl⟩ := Option.map_eq_some_iff.mp after
  have read : extractOrganizerEmail body = some (trim ((stripPrefix "mailto:".toList val).getD
      ((stripPrefix "MAILTO:".toList val).getD val))) := by
    rw [extractOrganizerEmail, looked, Option.bind_eq_bind, Option.bind_some, cut]
    rfl
  have same := (bodyOrganizerAllowed_iff caller body).mp passes.2.2 _ read
  rwa [SameAddress, trim_trim] at same

/-! ### Organizers that are not checked -/

def sampleMailbox (address : Str) : Option Str := if '@' ∈ address then some address else none

def outboxBody (organizer : String) : Str :=
  ("BEGIN:VEVENT\r\n" ++ organizer ++ "\r\nATTENDEE:mailto:g@x.org\r\nEND:VEVENT").toList

theorem organizer_checked_iff_plain :
    (∀ caller, PassesCheck sampleMailbox caller (outboxBody "ORGANIZER:mailto:ana@x.org") →
        ∀ value ∈ organizers (outboxBody "ORGANIZER:mailto:ana@x.org"), Names value caller) ↔
      (trim (outboxBody "ORGANIZER:mailto:ana@x.org") ≠ [] →
        match extractOrganizerEmail (outboxBody "ORGANIZER:mailto:ana@x.org") with
        | none => organizers (outboxBody "ORGANIZER:mailto:ana@x.org") = []
        | some checked => (∃ caller, (sampleMailbox caller).isSome ∧ SameAddress checked caller) →
            ∀ value ∈ organizers (outboxBody "ORGANIZER:mailto:ana@x.org"), Names value checked) :=
  organizer_checked_iff (a := "ana@x.org".toList) (b := "boss@x.org".toList) (by decide) (by decide)
    (by unfold SameAddress; decide) _

/-- A name that is folded, a second organizer, and an address that goes on in the next line. -/
theorem organizer_spoofed : [outboxBody "ORGANI\r\n ZER:mailto:boss@x.org",
      outboxBody "ORGANIZER:mailto:ana@x.org\r\nORGANIZER:mailto:boss@x.org",
      outboxBody "ORGANIZER:mailto:ana@x.org\r\n .example"].Forall fun body =>
    PassesCheck sampleMailbox "ana@x.org".toList body ∧
      ∃ value ∈ organizers body, ¬Names value "ana@x.org".toList := by
  rw [List.forall_iff_forall_mem]
  unfold PassesCheck Names SameAddress outboxBody
  simp only [String.toList_append, -String.reduceToList, -String.reduceAppend]
  -- the bodies as characters, so that only the program is evaluated
  repeat rw [String.toList_ofList]
  decide

end Expresso.CalDav
