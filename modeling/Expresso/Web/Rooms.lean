import Expresso.Web.Reseeding

/-! The resources of a stored event. They are read from every attendee line that names a room, and
each address from the last `mailto:` on. -/

namespace Expresso.Web
open Text hiding contains
open CalDav (terminated contains)
open Imap (lines)
open Query (sortUnique mem_sortUnique sortUnique_increasing Increasing)

/-! ### The last place of a text -/

def mailto : Str := "MAILTO:".toList

theorem rfind_append {needle s : Str} {at' : Nat} (found : rfind needle s = some at')
    (front : Str) : rfind needle (front ++ s) = some (front.length + at') := by
  induction front with
  | nil =>
    rw [List.nil_append, found, List.length_nil, Nat.zero_add]
  | cons c rest ih =>
    rw [List.cons_append, rfind, ih, List.length_cons]
    show some (rest.length + at' + 1) = _
    congr 1
    omega

theorem rfind_tail {needle : Str} {c : Char} {rest : Str}
    (none_ : rfind needle (c :: rest) = none) :
    rfind needle rest = none := by
  rw [rfind] at none_
  split at none_
  · cases none_
  · next absent => exact absent

theorem rfind_drop {needle s : Str} (none_ : rfind needle s = none) (n : Nat) :
    rfind needle (s.drop n) = none := by
  induction s generalizing n with
  | nil =>
    rw [List.drop_nil]
    exact none_
  | cons c rest ih =>
    cases n with
    | zero => exact none_
    | succ n => exact ih (rfind_tail none_) n

/-- After the last place the text does not begin again. -/
theorem rfind_after {needle s : Str} {at' : Nat} (found : rfind needle s = some at') (n : Nat) :
    rfind needle (s.drop (at' + (n + 1))) = none := by
  induction s generalizing at' with
  | nil => cases found
  | cons c rest ih =>
    rw [rfind] at found
    split at found
    · next before later =>
      cases found
      have place : before + 1 + (n + 1) = (before + (n + 1)) + 1 := by omega
      rw [place, List.drop_succ_cons]
      exact ih later
    · next absent =>
      split at found
      · cases found
        rw [Nat.zero_add, List.drop_succ_cons]
        exact rfind_drop absent n
      · cases found

theorem rfind_mailto {s : Str} (none_ : rfind mailto s = none) :
    rfind mailto (mailto ++ s) = some 0 := by
  have letters : mailto = ['M', 'A', 'I', 'L', 'T', 'O', ':'] := by decide
  rw [letters] at none_ ⊢
  simp [rfind, none_]

/-- What follows the last `mailto:` of an address. -/
def afterMailto (email : Str) : Str :=
  match rfind mailto (toAsciiUppercase email) with
  | some at' => email.drop (at' + 7)
  | none => email

theorem afterMailto_suffix (email : Str) : afterMailto email <:+ email := by
  unfold afterMailto
  split
  · exact List.drop_suffix _ _
  · exact List.suffix_rfl

theorem upper_drop (s : Str) (n : Nat) :
    toAsciiUppercase (s.drop n) = (toAsciiUppercase s).drop n := List.map_drop

theorem rfind_afterMailto (email : Str) :
    rfind mailto (toAsciiUppercase (afterMailto email)) = none := by
  unfold afterMailto
  split
  · next at' found =>
    rw [upper_drop]
    exact rfind_after found 6
  · next absent => exact absent

theorem afterMailto_of_none {email : Str} (none_ : rfind mailto (toAsciiUppercase email) = none) :
    afterMailto email = email := by
  unfold afterMailto
  rw [none_]

/-- The address of a line that ends in `mailto:` and an address. -/
theorem drop_rfind {front email upper : Str}
    (upperFront : toAsciiUppercase front = upper ++ mailto) :
    (rfind mailto (toAsciiUppercase (front ++ email))).map (fun at' =>
      (front ++ email).drop (at' + 7)) = some (afterMailto email) := by
  have text : toAsciiUppercase (front ++ email) = upper ++ (mailto ++ toAsciiUppercase email) := by
    rw [toAsciiUppercase, List.map_append, ← toAsciiUppercase, upperFront, List.append_assoc]
    rfl
  have size : front.length = upper.length + 7 := by
    have lengths := congrArg List.length upperFront
    rw [toAsciiUppercase, List.length_map, List.length_append] at lengths
    exact lengths
  unfold afterMailto
  cases found : rfind mailto (toAsciiUppercase email) with
  | none =>
    rw [text, rfind_append (rfind_mailto found), Option.map_some, Nat.add_zero, ← size,
      List.drop_left]
  | some at' =>
    rw [text, ← List.append_assoc, rfind_append found, Option.map_some, List.length_append]
    have place : upper.length + mailto.length + at' + 7 = front.length + (at' + 7) := by
      have seven : mailto.length = 7 := by decide
      omega
    rw [place, List.drop_length_add_append]

/-! ### Texts in a line -/

theorem contains_cons (text : Str) (c : Char) (s : Str) :
    contains text (c :: s) = (text.isPrefixOf (c :: s) || contains text s) := rfl

/-- A text without the separator is found before it or after it. -/
theorem contains_append_cons {text : Str} (nonempty : text ≠ []) {c : Char} (absent : c ∉ text)
    (front s : Str) :
    contains text (front ++ c :: s) = (contains text front || contains text s) := by
  have empty : contains text [] = false := by
    cases text with
    | nil => exact absurd rfl nonempty
    | cons t rest => rfl
  induction front with
  | nil =>
    have first := isPrefixOf_append_cons absent [] s
    rw [List.nil_append] at first ⊢
    have none_ : text.isPrefixOf [] = false := by
      cases text with
      | nil => exact absurd rfl nonempty
      | cons t rest => rfl
    rw [contains_cons, first, none_, empty]
  | cons d others ih =>
    have here := isPrefixOf_append_cons absent (d :: others) s
    rw [List.cons_append] at here ⊢
    rw [contains_cons, contains_cons, here, ih, Bool.or_assoc]

/-- An address that makes the line of an attendee that of a room. -/
def roomLike (email : Str) : Bool :=
  contains "CUTYPE=ROOM".toList (toAsciiUppercase email) ||
    contains "CUTYPE=RESOURCE".toList (toAsciiUppercase email)

theorem upper_mailto (text email : Str) :
    toAsciiUppercase (text ++ ':' :: ("mailto:".toList ++ email)) =
      (toAsciiUppercase text ++ ':' :: "MAILTO".toList) ++ ':' :: toAsciiUppercase email := by
  have written : "mailto:".toList = ['m', 'a', 'i', 'l', 't', 'o', ':'] := by decide
  have upper : "MAILTO".toList = ['M', 'A', 'I', 'L', 'T', 'O'] := by decide
  rw [written, upper]
  simp only [toAsciiUppercase, List.map_append, List.map_cons, List.cons_append, List.nil_append,
    List.append_assoc]
  rfl

theorem lower_of_suffix {s t : Str} (suffix : s <:+ t) (lower : toAsciiLowercase t = t) :
    toAsciiLowercase s = s := by
  obtain ⟨front, rfl⟩ := suffix
  rw [toAsciiLowercase, List.map_append] at lower
  exact (List.append_inj' lower (List.length_map ..)).2

theorem afterMailto_kept {email : Str} (is : IsEmail email) :
    toAsciiLowercase (trim (afterMailto email)) = afterMailto email := by
  have suffix := afterMailto_suffix email
  rw [trim_of_inside fun c member => is.noBlank c (suffix.subset member),
    lower_of_suffix suffix is.lower]

/-- The line of an address is taken for a room by what stands before the address, or by the
address itself. -/
theorem bookedResource_mailto (head : Head) {email : Str} (is : IsEmail email) :
    bookedResource (lineOf (head, "mailto:".toList ++ email)) =
      let front := toAsciiUppercase head.text.toList ++ ':' :: "MAILTO".toList
      if "ATTENDEE".toList.isPrefixOf front &&
          ((contains "CUTYPE=ROOM".toList front || contains "CUTYPE=RESOURCE".toList front) ||
            roomLike email) then (some (afterMailto email)).filter (!·.isEmpty) else none := by
  have visible : "mailto:".toList.all (fun c => !isWhitespace c) = true := by decide
  have plain : ∀ c ∈ "mailto:".toList, isWhitespace c = false := by simpa using visible
  have ended : trimEnd ("mailto:".toList ++ email) = "mailto:".toList ++ email := by
    apply trimEnd_of_last
    intro c last
    rcases List.mem_append.mp (List.mem_of_mem_getLast? last) with name | inside
    · exact plain c name
    · exact is.noBlank c inside
  have line : lineOf (head, "mailto:".toList ++ email) =
      (head.text.toList ++ ':' :: "mailto:".toList) ++ email := by
    simp only [lineOf, List.append_assoc, List.cons_append]
  have upperFront : toAsciiUppercase (head.text.toList ++ ':' :: "mailto:".toList) =
      (toAsciiUppercase head.text.toList ++ [':']) ++ mailto := by
    have upper := upper_mailto head.text.toList []
    rw [List.append_nil] at upper
    rw [upper]
    have letters : mailto = "MAILTO".toList ++ [':'] := by decide
    rw [letters]
    simp [toAsciiUppercase]
  have room {text : Str} (nonempty : text ≠ []) (absent : ':' ∉ text) (front : Str) :=
    contains_append_cons nonempty absent front (toAsciiUppercase email)
  have found := @drop_rfind _ email _ upperFront
  have upper : toAsciiUppercase (lineOf (head, "mailto:".toList ++ email)) =
      (toAsciiUppercase head.text.toList ++ ':' :: "MAILTO".toList) ++
        ':' :: toAsciiUppercase email := upper_mailto head.text.toList email
  have address : (rfind mailto (toAsciiUppercase (lineOf (head, "mailto:".toList ++ email)))).map
      (fun at' => toAsciiLowercase (trim ((lineOf (head, "mailto:".toList ++ email)).drop
        (at' + 7)))) = some (afterMailto email) := by
    rw [line]
    have mapped := congrArg (Option.map fun s => toAsciiLowercase (trim s)) found
    rw [Option.map_map, Option.map_some, afterMailto_kept is] at mapped
    exact mapped
  have swap (a b c d : Bool) : ((a || b) || (c || d)) = ((a || c) || (b || d)) := by
    cases a <;> cases b <;> cases c <;> rfl
  simp only [bookedResource, trim_lineOf, ended]
  rw [show rfind "MAILTO:".toList = rfind mailto from rfl, address, upper,
    isPrefixOf_append_cons (by decide), room (by decide) (by decide),
    room (by decide) (by decide), swap]
  rfl

theorem bookedResource_attendee {email : Str} (is : IsEmail email) :
    bookedResource (lineOf (.attendee, "mailto:".toList ++ email)) =
      if roomLike email then (some (afterMailto email)).filter (!·.isEmpty) else none := by
  have facts : "ATTENDEE".toList.isPrefixOf
        (toAsciiUppercase Head.attendee.text.toList ++ ':' :: "MAILTO".toList) = true ∧
      (contains "CUTYPE=ROOM".toList
          (toAsciiUppercase Head.attendee.text.toList ++ ':' :: "MAILTO".toList) ||
        contains "CUTYPE=RESOURCE".toList
          (toAsciiUppercase Head.attendee.text.toList ++ ':' :: "MAILTO".toList)) = false := by
    decide
  rw [bookedResource_mailto .attendee is]
  simp only [facts.1, facts.2, Bool.true_and, Bool.false_or]

theorem bookedResource_room {email : Str} (is : IsEmail email) :
    bookedResource (lineOf (.room, "mailto:".toList ++ email)) =
      (some (afterMailto email)).filter (!·.isEmpty) := by
  have facts : "ATTENDEE".toList.isPrefixOf
        (toAsciiUppercase Head.room.text.toList ++ ':' :: "MAILTO".toList) = true ∧
      (contains "CUTYPE=ROOM".toList
          (toAsciiUppercase Head.room.text.toList ++ ':' :: "MAILTO".toList) ||
        contains "CUTYPE=RESOURCE".toList
          (toAsciiUppercase Head.room.text.toList ++ ':' :: "MAILTO".toList)) = true := by
    decide
  rw [bookedResource_mailto .room is]
  simp only [facts.1, facts.2, Bool.true_and, Bool.true_or, if_true]

/-- No other line is one of an attendee. -/
theorem bookedResource_other {field : Field} (attendee : field.1 ≠ .attendee)
    (room : field.1 ≠ .room) : bookedResource (lineOf field) = none := by
  obtain ⟨head, v⟩ := field
  have upper : toAsciiUppercase (lineOf (head, trimEnd v)) =
      toAsciiUppercase head.text.toList ++ ':' :: toAsciiUppercase (trimEnd v) := by
    simp only [lineOf, toAsciiUppercase, List.map_append, List.map_cons]
    rfl
  have apart : "ATTENDEE".toList.isPrefixOf (toAsciiUppercase head.text.toList) = false := by
    cases head <;> first
      | decide
      | exact absurd rfl attendee
      | exact absurd rfl room
  simp only [bookedResource, trim_lineOf]
  rw [upper, isPrefixOf_append_cons (by decide), apart, Bool.false_and, if_neg Bool.false_ne_true]

/-! ### The resources that are checked -/

/-- The step of the scan. -/
def noteBooked (out : List Str) (line : Str) : List Str :=
  match bookedResource line with
  | some email => if email ∈ out then out else out ++ [email]
  | none => out

theorem mem_foldl_noteBooked (ls : List Str) (out : List Str) (email : Str) :
    email ∈ ls.foldl noteBooked out ↔
      email ∈ out ∨ ∃ line ∈ ls, bookedResource line = some email := by
  induction ls generalizing out with
  | nil => simp
  | cons line rest ih =>
    have step : email ∈ noteBooked out line ↔
        email ∈ out ∨ bookedResource line = some email := by
      unfold noteBooked
      cases booked : bookedResource line with
      | none => simp
      | some other =>
        by_cases known : other ∈ out
        · simp only [if_pos known, Option.some.injEq]
          exact ⟨.inl, fun either => either.elim id fun same => same ▸ known⟩
        · simp only [if_neg known, List.mem_append, List.mem_singleton, Option.some.injEq, eq_comm]
    rw [List.foldl_cons, ih, step, List.exists_mem_cons_iff, or_assoc]

theorem emails_join {l : List Str} (are : ∀ email ∈ l, (∀ c ∈ email, separatesEmails c = false) ∧
    toAsciiLowercase email = email) : emails (join "," l) = l.filter fun s => s.contains '@' := by
  by_cases empty : l = []
  · rw [empty]
    decide
  · have pieces : (join "," l).splitOnP separatesEmails = l :=
      splitOnP_join (by decide) empty fun email member => (are email member).1
    have trimmed : l.map trim = l := by
      conv_rhs => rw [← List.map_id l]
      apply List.map_congr_left
      intro email member
      apply trim_of_inside
      intro c here
      have inside := (are email member).1 c here
      simp only [separatesEmails, Bool.or_eq_false_iff] at inside
      exact inside.2
    have filtered : (l.filter fun s => !s.isEmpty && s.contains '@') =
        l.filter fun s => s.contains '@' := by
      apply List.filter_congr
      intro email _
      cases email with
      | nil => rfl
      | cons c rest => rfl
    have lowered : (l.filter fun s => s.contains '@').map toAsciiLowercase =
        l.filter fun s => s.contains '@' := by
      conv_rhs => rw [← List.map_id (l.filter fun s => s.contains '@')]
      apply List.map_congr_left
      intro email member
      exact (are email (List.mem_of_mem_filter member)).2
    unfold emails
    rw [pieces, trimmed, filtered, lowered]

theorem rfind_eq_none_iff {needle : Str} (nonempty : needle ≠ []) (s : Str) :
    rfind needle s = none ↔ contains needle s = false := by
  induction s with
  | nil =>
    cases needle with
    | nil => exact absurd rfl nonempty
    | cons n rest => exact ⟨fun _ => rfl, fun _ => rfl⟩
  | cons c rest ih =>
    rw [rfind, contains_cons, Bool.or_eq_false_iff, ← ih]
    cases rfind needle rest with
    | some at' => exact ⟨nofun, fun both => nomatch both.2⟩
    | none =>
      cases needle.isPrefixOf (c :: rest) with
      | true => exact ⟨nofun, fun both => nomatch both.1⟩
      | false => exact ⟨fun _ => ⟨rfl, rfl⟩, fun _ => rfl⟩

/-- What brings the resources back: no `mailto:` in one, and no attendee whose address names a
room comes in among them. -/
structure RoomsKept (f : EventForm) : Prop where
  resources : ∀ r ∈ parseResourceEmails f.resources, contains mailto (toAsciiUppercase r) = false
  attendees : ∀ a ∈ parseAttendees f.attendees, roomLike a = true → '@' ∈ afterMailto a →
    afterMailto a ∈ parseResourceEmails f.resources ∨
      (parseResourceEmails f.resources).length = 50 ∧
        ∀ r ∈ parseResourceEmails f.resources, r < afterMailto a

theorem isEmail_of_attendee {raw a : Str} (member : a ∈ parseAttendees raw) : IsEmail a :=
  isEmail_of_mem member

theorem isEmail_of_resource {raw r : Str} (member : r ∈ parseResourceEmails raw) : IsEmail r :=
  isEmail_of_mem (mem_sortUnique.mp (List.mem_of_mem_take member))

/-- Where an address that is checked comes from. -/
theorem mem_booked {l : List Field} (oneLines : OneLines l) {f : EventForm}
    (attendees : values .attendee l = (parseAttendees f.attendees).map ("mailto:".toList ++ ·))
    (rooms : values .room l = (parseResourceEmails f.resources).map ("mailto:".toList ++ ·))
    (email : Str) : email ∈ bookedResourcesFromIcal (terminated (l.map lineOf)) ↔
      email ≠ [] ∧ ((∃ a ∈ parseAttendees f.attendees, roomLike a = true ∧ afterMailto a = email) ∨
        ∃ r ∈ parseResourceEmails f.resources, afterMailto r = email) := by
  have under (head : Head) (v : Str) : v ∈ values head l ↔ (head, v) ∈ l := by
    unfold values
    rw [List.mem_filterMap]
    constructor
    · rintro ⟨⟨head', v'⟩, member, taken⟩
      split at taken
      · next same =>
        cases taken
        exact same ▸ member
      · cases taken
    · intro member
      exact ⟨(head, v), member, if_pos rfl⟩
  have kept (text : Str) : (some text).filter (fun s => !s.isEmpty) = some email ↔
      email ≠ [] ∧ text = email := by
    rw [Option.filter_eq_some_iff, Option.some.injEq]
    constructor
    · rintro ⟨rfl, filled⟩
      exact ⟨by simpa using filled, rfl⟩
    · rintro ⟨filled, rfl⟩
      exact ⟨rfl, by simpa using filled⟩
  have scan : bookedResourcesFromIcal (terminated (l.map lineOf)) =
      (lines (terminated (l.map lineOf))).foldl noteBooked [] := rfl
  rw [scan, lines_lineOf oneLines, mem_foldl_noteBooked]
  constructor
  · rintro (member | ⟨line, member, booked⟩)
    · cases member
    · obtain ⟨⟨head, v⟩, among, rfl⟩ := List.mem_map.mp member
      by_cases attendee : head = .attendee
      · subst attendee
        have written := (under .attendee v).mpr among
        rw [attendees] at written
        obtain ⟨a, inside, rfl⟩ := List.mem_map.mp written
        rw [bookedResource_attendee (isEmail_of_attendee inside)] at booked
        split at booked
        · next like =>
          obtain ⟨filled, same⟩ := (kept _).mp booked
          exact ⟨filled, .inl ⟨a, inside, like, same⟩⟩
        · cases booked
      · by_cases room : head = .room
        · subst room
          have written := (under .room v).mpr among
          rw [rooms] at written
          obtain ⟨r, inside, rfl⟩ := List.mem_map.mp written
          rw [bookedResource_room (isEmail_of_resource inside)] at booked
          obtain ⟨filled, same⟩ := (kept _).mp booked
          exact ⟨filled, .inr ⟨r, inside, same⟩⟩
        · rw [bookedResource_other attendee room] at booked
          cases booked
  · rintro ⟨filled, ⟨a, inside, like, same⟩ | ⟨r, inside, same⟩⟩
    · have written : "mailto:".toList ++ a ∈ values .attendee l := by
        rw [attendees]
        exact List.mem_map_of_mem inside
      refine .inr ⟨_, List.mem_map_of_mem ((under .attendee _).mp written), ?_⟩
      rw [bookedResource_attendee (isEmail_of_attendee inside), if_pos like]
      exact (kept _).mpr ⟨filled, same⟩
    · have written : "mailto:".toList ++ r ∈ values .room l := by
        rw [rooms]
        exact List.mem_map_of_mem inside
      refine .inr ⟨_, List.mem_map_of_mem ((under .room _).mp written), ?_⟩
      rw [bookedResource_room (isEmail_of_resource inside)]
      exact (kept _).mpr ⟨filled, same⟩

theorem rooms_round_trip_iff {l : List Field} (oneLines : OneLines l) {f : EventForm}
    (attendees : values .attendee l = (parseAttendees f.attendees).map ("mailto:".toList ++ ·))
    (rooms : values .room l = (parseResourceEmails f.resources).map ("mailto:".toList ++ ·)) :
    parseResourceEmails (join "," (bookedResourcesFromIcal (terminated (l.map lineOf)))) =
      parseResourceEmails f.resources ↔ RoomsKept f := by
  have origin := mem_booked oneLines attendees rooms
  have each : ∀ email ∈ bookedResourcesFromIcal (terminated (l.map lineOf)),
      (∀ c ∈ email, separatesEmails c = false) ∧ toAsciiLowercase email = email := by
    intro email member
    have after {whole : Str} (is : IsEmail whole) (same : afterMailto whole = email) :
        (∀ c ∈ email, separatesEmails c = false) ∧ toAsciiLowercase email = email := by
      subst same
      have suffix := afterMailto_suffix whole
      exact ⟨fun c here => is.inside c (suffix.subset here), lower_of_suffix suffix is.lower⟩
    obtain ⟨-, ⟨a, inside, -, same⟩ | ⟨r, inside, same⟩⟩ := (origin email).mp member
    · exact after (isEmail_of_attendee inside) same
    · exact after (isEmail_of_resource inside) same
  have increasing : Increasing (parseResourceEmails f.resources) :=
    (sortUnique_increasing _).sublist (List.take_sublist _ _)
  have short : (parseResourceEmails f.resources).length ≤ 50 := List.length_take_le _ _
  have nonempty : mailto ≠ [] := by decide
  have filled {s : Str} (has : '@' ∈ s) : s ≠ [] := List.ne_nil_of_mem has
  rw [show parseResourceEmails (join "," _) = (sortUnique (emails (join "," _))).take 50 from rfl,
    emails_join each, Query.take_sortUnique_iff increasing short]
  simp only [List.mem_filter, List.contains_iff_mem, origin]
  constructor
  · intro ⟨among, beyond⟩
    constructor
    · intro r member
      rw [← rfind_eq_none_iff nonempty]
      obtain ⟨⟨-, ⟨a, -, -, same⟩ | ⟨r', -, same⟩⟩, -⟩ := among r member
      · rw [← same]
        exact rfind_afterMailto a
      · rw [← same]
        exact rfind_afterMailto r'
    · intro a member like has
      exact beyond (afterMailto a) ⟨⟨filled has, .inl ⟨a, member, like, rfl⟩⟩, has⟩
  · intro kept
    have same {r : Str} (member : r ∈ parseResourceEmails f.resources) : afterMailto r = r :=
      afterMailto_of_none ((rfind_eq_none_iff nonempty _).mpr (kept.resources r member))
    constructor
    · intro r member
      have has := (isEmail_of_resource member).at_
      exact ⟨⟨filled has, .inr ⟨r, member, same member⟩⟩, has⟩
    · rintro email ⟨⟨-, ⟨a, member, like, rfl⟩ | ⟨r, member, rfl⟩⟩, has⟩
      · exact kept.attendees a member like has
      · rw [same member]
        exact .inl member

end Expresso.Web
