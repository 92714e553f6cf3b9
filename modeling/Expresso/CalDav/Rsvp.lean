import Expresso.CalDav.AttendeeLine
import Expresso.Text.Trim

/-! A reply read back. The writer edits the first physical line it takes for the attendee's,
or inserts one; the attendees read afterwards are those before with one answer changed,
exactly when that physical line is also the attendee's line for the reader. -/

namespace Expresso.CalDav.Itip
open Text

/-! ### The reader, part by part -/

/-- Whether the reader is inside the event after these lines; `none` once it has ended. -/
def readState : List Str → Bool → Option Bool
  | [], inEvent => some inEvent
  | line :: rest, inEvent =>
      let trimmed := trimEndMatches '\r' line
      if beginsEvent trimmed then readState rest true
      else if endsEvent trimmed then none
      else readState rest inEvent

theorem attendeeLines_append (first second : List Str) (inEvent : Bool) :
    attendeeLines (first ++ second) inEvent = attendeeLines first inEvent ++
      (readState first inEvent).elim [] (attendeeLines second) := by
  induction first generalizing inEvent with
  | nil => rfl
  | cons line rest ih =>
    simp only [List.cons_append, attendeeLines, readState]
    split
    · exact ih true
    · split
      · rfl
      · split
        · next inside => rw [ih, inside, List.append_assoc]
        · next outside => rw [ih, Bool.not_eq_true _ |>.mp outside]

theorem parseLines_append (crates : Crates) (first second : List Str) (inEvent : Bool)
    (ev : ParsedEvent) :
    parseLines crates (first ++ second) inEvent ev =
      (readState first inEvent).elim (parseLines crates first inEvent ev) fun inside =>
        parseLines crates second inside (parseLines crates first inEvent ev) := by
  induction first generalizing inEvent ev with
  | nil => rfl
  | cons line rest ih =>
    simp only [List.cons_append, parseLines, readState, beginsEvent, endsEvent, decide_eq_true_eq]
    split
    · exact ih true ev
    · split
      · rfl
      · split
        · next inside => rw [ih, inside]
        · next outside => rw [ih, Bool.not_eq_true _ |>.mp outside]

/-- The reader does not see how often a line end is trimmed. -/
theorem attendeeLines_trimmed (lines : List Str) (inEvent : Bool) :
    attendeeLines (lines.map (trimEndMatches '\r')) inEvent = attendeeLines lines inEvent := by
  induction lines generalizing inEvent with
  | nil => rfl
  | cons line rest ih =>
    simp only [List.map_cons, attendeeLines, trimEndMatches_of_getLast (getLast_trimEndMatches _ _),
      ih]

theorem parseLines_trimmed (crates : Crates) (lines : List Str) (inEvent : Bool)
    (ev : ParsedEvent) :
    parseLines crates (lines.map (trimEndMatches '\r')) inEvent ev =
      parseLines crates lines inEvent ev := by
  induction lines generalizing inEvent ev with
  | nil => rfl
  | cons line rest ih =>
    simp only [List.map_cons, parseLines, trimEndMatches_of_getLast (getLast_trimEndMatches _ _),
      ih]

theorem attendeeLines_starts {line : Str} (plain : Plain line) (starts : StartsAttendee line)
    (rest : List Str) (inEvent : Bool) :
    attendeeLines (line :: rest) inEvent =
      (if inEvent then (attendeeOf line).toList else []) ++ attendeeLines rest inEvent := by
  obtain ⟨begins, ends⟩ := starts.quiet
  simp only [attendeeLines, trimEndMatches_of_getLast plain.noReturn, begins, ends,
    Bool.false_eq_true, if_false]
  cases inEvent <;> simp

theorem parseLines_starts {line : Str} (plain : Plain line) (starts : StartsAttendee line)
    (crates : Crates) (rest : List Str) (inEvent : Bool) (ev : ParsedEvent) :
    parseLines crates (line :: rest) inEvent ev = parseLines crates rest inEvent ev := by
  obtain ⟨begins, ends⟩ := starts.quiet
  simp only [beginsEvent, endsEvent, decide_eq_false_iff_not] at begins ends
  simp only [parseLines, trimEndMatches_of_getLast plain.noReturn, if_neg begins, if_neg ends,
    starts.applyProperty crates ev]
  cases inEvent <;> rfl

/-- What continues a line does not depend on it. -/
theorem refold_cons (after : List Str) :
    ∃ c rest, ∀ line : Str, line.getLast? ≠ some '\r' → Leads line →
      refold (line :: after) = (line ++ c) :: rest := by
  have folded : ∀ c₀ : Str, ∃ c rest, ∀ line : Str,
      after.foldl unfoldLine [line ++ c₀] = (line ++ c) :: rest := by
    induction after with
    | nil => exact fun c₀ => ⟨c₀, [], fun _ => rfl⟩
    | cons next after ih =>
      intro c₀
      have step : (∃ c₁, ∀ line : Str, unfoldLine [line ++ c₀] next = [line ++ c₁]) ∨
          ∃ pushed, ∀ line : Str, unfoldLine [line ++ c₀] next = [line ++ c₀] ++ [pushed] := by
        simp only [unfoldLine, List.getLast?_singleton]
        cases (stripSuffix ['\r'] next).getD next with
        | nil => exact .inr ⟨[], fun _ => rfl⟩
        | cons first rest =>
          simp only
          split
          · exact .inl ⟨c₀ ++ rest, fun line => by simp⟩
          · exact .inr ⟨first :: rest, fun _ => rfl⟩
      rcases step with ⟨c₁, joined⟩ | ⟨pushed, separate⟩
      · obtain ⟨c, rest, spec⟩ := ih c₁
        exact ⟨c, rest, fun line => by rw [List.foldl_cons, joined, spec]⟩
      · refine ⟨c₀, after.foldl unfoldLine [pushed], fun line => ?_⟩
        rw [List.foldl_cons, separate, foldl_unfoldLine_append _ (by simp)]
        rfl
  obtain ⟨c, rest, spec⟩ := folded []
  refine ⟨c, rest, fun line noReturn leads => ?_⟩
  rw [refold, List.foldl_cons, unfoldLine_leads noReturn leads]
  simpa using spec line

/-! ### Where the writer writes -/

theorem replyLines_eq_some {target partstat : Str} {lines edited : List Str}
    (found : replyLines target partstat lines = some edited) :
    ∃ before line after new, lines = before ++ line :: after ∧
      (∀ l ∈ before, takenFor target l = false) ∧ takenFor target line = true ∧
      replyLine target partstat line = some new ∧ edited = before ++ new :: after := by
  induction lines generalizing edited with
  | nil => cases found
  | cons line rest ih =>
    rw [replyLines] at found
    cases here : replyLine target partstat line with
    | some new =>
      simp only [here, Option.some.injEq] at found
      refine ⟨[], line, rest, new, rfl, by simp, ?_, here, found.symm⟩
      rw [← replyLine_isSome target partstat, here]
      rfl
    | none =>
      simp only [here, Option.map_eq_some_iff] at found
      obtain ⟨edited', later, rfl⟩ := found
      obtain ⟨before, line', after, new, rfl, none, taken, reply, rfl⟩ := ih later
      refine ⟨line :: before, line', after, new, rfl, ?_, taken, reply, rfl⟩
      intro l member
      rcases List.mem_cons.mp member with rfl | among
      · rw [← replyLine_isSome target partstat, here]
        rfl
      · exact none l among

theorem replyLines_eq_none {target partstat : Str} {lines : List Str} :
    replyLines target partstat lines = none ↔ ∀ l ∈ lines, takenFor target l = false := by
  induction lines with
  | nil => simp [replyLines]
  | cons line rest ih =>
    rw [replyLines, List.forall_mem_cons, ← ih, ← replyLine_isSome target partstat]
    cases replyLine target partstat line <;> simp

theorem insertBeforeEnd_eq_some {new : Str} {lines edited : List Str}
    (found : insertBeforeEnd new lines = some edited) :
    ∃ before line after, lines = before ++ line :: after ∧
      (∀ l ∈ before, endsEvent l = false) ∧ endsEvent line = true ∧
      edited = before ++ new :: line :: after := by
  induction lines generalizing edited with
  | nil => cases found
  | cons line rest ih =>
    rw [insertBeforeEnd] at found
    split at found
    · next ends =>
      cases found
      exact ⟨[], line, rest, rfl, by simp, ends, rfl⟩
    · next other =>
      obtain ⟨edited', later, rfl⟩ := Option.map_eq_some_iff.mp found
      obtain ⟨before, line', after, rfl, none, ends, rfl⟩ := ih later
      refine ⟨line :: before, line', after, rfl, ?_, ends, rfl⟩
      intro l member
      rcases List.mem_cons.mp member with rfl | among
      · simpa using other
      · exact none l among

/-- Before the first `END:VEVENT`. -/
theorem insertBeforeEnd_eq {new line : Str} {before after : List Str}
    (none : ∀ l ∈ before, endsEvent l = false) (ends : endsEvent line = true) :
    insertBeforeEnd new (before ++ line :: after) = some (before ++ new :: line :: after) := by
  induction before with
  | nil => simp [insertBeforeEnd, ends]
  | cons l rest ih =>
    obtain ⟨here, later⟩ := List.forall_mem_cons.mp none
    simp [insertBeforeEnd, here, ih later]

theorem replyLines_eq {target partstat line new : Str} {before after : List Str}
    (none : ∀ l ∈ before, takenFor target l = false)
    (reply : replyLine target partstat line = some new) :
    replyLines target partstat (before ++ line :: after) = some (before ++ new :: after) := by
  induction before with
  | nil => simp [replyLines, reply]
  | cons l rest ih =>
    obtain ⟨here, later⟩ := List.forall_mem_cons.mp none
    have skipped : replyLine target partstat l = .none := by
      rw [← replyLine_isSome target partstat] at here
      simpa using here
    simp [replyLines, skipped, ih later]

/-! ### What a reply should do -/

/-- The attendees with the answer of one of them, who is appended if missing. -/
def answered (attendees : List Attendee) (email partstat : Str) : List Attendee :=
  if email ∈ attendees.map (·.email) then
    attendees.map fun a => if a.email = email then a.answer (some partstat) else a
  else attendees ++ [{ email, partstat := some partstat }]

theorem email_mem_answered (attendees : List Attendee) (email partstat : Str) :
    ∃ a ∈ answered attendees email partstat, a.email = email ∧ a.partstat = some partstat := by
  rw [answered]
  split
  · next present =>
    obtain ⟨a, member, same⟩ := List.mem_map.mp present
    refine ⟨_, List.mem_map.mpr ⟨a, member, rfl⟩, ?_⟩
    rw [if_pos same]
    exact ⟨same, rfl⟩
  · exact ⟨_, List.mem_append_right _ List.mem_cons_self, rfl, rfl⟩

theorem answered_partstat {attendees : List Attendee} {email partstat : Str} {a : Attendee}
    (member : a ∈ answered attendees email partstat) (same : a.email = email) :
    a.partstat = some partstat := by
  rw [answered] at member
  split at member
  · obtain ⟨old, _, rfl⟩ := List.mem_map.mp member
    split at same
    · next yes => rw [if_pos yes]; rfl
    · next no => exact absurd same no
  · next missing =>
    rcases List.mem_append.mp member with old | new
    · exact absurd (List.mem_map.mpr ⟨a, old, same⟩) missing
    · rw [List.mem_singleton.mp new]

/-- Different answers give different lists. -/
theorem answered_injective {attendees : List Attendee} {email first second : Str}
    (equal : answered attendees email first = answered attendees email second) :
    first = second := by
  obtain ⟨a, member, same, answer⟩ := email_mem_answered attendees email first
  rw [equal] at member
  have other := answered_partstat member same
  rw [answer] at other
  exact Option.some.inj other

/-! ### One line changed among those read -/

section Lists

variable {before : List Attendee} {state : Option Bool} {later : Bool → List Attendee}
  {email : Str}

/-- The attendees read when one line is read as `here` after `before`. -/
def readAround (before : List Attendee) (state : Option Bool) (here : Option Attendee)
    (later : Bool → List Attendee) : List Attendee :=
  before ++ state.elim [] fun inside => (if inside then here.toList else []) ++ later inside

/-- The answers are in upper case, and there are two of them. -/
theorem partstats_facts :
    ((∀ p ∈ partstats, toAsciiUppercase p = p) ∧ ∀ p ∈ partstats, toAsciiUppercase p ∈ partstats) ∧
    ∃ p ∈ partstats, ∃ q ∈ partstats, p ≠ q := by
  decide

theorem two_partstats : ∃ p ∈ partstats, ∃ q ∈ partstats, p ≠ q := partstats_facts.2

/-- Unless the line is read as an attendee inside the event, nothing read depends on it. -/
theorem readAround_of_not_seen {here : Option Attendee} (unseen : state ≠ some true ∨ here = none) :
    readAround before state here later = readAround before state none later := by
  rcases unseen with outside | nobody
  · match state, outside with
    | none, _ => rfl
    | some false, _ => rfl
    | some true, outside => exact absurd rfl outside
  · rw [nobody]

theorem edit_exact_iff (here : Option Attendee) :
    (∀ p ∈ partstats,
        readAround before state (here.map (·.answer (some p))) later =
          answered (readAround before state here later) email p ∧
        ((readAround before state (here.map (·.answer (some p))) later).map (·.email)).Nodup) ↔
      state = some true ∧ (∃ a, here = some a ∧ a.email = email) ∧
        ((readAround before state here later).map (·.email)).Nodup := by
  have emails : ∀ p : Str, (readAround before state (here.map (·.answer (some p))) later).map
      (·.email) = (readAround before state here later).map (·.email) := by
    intro p
    cases state with
    | none => rfl
    | some inside => cases inside <;> cases here <;> simp [readAround, Attendee.answer]
  simp only [emails]
  constructor
  · intro exactly
    obtain ⟨p, first, q, second, differ⟩ := two_partstats
    have seen : state = some true ∧ here ≠ none := by
      by_contra unseen
      have unseen : state ≠ some true ∨ here = none := by
        by_contra neither
        obtain ⟨inside, someone⟩ := not_or.mp neither
        exact unseen ⟨not_not.mp inside, someone⟩
      have same : ∀ p : Str, readAround before state (here.map (·.answer (some p))) later =
          readAround before state none later := fun p =>
        readAround_of_not_seen (unseen.imp id fun nobody => by rw [nobody]; rfl)
      have equal := (exactly p first).1.symm.trans
        ((same p).trans ((same q).symm.trans (exactly q second).1))
      exact differ (answered_injective equal)
    obtain ⟨inside, someone⟩ := seen
    obtain ⟨a, found⟩ := Option.ne_none_iff_exists'.mp someone
    refine ⟨inside, ⟨a, found, ?_⟩, (exactly p first).2⟩
    by_contra other
    -- an attendee with another address keeps the answer, whatever it is
    have kept : ∀ p ∈ partstats, a.answer (some p) = a := by
      intro p valid
      have result := (exactly p valid).1
      rw [answered] at result
      split at result
      · have at_a := congrArg (·[before.length]?) result
        simpa [readAround, inside, found, other] using at_a
      · have count := congrArg List.length result
        simp [readAround, inside, found] at count
    have equal : a.answer (some p) = a.answer (some q) := (kept p first).trans (kept q second).symm
    exact differ (Option.some.inj (congrArg Attendee.partstat equal))
  · rintro ⟨inside, ⟨a, found, same⟩, distinct⟩ p _
    refine ⟨?_, distinct⟩
    subst inside
    simp only [readAround, found, Option.elim_some, if_true, Option.toList_some, Option.map_some]
      at distinct ⊢
    simp only [List.map_append, List.map_cons, List.map_nil] at distinct
    obtain ⟨_, others, apart⟩ := List.nodup_append.mp distinct
    have mine : email ∉ before.map (·.email) ∧ email ∉ (later true).map (·.email) := by
      constructor
      · intro member
        exact apart email member email (by simp [same]) rfl
      · intro member
        simp only [List.singleton_append, List.nodup_cons] at others
        exact others.1 (same ▸ member)
    have unchanged : ∀ l : List Attendee, email ∉ l.map (·.email) →
        (l.map fun a => if a.email = email then a.answer (some p) else a) = l := by
      intro l absent
      conv_rhs => rw [← List.map_id l]
      refine List.map_congr_left fun b member => ?_
      rw [if_neg fun equal => absent (List.mem_map.mpr ⟨b, member, equal⟩)]
      rfl
    rw [answered, if_pos (by simp [same])]
    simp only [List.map_append, List.map_cons, List.map_nil, if_pos same, unchanged _ mine.1,
      unchanged _ mine.2]

theorem insert_exact_iff :
    (∀ p ∈ partstats,
        readAround before state (some { email, partstat := some p }) later =
          answered (readAround before state none later) email p ∧
        ((readAround before state (some { email, partstat := some p }) later).map
          (·.email)).Nodup) ↔
      state = some true ∧ later true = [] ∧
        email ∉ (readAround before state none later).map (·.email) ∧
        ((readAround before state none later).map (·.email)).Nodup := by
  constructor
  · intro exactly
    obtain ⟨p, first, q, second, differ⟩ := two_partstats
    have inside : state = some true := by
      by_contra outside
      have same : ∀ p : Str, readAround before state (some { email, partstat := some p }) later =
          readAround before state none later := fun p => readAround_of_not_seen (.inl outside)
      have equal := (exactly p first).1.symm.trans
        ((same p).trans ((same q).symm.trans (exactly q second).1))
      exact differ (answered_injective equal)
    subst inside
    obtain ⟨result, distinct⟩ := exactly p first
    have absent : email ∉ (readAround before (some true) none later).map (·.email) := by
      intro present
      rw [answered, if_pos present] at result
      have count := congrArg List.length result
      simp [readAround] at count
    rw [answered, if_neg absent] at result
    simp only [readAround, Option.elim_some, if_true, Option.toList_some, Option.toList_none,
      List.nil_append, List.append_assoc, List.append_cancel_left_eq] at result absent distinct ⊢
    have nothing : later true = [] := by
      cases rest : later true with
      | nil => rfl
      | cons a others =>
        rw [rest] at result absent
        simp only [List.cons_append, List.cons.injEq] at result
        exact absurd (by simp [← result.1]) absent
    refine ⟨trivial, nothing, absent, ?_⟩
    rw [nothing, List.append_nil] at *
    simp only [List.map_append] at distinct
    exact (List.nodup_append.mp distinct).1
  · rintro ⟨rfl, nothing, absent, distinct⟩ p _
    rw [answered, if_neg absent]
    simp only [readAround, Option.elim_some, if_true, Option.toList_some, Option.toList_none,
      nothing, List.append_nil] at absent distinct ⊢
    refine ⟨trivial, ?_⟩
    rw [List.map_append]
    refine List.nodup_append.mpr ⟨distinct, by simp, ?_⟩
    intro e old e' new equal
    rw [List.map_singleton, List.mem_singleton] at new
    have mine : e = email := equal.trans new
    exact absent (mine ▸ old)

end Lists

/-! ### Addresses -/

theorem eq_of_toLower {c d : Char} (lower : c.toLower = d) (other : d.isLower = false) : c = d := by
  subst lower
  simp only [Char.toLower] at other ⊢
  split
  · next upper =>
    rw [dif_pos upper] at other
    obtain ⟨low, high⟩ := upper
    simp only [Char.isLower, UInt32.le_iff_toNat_le, ge_iff_le, UInt32.toNat_add] at low high other
    simp at low high other
    omega
  · rfl

/-- The addresses that can be read from a line: with an `@`, without blanks around. -/
structure Readable (email : Str) : Prop where
  trimmed : trim email = email
  contains : '@' ∈ email
  oneLine : '\n' ∉ email

theorem readable_of_extractMailto {v email : Str} (oneLine : '\n' ∉ v)
    (found : extractMailto v = some email) : Readable email := by
  simp only [extractMailto] at found
  split at found
  · next contains =>
    cases found
    refine ⟨trim_trim _, contains, ?_⟩
    intro member
    have inRest := trim_subset _ member
    have lower : '\n' ∈ toAsciiLowercase v := by
      rw [stripPrefix] at inRest
      split at inRest
      · exact List.mem_of_mem_drop inRest
      · exact inRest
    obtain ⟨c, inValue, same⟩ := List.mem_map.mp lower
    have feed : c = '\n' := eq_of_toLower same (by decide)
    exact oneLine (feed ▸ inValue)
  · cases found

theorem foldl_set_email (params : List Str) (a : Attendee) :
    (params.foldl Attendee.set a).email = a.email := by
  induction params generalizing a with
  | nil => rfl
  | cons seg rest ih =>
    rw [List.foldl_cons, ih]
    simp only [Attendee.set]
    split
    · rfl
    · repeat' split
      all_goals rfl

theorem readable_of_attendeeOf {line : Str} {a : Attendee} (oneLine : '\n' ∉ line)
    (found : attendeeOf line = some a) : Readable a.email := by
  simp only [attendeeOf] at found
  split at found
  · cases found
  · next head value cut =>
    obtain ⟨whole, _⟩ := splitOnce_some cut
    split at found
    · obtain ⟨email, mail, rfl⟩ := Option.map_eq_some_iff.mp found
      rw [foldl_set_email]
      refine readable_of_extractMailto (fun member => oneLine ?_) mail
      rw [whole]
      exact List.mem_append_right _ (List.mem_cons_of_mem _ member)
    · cases found

theorem readable_of_mem {raw : Str} {a : Attendee} (member : a ∈ parseAttendees raw) :
    Readable a.email := by
  have each : ∀ (lines : List Str) (inEvent : Bool), (∀ l ∈ lines, '\n' ∉ l) →
      ∀ a ∈ attendeeLines lines inEvent, Readable a.email := by
    intro lines
    induction lines with
    | nil => simp [attendeeLines]
    | cons line rest ih =>
      intro inEvent oneLine a member
      have later := fun inEvent => ih inEvent fun l among =>
        oneLine l (List.mem_cons_of_mem line among)
      simp only [attendeeLines] at member
      split at member
      · exact later true a member
      · split at member
        · cases member
        · split at member
          · rcases List.mem_append.mp member with here | after
            · refine readable_of_attendeeOf ?_ (Option.mem_toList.mp here)
              exact (plain_trimEndMatches (oneLine line List.mem_cons_self)).oneLine
            · exact later true a after
          · exact later false a member
  exact each _ false (unfoldLines_oneLine raw) a member

theorem newAttendeeLine_facts :
    ("ATTENDEE;".toList = "ATTENDEE".toList ++ [';'] ∧
      ":mailto:".toList = ':' :: "mailto:".toList ∧
      toAsciiLowercase "mailto:".toList = "mailto:".toList ∧
      toAsciiUppercase "ATTENDEE".toList = "ATTENDEE".toList) ∧
    (':' ∉ "ATTENDEE".toList ∧ ';' ∉ "ATTENDEE".toList ∧ '\n' ∉ "ATTENDEE".toList ∧
      '\n' ∉ "mailto:".toList) ∧ "ATTENDEE".toList <+: toAsciiUppercase "ATTENDEE".toList := by
  decide

theorem newAttendeeLine_eq (email partstat : Str) :
    newAttendeeLine email partstat =
      ("ATTENDEE".toList ++ ';' :: partstatParam partstat) ++
        ':' :: ("mailto:".toList ++ email) := by
  have joined : ∀ name param scheme rest : Str,
      (name ++ [';']) ++ param ++ (':' :: scheme) ++ rest =
        (name ++ ';' :: param) ++ ':' :: (scheme ++ rest) := by simp
  obtain ⟨name, scheme, -⟩ := newAttendeeLine_facts.1
  unfold newAttendeeLine
  rw [name, scheme]
  exact joined _ _ _ _

theorem extractMailto_written {email : Str} (readable : Readable (toAsciiLowercase email)) :
    extractMailto ("mailto:".toList ++ email) = some (toAsciiLowercase email) := by
  have lower : toAsciiLowercase ("mailto:".toList ++ email) =
      "mailto:".toList ++ toAsciiLowercase email := by
    have scheme := newAttendeeLine_facts.1.2.2.1
    unfold toAsciiLowercase at *
    rw [List.map_append, scheme]
  have stripped : stripPrefix "mailto:".toList ("mailto:".toList ++ toAsciiLowercase email) =
      some (toAsciiLowercase email) := by
    unfold stripPrefix
    rw [if_pos (List.isPrefixOf_iff_prefix.mpr (List.prefix_append _ _)), List.drop_left]
  have cleaned : trim ((stripPrefix "mailto:".toList
      (toAsciiLowercase ("mailto:".toList ++ email))).getD
        (toAsciiLowercase ("mailto:".toList ++ email))) = toAsciiLowercase email := by
    rw [lower, stripped, Option.getD_some, readable.trimmed]
  unfold extractMailto
  simp only [cleaned, if_pos readable.contains]

/-- The new line, where the reader comes to it. -/
theorem newAttendeeLine_reads {email partstat : Str} (readable : Readable (toAsciiLowercase email))
    (valid : toAsciiUppercase partstat ∈ partstats) :
    attendeeOf (newAttendeeLine email partstat) =
      some { email := toAsciiLowercase email, partstat := some (toAsciiUppercase partstat) } := by
  obtain ⟨noSemi, noColon, _⟩ := partstatParam_plain valid
  have absent : ':' ∉ "ATTENDEE".toList ++ ';' :: partstatParam partstat := by
    rw [List.mem_append, List.mem_cons]
    rintro (inName | equal | inParam)
    · exact newAttendeeLine_facts.2.1.1 inName
    · revert equal
      decide
    · exact noColon inParam
  have pieces : split ';' ("ATTENDEE".toList ++ ';' :: partstatParam partstat) =
      ["ATTENDEE".toList, partstatParam partstat] := by
    rw [split_append_cons newAttendeeLine_facts.2.1.2.1, split_of_not_mem noSemi]
  have name := newAttendeeLine_facts.1.2.2.2
  rw [newAttendeeLine_eq, attendeeOf_eq absent pieces, if_pos name, extractMailto_written readable,
    Option.map_some, List.foldl_cons, List.foldl_nil, set_partstatParam valid]
  rfl

theorem newAttendeeLine_starts (email partstat : Str) :
    StartsAttendee (newAttendeeLine email partstat) := by
  rw [newAttendeeLine_eq]
  exact StartsAttendee.append (StartsAttendee.append newAttendeeLine_facts.2.2 _) _

theorem newAttendeeLine_plain {email partstat : Str} (readable : Readable (toAsciiLowercase email))
    (valid : toAsciiUppercase partstat ∈ partstats) : Plain (newAttendeeLine email partstat) := by
  obtain ⟨_, _, noFeed⟩ := partstatParam_plain valid
  have oneLine : '\n' ∉ email := fun member =>
    readable.oneLine (List.mem_map.mpr ⟨'\n', member, by decide⟩)
  have nonempty : email ≠ [] := by
    rintro rfl
    exact absurd readable.contains (by decide)
  refine ⟨?_, ?_⟩
  · obtain ⟨-, -, noName, noScheme⟩ := newAttendeeLine_facts.2.1
    rw [newAttendeeLine_eq]
    simp only [List.mem_append, List.mem_cons, not_or]
    exact ⟨⟨noName, by decide, noFeed⟩, by decide, noScheme, oneLine⟩
  · -- a final carriage return would be a blank at the end of the address
    unfold newAttendeeLine
    rw [List.getLast?_append_of_ne_nil _ nonempty]
    intro last
    have lastLower : (toAsciiLowercase email).getLast? = some '\r' := by
      rw [toAsciiLowercase, List.getLast?_map, last]
      rfl
    have blank := trimEnd_last (trimStart (toAsciiLowercase email)) '\r'
      (by rw [← trim, readable.trimmed, lastLower]; rfl)
    revert blank
    decide

/-! ### The reply read back -/

theorem physicalLines_plain (raw : Str) : ∀ l ∈ physicalLines raw, Plain l := by
  intro l member
  obtain ⟨piece, among, rfl⟩ := List.mem_map.mp member
  exact plain_trimEndMatches (not_mem_of_mem_split among)

theorem physicalLines_ne_nil (raw : Str) : physicalLines raw ≠ [] := by
  simp [physicalLines, split_ne_nil]

/-- The text as the writer leaves it where it edits nothing. -/
def normalised (raw : Str) : Str := joinLines (physicalLines raw)

/-- What a reply should do to a stored text: the attendees change by its answer alone, none
is listed twice, and the fields of the event stay. -/
def ExactReply (crates : Crates) (raw email partstat : Str) : Prop :=
  ∀ result, applyRsvp raw email partstat = .ok result →
    parseAttendees result =
        answered (parseAttendees raw) (toAsciiLowercase email) (toAsciiUppercase partstat) ∧
      ((parseAttendees result).map (·.email)).Nodup ∧
      parseVevent crates result = parseVevent crates raw

/-- The first physical line taken for the attendee's begins a line that the reader, inside
the first event, reads as the attendee's; no attendee is listed twice. -/
def EditsAttendee (crates : Crates) (raw target : Str) : Prop :=
  ∀ before line after, physicalLines raw = before ++ line :: after →
    (∀ l ∈ before, takenFor target l = false) → takenFor target line = true →
    readState (refold before) false = some true ∧
      (∃ logical rest a, refold (line :: after) = logical :: rest ∧
        attendeeOf logical = some a ∧ a.email = target) ∧
      ((parseAttendees raw).map (·.email)).Nodup ∧
      parseVevent crates (normalised raw) = parseVevent crates raw

/-- If no line is taken for the attendee's, nobody is listed under the address, which can be
read back, and the reader comes to the first physical `END:VEVENT` inside the first event and
reads no attendee after it. -/
def InsertsAttendee (crates : Crates) (raw target : Str) : Prop :=
  (∀ l ∈ physicalLines raw, takenFor target l = false) →
    ∀ before line after, physicalLines raw = before ++ line :: after →
      (∀ l ∈ before, endsEvent l = false) → endsEvent line = true →
      Readable target ∧ readState (refold before) false = some true ∧
        attendeeLines (refold (line :: after)) true = [] ∧
        target ∉ (parseAttendees raw).map (·.email) ∧
        ((parseAttendees raw).map (·.email)).Nodup ∧
        parseVevent crates (normalised raw) = parseVevent crates raw

section Readings

variable {lines : List Str} (plain : ∀ l ∈ lines, Plain l) {first rest : List Str} {logical : Str}
  (unfolded : refold lines = first ++ logical :: rest) (starts : StartsAttendee logical)

include plain unfolded

theorem written_ne_nil : lines ≠ [] := by
  rintro rfl
  simp [refold] at unfolded

theorem logical_plain : Plain logical :=
  refold_plain plain logical (by simp [unfolded])

include starts

theorem parseAttendees_at :
    parseAttendees (joinLines lines) =
      readAround (attendeeLines first false) (readState first false) (attendeeOf logical)
        (attendeeLines rest) := by
  rw [parseAttendees, unfold, unfoldLines_joinLines (written_ne_nil plain unfolded) plain, unfolded,
    attendeeLines_append, readAround]
  congr 2
  funext inside
  exact attendeeLines_starts (logical_plain plain unfolded) starts rest inside

theorem parseVevent_at (crates : Crates) :
    parseLines crates (unfoldLines (joinLines lines)) false {} =
      (readState first false).elim (parseLines crates first false {}) fun inside =>
        parseLines crates rest inside (parseLines crates first false {}) := by
  rw [unfoldLines_joinLines (written_ne_nil plain unfolded) plain, unfolded, parseLines_append]
  congr 1
  funext inside
  exact parseLines_starts (logical_plain plain unfolded) starts crates rest inside _

end Readings

theorem applyRsvp_ok_iff (raw email partstat result : Str) :
    applyRsvp raw email partstat = .ok result ↔
      toAsciiUppercase partstat ∈ partstats ∧
        ∃ lines, result = joinLines lines ∧
          (replyLines (toAsciiLowercase email) partstat (physicalLines raw)).or
            (insertBeforeEnd (newAttendeeLine email partstat) (physicalLines raw)) =
              some lines := by
  simp only [applyRsvp, validatePartstat, bind, Except.bind]
  by_cases valid : toAsciiUppercase partstat ∈ partstats
  · simp only [valid, true_and]
    cases replyLines (toAsciiLowercase email) partstat (physicalLines raw) with
    | some lines => simp [eq_comm]
    | none =>
      cases insertBeforeEnd (newAttendeeLine email partstat) (physicalLines raw) with
      | some lines => simp [eq_comm]
      | none => simp
  · simp [valid]

/-- Only the upper case of the answer matters. -/
theorem exactReply_iff {crates : Crates} {raw email : Str} (after : Str → List Attendee)
    {same : Prop} (written : ∀ partstat, toAsciiUppercase partstat ∈ partstats →
      ∃ result, applyRsvp raw email partstat = .ok result ∧
        parseAttendees result = after (toAsciiUppercase partstat) ∧
        (parseVevent crates result = parseVevent crates raw ↔ same)) :
    (∀ partstat, ExactReply crates raw email partstat) ↔
      same ∧ ∀ p ∈ partstats,
        after p = answered (parseAttendees raw) (toAsciiLowercase email) p ∧
          ((after p).map (·.email)).Nodup := by
  have uppers := partstats_facts.1.1
  constructor
  · intro exactly
    have each : ∀ p ∈ partstats,
        (after p = answered (parseAttendees raw) (toAsciiLowercase email) p ∧
          ((after p).map (·.email)).Nodup) ∧ same := by
      intro p member
      obtain ⟨result, applied, read, fields⟩ := written p ((uppers p member).symm ▸ member)
      obtain ⟨attendees, distinct, kept⟩ := exactly p result applied
      rw [read, uppers p member] at attendees distinct
      exact ⟨⟨attendees, distinct⟩, fields.mp kept⟩
    obtain ⟨p, member, _⟩ := two_partstats
    exact ⟨(each p member).2, fun p member => (each p member).1⟩
  · rintro ⟨kept, each⟩ partstat result applied
    have valid := ((applyRsvp_ok_iff raw email partstat result).mp applied).1
    obtain ⟨result', applied', read, fields⟩ := written partstat valid
    rw [applied] at applied'
    cases applied'
    obtain ⟨attendees, distinct⟩ := each _ valid
    rw [read]
    exact ⟨attendees, distinct, fields.mpr kept⟩

theorem parseVevent_congr {crates : Crates} {first second : Str}
    (same : parseLines crates (unfoldLines first) false {} =
      parseLines crates (unfoldLines second) false {}) :
    parseVevent crates first = parseVevent crates second := by
  simp only [parseVevent, same]

section Exact

variable {crates : Crates} {raw email : Str} {before after : List Str} {line : Str}
  (reading : parseAttendees (normalised raw) = parseAttendees raw)
  (whole : physicalLines raw = before ++ line :: after)

include reading whole

theorem edit_iff (none : ∀ l ∈ before, takenFor (toAsciiLowercase email) l = false)
    (taken : takenFor (toAsciiLowercase email) line = true) :
    (∀ partstat, ExactReply crates raw email partstat) ↔
      readState (refold before) false = some true ∧
        (∃ logical rest a, refold (line :: after) = logical :: rest ∧
          attendeeOf logical = some a ∧ a.email = toAsciiLowercase email) ∧
        ((parseAttendees raw).map (·.email)).Nodup ∧
        parseVevent crates (normalised raw) = parseVevent crates raw := by
  have plain := whole ▸ physicalLines_plain raw
  have linePlain : Plain line := plain line (by simp)
  obtain ⟨c, rest, folded⟩ := refold_cons after
  have at_line : ∀ l : Str, Plain l → StartsAttendee l →
      refold (before ++ l :: after) = refold before ++ (l ++ c) :: rest := fun l plain starts => by
    rw [refold_append before after plain.noReturn starts.leads,
      folded l plain.noReturn starts.leads]
  have replaced : ∀ l : Str, Plain l → ∀ l' ∈ before ++ l :: after, Plain l' := by
    intro l here l' member
    rcases List.mem_append.mp member with old | later
    · exact plain l' (List.mem_append_left _ old)
    · rcases List.mem_cons.mp later with rfl | further
      · exact here
      · exact plain l' (List.mem_append_right _ (List.mem_cons_of_mem line further))
  have edits : ∀ partstat, toAsciiUppercase partstat ∈ partstats →
      ∃ new, replyLine (toAsciiLowercase email) partstat line = some new ∧
        Edited partstat line new := by
    intro partstat valid
    rw [← replyLine_isSome _ partstat] at taken
    obtain ⟨new, reply⟩ := Option.isSome_iff_exists.mp taken
    exact ⟨new, reply, replyLine_edited valid reply⟩
  obtain ⟨p, valid, _⟩ := two_partstats
  have starts : StartsAttendee line := by
    have upper := partstats_facts.1.2
    obtain ⟨_, _, edited⟩ := edits p (upper p valid)
    exact edited.before
  have old : parseAttendees raw = readAround (attendeeLines (refold before) false)
      (readState (refold before) false) (attendeeOf (line ++ c)) (attendeeLines rest) := by
    rw [← reading, normalised, whole]
    exact parseAttendees_at plain (at_line line linePlain starts) (starts.append c)
  have written : ∀ partstat, toAsciiUppercase partstat ∈ partstats →
      ∃ result, applyRsvp raw email partstat = .ok result ∧
        parseAttendees result = readAround (attendeeLines (refold before) false)
          (readState (refold before) false)
          ((attendeeOf (line ++ c)).map (·.answer (some (toAsciiUppercase partstat))))
          (attendeeLines rest) ∧
        (parseVevent crates result = parseVevent crates raw ↔
          parseVevent crates (normalised raw) = parseVevent crates raw) := by
    intro partstat valid
    obtain ⟨new, reply, edited⟩ := edits partstat valid
    have newPlain := edited.plain linePlain
    refine ⟨joinLines (before ++ new :: after), ?_, ?_, ?_⟩
    · rw [applyRsvp_ok_iff, whole, replyLines_eq none reply]
      exact ⟨valid, _, rfl, rfl⟩
    · rw [parseAttendees_at (replaced new newPlain) (at_line new newPlain edited.after)
        (edited.after.append c), edited.reads]
    · have fields : parseVevent crates (joinLines (before ++ new :: after)) =
          parseVevent crates (normalised raw) := by
        apply parseVevent_congr
        rw [normalised, whole,
          parseVevent_at plain (at_line line linePlain starts) (starts.append c),
          parseVevent_at (replaced new newPlain) (at_line new newPlain edited.after)
            (edited.after.append c)]
      rw [fields]
  rw [exactReply_iff (fun p => readAround (attendeeLines (refold before) false)
    (readState (refold before) false) ((attendeeOf (line ++ c)).map (·.answer (some p)))
    (attendeeLines rest)) written, old, edit_exact_iff]
  have here : (∃ logical rest a, refold (line :: after) = logical :: rest ∧
      attendeeOf logical = some a ∧ a.email = toAsciiLowercase email) ↔
      ∃ a, attendeeOf (line ++ c) = some a ∧ a.email = toAsciiLowercase email := by
    rw [folded line linePlain.noReturn starts.leads]
    constructor
    · rintro ⟨_, _, a, ⟨⟩, found⟩
      exact ⟨a, found⟩
    · rintro ⟨a, found⟩
      exact ⟨_, _, a, rfl, found⟩
  rw [here]
  tauto

theorem insert_iff (none : ∀ l ∈ physicalLines raw, takenFor (toAsciiLowercase email) l = false)
    (inside : ∀ l ∈ before, endsEvent l = false) (ends : endsEvent line = true) :
    (∀ partstat, ExactReply crates raw email partstat) ↔
      Readable (toAsciiLowercase email) ∧ readState (refold before) false = some true ∧
        attendeeLines (refold (line :: after)) true = [] ∧
        toAsciiLowercase email ∉ (parseAttendees raw).map (·.email) ∧
        ((parseAttendees raw).map (·.email)).Nodup ∧
        parseVevent crates (normalised raw) = parseVevent crates raw := by
  have plain := whole ▸ physicalLines_plain raw
  have linePlain : Plain line := plain line (by simp)
  have applied : ∀ partstat, toAsciiUppercase partstat ∈ partstats →
      applyRsvp raw email partstat =
        .ok (joinLines (before ++ newAttendeeLine email partstat :: line :: after)) := by
    intro partstat valid
    rw [applyRsvp_ok_iff, replyLines_eq_none.mpr none, whole, insertBeforeEnd_eq inside ends]
    exact ⟨valid, _, rfl, rfl⟩
  by_cases readable : Readable (toAsciiLowercase email)
  · have lead := leads_of_endsEvent ends
    have old : parseAttendees raw = readAround (attendeeLines (refold before) false)
        (readState (refold before) false) .none (attendeeLines (refold (line :: after))) := by
      rw [← reading, normalised, whole, parseAttendees, unfold,
        unfoldLines_joinLines (by simp) plain, refold_append before after linePlain.noReturn lead,
        attendeeLines_append, readAround]
      simp
    have written : ∀ partstat, toAsciiUppercase partstat ∈ partstats →
        ∃ result, applyRsvp raw email partstat = .ok result ∧
          parseAttendees result = readAround (attendeeLines (refold before) false)
            (readState (refold before) false)
            (some { email := toAsciiLowercase email,
                    partstat := some (toAsciiUppercase partstat) })
            (attendeeLines (refold (line :: after))) ∧
          (parseVevent crates result = parseVevent crates raw ↔
            parseVevent crates (normalised raw) = parseVevent crates raw) := by
      intro partstat valid
      have newPlain := newAttendeeLine_plain readable valid
      have starts := newAttendeeLine_starts email partstat
      have allPlain : ∀ l ∈ before ++ newAttendeeLine email partstat :: line :: after, Plain l := by
        intro l member
        rcases List.mem_append.mp member with old | later
        · exact plain l (List.mem_append_left _ old)
        · rcases List.mem_cons.mp later with rfl | further
          · exact newPlain
          · exact plain l (List.mem_append_right _ further)
      have unfolded : refold (before ++ newAttendeeLine email partstat :: line :: after) =
          refold before ++ newAttendeeLine email partstat :: refold (line :: after) := by
        have single : refold [newAttendeeLine email partstat] = [newAttendeeLine email partstat] :=
          unfoldLine_leads newPlain.noReturn starts.leads []
        have next := refold_append [newAttendeeLine email partstat] after linePlain.noReturn lead
        rw [refold_append before _ newPlain.noReturn starts.leads]
        rw [single] at next
        exact congrArg _ next
      refine ⟨_, applied partstat valid, ?_, ?_⟩
      · rw [parseAttendees_at allPlain unfolded starts, newAttendeeLine_reads readable valid]
      · have fields : parseVevent crates
            (joinLines (before ++ newAttendeeLine email partstat :: line :: after)) =
            parseVevent crates (normalised raw) := by
          apply parseVevent_congr
          rw [parseVevent_at allPlain unfolded starts, normalised, whole,
            unfoldLines_joinLines (by simp) plain,
            refold_append before after linePlain.noReturn lead, parseLines_append]
        rw [fields]
    rw [exactReply_iff (fun p => readAround (attendeeLines (refold before) false)
      (readState (refold before) false)
      (some { email := toAsciiLowercase email, partstat := some p })
      (attendeeLines (refold (line :: after)))) written, old, insert_exact_iff]
    tauto
  · -- no list of attendees holds an address that cannot be read
    refine iff_of_false ?_ fun all => readable all.1
    intro exactly
    obtain ⟨p, valid, _⟩ := two_partstats
    have upper := partstats_facts.1.2
    have result := (exactly p _ (applied p (upper p valid))).1
    obtain ⟨a, member, same, _⟩ := email_mem_answered (parseAttendees raw) (toAsciiLowercase email)
      (toAsciiUppercase p)
    rw [← result] at member
    exact readable (same ▸ readable_of_mem member)

end Exact

/-- A line that is the attendee's for the writer and for the reader makes every reply exact. -/
theorem exactReply_of_edits {crates : Crates} {raw email : Str}
    (reading : parseAttendees (normalised raw) = parseAttendees raw)
    (edits : EditsAttendee crates raw (toAsciiLowercase email))
    (inserts : InsertsAttendee crates raw (toAsciiLowercase email)) (partstat : Str) :
    ExactReply crates raw email partstat := by
  intro result applied
  obtain ⟨valid, lines, _, found⟩ := (applyRsvp_ok_iff raw email partstat result).mp applied
  cases reply : replyLines (toAsciiLowercase email) partstat (physicalLines raw) with
  | some edited =>
    obtain ⟨before, line, after, _, whole, none, taken, _, _⟩ := replyLines_eq_some reply
    exact (edit_iff reading whole none taken).mpr (edits before line after whole none taken)
      partstat result applied
  | none =>
    have none := replyLines_eq_none.mp reply
    rw [reply, Option.none_or] at found
    obtain ⟨before, line, after, whole, inside, ends, _⟩ := insertBeforeEnd_eq_some found
    exact (insert_iff reading whole none inside ends).mpr
      (inserts none before line after whole inside ends) partstat result applied

/-- On a text that reads the same with its line ends normalised, replies under an address
have exactly their effect, whatever the answer, if and only if the line written is the
attendee's for the reader too. -/
theorem applyRsvp_exact_iff (crates : Crates) (raw email : Str)
    (reading : parseAttendees (normalised raw) = parseAttendees raw) :
    (∀ partstat, ExactReply crates raw email partstat) ↔
      EditsAttendee crates raw (toAsciiLowercase email) ∧
        InsertsAttendee crates raw (toAsciiLowercase email) := by
  constructor
  · intro exactly
    constructor
    · intro before line after whole none taken
      exact (edit_iff reading whole none taken).mp exactly
    · intro none before line after whole inside ends
      exact (insert_iff reading whole none inside ends).mp exactly
  · rintro ⟨edits, inserts⟩
    exact exactReply_of_edits reading edits inserts

/-- The first place where a test holds is one place. -/
theorem first_unique {α : Type} {test : α → Bool} {before before' after after' : List α} {x x' : α}
    (same : before ++ x :: after = before' ++ x' :: after')
    (none : ∀ y ∈ before, test y = false) (hit : test x = true)
    (none' : ∀ y ∈ before', test y = false) (hit' : test x' = true) :
    before = before' ∧ x = x' ∧ after = after' := by
  induction before generalizing before' with
  | nil =>
    cases before' with
    | nil => simpa using same
    | cons y rest =>
      obtain ⟨rfl, _⟩ := List.cons.inj same
      rw [none' x List.mem_cons_self] at hit
      cases hit
  | cons y rest ih =>
    cases before' with
    | nil =>
      obtain ⟨rfl, _⟩ := List.cons.inj same
      rw [none y List.mem_cons_self] at hit'
      cases hit'
    | cons y' rest' =>
      obtain ⟨rfl, tails⟩ := List.cons.inj same
      obtain ⟨rfl, last⟩ := ih tails (fun z member => none z (List.mem_cons_of_mem y member))
        (fun z member => none' z (List.mem_cons_of_mem y member))
      exact ⟨rfl, last⟩

def ann : Str := "ann@x.org".toList

/-- An event with two attendees. -/
def invitation : Str :=
  "BEGIN:VEVENT\r\nUID:1\r\nATTENDEE;CN=Ann:mailto:Ann@x.org\r\n".toList ++
    "ATTENDEE;PARTSTAT=TENTATIVE:mailto:bob@x.org\r\nEND:VEVENT\r\n".toList

theorem applyRsvp_exact_invitation :
    parseAttendees (normalised invitation) = parseAttendees invitation ∧
      (parseAttendees invitation).length = 2 ∧
      ∀ partstat, ExactReply sampleCrates invitation ann partstat := by
  have reading : parseAttendees (normalised invitation) = parseAttendees invitation := by
    decide
  refine ⟨reading, by decide, (applyRsvp_exact_iff sampleCrates invitation ann reading).mpr
    ⟨?_, ?_⟩⟩
  · intro before line after whole none taken
    have place : physicalLines invitation = ["BEGIN:VEVENT".toList, "UID:1".toList] ++
        "ATTENDEE;CN=Ann:mailto:Ann@x.org".toList ::
          ["ATTENDEE;PARTSTAT=TENTATIVE:mailto:bob@x.org".toList, "END:VEVENT".toList, []] := by
      decide
    obtain ⟨rfl, rfl, rfl⟩ := first_unique (whole.symm.trans place) none taken
      (by decide) (by decide)
    refine ⟨by decide, ⟨"ATTENDEE;CN=Ann:mailto:Ann@x.org".toList,
      ["ATTENDEE;PARTSTAT=TENTATIVE:mailto:bob@x.org".toList, "END:VEVENT".toList, []],
      { email := ann, cn := some "Ann".toList }, by decide, by decide, rfl⟩,
      by decide, by decide⟩
  · intro none
    exact absurd none (by decide)

/-- An address in a folded line; an attendee line of another component; an attendee listed
twice; a property whose name only starts so; a folded line that ends in two carriage
returns. -/
def mismatched : List Str :=
  ["BEGIN:VEVENT\r\nUID:1\r\nATTENDEE:mailto:\r\n ann@x.org\r\nEND:VEVENT\r\n".toList,
    "BEGIN:VTODO\r\nATTENDEE:mailto:ann@x.org\r\nEND:VTODO\r\n".toList ++
      "BEGIN:VEVENT\r\nUID:1\r\nEND:VEVENT\r\n".toList,
    "BEGIN:VEVENT\r\nUID:1\r\nATTENDEE:mailto:ann@x.org\r\n".toList ++
      "ATTENDEE:mailto:ann@x.org\r\nEND:VEVENT\r\n".toList,
    "BEGIN:VEVENT\r\nUID:1\r\nATTENDEE-NOTE:mailto:ann@x.org\r\nEND:VEVENT\r\n".toList,
    "BEGIN:VEVENT\r\nUID:1\r\nSUMMARY:a\r\r\n b\r\nEND:VEVENT\r\n".toList]

theorem applyRsvp_mismatched :
    mismatched.Forall fun raw => ¬ ExactReply sampleCrates raw ann "ACCEPTED".toList := by
  have differs : ∀ raw ∈ mismatched, ∃ result ∈ (applyRsvp raw ann "ACCEPTED".toList).toOption,
      ¬ (parseAttendees result = answered (parseAttendees raw) ann "ACCEPTED".toList ∧
        ((parseAttendees result).map (·.email)).Nodup ∧
        parseVevent sampleCrates result = parseVevent sampleCrates raw) := by
    unfold mismatched
    repeat rw [String.toList_ofList]
    decide +kernel
  rw [List.forall_iff_forall_mem]
  intro raw member exactly
  obtain ⟨result, applied, wrong⟩ := differs raw member
  have ok : applyRsvp raw ann "ACCEPTED".toList = .ok result := by
    cases ran : applyRsvp raw ann "ACCEPTED".toList with
    | error =>
      rw [ran] at applied
      cases applied
    | ok result' =>
      rw [ran] at applied
      rw [Option.some.inj applied]
  have lower : toAsciiLowercase ann = ann := by decide
  have upper : toAsciiUppercase "ACCEPTED".toList = "ACCEPTED".toList := by decide
  have right := exactly result ok
  rw [lower, upper] at right
  exact wrong right

end Expresso.CalDav.Itip
