import Expresso.CalDav.Rsvp
import Expresso.CalDav.TodoRoundTrip
import Expresso.Imap.Lines
import Expresso.Text.Trim
import Expresso.Web.Ical

/-! The lines of a written event: no value of the form adds one, unless a local time does. -/

namespace Expresso.Web
open Text hiding contains
open Time
open CalDav (terminated formatUtc formatUtc_oneLine escapeText Leads unfoldLines)
open Imap (lines)
open Query (sortUnique mem_sortUnique)

/-! ### Values -/

theorem escapeIcal_eq (s : Str) : escapeIcal s = escapeText s := by
  unfold escapeIcal replaceChar escapeText
  rw [List.flatMap_assoc, List.flatMap_assoc, List.flatMap_assoc]
  apply List.flatMap_congr
  intro c _
  unfold CalDav.escapeChar
  by_cases backslash : c = '\\'
  · subst backslash
    decide
  by_cases semicolon : c = ';'
  · subst semicolon
    decide
  by_cases comma : c = ','
  · subst comma
    decide
  by_cases feed : c = '\n'
  · subst feed
    decide
  simp [backslash, semicolon, comma, feed]

theorem escapeIcal_oneLine (s : Str) : '\n' ∉ escapeIcal s := by
  rw [escapeIcal_eq]
  exact CalDav.escapeText_oneLine s

theorem mem_splitOnP {p : Char → Bool} {s piece : Str} (member : piece ∈ s.splitOnP p) :
    ∀ c ∈ piece, p c = false := by
  induction s generalizing piece with
  | nil =>
    rw [List.splitOnP_nil, List.mem_singleton] at member
    simp [member]
  | cons c rest ih =>
    rw [List.splitOnP_cons_eq_if_modifyHead] at member
    obtain ⟨first, others, pieces⟩ := List.exists_cons_of_ne_nil (List.splitOnP_ne_nil p rest)
    rw [pieces] at member ih
    split at member
    · rcases List.mem_cons.mp member with rfl | later
      · simp
      · exact ih later
    · next other =>
      rcases List.mem_cons.mp member with rfl | later
      · intro d inside
        rcases List.mem_cons.mp inside with rfl | here
        · exact Bool.eq_false_iff.mpr other
        · exact ih List.mem_cons_self d here
      · exact ih (List.mem_cons_of_mem first later)

theorem isLower_of_separates {c : Char} (separates : separatesEmails c = true) :
    c.isLower = false := by
  simp only [separatesEmails, Bool.or_eq_true, decide_eq_true_eq] at separates
  rcases separates with (rfl | rfl) | blank
  · decide
  · decide
  · simp only [isWhitespace, Char.toNat, Bool.or_eq_true, Bool.and_eq_true,
      decide_eq_true_eq] at blank
    apply Bool.eq_false_iff.mpr
    intro lower
    simp only [Char.isLower, UInt32.le_iff_toNat_le, ge_iff_le, Bool.and_eq_true,
      decide_eq_true_eq] at lower
    have low : 97 ≤ c.val.toNat := lower.1
    have high : c.val.toNat ≤ 122 := lower.2
    omega

theorem toLower_not_separates {c : Char} (inside : separatesEmails c = false) :
    separatesEmails c.toLower = false := by
  apply Bool.eq_false_iff.mpr
  intro separates
  rw [CalDav.Itip.eq_of_toLower rfl (isLower_of_separates separates)] at inside
  rw [inside] at separates
  cases separates

theorem toLower_toLower (c : Char) : c.toLower.toLower = c.toLower := by
  unfold Char.toLower
  split
  · next upper =>
    rw [dif_neg]
    intro again
    simp only [UInt32.le_iff_toNat_le, ge_iff_le, UInt32.toNat_add] at upper again
    simp at upper again
    omega
  · rfl

/-- An address as it is kept: no separator in it, in lower case. -/
structure IsEmail (email : Str) : Prop where
  inside : ∀ c ∈ email, separatesEmails c = false
  at_ : '@' ∈ email
  lower : toAsciiLowercase email = email

theorem trim_of_inside {s : Str} (inside : ∀ c ∈ s, isWhitespace c = false) : trim s = s :=
  trim_eq_self_iff.mpr ⟨fun c head => inside c (List.mem_of_mem_head? head),
    fun c last => inside c (List.mem_of_mem_getLast? last)⟩

theorem isEmail_of_mem {raw email : Str} (member : email ∈ emails raw) : IsEmail email := by
  obtain ⟨piece, kept, rfl⟩ := List.mem_map.mp member
  obtain ⟨among, filled⟩ := List.mem_filter.mp kept
  obtain ⟨whole, pieces, rfl⟩ := List.mem_map.mp among
  rw [Bool.and_eq_true, List.contains_iff_mem] at filled
  constructor
  · intro c member
    obtain ⟨d, here, rfl⟩ := List.mem_map.mp member
    exact toLower_not_separates (mem_splitOnP pieces d (trim_subset whole here))
  · exact List.mem_map.mpr ⟨'@', filled.2, by decide⟩
  · simp only [toAsciiLowercase, List.map_map]
    apply List.map_congr_left
    intro c _
    exact toLower_toLower c

theorem IsEmail.noBlank {email : Str} (is : IsEmail email) :
    ∀ c ∈ email, isWhitespace c = false := by
  intro c member
  have inside := is.inside c member
  simp only [separatesEmails, Bool.or_eq_false_iff] at inside
  exact inside.2

theorem oneLine_of_noBlank {s : Str} (noBlank : ∀ c ∈ s, isWhitespace c = false) : '\n' ∉ s := by
  intro member
  have blank := noBlank '\n' member
  revert blank
  decide

/-- A link as it is kept. -/
structure IsUri (uri : Str) : Prop where
  inside : ∀ c ∈ uri, separatesUris c = false
  trimmed : trim uri = uri
  known : knownScheme uri = true

theorem isUri_of_mem {raw uri : Str} (member : uri ∈ parseAttachmentUris raw) : IsUri uri := by
  have kept := (List.destutter_sublist _ _).subset (List.mem_of_mem_take member)
  obtain ⟨among, known⟩ := List.mem_filter.mp kept
  obtain ⟨whole, pieces, rfl⟩ := List.mem_map.mp among
  exact ⟨fun c here => mem_splitOnP pieces c (trim_subset whole here), trim_trim whole, known⟩

theorem IsUri.oneLine {uri : Str} (is : IsUri uri) : '\n' ∉ uri := by
  intro member
  have separates := is.inside '\n' member
  revert separates
  decide

/-! ### Lines -/

theorem text_facts (head : Head) : '\n' ∉ head.text.toList ∧ ':' ∉ head.text.toList ∧
    head.text.toList ≠ [] ∧ ∀ c ∈ head.text.toList, isWhitespace c = false := by
  -- a literal is read as its characters first: evaluating it decodes it again at each of them
  have visible : head.text.toList.all (fun c => !isWhitespace c) = true := by
    cases head <;> rw [Head.text, String.toList_ofList] <;> decide
  have delimited : '\n' ∉ head.text.toList ∧ ':' ∉ head.text.toList ∧ head.text.toList ≠ [] := by
    cases head <;> rw [Head.text, String.toList_ofList] <;> decide
  exact ⟨delimited.1, delimited.2.1, delimited.2.2, by simpa using visible⟩

theorem lineOf_oneLine {field : Field} (oneLine : '\n' ∉ field.2) : '\n' ∉ lineOf field :=
  List.not_mem_append (text_facts field.1).1 (by simpa using oneLine)

theorem lineOf_leads (field : Field) : Leads (lineOf field) := by
  obtain ⟨-, -, filled, noBlank⟩ := text_facts field.1
  obtain ⟨c, rest, text⟩ := List.exists_cons_of_ne_nil filled
  have plain := noBlank c (text ▸ List.mem_cons_self)
  unfold lineOf Leads
  rw [text]
  constructor
  · rintro ⟨⟩
    revert plain
    decide
  · rintro ⟨⟩
    revert plain
    decide

def OneLines (l : List Field) : Prop := ∀ field ∈ l, '\n' ∉ field.2

theorem oneLines_append {l l' : List Field} : OneLines (l ++ l') ↔ OneLines l ∧ OneLines l' :=
  List.forall_mem_append

theorem oneLines_nil : OneLines [] := List.forall_mem_nil _

theorem oneLines_singleton {field : Field} : OneLines [field] ↔ '\n' ∉ field.2 :=
  List.forall_mem_singleton

theorem display_oneLine (m : Nat) : '\n' ∉ display m := by
  intro member
  have digit : '\n'.isDigit = true :=
    CalDav.display_isDigit (Int.natCast_nonneg m) '\n' member
  revert digit
  decide

theorem buildValarms_oneLines (reminders summary : Str) :
    OneLines (buildValarms reminders summary) := by
  intro field member
  obtain ⟨m, -, inBlock⟩ := List.mem_flatMap.mp member
  have block : OneLines [(.begins, "VALARM".toList), (.action, "DISPLAY".toList),
      (.trigger, "-PT".toList ++ display m ++ ['M']), (.description, escapeIcal summary),
      (.ends, "VALARM".toList)] := by
    have trigger : '\n' ∉ "-PT".toList ++ display m ++ ['M'] :=
      List.not_mem_append (List.not_mem_append (by decide) (display_oneLine m)) (by decide)
    exact List.forall_mem_cons.mpr ⟨by decide, List.forall_mem_cons.mpr ⟨by decide,
      List.forall_mem_cons.mpr ⟨trigger, List.forall_mem_cons.mpr
        ⟨escapeIcal_oneLine summary, oneLines_singleton.2 (by decide)⟩⟩⟩⟩
  exact block field inBlock

theorem formatCategories_oneLine (raw : Str) : '\n' ∉ formatCategories raw := by
  intro member
  rcases CalDav.Itip.mem_intercalate member with same | ⟨piece, among, inside⟩
  · revert same
    decide
  · obtain ⟨c, -, rfl⟩ := List.mem_map.mp among
    exact escapeIcal_oneLine c inside

theorem mailto_oneLine {email : Str} (oneLine : '\n' ∉ email) :
    '\n' ∉ "mailto:".toList ++ email := List.not_mem_append (by decide) oneLine

section
variable (o : Occasion) (f : EventForm)

theorem details_oneLines : OneLines (details o f) := by
  have mails (head : Head) (l : List Str) (each : ∀ email ∈ l, IsEmail email) :
      OneLines (l.map fun email => (head, "mailto:".toList ++ email)) := by
    intro field member
    obtain ⟨email, among, rfl⟩ := List.mem_map.mp member
    exact mailto_oneLine (oneLine_of_noBlank (each email among).noBlank)
  have text (head : Head) (v : Str) : OneLines (if (trim v).isEmpty then []
      else [(head, escapeIcal (trim v))]) := by
    split
    · exact oneLines_nil
    · exact oneLines_singleton.2 (escapeIcal_oneLine _)
  unfold details
  simp only [oneLines_append]
  refine ⟨⟨⟨⟨⟨⟨⟨⟨⟨?status, ?summary⟩, text _ _⟩, text _ _⟩, ?categories⟩, ?attach⟩, ?organizer⟩,
    mails _ _ fun _ => isEmail_of_mem⟩, ?rooms⟩, ?alarms⟩
  case status =>
    split
    · exact List.forall_mem_cons.mpr ⟨by decide, oneLines_singleton.2 (by decide)⟩
    · exact oneLines_nil
  case summary => exact oneLines_singleton.2 (escapeIcal_oneLine _)
  case categories =>
    unfold nonempty
    split
    · exact oneLines_nil
    · exact oneLines_singleton.2 (formatCategories_oneLine f.categories)
  case attach =>
    intro field member
    obtain ⟨uri, among, rfl⟩ := List.mem_map.mp member
    exact (isUri_of_mem among).oneLine
  case organizer =>
    unfold organizerLines
    split
    · next email _ =>
      split
      · exact oneLines_nil
      · exact oneLines_singleton.2 (mailto_oneLine email.2)
    · exact oneLines_nil
  case rooms =>
    apply mails
    intro email member
    exact isEmail_of_mem (Query.mem_sortUnique.mp (List.mem_of_mem_take member))
  case alarms =>
    split
    · exact buildValarms_oneLines _ _
    · exact oneLines_nil

theorem opening_oneLines : OneLines (opening o) := by
  have method : OneLines (o.method.text.map fun m => (Head.method, m.toList)).toList := by
    cases o.method
    · exact oneLines_nil
    · exact oneLines_singleton.mpr (by decide)
    · exact oneLines_singleton.mpr (by decide)
  unfold opening
  simp only [oneLines_append]
  refine ⟨⟨?_, method⟩, ?_⟩
  · exact List.forall_mem_cons.mpr ⟨by decide, List.forall_mem_cons.mpr
      ⟨by decide, oneLines_singleton.mpr (by decide)⟩⟩
  · exact List.forall_mem_cons.mpr ⟨by decide, List.forall_mem_cons.mpr
      ⟨o.uid_plain.oneLine, oneLines_singleton.mpr (formatUtc_oneLine o.now)⟩⟩

theorem fields_oneLines_iff (dtstart dtend : Str) :
    OneLines (fields o f dtstart dtend) ↔ '\n' ∉ dtstart ∧ '\n' ∉ dtend := by
  have times : OneLines [(.dtstart, dtstart), (.dtend, dtend)] ↔
      '\n' ∉ dtstart ∧ '\n' ∉ dtend :=
    List.forall_mem_cons.trans (and_congr_right fun _ => oneLines_singleton)
  have ending : OneLines ending :=
    List.forall_mem_cons.mpr ⟨by decide, oneLines_singleton.mpr (by decide)⟩
  unfold fields
  rw [oneLines_append, oneLines_append, oneLines_append, times]
  exact ⟨fun all => all.1.1.2,
    fun both => ⟨⟨⟨opening_oneLines o, both⟩, details_oneLines o f⟩, ending⟩⟩

end

/-! ### The text -/

/-- A text of lines unfolds to them, just where no value has a line feed. -/
theorem unfoldLines_lineOf_iff (l : List Field) :
    unfoldLines (terminated (l.map lineOf)) = l.map lineOf ++ [[]] ↔ OneLines l := by
  constructor
  · intro same field member inside
    have among : lineOf field ∈ unfoldLines (terminated (l.map lineOf)) := by
      rw [same]
      exact List.mem_append_left _ (List.mem_map_of_mem member)
    apply CalDav.unfoldLines_oneLine _ _ among
    exact List.mem_append_right _ (List.mem_cons_of_mem _ inside)
  · intro oneLines
    rw [unfoldLines, CalDav.foldl_unfoldLine_terminated, List.nil_append]
    intro line member
    obtain ⟨field, among, rfl⟩ := List.mem_map.mp member
    exact ⟨lineOf_oneLine (oneLines field among), lineOf_leads field⟩

theorem lines_lineOf {l : List Field} (oneLines : OneLines l) :
    lines (terminated (l.map lineOf)) = l.map lineOf := by
  apply Imap.lines_flatMap
  intro line member
  obtain ⟨field, among, rfl⟩ := List.mem_map.mp member
  exact lineOf_oneLine (oneLines field among)

end Expresso.Web
