import Expresso.Web.Categories
import Expresso.Web.Rooms

/-! An event form, its text, what the calendar service reads in the text and the form that is
filled from it again: just when nothing is lost on the way. -/

namespace Expresso.Web
open Text hiding contains
open Time
open CalDav (terminated unfoldLines parseVevent Crates)

/-- Nothing of the form is lost or added. -/
structure RoundTrip (crates : Crates) (o : Occasion) (f : EventForm) (body : Str) : Prop where
  lines : ∀ dtstart dtend, localToIcalUtc f.dtstart = some dtstart →
    localToIcalUtc f.dtend = some dtend →
    unfoldLines body = (fields o f dtstart dtend).map lineOf ++ [[]]
  read : ∃ ev, parseVevent crates body = .ok ev ∧ ev.summary.getD [] = trim f.summary ∧
    ev.location.getD [] = trim f.location ∧ ev.description.getD [] = trim f.description
  categories :
    formatCategories (reseeded f body).categories = formatCategories f.categories
  reminders : reminderMinutes (reseeded f body).reminders = reminderMinutes f.reminders
  attachments :
    parseAttachmentUris (reseeded f body).attachments = parseAttachmentUris f.attachments
  resources : parseResourceEmails (reseeded f body).resources = parseResourceEmails f.resources

/-- A local time without a line feed in the parts that are written. -/
def StampOneLine (s : Str) : Prop :=
  ∀ parts ∈ localParts s, '\n' ∉ parts.1 ∧ '\n' ∉ parts.2.1 ∧ '\n' ∉ parts.2.2

/-- The forms that survive. The reminders speak with the summary, so a description beside them has
to be the same text. -/
structure Conveyed (f : EventForm) : Prop where
  dtstart : StampOneLine f.dtstart
  dtend : StampOneLine f.dtend
  description : reminderMinutes f.reminders = [] ∨ trim f.description = trim f.summary
  categories : ∀ c ∈ keptCategories f.categories, ':' ∉ c ∧ ';' ∉ c ∧ '\n' ∉ c
  rooms : RoomsKept f

theorem stampOneLine_iff {s stamp : Str} (written : localToIcalUtc s = some stamp) :
    StampOneLine s ↔ '\n' ∉ stamp := by
  obtain ⟨⟨date, h, m⟩, parts, rfl⟩ := Option.map_eq_some_iff.mp written
  have zeros : '\n' ∉ "00Z".toList := by decide
  unfold StampOneLine
  rw [parts]
  simp only [Option.mem_def, Option.some.injEq, forall_eq', List.mem_append, List.mem_filter,
    List.mem_singleton, not_or]
  constructor
  · intro ⟨inDate, inHour, inMinute⟩
    exact ⟨⟨⟨⟨fun both => inDate both.1, by decide⟩, inHour⟩, inMinute⟩, zeros⟩
  · intro ⟨⟨⟨⟨inDate, _⟩, inHour⟩, inMinute⟩, _⟩
    exact ⟨fun member => inDate ⟨member, by decide⟩, inHour, inMinute⟩

theorem getD_text (v : Str) : (if v.isEmpty then none else some v).getD [] = v := by
  split
  · next empty => rw [List.isEmpty_iff.mp empty, Option.getD_none]
  · rfl

theorem description_iff (f : EventForm) :
    (if reminderMinutes f.reminders = [] then
        (if (trim f.description).isEmpty then none else some (trim f.description))
      else some (trim f.summary)).getD [] = trim f.description ↔
      reminderMinutes f.reminders = [] ∨ trim f.description = trim f.summary := by
  by_cases none_ : reminderMinutes f.reminders = []
  · rw [if_pos none_, getD_text]
    exact ⟨fun _ => .inl none_, fun _ => rfl⟩
  · rw [if_neg none_, Option.getD_some]
    exact ⟨fun same => .inr same.symm, fun either => (either.resolve_left none_).symm⟩

/-- A form comes back from its text, just when it is one of those that survive. -/
theorem form_round_trip_iff (crates : Crates) {o : Occasion} (live : o.method ≠ .cancel)
    {f : EventForm} {body : Str} (built : buildVcalendar o f = some body) :
    RoundTrip crates o f body ↔ Conveyed f := by
  simp only [buildVcalendar, Option.bind_eq_bind, Option.bind_eq_some_iff] at built
  obtain ⟨dtstart, started, dtend, ended, made⟩ := built
  obtain rfl := Option.some.inj made
  have stamps : OneLines (fields o f dtstart dtend) ↔
      StampOneLine f.dtstart ∧ StampOneLine f.dtend := by
    rw [fields_oneLines_iff, stampOneLine_iff started, stampOneLine_iff ended]
  have unfolded := unfoldLines_lineOf_iff (fields o f dtstart dtend)
  have texts := @read_texts crates o f live dtstart dtend
  have categories : values .categories (fields o f dtstart dtend) = detailValues f .categories :=
    values_fields o f live rfl (by decide) dtstart dtend
  have triggers : values .trigger (fields o f dtstart dtend) = detailValues f .trigger :=
    values_fields o f live rfl (by decide) dtstart dtend
  have links : values .attach (fields o f dtstart dtend) = detailValues f .attach :=
    values_fields o f live rfl (by decide) dtstart dtend
  have attendees : values .attendee (fields o f dtstart dtend) = detailValues f .attendee :=
    values_fields o f live rfl (by decide) dtstart dtend
  have rooms : values .room (fields o f dtstart dtend) = detailValues f .room :=
    values_fields o f live rfl (by decide) dtstart dtend
  dsimp only [detailValues] at categories triggers links attendees rooms
  generalize whole : fields o f dtstart dtend = l at *
  constructor
  · intro trip
    have kept := trip.lines dtstart dtend started ended
    rw [whole] at kept
    have oneLines := unfolded.mp kept
    obtain ⟨first, second⟩ := stamps.mp oneLines
    obtain ⟨ev, read, -, -, description⟩ := trip.read
    obtain ⟨ev', read', -, -, written⟩ := texts oneLines
    obtain rfl := Except.ok.inj (read.symm.trans read')
    rw [written] at description
    exact ⟨first, second, (description_iff f).mp description,
      (categories_round_trip_iff oneLines categories).mp trip.categories,
      (rooms_round_trip_iff oneLines attendees rooms).mp trip.resources⟩
  · intro conveyed
    have oneLines := stamps.mpr ⟨conveyed.dtstart, conveyed.dtend⟩
    constructor
    · intro dtstart' dtend' started' ended'
      obtain rfl := Option.some.inj (started.symm.trans started')
      obtain rfl := Option.some.inj (ended.symm.trans ended')
      rw [whole]
      exact unfolded.mpr oneLines
    · obtain ⟨ev, read, summary, location, description⟩ := texts oneLines
      refine ⟨ev, read, ?_, ?_, ?_⟩
      · rw [summary, Option.getD_some]
      · rw [location, getD_text]
      · rw [description]
        exact (description_iff f).mpr conveyed.description
    · exact (categories_round_trip_iff oneLines categories).mpr conveyed.categories
    · exact valarmMinutes_round_trip oneLines triggers
    · exact attachments_round_trip oneLines links
    · exact (rooms_round_trip_iff oneLines attendees rooms).mpr conveyed.rooms

def meeting : Occasion where
  uid := "review-1".toList
  uid_plain := ⟨by decide +kernel, by decide +kernel⟩
  uid_nonempty := by decide +kernel
  organizer := none
  method := .request
  now := .assumeUtc ⟨2026, .june, 1, Time.year_2026, Time.june_first⟩ 0 Time.midnight_range

def review (reminders : String) : EventForm where
  summary := "Review".toList
  location := "Room 1".toList
  description := "Bring slides".toList
  dtstart := "2026-06-10T09:00".toList
  dtend := "2026-06-10T10:00".toList
  attendees := []
  reminders := reminders.toList
  categories := "work, team".toList
  resources := "room1@example.org".toList
  attachments := "https://example.org/plan".toList

theorem form_round_trip_iff_review :
    ∃ body, buildVcalendar meeting (review "") = some body ∧
      (RoundTrip CalDav.sampleCrates meeting (review "") body ↔ Conveyed (review "")) := by
  have isSome : (buildVcalendar meeting (review "")).isSome = true := by decide +kernel
  have built := (Option.some_get isSome).symm
  exact ⟨_, built, form_round_trip_iff CalDav.sampleCrates (by decide) built⟩

/-- The reminder of the event takes the place of its description. -/
theorem reminder_replaces_description :
    (buildVcalendar meeting (review "15")).bind (fun body =>
      (parseVevent CalDav.sampleCrates body).toOption.map (·.description)) =
      some (some "Review".toList) ∧
    trim (review "15").description = "Bring slides".toList := by
  decide +kernel

end Expresso.Web
