import Expresso.CalDav.Conservation
import Expresso.CalDav.Rows

/-! Which event an upload replaces, and what a deletion by the id takes. -/

namespace Expresso.CalDav
open Text

section
variable {crates : Crates} {s : Store} {e : Event} {raw : Str} {fresh : Uuid} {now : Timestamp}

/-- The store after a write; one that fails is rolled back. -/
def Store.afterReplace (crates : Crates) (tenant calendar : Uuid) (raw : Str) (fresh : Uuid)
    (now : Timestamp) (s : Store) : Store :=
  match replaceByUid crates tenant calendar raw fresh now s with
  | .ok (s', _) => s'
  | .error _ => s

def Store.afterDelete (tenant id : Uuid) (now : Timestamp) (s : Store) : Store :=
  match delete tenant id now s with
  | .ok s' => s'
  | .error _ => s

theorem rewrite_row (ctag : Int) (parsed : ParsedEvent) (calendar : Uuid) (x : Event) :
    (rewrite crates calendar raw now parsed ctag x).id = x.id ∧
      (x.under calendar parsed.uid = true →
        (rewrite crates calendar raw now parsed ctag x).icalRaw = raw ∧
          (rewrite crates calendar raw now parsed ctag x).under calendar parsed.uid = true) ∧
      (x.under calendar parsed.uid = false →
        rewrite crates calendar raw now parsed ctag x = x) := by
  unfold rewrite
  cases under : x.under calendar parsed.uid with
  | false => simp
  | true =>
    simp only [Event.under, Bool.and_eq_true, decide_eq_true_eq] at under
    simp [Event.replaced, Event.withBody, Event.under, under.1]

/-- Whether an upload finds an event of the calendar. -/
theorem replace_own_iff (coherent : Coherent crates s.toTables) (member : e ∈ s.events) :
    ((∀ x, x.id ≠ e.id →
        (x ∈ (s.afterReplace crates e.tenantId e.calendarId raw fresh now).events ↔
          x ∈ s.events)) ∧
      ∃ row ∈ (s.afterReplace crates e.tenantId e.calendarId raw fresh now).events,
        row.id = e.id ∧ row.icalRaw = raw) ↔
      ∃ parsed, parseVevent crates raw = .ok parsed ∧ parsed.uid = e.uid ∧
        (e.icalRaw = raw ∨ AcceptedBody crates raw parsed ∧
          Writable crates e.tenantId e.calendarId fresh raw s parsed) := by
  have own : e.under e.calendarId e.uid = true := by simp [Event.under]
  cases done : replaceByUid crates e.tenantId e.calendarId raw fresh now s with
  | error reason =>
    have result : s.afterReplace crates e.tenantId e.calendarId raw fresh now = s := by
      unfold Store.afterReplace
      rw [done]
    rw [result]
    constructor
    · rintro ⟨_, row, listed, same, text⟩
      rw [s.eq_of_id listed member same] at text
      obtain ⟨parsed, read, uid, _⟩ := coherent.bodies e member
      rw [text] at read
      exact ⟨parsed, read, uid, .inl text⟩
    · rintro ⟨parsed, read, uid, kept⟩
      refine ⟨fun _ _ => Iff.rfl, e, member, rfl, ?_⟩
      rcases kept with text | ⟨body, writable⟩
      · exact text
      · obtain ⟨s', x, written⟩ := (replaceByUid_ok_iff coherent body read).mpr writable
        cases done.symm.trans written
  | ok written =>
    obtain ⟨s', x⟩ := written
    have result : s.afterReplace crates e.tenantId e.calendarId raw fresh now = s' := by
      unfold Store.afterReplace
      rw [done]
    obtain ⟨coherent', parsed, read, ⟨row, stored, isAt, text⟩, others⟩ :=
      replaceByUid_spec coherent done
    obtain ⟨known, tables⟩ := replaceByUid_tables coherent read done
    have under := (Event.isAt_iff.mp isAt).2
    have body : AcceptedBody crates raw parsed := by
      obtain ⟨parsed', read', _, body⟩ := coherent'.bodies row stored
      rw [text] at read' body
      cases read.symm.trans read'
      exact body
    have writable := (replaceByUid_ok_iff coherent body read).mp ⟨s', x, done⟩
    rw [result]
    constructor
    · rintro ⟨_, row', listed, same, text'⟩
      refine ⟨parsed, read, ?_, .inr ⟨body, writable⟩⟩
      have alike (here : row' = e) : parsed.uid = e.uid := by
        obtain ⟨parsed', read', uid, _⟩ := coherent.bodies e member
        rw [← here, text'] at read'
        cases read.symm.trans read'
        exact uid
      rw [tables] at listed
      unfold upserted at listed
      unfold Writable at writable
      cases found : s.events.find? (·.under e.calendarId parsed.uid) with
      | none =>
        rw [found] at listed writable
        rcases List.mem_append.mp listed with old | new
        · exact alike (s.eq_of_id old member same)
        · rw [List.mem_singleton.mp new] at same
          exact absurd same.symm (writable.2.2 e member)
      | some old =>
        rw [found] at listed
        obtain ⟨x, before, rfl⟩ := List.mem_map.mp listed
        obtain ⟨id, _, outside⟩ := @rewrite_row crates raw now
          (ctagOf s.calendars e.tenantId e.calendarId + 2) parsed e.calendarId x
        have one := s.eq_of_id before member (id.symm.trans same)
        subst one
        cases here : x.under x.calendarId parsed.uid with
        | true =>
          simp only [Event.under, Bool.and_eq_true, decide_eq_true_eq] at here
          exact here.2.symm
        | false => exact alike (outside here)
    · rintro ⟨parsed', read', uid, _⟩
      cases read.symm.trans read'
      rw [← uid] at own
      obtain ⟨old, found⟩ := Option.isSome_iff_exists.mp
        (List.find?_isSome.mpr ⟨e, member, own⟩)
      obtain ⟨id, inside, _⟩ := @rewrite_row crates raw now
        (ctagOf s.calendars e.tenantId e.calendarId + 2) parsed e.calendarId e
      obtain ⟨text', under'⟩ := inside own
      have replaced : rewrite crates e.calendarId raw now parsed
          (ctagOf s.calendars e.tenantId e.calendarId + 2) e ∈ s'.events := by
        rw [tables]
        unfold upserted
        rw [found]
        exact List.mem_map_of_mem member
      refine ⟨?_, _, replaced, id, text'⟩
      intro x other
      cases here : x.under e.calendarId parsed.uid with
      | true =>
        constructor
        · intro listed
          rw [s'.eq_of_under listed replaced here under'] at other
          exact absurd id other
        · intro listed
          rw [s.eq_of_under listed member here own] at other
          exact absurd rfl other
      | false => exact others x (by simp [here])

/-- Whether a deletion by the id takes an event: the tag of its calendar has to be raised. -/
theorem delete_own_iff (coherent : Coherent crates s.toTables) (member : e ∈ s.events) :
    ((∀ x, x.id ≠ e.id →
        (x ∈ (s.afterDelete e.tenantId e.id now).events ↔ x ∈ s.events)) ∧
      ∀ x ∈ (s.afterDelete e.tenantId e.id now).events, x.id ≠ e.id) ↔
      ctagOf s.calendars e.tenantId e.calendarId + 1 < 2 ^ 63 := by
  rw [← @without_ok_iff crates now s (·.isRow e.tenantId e.id) e coherent member]
  unfold Store.afterDelete
  rw [delete_eq coherent member]
  cases done : transaction (some (without (·.isRow e.tenantId e.id) e now s)) with
  | error reason =>
    constructor
    · intro ⟨_, gone⟩
      exact absurd rfl (gone e member)
    · intro ⟨s', written⟩
      cases written
  | ok s' =>
    have events : s'.events = s.events.filter fun x => !x.isRow e.tenantId e.id := by
      rw [← Option.some.inj (transaction_ok done)]
      rfl
    refine iff_of_true ⟨?_, ?_⟩ ⟨s', rfl⟩
    · intro x other
      show x ∈ s'.events ↔ _
      rw [events, List.mem_filter, and_iff_left]
      simp [Event.isRow, other]
    · intro x listed same
      change x ∈ s'.events at listed
      rw [events] at listed
      obtain ⟨before, kept⟩ := List.mem_filter.mp listed
      rw [s.eq_of_id before member same] at kept
      simp [Event.isRow] at kept

end

end Expresso.CalDav
