import Expresso.CalDav.Accepts
import Expresso.CalDav.Sync

/-! A client that repeats the REPORT with the token it got back, until the token stays the
same: what it has been sent by then. -/

namespace Expresso.CalDav
open Text Replica

/-- Repeat the report with the token it returned until the token stays the same. -/
def drain (principal : Principal) (calendar : Uuid) (s : Store) :
    Nat → Option Str → Option (List Member)
  | 0, _ => none
  | fuel + 1, token =>
      match handle principal calendar token s with
      | .error _ => none
      | .ok response =>
          if token = some response.syncToken then some response.members
          else (drain principal calendar s fuel (some response.syncToken)).map
            (response.members ++ ·)

/-- The members that repeating the report ends with, from some number of rounds on. -/
def Drains (principal : Principal) (calendar : Uuid) (s : Store) (token : Option Str)
    (members : List Member) : Prop :=
  ∃ rounds, ∀ more, drain principal calendar s (rounds + more) token = some members

section
variable {principal : Principal} {calendar : Uuid} {s : Store}

theorem Drains.stop {token : Str} {response : SyncResponse}
    (answered : handle principal calendar (some token) s = .ok response)
    (same : response.syncToken = token) :
    Drains principal calendar s (some token) response.members := by
  refine ⟨1, fun more => ?_⟩
  rw [Nat.add_comm, drain, answered]
  simp [same]

theorem Drains.next {token : Option Str} {response : SyncResponse} {members : List Member}
    (answered : handle principal calendar token s = .ok response)
    (different : token ≠ some response.syncToken)
    (rest : Drains principal calendar s (some response.syncToken) members) :
    Drains principal calendar s token (response.members ++ members) := by
  obtain ⟨rounds, done⟩ := rest
  refine ⟨rounds + 1, fun more => ?_⟩
  rw [Nat.add_right_comm, drain, answered]
  simp [different, done more]

/-- The UIDs of the removals that repeating the report gets to: the oldest after the last full
page, if that page does not already end at the current tag. -/
def lateUids (f : Feed Str Str) (since : Int) : List Str :=
  if f.lastFull maxSyncRows since < f.counter then
    ((f.removalsAfter (f.lastFull maxSyncRows since)).take maxSyncRows).map (·.key)
  else []

/-- Everything from a tag on that repeating the report brings: all changed events, and the
removals that `lateUids` has. -/
def Brings (principal : Principal) (calendar : Uuid) (s : Store) (since : Int)
    (members : List Member) : Prop :=
  (∀ e ∈ s.events, e.isIn principal.tenantId calendar → since < e.lastCtag →
    pushMember principal calendar e.uid e.etag ∈ members) ∧
  ∀ uid, .notFound ⟨principal.userId, calendar, uid⟩ ∈ members ↔
    uid ∈ lateUids (s.feed principal.tenantId calendar) since

section
variable {crates : Crates} {c : Calendar} (coherent : Coherent crates s.toTables)
  (found : s.calendars.find? (·.isRow principal.tenantId calendar) = some c)
include coherent found

omit coherent in
theorem drains_current : Drains principal calendar s (some (formatToken c.ctag)) [] := by
  obtain ⟨lower, upper⟩ := s.constraints.2.2.1 c (List.mem_of_find?_eq_some found)
  exact Drains.stop (handle_current found (parseTokenValue_format lower upper)) rfl

/-- From the current tag on, or from a tag of the future, there is nothing. -/
theorem brings_nothing {since : Int} (ahead : c.ctag ≤ since) :
    Brings principal calendar s since [] := by
  have stamped := coherent.stamped principal.tenantId calendar
  have counter : (s.feed principal.tenantId calendar).counter = c.ctag := ctagOf_eq found
  have noRows : (s.feed principal.tenantId calendar).rowsAfter since = [] := by
    apply List.eq_nil_iff_forall_not_mem.mpr
    intro r member
    obtain ⟨row, later⟩ := Feed.mem_rowsAfter.mp member
    have := stamped.rows_le r row
    omega
  have last : (s.feed principal.tenantId calendar).lastFull maxSyncRows since = since :=
    Feed.lastFull_of_short (by simp [noRows, maxSyncRows])
  constructor
  · intro e member here later
    have listed := Feed.mem_rowsAfter.mpr ⟨mem_feed_rows.mpr ⟨e, member, here, rfl⟩, later⟩
    rw [noRows] at listed
    cases listed
  · intro uid
    rw [lateUids, last, if_neg (by omega)]
    simp

omit coherent in
/-- The last page, and one more round that finds the token current. -/
theorem brings_last_page {since : Int} (behind : since < c.ctag)
    (short : ((s.feed principal.tenantId calendar).rowsAfter since).length < maxSyncRows) :
    Brings principal calendar s since
      (((s.feed principal.tenantId calendar).report maxSyncRows since).1.map
        (toMember principal calendar)) := by
  have counter : (s.feed principal.tenantId calendar).counter = c.ctag := ctagOf_eq found
  rw [Feed.report_short short]
  constructor
  · intro e member here later
    refine List.mem_map.mpr ⟨.set e.uid e.etag, List.mem_append_left _ ?_, rfl⟩
    have listed := Feed.mem_rowsAfter.mpr ⟨mem_feed_rows.mpr ⟨e, member, here, rfl⟩, later⟩
    exact List.mem_map.mpr ⟨e.row, listed, rfl⟩
  · intro uid
    rw [lateUids, Feed.lastFull_of_short short, if_pos (by omega)]
    simp only [List.map_append, List.mem_append, sets, removes, List.mem_map, toMember,
      exists_exists_and_eq_and, reduceCtorEq, and_false, exists_false, false_or,
      Member.notFound.injEq, Href.mk.injEq, true_and]

omit found in
/-- A full page before what comes after its last row. -/
theorem brings_full_page {since : Int} {last : Row Str Str} {rest : List Member}
    (full : maxSyncRows ≤ ((s.feed principal.tenantId calendar).rowsAfter since).length)
    (page : (((s.feed principal.tenantId calendar).rowsAfter since).take maxSyncRows).getLast? =
      some last)
    (brings : Brings principal calendar s last.stamp rest) :
    Brings principal calendar s since
      (((s.feed principal.tenantId calendar).report maxSyncRows since).1.map
        (toMember principal calendar) ++ rest) := by
  have stamped := coherent.stamped principal.tenantId calendar
  rw [Feed.report_full full page]
  constructor
  · intro e member here later
    have listed := Feed.mem_rowsAfter.mpr ⟨mem_feed_rows.mpr ⟨e, member, here, rfl⟩, later⟩
    rw [← List.take_append_drop maxSyncRows (Feed.rowsAfter _ since), List.mem_append,
      ← Feed.rowsAfter_last stamped page] at listed
    rcases listed with onPage | after
    · apply List.mem_append_left
      exact List.mem_map.mpr ⟨.set e.uid e.etag, List.mem_map.mpr ⟨e.row, onPage, rfl⟩, rfl⟩
    · exact List.mem_append_right _ (brings.1 e member here (Feed.mem_rowsAfter.mp after).2)
  · intro uid
    rw [lateUids, Feed.lastFull_of_full stamped (by decide) full page, ← lateUids,
      ← brings.2 uid, List.mem_append, or_iff_right]
    simp only [sets, List.map_map, List.mem_map, Function.comp_apply, toMember, reduceCtorEq,
      and_false, exists_false, not_false_eq_true]

theorem drains_since {since : Int} {token : Str} (value : parseTokenValue token = some since) :
    ∃ members, Drains principal calendar s (some token) members ∧
      Brings principal calendar s since members := by
  have stamped := coherent.stamped principal.tenantId calendar
  have counter : (s.feed principal.tenantId calendar).counter = c.ctag := ctagOf_eq found
  obtain ⟨lower, upper⟩ := s.constraints.2.2.1 c (List.mem_of_find?_eq_some found)
  obtain ⟨sinceLower, -⟩ := parseTokenValue_range value
  -- by the number of events after the tag: a full page leaves fewer
  induction count : ((s.feed principal.tenantId calendar).rowsAfter since).length
    using Nat.strong_induction_on generalizing since token with
  | _ count ih =>
    subst count
    rcases lt_trichotomy since c.ctag with behind | rfl | ahead
    · have answered := handle_since found value behind
      by_cases full : maxSyncRows ≤
          ((s.feed principal.tenantId calendar).rowsAfter since).length
      · obtain ⟨last, page⟩ := Feed.exists_last (by decide) full
        obtain ⟨row, later⟩ := Feed.mem_rowsAfter.mp
          (List.mem_of_mem_take (List.mem_of_getLast? page))
        have bound := stamped.rows_le last row
        have value' : parseTokenValue (formatToken last.stamp) = some last.stamp :=
          parseTokenValue_format (by omega) (by omega)
        have fewer := congrArg List.length (Feed.rowsAfter_last stamped page)
        rw [List.length_drop] at fewer
        have positive : 0 < maxSyncRows := by decide
        obtain ⟨rest, drains, brings⟩ := ih _ (by omega) value' (by omega) rfl
        rw [Feed.report_full full page] at answered
        have moved : some token ≠ some (formatToken last.stamp) :=
          token_ne value (by omega) (by omega) (by omega)
        refine ⟨_, Drains.next answered moved drains, ?_⟩
        have whole := brings_full_page coherent full page brings
        rwa [Feed.report_full full page] at whole
      · have short := not_le.mp full
        have brings := brings_last_page found behind short
        rw [Feed.report_short short] at answered brings
        rw [counter] at answered
        have moved := token_ne value lower upper behind.ne
        refine ⟨_, Drains.next answered moved (drains_current found), ?_⟩
        rwa [List.append_nil]
    · have answered := handle_current found value
      refine ⟨[], ?_, brings_nothing coherent found le_rfl⟩
      by_cases same : some token = some (formatToken c.ctag)
      · rw [same]
        exact drains_current found
      · exact Drains.next answered same (drains_current found)
    · have answered := handle_future found value ahead
      refine ⟨[], ?_, brings_nothing coherent found ahead.le⟩
      exact Drains.next answered (token_ne value lower upper ahead.ne') (drains_current found)

end

end

/-! ### The first report -/

theorem list_default (tenant calendar : Uuid) (s : Store) :
    list tenant calendar {} s =
      ((s.events.filter (·.isIn tenant calendar)).insertionSort
        fun a b => a.listKey ≤ b.listKey).take 1000 := by
  have all : EventQuery.selects {} tenant calendar = (·.isIn tenant calendar) := by
    funext e
    simp [EventQuery.selects, Event.isIn]
  rw [list, all]
  rfl

theorem mem_list {tenant calendar : Uuid} {s : Store} {e : Event}
    (listed : e ∈ list tenant calendar {} s) :
    e ∈ s.events ∧ e.isIn tenant calendar := by
  rw [list_default] at listed
  exact List.mem_filter.mp ((List.mem_insertionSort _).mp (List.mem_of_mem_take listed))

theorem list_perm {tenant calendar : Uuid} {s : Store}
    (few : (s.events.filter (·.isIn tenant calendar)).length ≤ 1000) :
    (list tenant calendar {} s).Perm (s.events.filter (·.isIn tenant calendar)) := by
  rw [list_default, List.take_of_length_le (by rwa [List.length_insertionSort])]
  exact List.perm_insertionSort _ _

/-- A listing that is cut off misses an event. -/
theorem exists_unlisted {tenant calendar : Uuid} {s : Store}
    (many : 1000 < (s.events.filter (·.isIn tenant calendar)).length) :
    ∃ e ∈ s.events, e.isIn tenant calendar ∧ e ∉ list tenant calendar {} s := by
  by_contra all
  push Not at all
  have distinct : (s.events.filter (·.isIn tenant calendar)).Nodup :=
    (List.Nodup.of_map _ s.constraints.2.2.2.1).filter _
  have covered := List.subperm_of_subset distinct fun e member =>
    all e (List.mem_of_mem_filter member) (List.mem_filter.mp member).2
  have bound := covered.length_le
  rw [list_default, List.length_take] at bound
  omega

section
variable {principal : Principal} {calendar : Uuid} {s : Store} {c : Calendar}

theorem drains_initial (found : s.calendars.find? (·.isRow principal.tenantId calendar) = some c)
    {token : Option Str} (value : token.bind parseTokenValue = none) :
    Drains principal calendar s token
      ((list principal.tenantId calendar {} s).map fun e =>
        pushMember principal calendar e.uid e.etag) := by
  obtain ⟨lower, upper⟩ := s.constraints.2.2.1 c (List.mem_of_find?_eq_some found)
  have different : token ≠ some (formatToken c.ctag) := by
    rintro rfl
    rw [Option.bind_some, parseTokenValue_format lower upper] at value
    cases value
  have rounds := Drains.next (handle_initial found value) different (drains_current found)
  rwa [List.append_nil] at rounds

end

/-! ### What is delivered -/

/-- Every event changed after the token and every tombstone newer than it has been sent. Without
a token all events count as changed. -/
def Delivered (principal : Principal) (calendar : Uuid) (s : Store) (token : Option Str)
    (members : List Member) : Prop :=
  (∀ e ∈ s.events, e.isIn principal.tenantId calendar →
    (∀ since ∈ token.bind parseTokenValue, since < e.lastCtag) →
      .ok ⟨principal.userId, calendar, e.uid⟩ e.etag ∈ members) ∧
  ∀ t ∈ s.tombstones, t.isIn principal.tenantId calendar →
    (∃ since ∈ token.bind parseTokenValue, since < t.deletedCtag) →
      .notFound ⟨principal.userId, calendar, t.uid⟩ ∈ members

/-- The caps of the queries lose nothing: without a token the listing has room for all events;
with one, every UID deleted since is among the oldest deletions after the last full page. -/
def CapsSuffice (principal : Principal) (calendar : Uuid) (s : Store) (token : Option Str) :
    Prop :=
  match token.bind parseTokenValue with
  | none => (s.events.filter (·.isIn principal.tenantId calendar)).length ≤ 1000
  | some since => ∀ t ∈ s.tombstones, t.isIn principal.tenantId calendar →
      since < t.deletedCtag → t.uid ∈ lateUids (s.feed principal.tenantId calendar) since

theorem delivered_initial_iff {principal : Principal} {calendar : Uuid} {s : Store}
    {token : Option Str} (value : token.bind parseTokenValue = none) :
    Delivered principal calendar s token
      ((list principal.tenantId calendar {} s).map fun e =>
        pushMember principal calendar e.uid e.etag) ↔
      (s.events.filter (·.isIn principal.tenantId calendar)).length ≤ 1000 := by
  constructor
  · intro delivered
    by_contra many
    obtain ⟨e, member, here, unlisted⟩ := exists_unlisted (not_le.mp many)
    have sent := delivered.1 e member here (by simp [value])
    obtain ⟨e', listed, same⟩ := List.mem_map.mp sent
    obtain ⟨member', here'⟩ := mem_list listed
    simp only [pushMember, Member.ok.injEq, Href.mk.injEq, true_and] at same
    have under : e.under calendar e.uid := by
      simp [Event.under, (Event.isIn_iff.mp here).2]
    have under' : e'.under calendar e.uid := by
      simp [Event.under, (Event.isIn_iff.mp here').2, same.1]
    rw [s.eq_of_under member member' under under'] at unlisted
    exact unlisted listed
  · intro few
    constructor
    · intro e member here _
      exact List.mem_map.mpr ⟨e, (list_perm few).mem_iff.mpr (List.mem_filter.mpr ⟨member, here⟩),
        rfl⟩
    · rintro t - - ⟨since, known, -⟩
      rw [value] at known
      cases known

/-- Repeating the report ends, and has then delivered everything exactly when the caps suffice. -/
theorem drains_delivered_iff {crates : Crates} {s : Store} (reached : Reachable crates s)
    (principal : Principal) {calendar : Uuid}
    (known : hasCalendar s.calendars principal.tenantId calendar) (token : Option Str) :
    ∃ members, Drains principal calendar s token members ∧
      (Delivered principal calendar s token members ↔ CapsSuffice principal calendar s token) := by
  have coherent := reached.coherent
  obtain ⟨c, found⟩ : ∃ c, s.calendars.find? (·.isRow principal.tenantId calendar) = some c :=
    Option.isSome_iff_exists.mp (List.find?_isSome.mpr known)
  cases value : token.bind parseTokenValue with
  | none =>
    refine ⟨_, drains_initial found value, ?_⟩
    rw [CapsSuffice, value]
    exact delivered_initial_iff value
  | some since =>
    obtain ⟨text, rfl, parsed⟩ := Option.bind_eq_some_iff.mp value
    obtain ⟨members, drains, changed, removed⟩ := drains_since coherent found parsed
    refine ⟨members, drains, ?_⟩
    rw [CapsSuffice, value]
    constructor
    · intro delivered t member here newer
      exact (removed t.uid).mp (delivered.2 t member here ⟨since, value, newer⟩)
    · intro suffice
      constructor
      · intro e member here later
        exact changed e member here (later since value)
      · rintro t member here ⟨since', same, newer⟩
        rw [value, Option.mem_some_iff] at same
        subst same
        exact (removed t.uid).mpr (suffice t member here newer)

/-! ### A calendar with any number of events -/

/-- A calendar of tenant 1 filled with any number of events. -/
theorem exists_filled (n : Nat) (bound : n < 2 ^ 31) :
    ∃ s, Reachable sampleCrates s ∧
      (∃ c, s.calendars.find? (·.isRow 1 10) = some c ∧ c.ctag = n + 1) ∧
      s.events.length = n ∧
      ∀ e ∈ s.events, e.isIn 1 10 ∧ e.id < n ∧ e.uid.length ≤ n := by
  induction n with
  | zero =>
    let input : NewCalendar := ⟨"work".toList, none, none, none, false⟩
    cases made : CalendarRepo.createWithId 10 1 7 input 0 Store.empty with
    | error e => cases made
    | ok pair =>
      have done : (Command.createCalendar 10 1 7 input).exec sampleCrates 0 Store.empty =
          .ok pair.1 := by
        simp [Command.exec, made, Except.map]
      obtain ⟨tables, id, tenant, tag⟩ := CalendarRepo.createWithId_ok made
      refine ⟨pair.1, .step 0 _ .empty done, ⟨pair.2, ?_, tag⟩, ?_, ?_⟩
      · rw [tables]
        simp [Store.empty, Calendar.isRow, id, tenant]
      · rw [tables]
        rfl
      · rw [tables]
        simp [Store.empty]
  | succ n ih =>
    obtain ⟨s, reached, ⟨c, found, tag⟩, count, rows⟩ := ih (by omega)
    -- the next UID is longer than those in the calendar
    have uid : List.replicate (n + 1) 'a' ≠ [] := by simp
    have accepted := parseVevent_plainBody sampleCrates uid (by simp) (by simp)
    have body : AcceptedBody sampleCrates (plainBody (List.replicate (n + 1) 'a'))
        { uid := List.replicate (n + 1) 'a' } := acceptedBody_plainBody (by simp)
    have freshUid : ∀ e ∈ s.events, ¬e.under 10 (List.replicate (n + 1) 'a') := by
      intro e member under
      simp only [Event.under, Bool.and_eq_true, decide_eq_true_eq] at under
      have length := (rows e member).2.2
      rw [under.2, List.length_replicate] at length
      omega
    obtain ⟨s', e, made, tables⟩ := create_accepts n 0 body accepted found (by omega)
      (fun e member => (rows e member).2.1.ne) freshUid
    have done : (Command.event (.create 1 10 (plainBody (List.replicate (n + 1) 'a')) n)).exec
        sampleCrates 0 s = .ok s' := by
      simp [Command.exec, EventCommand.exec, made, Except.map]
    have counted : s'.calendars.find? (·.isRow 1 10) =
        some { c with ctag := c.ctag + 1, updatedAt := 0 } := by
      rw [tables]
      exact bumped_find found
    refine ⟨s', .step 0 _ reached done, ⟨_, counted, ?_⟩, ?_, ?_⟩
    · simp only [tag]
      omega
    · rw [tables]
      simp [withFresh, count]
    · rw [tables]
      intro x member
      rcases List.mem_append.mp member with old | new
      · obtain ⟨here, id, length⟩ := rows x old
        exact ⟨here, id.trans (Nat.lt_succ_self n), by omega⟩
      · rw [List.mem_singleton.mp new]
        simp [Event.fresh, Event.isIn]

/-- With 1001 events the first report leaves one out, and the second finds the token current. -/
theorem drains_misses_event :
    ∃ s, Reachable sampleCrates s ∧ hasCalendar s.calendars 1 10 ∧
      (s.events.filter (·.isIn 1 10)).length = 1001 ∧
      ∃ members, Drains ⟨7, 1⟩ 10 s none members ∧ ¬Delivered ⟨7, 1⟩ 10 s none members := by
  obtain ⟨s, reached, ⟨c, found, -⟩, count, rows⟩ := exists_filled 1001 (by decide)
  have all : s.events.filter (·.isIn 1 10) = s.events :=
    List.filter_eq_self.mpr fun e member => (rows e member).1
  refine ⟨s, reached, ⟨c, List.mem_of_find?_eq_some found, List.find?_some found⟩,
    by rw [all, count], _, drains_initial found rfl, ?_⟩
  rw [delivered_initial_iff rfl]
  change ¬(s.events.filter (·.isIn 1 10)).length ≤ 1000
  rw [all, count]
  decide

/-- With three events the caps suffice. -/
theorem drains_delivered_three :
    ∃ s, Reachable sampleCrates s ∧ hasCalendar s.calendars 1 10 ∧ s.events.length = 3 ∧
      ∃ members, Drains ⟨7, 1⟩ 10 s none members ∧ Delivered ⟨7, 1⟩ 10 s none members := by
  obtain ⟨s, reached, ⟨c, found, -⟩, count, -⟩ := exists_filled 3 (by decide)
  have known : hasCalendar s.calendars 1 10 :=
    ⟨c, List.mem_of_find?_eq_some found, List.find?_some found⟩
  obtain ⟨members, drains, delivered⟩ :=
    drains_delivered_iff reached ⟨7, 1⟩ known none
  refine ⟨s, reached, known, count, members, drains, delivered.mpr ?_⟩
  have few := List.length_filter_le (·.isIn 1 10) s.events
  change (s.events.filter (·.isIn 1 10)).length ≤ 1000
  omega

end Expresso.CalDav
