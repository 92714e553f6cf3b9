import Expresso.CalDav.Paging

/-! A client that applies the REPORT responses of a calendar while events are written, and the
runs in which it ends up with the calendar of the server. -/

namespace Expresso.CalDav
open Text Replica

/-! ### Client and server -/

structure Client where
  entries : Str → Option Str
  token : Option Str

def Client.start : Client := ⟨fun _ => none, none⟩

/-- Status 200 sets the tag of the UID, status 404 removes the UID. -/
def Member.change : Member → Change Str Str
  | ok href etag => .set href.uid etag
  | notFound href => .remove href.uid

def Client.receive (client : Client) (response : SyncResponse) : Client :=
  ⟨applyAll client.entries (response.members.map (·.change)), some response.syncToken⟩

structure World where
  store : Store
  client : Client

inductive Step where
  | write (now : Timestamp) (command : EventCommand)
  | sync

section
variable (crates : Crates) (principal : Principal) (calendar : Uuid)

/-- A request that fails changes nothing. -/
def World.step (w : World) : Step → World
  | .write now command =>
      match command.exec crates now w.store with
      | .ok s => { w with store := s }
      | .error _ => w
  | .sync =>
      match handle principal calendar w.client.token w.store with
      | .ok response => { w with client := w.client.receive response }
      | .error _ => w

def World.run (w : World) (steps : List Step) : World :=
  steps.foldl (World.step crates principal calendar) w

/-- The map that the server has of the calendar. -/
def etagOf (s : Store) (uid : Str) : Option Str :=
  (s.events.find? (·.isAt principal.tenantId calendar uid)).map (·.etag)

/-- The last response brought the client up to the current tag. -/
def World.upToDate (w : World) : Prop :=
  w.client.token = some (formatToken (ctagOf w.store.calendars principal.tenantId calendar))

/-! ### Steps that lose nothing -/

/-- The UID has not been deleted from the calendar since the tag. -/
def NotDeletedSince (s : Store) (since : Int) (uid : Str) : Prop :=
  ∀ t ∈ s.tombstones, t.isIn principal.tenantId calendar → t.uid = uid → t.deletedCtag ≤ since

/-- A command that the next report tells in full: no UID comes back that was deleted since the
tag, no row of the calendar changes its UID, and none moves to another calendar. -/
def EventCommand.Told (s : Store) (since : Int) : EventCommand → Prop
  | create tenant calendar' raw _ | replaceByUid tenant calendar' raw _ =>
      tenant = principal.tenantId → calendar' = calendar →
        ∀ parsed, parseVevent crates raw = .ok parsed →
          NotDeletedSince principal calendar s since parsed.uid
  | update tenant id raw =>
      ∀ e ∈ s.events, e.isRow tenant id → e.isIn principal.tenantId calendar →
        ∀ parsed, parseVevent crates raw = .ok parsed → parsed.uid = e.uid
  | moveRange tenant src dst fromAt toAt =>
      ∀ e ∈ s.events, e.inRange tenant src fromAt toAt →
        (e.isIn principal.tenantId calendar → dst = calendar) ∧
        (tenant = principal.tenantId → dst = calendar → src ≠ calendar →
          NotDeletedSince principal calendar s since e.uid)
  | patchFields .. | delete .. | deleteByUid .. | deleteRange .. | setRange .. => True

/-- The caps of the report after a tag leave nothing out. -/
def WithinCaps (s : Store) : Option Int → Prop
  | none => (s.events.filter (·.isIn principal.tenantId calendar)).length ≤ 1000
  | some since => (s.feed principal.tenantId calendar).Covers maxSyncRows since

/-- The condition on a step: a command is told in full if the client has a token, and a report
stays within its caps. -/
def Step.Lossless (w : World) : Step → Prop
  | write _ command =>
      ∀ since ∈ w.client.token.bind parseTokenValue,
        command.Told crates principal calendar w.store since
  | sync => WithinCaps principal calendar w.store (w.client.token.bind parseTokenValue)

/-- Every step of the run meets the condition in the state it finds. -/
def Lossless (w : World) : List Step → Prop
  | [] => True
  | step :: rest => step.Lossless crates principal calendar w ∧
      Lossless (w.step crates principal calendar step) rest

instance (s : Store) (since : Int) (uid : Str) :
    Decidable (NotDeletedSince principal calendar s since uid) :=
  inferInstanceAs (Decidable (∀ t ∈ s.tombstones, _ → _ → _))

local instance decidableOnOk {ε α : Type} (result : Except ε α) (p : α → Prop) [DecidablePred p] :
    Decidable (∀ a, result = .ok a → p a) :=
  match result with
  | .ok a => decidable_of_iff (p a) ⟨fun holds _ same => Except.ok.inj same ▸ holds, (· a rfl)⟩
  | .error _ => isTrue nofun

instance (s : Store) (since : Int) :
    (command : EventCommand) → Decidable (command.Told crates principal calendar s since)
  | .create .. | .replaceByUid .. => inferInstanceAs (Decidable (_ → _ → ∀ _, _ → _))
  | .update .. => inferInstanceAs (Decidable (∀ e ∈ s.events, _ → _ → ∀ _, _ → _))
  | .moveRange .. => inferInstanceAs (Decidable (∀ e ∈ s.events, _ → _ ∧ (_ → _ → _ → _)))
  | .patchFields .. | .delete .. | .deleteByUid .. | .deleteRange .. | .setRange .. =>
      inferInstanceAs (Decidable True)

instance (s : Store) : (since : Option Int) → Decidable (WithinCaps principal calendar s since)
  | none => inferInstanceAs (Decidable (_ ≤ 1000))
  | some _ => inferInstanceAs (Decidable (Feed.Covers ..))

instance (w : World) : (step : Step) → Decidable (step.Lossless crates principal calendar w)
  | .write .. => inferInstanceAs (Decidable (∀ since ∈ w.client.token.bind parseTokenValue, _))
  | .sync => inferInstanceAs (Decidable (WithinCaps ..))

instance Lossless.decidable (w : World) :
    (steps : List Step) → Decidable (Lossless crates principal calendar w steps)
  | [] => inferInstanceAs (Decidable True)
  | step :: rest =>
      have := decidable (w.step crates principal calendar step) rest
      inferInstanceAs (Decidable (_ ∧ _))

end

/-! ### The feed under the statements -/

section
variable {tenant' : Uuid} {now : Timestamp} {t t' : Tables} (tenant calendar : Uuid)

theorem Event.row_mem {tenant calendar : Uuid} {e : Event} (member : e ∈ t.events)
    (here : e.isIn tenant calendar) : e.row ∈ (t.feed tenant calendar).rows :=
  mem_feed_rows.mpr ⟨e, member, here, rfl⟩

theorem feed_removals (same : t'.tombstones = t.tombstones) :
    (t'.feed tenant calendar).removals = (t.feed tenant calendar).removals := by
  simp only [Tables.feed, same]

theorem evolves_inserted {row : Event} (inserted : Inserted tenant' row t t')
    (mine : row.tenantId = tenant') :
    (t.feed tenant calendar).Evolves (t'.feed tenant calendar) := by
  obtain ⟨ctag, tick, events⟩ := inserted.written
  have removals := feed_removals tenant calendar inserted.tombstones
  refine ⟨tick.ctag_le tenant calendar, ?_, ?_, ?_, ?_⟩
  · intro r member
    obtain ⟨e, listed, here, rfl⟩ := mem_feed_rows.mp member
    rw [events] at listed
    rcases List.mem_append.mp listed with old | new
    · exact .inl (Event.row_mem old here)
    · right
      rw [List.mem_singleton.mp new] at here ⊢
      obtain ⟨rfl, rfl⟩ := Event.isIn_iff.mp here
      exact mine ▸ tick.fresh.1
  · intro r member
    obtain ⟨e, listed, here, rfl⟩ := mem_feed_rows.mp member
    refine .inl ⟨e.row, Event.row_mem ?_ here, rfl⟩
    rw [events]
    exact List.mem_append_left _ listed
  · intro d member
    exact .inl (removals ▸ member)
  · intro d member
    exact removals ▸ member

theorem evolves_changed {selected : Event → Bool} {set : Event → Event}
    (written : Changed tenant' now (fun e => if selected e then some (set e) else none) t t')
    (mine : ∀ e ∈ t.events, selected e → (set e).tenantId = tenant')
    (stays : ∀ e ∈ t.events, e.isIn tenant calendar → selected e →
      (set e).isIn tenant calendar ∧ (set e).uid = e.uid) :
    (t.feed tenant calendar).Evolves (t'.feed tenant calendar) := by
  obtain ⟨middle, ticked, run⟩ := written.written
  have rows := updateRows_spec run
  have removals := feed_removals tenant calendar written.tombstones
  refine ⟨(ticked.trans (updateRows_ticked run)).ctag_le tenant calendar, ?_, ?_, ?_, ?_⟩
  · intro r member
    obtain ⟨e', listed, here, rfl⟩ := mem_feed_rows.mp member
    obtain ⟨e, old, step⟩ := exists_left rows listed
    have keeps : ∀ changed, (if selected e then some (set e) else none) = some changed →
        changed.tenantId = tenant' := by
      intro changed changes
      simp only [Option.ite_none_right_eq_some, Option.some.injEq] at changes
      obtain ⟨chosen, rfl⟩ := changes
      exact mine e old chosen
    rcases step.tag keeps with rfl | fresh
    · exact .inl (Event.row_mem old here)
    · right
      obtain ⟨rfl, rfl⟩ := Event.isIn_iff.mp here
      exact (ticked.ctag_le _ _).trans_lt fresh.1
  · intro r member
    obtain ⟨e, listed, here, rfl⟩ := mem_feed_rows.mp member
    obtain ⟨e', new, ⟨-, rfl⟩ | ⟨changed, ctag, changes, rfl, -, -⟩⟩ := exists_right rows listed
    · exact .inl ⟨e'.row, Event.row_mem new here, rfl⟩
    · simp only [Option.ite_none_right_eq_some, Option.some.injEq] at changes
      obtain ⟨chosen, rfl⟩ := changes
      obtain ⟨still, uid⟩ := stays e listed here chosen
      exact .inl ⟨_, Event.row_mem new still, uid⟩
  · intro d member
    exact .inl (removals ▸ member)
  · intro d member
    exact removals ▸ member

/-- The key of a deleted row has no other row. -/
theorem evolves_deleted {s s' : Store} {selected : Event → Bool}
    (written : Deleted tenant' now selected s.toTables s'.toTables)
    (mine : ∀ e ∈ s.events, selected e → e.tenantId = tenant') :
    (s.feed tenant calendar).Evolves (s'.feed tenant calendar) := by
  obtain ⟨tombstones, run, recorded⟩ := written.written
  obtain ⟨left, ticked, buried⟩ := deleteRows_spec run
  refine ⟨ticked.ctag_le tenant calendar, ?_, ?_, ?_, ?_⟩
  · intro r member
    obtain ⟨e, listed, here, rfl⟩ := mem_feed_rows.mp member
    rw [left] at listed
    exact .inl (Event.row_mem (List.mem_of_mem_filter listed) here)
  · intro r member
    obtain ⟨e, listed, here, rfl⟩ := mem_feed_rows.mp member
    by_cases chosen : selected e
    · right
      obtain ⟨b, new, row, -, fresh⟩ := exists_right buried (List.mem_filter.mpr ⟨listed, chosen⟩)
      rw [← mine e listed chosen] at fresh
      have there : b ∈ s'.tombstones := recorded ▸ List.mem_append_right _ new
      obtain ⟨rfl, rfl⟩ := Event.isIn_iff.mp here
      refine ⟨b.removal, mem_feed_removals.mpr ⟨b, there, ?_, rfl⟩, ?_, fresh.1⟩
      · rw [row]
        simp [Tombstone.isIn]
      · rw [row]
        rfl
    · refine .inl ⟨e.row, Event.row_mem ?_ here, rfl⟩
      rw [left]
      exact List.mem_filter.mpr ⟨listed, by simp [chosen]⟩
  · intro d member
    obtain ⟨b, listed, here, rfl⟩ := mem_feed_removals.mp member
    rw [recorded] at listed
    rcases List.mem_append.mp listed with old | new
    · exact .inl (mem_feed_removals.mpr ⟨b, old, here, rfl⟩)
    · right
      obtain ⟨e, inSelected, row, -, fresh⟩ := exists_left buried new
      obtain ⟨there, chosen⟩ := List.mem_filter.mp inSelected
      rw [← mine e there chosen] at fresh
      have place : e.tenantId = tenant ∧ e.calendarId = calendar := by
        rw [row] at here
        simpa [Tombstone.isIn] using here
      obtain ⟨rfl, rfl⟩ := place
      refine ⟨fresh.1, ?_⟩
      intro r rowListed same
      obtain ⟨e', inLeft, here', rfl⟩ := mem_feed_rows.mp rowListed
      rw [left] at inLeft
      obtain ⟨there', unselected⟩ := List.mem_filter.mp inLeft
      rw [row] at same
      have under : e.under e.calendarId e.uid := by simp [Event.under]
      have under' : e'.under e.calendarId e.uid := by
        simp only [Event.under, (Event.isIn_iff.mp here').2, decide_true, Bool.true_and,
          decide_eq_true_eq]
        exact same
      rw [s.eq_of_under there' there under' under, chosen] at unselected
      cases unselected
  · intro d member
    obtain ⟨b, listed, here, rfl⟩ := mem_feed_removals.mp member
    refine mem_feed_removals.mpr ⟨b, ?_, here, rfl⟩
    rw [recorded]
    exact List.mem_append_left _ listed

end

/-! ### What a command writes -/

/-- A changed row stays in the calendar under its UID, or comes in under a UID that has not been
deleted since the tag. -/
structure Keeps (principal : Principal) (calendar : Uuid) (s : Store) (since : Int)
    (e changed : Event) : Prop where
  stays : e.isIn principal.tenantId calendar →
    changed.isIn principal.tenantId calendar ∧ changed.uid = e.uid
  comes : ¬e.isIn principal.tenantId calendar → changed.isIn principal.tenantId calendar →
    NotDeletedSince principal calendar s since changed.uid

section
variable {crates : Crates} {principal : Principal} {calendar : Uuid} {now : Timestamp}
  {s s' : Store} {since : Int}

theorem Keeps.of_same {e changed : Event} (tenant : changed.tenantId = e.tenantId)
    (place : changed.calendarId = e.calendarId)
    (uid : e.isIn principal.tenantId calendar → changed.uid = e.uid) :
    Keeps principal calendar s since e changed := by
  have same : changed.isIn principal.tenantId calendar = e.isIn principal.tenantId calendar := by
    simp only [Event.isIn, tenant, place]
  exact ⟨fun here => ⟨same ▸ here, uid here⟩, fun away here => absurd (same ▸ here) away⟩

variable (principal calendar) in
/-- A command inserts one row, changes rows or deletes rows, all of its tenant. -/
theorem EventCommand.exec_cases {command : EventCommand}
    (done : command.exec crates now s = .ok s') :
    (∃ tenant row, row.tenantId = tenant ∧ Inserted tenant row s.toTables s'.toTables ∧
      ∀ since, command.Told crates principal calendar s since →
        row.isIn principal.tenantId calendar →
          NotDeletedSince principal calendar s since row.uid) ∨
    (∃ (tenant : Uuid) (selected : Event → Bool) (set : Event → Event),
      Changed tenant now (fun e => if selected e then some (set e) else none)
        s.toTables s'.toTables ∧
      (∀ e ∈ s.events, selected e → (set e).tenantId = tenant) ∧
      ∀ since, command.Told crates principal calendar s since →
        ∀ e ∈ s.events, selected e → Keeps principal calendar s since e (set e)) ∨
    ∃ tenant selected, (∀ e ∈ s.events, selected e → e.tenantId = tenant) ∧
      Deleted tenant now selected s.toTables s'.toTables := by
  cases command with
  | create tenant place raw id =>
    obtain ⟨e, done⟩ := map_fst_ok done
    obtain ⟨parsed, accepted, inserted⟩ := create_ok done
    refine .inl ⟨tenant, _, rfl, inserted, ?_⟩
    intro since told here
    obtain ⟨mine, there⟩ := Event.isIn_iff.mp here
    exact told mine there parsed accepted
  | update tenant id raw =>
    obtain ⟨e, done⟩ := map_fst_ok done
    obtain ⟨parsed, accepted, written⟩ := update_ok done
    refine .inr (.inl ⟨tenant, _, _, written, fun e _ row => e.tenant_of_isRow row, ?_⟩)
    intro since told e member row
    exact .of_same rfl rfl fun here => told e member row here parsed accepted
  | patchFields tenant id p etag =>
    obtain ⟨e, done⟩ := map_fst_ok done
    exact .inr (.inl ⟨tenant, _, _, patchFields_ok done, fun e _ row => e.tenant_of_isRow row,
      fun since told e member row => .of_same rfl rfl fun _ => rfl⟩)
  | replaceByUid tenant place raw id =>
    obtain ⟨e, done⟩ := map_fst_ok done
    obtain ⟨parsed, accepted, ⟨-, inserted⟩ | ⟨⟨old, member, under, mine⟩, written⟩⟩ :=
      replaceByUid_ok done
    · refine .inl ⟨tenant, _, rfl, inserted, ?_⟩
      intro since told here
      obtain ⟨mine, there⟩ := Event.isIn_iff.mp here
      exact told mine there parsed accepted
    · refine .inr (.inl ⟨tenant, _, _, written, ?_, ?_⟩)
      · intro e listed here
        rw [← mine, ← s.eq_of_under listed member here under]
        rfl
      · intro since told e listed here
        simp only [Event.under, Bool.and_eq_true, decide_eq_true_eq] at here
        exact .of_same rfl rfl fun _ => here.2.symm
  | delete tenant id =>
    exact .inr (.inr ⟨tenant, _, fun e _ row => e.tenant_of_isRow row, delete_ok done⟩)
  | deleteByUid tenant place uid =>
    refine .inr (.inr ⟨tenant, _, ?_, deleteByUid_ok done⟩)
    intro e _ at'
    simp only [Event.isAt, Bool.and_eq_true, decide_eq_true_eq] at at'
    exact at'.1.1
  | deleteRange tenant place fromAt toAt =>
    obtain ⟨count, done⟩ := map_fst_ok done
    exact .inr (.inr ⟨tenant, _, fun e _ selected => (e.of_inRange selected).1,
      deleteRange_ok done⟩)
  | moveRange tenant src dst fromAt toAt =>
    obtain ⟨count, done⟩ := map_fst_ok done
    refine .inr (.inl ⟨tenant, _, _, updateRange_ok done,
      fun e _ selected => (e.of_inRange selected).1, ?_⟩)
    intro since told e member selected
    obtain ⟨remains, returns⟩ := told e member selected
    obtain ⟨mine, source⟩ := e.of_inRange selected
    constructor
    · intro here
      exact ⟨Event.isIn_iff.mpr ⟨(Event.isIn_iff.mp here).1, remains here⟩, rfl⟩
    · intro away here
      obtain ⟨owner, there⟩ := Event.isIn_iff.mp here
      refine returns (mine.symm.trans owner) there fun same => away ?_
      exact Event.isIn_iff.mpr ⟨owner, source.trans same⟩
  | setRange tenant place fromAt toAt change =>
    obtain ⟨count, done⟩ := map_fst_ok done
    obtain ⟨set, same, written⟩ := RangeChange.exec_ok done
    refine .inr (.inl ⟨tenant, _, _, written, ?_, ?_⟩)
    · intro e member selected
      exact (same e).tenant.trans (e.of_inRange selected).1
    · intro since told e member selected
      exact .of_same (same e).tenant (same e).calendar fun _ => (same e).uid

/-- No tombstone is ahead of the calendar. -/
def Past (t : Tables) (tenant calendar : Uuid) : Prop :=
  ∀ b ∈ t.tombstones, b.isIn tenant calendar → b.deletedCtag ≤ ctagOf t.calendars tenant calendar

/-- Whatever a command does, the calendar stays, and new tombstones have tags given out. -/
theorem EventCommand.exec_past {command : EventCommand}
    (done : command.exec crates now s = .ok s')
    (past : Past s.toTables principal.tenantId calendar) :
    Ticked s.calendars s'.calendars ∧ Past s'.toTables principal.tenantId calendar := by
  have old : ∀ {t : Tables}, t.tombstones = s.tombstones → Ticked s.calendars t.calendars →
      Past t principal.tenantId calendar := by
    intro t same ticked b member here
    exact (past b (same ▸ member) here).trans (ticked.ctag_le _ _)
  rcases exec_cases principal calendar done with
    ⟨tenant, row, -, inserted, -⟩ | ⟨tenant, selected, set, written, -, -⟩ |
    ⟨tenant, selected, mine, deleted⟩
  · obtain ⟨ctag, tick, -⟩ := inserted.written
    exact ⟨tick.toTicked, old inserted.tombstones tick.toTicked⟩
  · obtain ⟨middle, ticked, run⟩ := written.written
    have all := ticked.trans (updateRows_ticked run)
    exact ⟨all, old written.tombstones all⟩
  · obtain ⟨tombstones, run, recorded⟩ := deleted.written
    obtain ⟨-, ticked, buried⟩ := deleteRows_spec run
    refine ⟨ticked, fun b member here => ?_⟩
    rw [recorded] at member
    rcases List.mem_append.mp member with before | new
    · exact (past b before here).trans (ticked.ctag_le _ _)
    · obtain ⟨e, inSelected, row, -, fresh⟩ := exists_left buried new
      obtain ⟨there, chosen⟩ := List.mem_filter.mp inSelected
      rw [← mine e there chosen] at fresh
      have place : e.tenantId = principal.tenantId ∧ e.calendarId = calendar := by
        rw [row] at here
        simpa [Tombstone.isIn] using here
      rw [place.1, place.2] at fresh
      exact fresh.2

theorem notDeletedSince_feed {uid : Str} (told : NotDeletedSince principal calendar s since uid) :
    ∀ d ∈ (s.feed principal.tenantId calendar).removals, d.key = uid → d.stamp ≤ since := by
  intro d member same
  obtain ⟨b, listed, here, rfl⟩ := mem_feed_removals.mp member
  exact told b listed here same

/-- A command told in full evolves the feed, and brings no key back. -/
theorem EventCommand.exec_evolves {command : EventCommand}
    (done : command.exec crates now s = .ok s')
    (told : command.Told crates principal calendar s since) :
    (s.feed principal.tenantId calendar).Evolves (s'.feed principal.tenantId calendar) ∧
      (s.feed principal.tenantId calendar).NoReturn (s'.feed principal.tenantId calendar)
        since := by
  rcases exec_cases principal calendar done with
    ⟨tenant, row, mine, inserted, fresh⟩ | ⟨tenant, selected, set, written, mine, keeps⟩ |
    ⟨tenant, selected, mine, deleted⟩
  · refine ⟨evolves_inserted _ _ inserted mine, fun r member => ?_⟩
    obtain ⟨ctag, -, events⟩ := inserted.written
    obtain ⟨e, listed, here, rfl⟩ := mem_feed_rows.mp member
    rw [events] at listed
    rcases List.mem_append.mp listed with old | new
    · exact .inl ⟨e.row, Event.row_mem old here, rfl⟩
    · rw [List.mem_singleton.mp new] at here ⊢
      exact .inr (notDeletedSince_feed (fresh since told here))
  · have stays := evolves_changed principal.tenantId calendar written mine
      fun e member here chosen => (keeps since told e member chosen).stays here
    refine ⟨stays, fun r member => ?_⟩
    obtain ⟨middle, -, run⟩ := written.written
    obtain ⟨e', listed, here, rfl⟩ := mem_feed_rows.mp member
    obtain ⟨e, old, ⟨-, rfl⟩ | ⟨changed, ctag, changes, rfl, -, -⟩⟩ :=
      exists_left (updateRows_spec run) listed
    · exact .inl ⟨e'.row, Event.row_mem old here, rfl⟩
    · simp only [Option.ite_none_right_eq_some, Option.some.injEq] at changes
      obtain ⟨chosen, rfl⟩ := changes
      have kept := keeps since told e old chosen
      by_cases before : e.isIn principal.tenantId calendar
      · exact .inl ⟨e.row, Event.row_mem old before, (kept.stays before).2.symm⟩
      · exact .inr (notDeletedSince_feed (kept.comes before here))
  · refine ⟨evolves_deleted _ _ deleted mine, fun r member => ?_⟩
    obtain ⟨tombstones, run, -⟩ := deleted.written
    obtain ⟨left, -, -⟩ := deleteRows_spec run
    obtain ⟨e, listed, here, rfl⟩ := mem_feed_rows.mp member
    rw [left] at listed
    exact .inl ⟨e.row, Event.row_mem (List.mem_of_mem_filter listed) here, rfl⟩

end

/-! ### Runs -/

/-- What every step keeps: a client without a token is empty, one with a token tracks the
calendar up to it. -/
structure Synced (crates : Crates) (principal : Principal) (calendar : Uuid) (w : World) :
    Prop where
  coherent : Coherent crates w.store.toTables
  known : hasCalendar w.store.calendars principal.tenantId calendar
  past : Past w.store.toTables principal.tenantId calendar
  client : (w.client = .start) ∨ ∃ token since, w.client.token = some token ∧
    parseTokenValue token = some since ∧
    since ≤ ctagOf w.store.calendars principal.tenantId calendar ∧
    (w.store.feed principal.tenantId calendar).Tracks w.client.entries since

section
variable {crates : Crates} {principal : Principal} {calendar : Uuid} {w : World}

theorem Synced.write {now : Timestamp} {command : EventCommand}
    (synced : Synced crates principal calendar w)
    (lossless : (Step.write now command).Lossless crates principal calendar w) :
    Synced crates principal calendar (w.step crates principal calendar (.write now command)) := by
  simp only [World.step]
  split
  · next s' done =>
    obtain ⟨ticked, past⟩ := EventCommand.exec_past done synced.past
    refine ⟨EventCommand.exec_coherent synced.coherent done,
      (ticked.rows _ _).mpr synced.known, past, ?_⟩
    rcases synced.client with start | ⟨token, since, held, value, bound, tracks⟩
    · exact .inl start
    · have told := lossless since (by rw [held]; exact value)
      obtain ⟨evolves, noReturn⟩ := EventCommand.exec_evolves done told
      exact .inr ⟨token, since, held, value, bound.trans (ticked.ctag_le _ _),
        tracks.evolve evolves bound noReturn⟩
  · exact synced

theorem change_toMember (changes : List (Change Str Str)) :
    (changes.map (toMember principal calendar)).map (·.change) = changes := by
  rw [List.map_map]
  calc changes.map _ = changes.map id := List.map_congr_left fun c _ => by cases c <;> rfl
    _ = changes := List.map_id changes

theorem Past.feed {t : Tables} {tenant : Uuid} (past : Past t tenant calendar) :
    ∀ d ∈ (t.feed tenant calendar).removals, d.stamp ≤ (t.feed tenant calendar).counter := by
  intro d member
  obtain ⟨b, listed, here, rfl⟩ := mem_feed_removals.mp member
  exact past b listed here

/-- The first report, with room for all events. -/
theorem Synced.sync_start (synced : Synced crates principal calendar w)
    (start : w.client = .start)
    (few : (w.store.events.filter (·.isIn principal.tenantId calendar)).length ≤ 1000) :
    Synced crates principal calendar (w.step crates principal calendar .sync) := by
  obtain ⟨c, found⟩ : ∃ c, w.store.calendars.find? (·.isRow principal.tenantId calendar) = some c :=
    Option.isSome_iff_exists.mp (List.find?_isSome.mpr synced.known)
  obtain ⟨lower, upper⟩ := w.store.constraints.2.2.1 c (List.mem_of_find?_eq_some found)
  have counter : ctagOf w.store.calendars principal.tenantId calendar = c.ctag := ctagOf_eq found
  have noToken : w.client.token.bind parseTokenValue = none := by
    rw [start]
    rfl
  simp only [World.step, handle_initial found noToken]
  refine ⟨synced.coherent, synced.known, synced.past, .inr ⟨_, c.ctag, rfl,
    parseTokenValue_format lower upper, counter.ge, ?_⟩⟩
  have all := (list_perm few).map Event.row
  have tracks := Feed.Tracks.start (synced.coherent.stamped principal.tenantId calendar)
    synced.past.feed all
  have changes : ((list principal.tenantId calendar {} w.store).map fun e =>
      pushMember principal calendar e.uid e.etag).map (·.change) =
      sets ((list principal.tenantId calendar {} w.store).map Event.row) := by
    rw [← toMember_sets, change_toMember]
  change Feed.Tracks _ _ (ctagOf w.store.calendars principal.tenantId calendar) at tracks
  rw [counter] at tracks
  simp only [Client.receive, SyncResponse.members, changes, start]
  exact tracks

theorem Synced.sync_since {token : Str} {since : Int} (synced : Synced crates principal calendar w)
    (held : w.client.token = some token) (value : parseTokenValue token = some since)
    (bound : since ≤ ctagOf w.store.calendars principal.tenantId calendar)
    (tracks : (w.store.feed principal.tenantId calendar).Tracks w.client.entries since)
    (covers : (w.store.feed principal.tenantId calendar).Covers maxSyncRows since) :
    Synced crates principal calendar (w.step crates principal calendar .sync) := by
  obtain ⟨c, found⟩ : ∃ c, w.store.calendars.find? (·.isRow principal.tenantId calendar) = some c :=
    Option.isSome_iff_exists.mp (List.find?_isSome.mpr synced.known)
  obtain ⟨lower, upper⟩ := w.store.constraints.2.2.1 c (List.mem_of_find?_eq_some found)
  have counter : ctagOf w.store.calendars principal.tenantId calendar = c.ctag := ctagOf_eq found
  have stamped := synced.coherent.stamped principal.tenantId calendar
  obtain ⟨sinceLower, -⟩ := parseTokenValue_range value
  have positive : 0 < maxSyncRows := by decide
  rcases lt_or_eq_of_le (counter ▸ bound) with behind | rfl
  · obtain ⟨later, past⟩ := Feed.report_bounds positive stamped bound
    change _ ≤ ctagOf w.store.calendars principal.tenantId calendar at past
    simp only [World.step, held, handle_since found value behind]
    refine ⟨synced.coherent, synced.known, synced.past, .inr ⟨_, _, rfl,
      parseTokenValue_format (by omega) (by omega), past, ?_⟩⟩
    simp only [Client.receive, SyncResponse.members, change_toMember]
    exact tracks.follow positive stamped synced.past.feed covers
  · simp only [World.step, held, handle_current found value]
    exact ⟨synced.coherent, synced.known, synced.past, .inr ⟨_, c.ctag, rfl,
      parseTokenValue_format lower upper, bound, tracks⟩⟩

theorem Synced.step {step : Step} (synced : Synced crates principal calendar w)
    (lossless : step.Lossless crates principal calendar w) :
    Synced crates principal calendar (w.step crates principal calendar step) := by
  cases step with
  | write now command => exact synced.write lossless
  | sync =>
    simp only [Step.Lossless] at lossless
    rcases synced.client with start | ⟨token, since, held, value, bound, tracks⟩
    · rw [start] at lossless
      exact synced.sync_start start lossless
    · rw [held, Option.bind_some, value] at lossless
      exact synced.sync_since held value bound tracks lossless

theorem Synced.run {steps : List Step} (synced : Synced crates principal calendar w)
    (lossless : Lossless crates principal calendar w steps) :
    Synced crates principal calendar (w.run crates principal calendar steps) := by
  induction steps generalizing w with
  | nil => exact synced
  | cons step rest ih => exact ih (synced.step lossless.1) lossless.2

theorem etagOf_eq_lookup {s : Store} (stamped : (s.feed principal.tenantId calendar).Stamped)
    (uid : Str) :
    etagOf principal calendar s uid = (s.feed principal.tenantId calendar).lookup uid := by
  cases found : s.events.find? (·.isAt principal.tenantId calendar uid) with
  | none =>
    rw [etagOf, found, Feed.lookup_eq_none, Option.map_none]
    intro r member same
    obtain ⟨e, listed, here, rfl⟩ := mem_feed_rows.mp member
    obtain ⟨tenant, place⟩ := Event.isIn_iff.mp here
    apply List.find?_eq_none.mp found e listed
    simp only [Event.isAt, tenant, place, decide_true, Bool.true_and, decide_eq_true_eq]
    exact same
  | some e =>
    have here := List.find?_some found
    simp only [Event.isAt, Bool.and_eq_true, decide_eq_true_eq] at here
    have row := Event.row_mem (List.mem_of_find?_eq_some found) (Event.isIn_iff.mpr here.1)
    rw [etagOf, found, ← here.2]
    exact (stamped.lookup_key row).symm

/-- A client that starts empty and loses nothing on the way has the map of the server whenever
its token is the current one. -/
theorem run_converges {start : Store} (reached : Reachable crates start)
    (known : hasCalendar start.calendars principal.tenantId calendar)
    (past : Past start.toTables principal.tenantId calendar) {steps : List Step}
    (lossless : Lossless crates principal calendar ⟨start, .start⟩ steps)
    (current : (World.run crates principal calendar ⟨start, .start⟩ steps).upToDate principal
      calendar) (uid : Str) :
    (World.run crates principal calendar ⟨start, .start⟩ steps).client.entries uid =
      etagOf principal calendar (World.run crates principal calendar ⟨start, .start⟩ steps).store
        uid := by
  have first : Synced crates principal calendar ⟨start, .start⟩ :=
    ⟨reached.coherent, known, past, .inl rfl⟩
  have synced := first.run lossless
  generalize World.run crates principal calendar ⟨start, .start⟩ steps = w at *
  rcases synced.client with fresh | ⟨token, since, held, value, bound, tracks⟩
  · rw [World.upToDate, fresh] at current
    cases current
  · rw [World.upToDate, held, Option.some.injEq] at current
    obtain ⟨c, found⟩ : ∃ c,
        w.store.calendars.find? (·.isRow principal.tenantId calendar) = some c :=
      Option.isSome_iff_exists.mp (List.find?_isSome.mpr synced.known)
    obtain ⟨lower, upper⟩ := w.store.constraints.2.2.1 c (List.mem_of_find?_eq_some found)
    have counter : ctagOf w.store.calendars principal.tenantId calendar = c.ctag := ctagOf_eq found
    rw [current, counter, parseTokenValue_format lower upper, Option.some.injEq] at value
    subst value
    have stamped := synced.coherent.stamped principal.tenantId calendar
    rw [etagOf_eq_lookup stamped]
    apply Feed.Tracks.agrees stamped synced.past.feed
    change Feed.Tracks _ _ (ctagOf w.store.calendars principal.tenantId calendar)
    rw [counter]
    exact tracks

end

/-! ### A small calendar -/

/-- Calendar 10 of user 7 and tenant 1, just created. -/
def emptyCalendar : Store :=
  ⟨⟨[⟨10, 1, 7, "work".toList, none, none, defaultTimezone, 1, false, 0, 0⟩], [], []⟩, by decide⟩

theorem emptyCalendar_reachable : Reachable sampleCrates emptyCalendar :=
  .step 0 (.createCalendar 10 1 7 ⟨"work".toList, none, none, none, false⟩) .empty rfl

/-- An update that changes the UID of an event writes no tombstone: the client keeps both. -/
theorem run_keeps_renamed :
    Reachable sampleCrates emptyCalendar ∧
    let w := World.run sampleCrates ⟨7, 1⟩ 10 ⟨emptyCalendar, .start⟩
      [.write 0 (.create 1 10 (plainBody "a".toList) 0), .sync,
        .write 0 (.update 1 0 (plainBody "b".toList)), .sync]
    w.upToDate ⟨7, 1⟩ 10 ∧ w.client.entries "a".toList ≠ none ∧
      etagOf ⟨7, 1⟩ 10 w.store "a".toList = none := by
  refine ⟨emptyCalendar_reachable, ?_⟩
  unfold World.upToDate
  decide +kernel

/-- Two events, a report, one of them deleted and the other written again, a report. -/
theorem run_converges_two :
    let w := World.run sampleCrates ⟨7, 1⟩ 10 ⟨emptyCalendar, .start⟩
      [.write 0 (.create 1 10 (plainBody "a".toList) 0),
        .write 0 (.create 1 10 (plainBody "b".toList) 1), .sync,
        .write 0 (.deleteByUid 1 10 "a".toList),
        .write 0 (.replaceByUid 1 10 (plainBody "b".toList) 2), .sync]
    w.client.entries "b".toList ≠ none ∧
      ∀ uid, w.client.entries uid = etagOf ⟨7, 1⟩ 10 w.store uid := by
  refine ⟨by decide +kernel, ?_⟩
  apply run_converges emptyCalendar_reachable
  · unfold hasCalendar
    decide
  · unfold Past
    decide
  · decide +kernel
  · unfold World.upToDate
    decide +kernel

end Expresso.CalDav
