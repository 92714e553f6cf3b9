import Expresso.CalDav.Authority
import Mathlib.Data.List.Induction

/-! Decisions on one proposal by any number of requests at the same time. The change of the
event and the resolution of the proposal are two transactions, and the second does not report
whether it found the proposal pending. -/

namespace Expresso.CalDav
open Text Time Transition

/-- A request to accept or to reject, with its times. -/
structure Decision where
  accepts : Bool
  ctx : RequestCtx
  now : Timestamp
  resolvedAt : Timestamp
  deriving DecidableEq

namespace Decision

def verdict (c : Decision) : ProposalStatus := if c.accepts then .accepted else .rejected

section
variable (crates : Crates) (formats : Formats) (id : Uuid) (c : Decision)

def handler : Handler Unit :=
  if c.accepts then acceptCounter formats c.ctx id crates c.now c.resolvedAt
  else rejectCounter formats c.ctx id c.resolvedAt

/-- What is left of an acceptance when the new body is known. -/
def write (ev : Event) (raw : Str) : Handler Unit :=
  call (Desk.onStore (update crates c.ctx.tenantId ev.id raw c.now)) fun _ =>
    finish c.ctx id .accepted c.resolvedAt

/-- What is left of a decision when the proposal was read as pending. -/
def rest (p : CounterProposal) (start stop : Option OffsetDateTime) : Handler Unit :=
  if c.accepts then
    eventOf c.ctx p fun ev =>
      lift (Itip.applyProposedTimes ev.icalRaw start stop) fun raw => c.write crates id ev raw
  else finish c.ctx id .rejected c.resolvedAt

theorem handler_eq : c.handler crates formats id =
    pendingProposal formats c.ctx id fun p start stop => c.rest crates id p start stop := by
  cases accepts : c.accepts with
  | true => simp only [handler, rest, accepts, if_true, acceptCounter, write]
  | false => simp only [handler, rest, accepts, Bool.false_eq_true, if_false, rejectCounter]

end

end Decision

/-- The requests before their first call. -/
def decisionPool {ι : Type} (crates : Crates) (formats : Formats) (id : Uuid) (d : Desk)
    (decisions : ι → Decision) : Pool ι Desk (Result Unit) :=
  ⟨d, fun i => (decisions i).handler crates formats id⟩

/-! ### What a decision should do -/

/-- The times of the event are not those it had. -/
def TimesChanged (event : Uuid) (d d' : Desk) : Prop :=
  ∃ e ∈ d.events, ∃ e' ∈ d'.events, e.id = event ∧ e'.id = event ∧
    (e'.dtstart, e'.dtend) ≠ (e.dtstart, e.dtend)

def Succeeded {ι : Type} (pool : Pool ι Desk (Result Unit)) (i : ι) : Prop :=
  pool.requests i = .done (.ok ())

/-- At most one request succeeds, the proposal has the status it decided on, and the times of
the event changed if and only if that is an acceptance. -/
structure SingleShot {ι : Type} (d : Desk) (p : CounterProposal) (decisions : ι → Decision)
    (pool : Pool ι Desk (Result Unit)) : Prop where
  once : ∀ i j, Succeeded pool i → Succeeded pool j → i = j
  status : ∃ q ∈ pool.state.proposals, q.id = p.id ∧
    ((q.status = .pending ∧ ∀ i, ¬ Succeeded pool i) ∨
      ∃ i, Succeeded pool i ∧ q.status = (decisions i).verdict)
  times : TimesChanged p.eventId d pool.state ↔
    ∃ q ∈ pool.state.proposals, q.id = p.id ∧ q.status = .accepted

section
variable {ι : Type} [DecidableEq ι]

/-- When a request makes its first call, those that made theirs before are done. -/
def Consecutive (start : Pool ι Desk (Result Unit)) (turns : List (ι × Bool)) : Prop :=
  ∀ before turn after, turns = before ++ turn :: after → turn.1 ∉ before.map (·.1) →
    ∀ i ∈ before.map (·.1), ∃ result, (before.foldl Pool.step start).requests i = .done result

/-- No call of a request fails after its first one, once an event row is changed. -/
def NoneHalfway (start : Pool ι Desk (Result Unit)) (turns : List (ι × Bool)) : Prop :=
  ∀ before i after, turns = before ++ (i, false) :: after → i ∈ before.map (·.1) →
    (∀ result, (before.foldl Pool.step start).requests i ≠ .done result) →
      (before.foldl Pool.step start).state.events = start.state.events

end

/-- The times an event takes from a proposal. -/
def proposedTimes (crates : Crates) (p : CounterProposal) (ev : Event) :
    Result (Option Timestamp × Option Timestamp) := do
  let start ← Desk.readTime p.proposedDtstart
  let stop ← Desk.readTime p.proposedDtend
  let raw ← Itip.applyProposedTimes ev.icalRaw start stop
  let parsed ← parseVevent crates raw
  .ok (parsed.dtstart.map toTimestamp, parsed.dtend.map toTimestamp)

/-- The proposed times are not those the event has. -/
def ProposesChange (crates : Crates) (d : Desk) (p : CounterProposal) : Prop :=
  ∀ ev ∈ d.events, ev.id = p.eventId →
    (proposedTimes crates p ev).toOption ≠ some (ev.dtstart, ev.dtend)

/-! ### One decision -/

section
variable {crates : Crates} {formats : Formats} {id : Uuid} {d : Desk} {c : Decision}

/-- How far a decision has come that found the proposal pending: the tables, and its next
calls. -/
inductive Progress (crates : Crates) (id : Uuid) (d : Desk) (c : Decision) :
    Desk → Handler Unit → Prop
  | decided {p : CounterProposal} {start stop : Option OffsetDateTime}
      (decides : Decides c.ctx id d p start stop) :
      Progress crates id d c d (c.rest crates id p start stop)
  | loaded {p : CounterProposal} {start stop : Option OffsetDateTime} {ev : Event} {raw : Str}
      (accepts : c.accepts = true) (decides : Decides c.ctx id d p start stop)
      (found : get c.ctx.tenantId p.eventId d.toStore = .ok ev)
      (applied : Itip.applyProposedTimes ev.icalRaw start stop = .ok raw) :
      Progress crates id d c d (c.write crates id ev raw)
  | updated {p : CounterProposal} {start stop : Option OffsetDateTime} {ev row : Event}
      {raw : Str} {d' : Desk}
      (accepts : c.accepts = true) (decides : Decides c.ctx id d p start stop)
      (found : get c.ctx.tenantId p.eventId d.toStore = .ok ev)
      (applied : Itip.applyProposedTimes ev.icalRaw start stop = .ok raw)
      (written : Desk.onStore (update crates c.ctx.tenantId ev.id raw c.now) d = .ok (d', row)) :
      Progress crates id d c d' (finish c.ctx id .accepted c.resolvedAt)

/-- The tables after a decision that went through. -/
structure Resolved (crates : Crates) (id : Uuid) (d : Desk) (c : Decision) (d' : Desk) : Prop where
  proposals : d'.proposals = d.proposals.map
    (Desk.resolved c.ctx.tenantId id c.verdict (some c.ctx.userId) c.resolvedAt)
  events : ∃ p start stop, Decides c.ctx id d p start stop ∧
    ((c.accepts = false ∧ d'.toStore = d.toStore) ∨
      (c.accepts = true ∧ ∃ ev raw row,
        get c.ctx.tenantId p.eventId d.toStore = .ok ev ∧
        Itip.applyProposedTimes ev.icalRaw start stop = .ok raw ∧
        update crates c.ctx.tenantId ev.id raw c.now d.toStore = .ok (d'.toStore, row)))

theorem rest_ne_done (p : CounterProposal) (start stop : Option OffsetDateTime)
    (result : Result Unit) : c.rest crates id p start stop ≠ .done result := by
  rw [Decision.rest]
  split <;> nofun

theorem Progress.ne_done {d' : Desk} {request : Handler Unit}
    (progress : Progress crates id d c d' request) (result : Result Unit) :
    request ≠ .done result := by
  cases progress with
  | decided => exact rest_ne_done _ _ _ _
  | loaded => nofun
  | updated => nofun

theorem finish_step (status : ProposalStatus) (resolvedAt : Timestamp) (ctx : RequestCtx) : ∃ d',
    (finish ctx id status resolvedAt).step true d = (d', .done (.ok ())) ∧
      d'.toStore = d.toStore ∧ d'.proposals = d.proposals.map
        (Desk.resolved ctx.tenantId id status (some ctx.userId) resolvedAt) := by
  obtain ⟨d', done, store, proposals⟩ :=
    @resolve_ok ctx.tenantId id status (some ctx.userId) resolvedAt d
  exact ⟨d', step_call_ok done, store, proposals⟩

theorem readTime_of_decides {p : CounterProposal} {ctx : RequestCtx}
    {start stop : Option OffsetDateTime} (decides : Decides ctx id d p start stop) :
    Desk.readTime p.proposedDtstart = .ok start ∧ Desk.readTime p.proposedDtend = .ok stop := by
  have found := decides.1
  simp only [Desk.getProposal] at found
  cases listed : d.proposals.find? (fun p => p.tenantId = ctx.tenantId && p.id = id) with
  | none => simp [listed] at found
  | some q =>
    simp only [listed, bind_eq_ok_iff, Except.ok.injEq, Option.some.injEq, Prod.mk.injEq] at found
    obtain ⟨_, first, _, second, rfl, rfl, rfl⟩ := found
    exact ⟨first, second⟩

/-- Where the proposal is a change, an acceptance that is written changes the times. -/
theorem timesChanged_of_written {p : CounterProposal} {start stop : Option OffsetDateTime}
    {ev row : Event} {raw : Str} {d' : Desk} (proposes : ProposesChange crates d p)
    (decides : Decides c.ctx id d p start stop)
    (found : get c.ctx.tenantId p.eventId d.toStore = .ok ev)
    (applied : Itip.applyProposedTimes ev.icalRaw start stop = .ok raw)
    (written : update crates c.ctx.tenantId ev.id raw c.now d.toStore = .ok (d'.toStore, row)) :
    TimesChanged p.eventId d d' := by
  obtain ⟨parsed, accepted, times⟩ := update_times written
  obtain ⟨member, isRow⟩ := update_returned written
  obtain ⟨listed, isEvent⟩ := get_ok found
  simp only [Event.isRow, Bool.and_eq_true, decide_eq_true_eq] at isRow isEvent
  obtain ⟨first, second⟩ := readTime_of_decides decides
  refine ⟨ev, listed, row, member, isEvent.2, isRow.2.trans isEvent.2, ?_⟩
  have proposed : proposedTimes crates p ev =
      .ok (parsed.dtstart.map toTimestamp, parsed.dtend.map toTimestamp) := by
    simp only [proposedTimes, first, second, applied, accepted, bind, Except.bind]
  have differs := proposes ev listed isEvent.2
  rw [proposed] at differs
  rw [times]
  exact fun same => differs (congrArg some same)

theorem not_timesChanged_of_eq {event : Uuid} {d' : Desk} (same : d'.events = d.events) :
    ¬ TimesChanged event d d' := by
  rintro ⟨e, listed, e', listed', isEvent, isEvent', differ⟩
  rw [same] at listed'
  rw [d.eq_of_id listed' listed (isEvent'.trans isEvent.symm)] at differ
  exact differ rfl

/-- A further call of a decision: it ends in an error with nothing written, goes on, or is
through. -/
theorem Progress.step {D : Desk} {request : Handler Unit} {p : CounterProposal}
    (known : ∀ q ∈ d.proposals, q.id = id → q = p) (proposes : ProposesChange crates d p)
    (progress : Progress crates id d c D request) (through : Bool)
    (unwritten : through = false → D.events = d.events) :
    ((request.step through D).1 = d ∧ ∃ e, (request.step through D).2 = .done (.error e)) ∨
    Progress crates id d c (request.step through D).1 (request.step through D).2 ∨
    ((request.step through D).2 = .done (.ok ()) ∧
      Resolved crates id d c (request.step through D).1) := by
  have isP : ∀ {q start stop}, Decides c.ctx id d q start stop → q = p := by
    intro q start stop decides
    obtain ⟨listed, -, isId⟩ := getProposal_mem decides.1
    exact known q listed isId
  cases progress with
  | decided decides =>
    cases accepts : c.accepts with
    | false =>
      rw [Decision.rest, accepts, if_neg Bool.false_ne_true]
      cases through with
      | false => exact .inl ⟨rfl, _, rfl⟩
      | true =>
        obtain ⟨d', ran, store, proposals⟩ := @finish_step id d .rejected c.resolvedAt c.ctx
        rw [ran]
        refine .inr (.inr ⟨rfl, ?_, _, _, _, decides, .inl ⟨accepts, store⟩⟩)
        rw [proposals, Decision.verdict, accepts, if_neg Bool.false_ne_true]
    | true =>
      rw [Decision.rest, accepts, if_pos rfl, eventOf]
      cases through with
      | false => exact .inl ⟨rfl, _, rfl⟩
      | true =>
        simp only [Request.step, if_true]
        cases found : get c.ctx.tenantId _ d.toStore with
        | error e => exact .inl ⟨trivial, _, rfl⟩
        | ok ev =>
          simp only
          cases applied : Itip.applyProposedTimes ev.icalRaw _ _ with
          | error e => exact .inl ⟨trivial, _, rfl⟩
          | ok raw => exact .inr (.inl (.loaded accepts decides found applied))
  | loaded accepts decides found applied =>
    cases through with
    | false => exact .inl ⟨rfl, _, rfl⟩
    | true =>
      rw [Decision.write]
      cases written : Desk.onStore (update crates c.ctx.tenantId _ _ c.now) d with
      | error e =>
        rw [step_call_error written]
        exact .inl ⟨rfl, _, rfl⟩
      | ok result =>
        rw [step_call_ok written]
        exact .inr (.inl (.updated accepts decides found applied written))
  | updated accepts decides found applied written =>
    obtain ⟨stored, -, same⟩ := onStore_ok written
    cases through with
    | false =>
      have changed := timesChanged_of_written (isP decides ▸ proposes) decides found applied stored
      exact absurd changed (not_timesChanged_of_eq (unwritten rfl))
    | true =>
      obtain ⟨d', ran, store, proposals⟩ := @finish_step id D .accepted c.resolvedAt c.ctx
      rw [ran]
      rw [← store] at stored
      refine .inr (.inr ⟨rfl, ?_, _, _, _, decides, .inr ⟨accepts, _, _, _, found, applied, stored⟩⟩)
      rw [proposals, same, Decision.verdict, accepts, if_pos rfl]

end

/-! ### One after the other -/

section
variable {crates : Crates} {formats : Formats} {id : Uuid} {d D : Desk} {c : Decision}

theorem handler_step_failed : (c.handler crates formats id).step false D =
    (D, .done (.error .database)) := by
  rw [Decision.handler_eq]
  rfl

theorem handler_step : (c.handler crates formats id).step true D =
    (D, lift (D.getProposal c.ctx.tenantId id)
      (checkPending formats id fun p start stop => c.rest crates id p start stop)) := by
  rw [Decision.handler_eq, pendingProposal, step_read]

theorem handler_ne_done (result : Result Unit) : c.handler crates formats id ≠ .done result := by
  rw [Decision.handler_eq]
  nofun

theorem Decision.verdict_ne_pending (c : Decision) : c.verdict ≠ .pending := by
  rw [Decision.verdict]
  split <;> decide

/-- The row of the proposal after a decision. -/
theorem Resolved.row {q : CounterProposal} (resolved : Resolved crates id d c D)
    (listed : q ∈ D.proposals) (isId : q.id = id) : q.status = c.verdict := by
  obtain ⟨p, start, stop, decides, -⟩ := resolved.events
  obtain ⟨present, mine, same⟩ := getProposal_mem decides.1
  rw [resolved.proposals] at listed
  obtain ⟨old, known, rfl⟩ := List.mem_map.mp listed
  rw [resolved_id] at isId
  rw [List.inj_on_of_nodup_map d.valid.2.2.1 known present (isId.trans same.symm), Desk.resolved,
    if_pos ⟨mine, same, decides.2⟩]

theorem Resolved.undecided (resolved : Resolved crates id d c D) (ctx : RequestCtx)
    (p : CounterProposal) (start stop : Option OffsetDateTime) :
    ¬ Decides ctx id D p start stop := by
  intro decides
  obtain ⟨listed, -, isId⟩ := getProposal_mem decides.1
  have decided := resolved.row listed isId
  rw [decides.2] at decided
  exact c.verdict_ne_pending decided.symm

variable {ι : Type} {decisions : ι → Decision} {begun : List ι} {pool : Pool ι Desk (Result Unit)}

/-- Where the requests stand that have made a call: all have failed, or one is under way, or
one is through. -/
inductive Stage (crates : Crates) (id : Uuid) (d : Desk) (decisions : ι → Decision)
    (begun : List ι) (pool : Pool ι Desk (Result Unit)) : Prop
  | idle (state : pool.state = d)
      (failed : ∀ i ∈ begun, ∃ e, pool.requests i = .done (.error e))
  | busy (k : ι) (begins : k ∈ begun)
      (progress : Progress crates id d (decisions k) pool.state (pool.requests k))
      (failed : ∀ i ∈ begun, i ≠ k → ∃ e, pool.requests i = .done (.error e))
  | settled (k : ι) (begins : k ∈ begun) (through : pool.requests k = .done (.ok ()))
      (resolved : Resolved crates id d (decisions k) pool.state)
      (failed : ∀ i ∈ begun, i ≠ k → ∃ e, pool.requests i = .done (.error e))

theorem Stage.again {i : ι} (stage : Stage crates id d decisions begun pool) (known : i ∈ begun) :
    Stage crates id d decisions (begun ++ [i]) pool := by
  have members : ∀ j ∈ begun ++ [i], j ∈ begun := by
    intro j listed
    rcases List.mem_append.mp listed with old | new
    · exact old
    · rwa [List.mem_singleton.mp new]
  cases stage with
  | idle state failed => exact .idle state fun j listed => failed j (members j listed)
  | busy k begins progress failed =>
    exact .busy k (List.mem_append_left _ begins) progress
      fun j listed => failed j (members j listed)
  | settled k begins through resolved failed =>
    exact .settled k (List.mem_append_left _ begins) through resolved
      fun j listed => failed j (members j listed)

variable [DecidableEq ι]

/-- A request that fails in a call of its own leaves the others as they are. -/
theorem failed_append {turn : ι × Bool} {others : ι → Prop}
    (failed : ∀ i ∈ begun, others i → ∃ e, pool.requests i = .done (.error e))
    (own : ∃ e, (pool.step turn).requests turn.1 = .done (.error e)) :
    ∀ i ∈ begun ++ [turn.1], others i → ∃ e, (pool.step turn).requests i = .done (.error e) := by
  intro i listed other
  by_cases same : i = turn.1
  · exact same ▸ own
  · have old : i ∈ begun := by
      rcases List.mem_append.mp listed with old | new
      · exact old
      · exact absurd (List.mem_singleton.mp new) same
    rw [Pool.step_other same]
    exact failed i old other

/-- The first call of a request, all others being done or waiting. -/
theorem Stage.begin {turn : ι × Bool} (stage : Stage crates id d decisions begun pool)
    (waiting : pool.requests turn.1 = (decisions turn.1).handler crates formats id)
    (new : turn.1 ∉ begun) (alone : ∀ i ∈ begun, ∃ result, pool.requests i = .done result) :
    Stage crates id d decisions (begun ++ [turn.1]) (pool.step turn) := by
  have state : (pool.step turn).state = pool.state := by
    rw [Pool.step_state, waiting]
    cases turn.2
    · rw [handler_step_failed]
    · rw [handler_step]
  -- without a pending proposal the first call is also the last
  have stops : (∀ p start stop, ¬ Decides (decisions turn.1).ctx id pool.state p start stop) →
      ∃ e, (pool.step turn).requests turn.1 = .done (.error e) := by
    intro undecided
    rw [Pool.step_own, waiting]
    cases turn.2
    · rw [handler_step_failed]
      exact ⟨_, rfl⟩
    · rw [handler_step]
      exact checkPending_undecided undecided
  cases stage with
  | busy k begins progress failed =>
    obtain ⟨result, finished⟩ := alone k begins
    exact absurd finished (progress.ne_done result)
  | idle unchanged failed =>
    by_cases decided : turn.2 = true ∧
        ∃ p start stop, Decides (decisions turn.1).ctx id pool.state p start stop
    · obtain ⟨through, p, start, stop, decides⟩ := decided
      refine .busy turn.1 (List.mem_append_right _ (List.mem_singleton_self _)) ?_ ?_
      · rw [Pool.step_own, state, waiting, through, handler_step, checkPending_decides decides,
          unchanged]
        rw [unchanged] at decides
        exact .decided decides
      · intro i listed other
        rw [Pool.step_other other]
        rcases List.mem_append.mp listed with old | own
        · exact failed i old
        · exact absurd (List.mem_singleton.mp own) other
    · have own : ∃ e, (pool.step turn).requests turn.1 = .done (.error e) := by
        cases through : turn.2 with
        | false =>
          rw [Pool.step_own, waiting, through, handler_step_failed]
          exact ⟨_, rfl⟩
        | true =>
          exact stops fun p start stop decides => decided ⟨through, p, start, stop, decides⟩
      refine .idle (state.trans unchanged) fun i listed => ?_
      exact failed_append (fun i old (_ : True) => failed i old) own i listed trivial
  | settled k begins through resolved failed =>
    have other : k ≠ turn.1 := fun same => new (same ▸ begins)
    refine .settled k (List.mem_append_left _ begins) ?_ ?_ ?_
    · rw [Pool.step_other other, through]
    · rw [state]
      exact resolved
    · exact failed_append failed (stops (resolved.undecided _))

/-- A further turn of a request that has begun. -/
theorem Stage.proceed {turn : ι × Bool} {p : CounterProposal}
    (stage : Stage crates id d decisions begun pool) (known : turn.1 ∈ begun)
    (unique : ∀ q ∈ d.proposals, q.id = id → q = p) (proposes : ProposesChange crates d p)
    (whole : turn.2 = false → (∀ result, pool.requests turn.1 ≠ .done result) →
      pool.state.events = d.events) :
    Stage crates id d decisions (begun ++ [turn.1]) (pool.step turn) := by
  by_cases finished : ∃ result, pool.requests turn.1 = .done result
  · obtain ⟨result, done⟩ := finished
    rw [Pool.step_done done]
    exact stage.again known
  have going : ∀ result, pool.requests turn.1 ≠ .done result :=
    fun result done => finished ⟨result, done⟩
  cases stage with
  | idle unchanged failed =>
    obtain ⟨e, done⟩ := failed turn.1 known
    exact absurd done (going _)
  | settled k begins through resolved failed =>
    by_cases same : turn.1 = k
    · exact absurd (same ▸ through) (going _)
    · obtain ⟨e, done⟩ := failed turn.1 known same
      exact absurd done (going _)
  | busy k begins progress failed =>
    have same : turn.1 = k := by
      by_contra other
      obtain ⟨e, done⟩ := failed turn.1 known other
      exact going _ done
    subst same
    have others : ∀ i ∈ begun ++ [turn.1], i ≠ turn.1 →
        ∃ e, (pool.step turn).requests i = .done (.error e) := by
      intro i listed other
      rw [Pool.step_other other]
      rcases List.mem_append.mp listed with old | own
      · exact failed i old other
      · exact absurd (List.mem_singleton.mp own) other
    have member : turn.1 ∈ begun ++ [turn.1] := List.mem_append_left _ known
    rcases progress.step unique proposes turn.2 (fun fails => whole fails going) with
      ⟨unchanged, error⟩ | further | ⟨through, resolved⟩
    · refine .idle unchanged fun i listed => ?_
      by_cases own : i = turn.1
      · rw [own, Pool.step_own]
        exact error
      · exact others i listed own
    · refine .busy turn.1 member ?_ others
      rw [Pool.step_own]
      exact further
    · refine .settled turn.1 member ?_ resolved others
      rw [Pool.step_own]
      exact through

end

/-! ### Whole runs -/

section
variable {ι : Type} [DecidableEq ι] {crates : Crates} {formats : Formats} {id : Uuid} {d : Desk}
  {p : CounterProposal} {decisions : ι → Decision} {turns : List (ι × Bool)}

/-- Requests that come one after the other are in one of the stages all along. -/
theorem run_stage (unique : ∀ q ∈ d.proposals, q.id = id → q = p)
    (proposes : ProposesChange crates d p)
    (consecutive : Consecutive (decisionPool crates formats id d decisions) turns)
    (whole : NoneHalfway (decisionPool crates formats id d decisions) turns) :
    ∀ before after, turns = before ++ after →
      Stage crates id d decisions (before.map (·.1))
        (before.foldl Pool.step (decisionPool crates formats id d decisions)) := by
  intro before
  induction before using List.reverseRecOn with
  | nil => exact fun _ _ => .idle rfl (by simp)
  | append_singleton before turn ih =>
    intro after split
    rw [List.append_assoc, List.singleton_append] at split
    have stage := ih (turn :: after) split
    rw [List.foldl_append, List.map_append]
    by_cases known : turn.1 ∈ before.map (·.1)
    · apply stage.proceed known unique proposes
      intro fails going
      have failing : turn = (turn.1, false) := Prod.ext rfl fails
      exact whole before turn.1 after (failing ▸ split) known going
    · exact stage.begin (Pool.foldl_waiting before known) known
        (consecutive before turn after split known)

/-- Decisions on a pending proposal, each of which begins when those before it are done and does
not fail between its two writes: one at most succeeds, and the proposal and the event show it. -/
theorem resolution_single_shot (listed : p ∈ d.proposals) (pending : p.status = .pending)
    (proposes : ProposesChange crates d p)
    (consecutive : Consecutive (decisionPool crates formats p.id d decisions) turns)
    (whole : NoneHalfway (decisionPool crates formats p.id d decisions) turns)
    (finished : ∀ i ∈ turns.map (·.1), ∃ result,
      (turns.foldl Pool.step (decisionPool crates formats p.id d decisions)).requests i =
        .done result) :
    SingleShot d p decisions
      (turns.foldl Pool.step (decisionPool crates formats p.id d decisions)) := by
  have unique : ∀ q ∈ d.proposals, q.id = p.id → q = p := fun q known same =>
    List.inj_on_of_nodup_map d.valid.2.2.1 known listed same
  have stage := run_stage unique proposes consecutive whole turns [] (List.append_nil _).symm
  have begins : ∀ i, Succeeded (turns.foldl Pool.step
      (decisionPool crates formats p.id d decisions)) i → i ∈ turns.map (·.1) := by
    intro i through
    by_contra waits
    rw [Succeeded, Pool.foldl_waiting turns waits] at through
    exact handler_ne_done _ through
  cases stage with
  | busy k known progress failed =>
    obtain ⟨result, done⟩ := finished k known
    exact absurd done (progress.ne_done result)
  | idle unchanged failed =>
    have none : ∀ i, ¬ Succeeded (turns.foldl Pool.step
        (decisionPool crates formats p.id d decisions)) i := by
      intro i through
      obtain ⟨e, error⟩ := failed i (begins i through)
      rw [Succeeded, error] at through
      cases through
    rw [← unchanged] at listed
    refine ⟨fun i _ through => absurd through (none i), ⟨p, listed, rfl, .inl ⟨pending, none⟩⟩, ?_⟩
    rw [unchanged]
    refine iff_of_false (not_timesChanged_of_eq rfl) ?_
    rintro ⟨q, known, same, accepted⟩
    rw [unique q known same, pending] at accepted
    cases accepted
  | settled k known through resolved failed =>
    have only : ∀ i, Succeeded (turns.foldl Pool.step
        (decisionPool crates formats p.id d decisions)) i → i = k := by
      intro i through
      by_contra other
      obtain ⟨e, error⟩ := failed i (begins i through) other
      rw [Succeeded, error] at through
      cases through
    have row : ∃ q ∈ (turns.foldl Pool.step
        (decisionPool crates formats p.id d decisions)).state.proposals, q.id = p.id := by
      rw [resolved.proposals]
      exact ⟨_, List.mem_map.mpr ⟨p, listed, rfl⟩, resolved_id p⟩
    obtain ⟨q, present, same⟩ := row
    have verdict := resolved.row present same
    refine ⟨fun i j first second => (only i first).trans (only j second).symm,
      ⟨q, present, same, .inr ⟨k, through, verdict⟩⟩, ?_⟩
    obtain ⟨p', start, stop, decides, ⟨rejects, store⟩ | ⟨accepts, ev, raw, row, found, applied,
      written⟩⟩ := resolved.events
    · refine iff_of_false (not_timesChanged_of_eq (by rw [store])) ?_
      rintro ⟨q', present', same', accepted⟩
      have verdict' := resolved.row present' same'
      rw [accepted, Decision.verdict, rejects, if_neg Bool.false_ne_true] at verdict'
      cases verdict'
    · obtain ⟨listed', -, same'⟩ := getProposal_mem decides.1
      have isP := unique p' listed' same'
      subst isP
      refine iff_of_true (timesChanged_of_written proposes decides found applied written)
        ⟨q, present, same, ?_⟩
      rw [verdict, Decision.verdict, accepts, if_pos rfl]

end

/-- User 7 accepts the proposal; when this is done, another request rejects it. -/
def acceptThenReject (i : Bool) : Decision := ⟨i, ⟨1, 7⟩, 1, 2⟩

def inTurn : List (Bool × Bool) :=
  [(true, true), (true, true), (true, true), (true, true), (false, true)]

def movesIt : CounterProposal :=
  ⟨30, 1, 20, "ann@x.org".toList, some 832417200000000, some 832420800000000, none, .pending,
    some 0, none, 0, none, none⟩

def samplePool : Pool Bool Desk (Result Unit) :=
  decisionPool sampleCrates plainFormats movesIt.id proposedDesk acceptThenReject

/-- The places where a run of five turns can be cut. -/
theorem inTurn_cut {before after : List (Bool × Bool)} {turn : Bool × Bool}
    (split : inTurn = before ++ turn :: after) :
    before <+: [(true, true), (true, true), (true, true), (true, true)] ∧ turn.2 = true ∧
      (turn.1 = false → before = [(true, true), (true, true), (true, true), (true, true)]) := by
  rcases before with _ | ⟨a, _ | ⟨b, _ | ⟨c, _ | ⟨e, _ | ⟨f, rest⟩⟩⟩⟩⟩ <;>
    simp [inTurn] at split ⊢ <;> grind

/-- The rejection comes between the reads and the writes of the acceptance. -/
def betweenReadAndWrite : List (Bool × Bool) :=
  [(true, true), (true, true), (false, true), (false, true), (true, true), (true, true)]

/-- The two decisions, run in either order of turns. -/
theorem sample_decisions :
    movesIt ∈ proposedDesk.proposals ∧ ProposesChange sampleCrates proposedDesk movesIt ∧
    (∀ i : Bool, ((inTurn.foldl Pool.step samplePool).requests i).result.isSome) ∧
    (([(true, true), (true, true), (true, true), (true, true)].foldl Pool.step
      samplePool).requests true).result.isSome ∧
    ∀ i : Bool, ((betweenReadAndWrite.foldl Pool.step samplePool).requests i).result.map
      (·.toOption) = some (some ()) := by
  unfold ProposesChange
  decide +kernel

theorem resolution_acceptThenReject :
    SingleShot proposedDesk movesIt acceptThenReject (inTurn.foldl Pool.step samplePool) := by
  obtain ⟨listed, proposes, done, accepted, -⟩ := sample_decisions
  have isDone : ∀ {request : Handler Unit}, request.result.isSome →
      ∃ result, request = .done result := by
    intro request some
    obtain ⟨result, isResult⟩ := Option.isSome_iff_exists.mp some
    exact ⟨result, Request.result_eq_some_iff.mp isResult⟩
  refine resolution_single_shot listed rfl proposes ?_ ?_ fun i _ => isDone (done i)
  · intro before turn after split new i known
    obtain ⟨cut, -, last⟩ := inTurn_cut split
    have onlyTrue : ∀ i ∈ before.map (·.1), i = true := by
      intro i known
      have among := (cut.map (·.1)).subset known
      simpa using among
    have second : turn.1 = false := by
      cases own : turn.1 with
      | false => rfl
      | true =>
        cases before with
        | nil => cases known
        | cons first rest =>
          refine absurd (?_ : turn.1 ∈ _) new
          rw [own, ← onlyTrue first.1 (by simp)]
          simp
    rw [last second, onlyTrue i known]
    exact isDone accepted
  · intro before i after split
    obtain ⟨-, through, -⟩ := inTurn_cut split
    cases through

theorem resolution_twice :
    ¬ SingleShot proposedDesk movesIt acceptThenReject
      (betweenReadAndWrite.foldl Pool.step samplePool) := by
  obtain ⟨-, -, -, -, both⟩ := sample_decisions
  have succeeded : ∀ i, Succeeded (betweenReadAndWrite.foldl Pool.step samplePool) i := by
    intro i
    obtain ⟨result, isResult, ok⟩ := Option.map_eq_some_iff.mp (both i)
    rw [Succeeded, Request.result_eq_some_iff.mp isResult]
    cases result with
    | error e => cases ok
    | ok u => rfl
  intro single
  exact absurd (single.once true false (succeeded true) (succeeded false)) (by decide)

end Expresso.CalDav
