import Expresso.Compose.Outbox
import Mathlib.Logic.Function.Basic

/-! Scheduled mail under workers that select, relay and mark rows while other requests cancel them:
when a message is relayed at most once, and never after it has been cancelled. -/

namespace Expresso.Compose
open Text Transition
open Imap (Uuid)

/-- What the outside sees of a message, and the updates after a relay that have failed. -/
inductive Event where
  | relayed (id : Uuid) (envelope : Envelope)
  | unmarked (id : Uuid)
  | cancelled (id : Uuid)
  deriving DecidableEq

/-- A worker in a tick: the rows before it, and the row whose update is next. -/
structure Worker where
  batch : List MessageRow
  sent : Option MessageRow
  deriving DecidableEq

def Worker.idle : Worker := ⟨[], none⟩

/-- The store, the workers, the cancel requests that have found their row, and what has
happened. -/
structure System (κ ι : Type) where
  store : Store
  workers : κ → Worker
  cancels : ι → Option Uuid
  log : List Event

inductive RelayAnswer where
  | unreadable | refused | accepted
  deriving DecidableEq

inductive Action (κ ι : Type) where
  | schedule (ctx : RequestCtx) (req : SendRequest) (deliverAt : Int) (mailbox message : Uuid)
  | select (worker : κ) (now : Int) (rows : List MessageRow)
  | relay (worker : κ) (answer : RelayAnswer)
  | update (worker : κ) (through : Bool)
  | check (request : ι) (ctx : RequestCtx) (message : Uuid)
  | cancel (request : ι)
  | cancelAll (ctx : RequestCtx)

variable {κ ι : Type}

def System.start (store : Store) : System κ ι := ⟨store, fun _ => .idle, fun _ => none, []⟩

/-! ### Steps -/

section
variable (services : Services)

def schedule (ctx : RequestCtx) (req : SendRequest) (deliverAt : Int) (mailbox message : Uuid)
    (s : Store) : Store :=
  if new : mailbox ∉ s.mailboxes.map (·.id) ∧ message ∉ s.messages.map (·.id) then
    match persistForDelivery services ctx req deliverAt s ⟨mailbox, message, new.1, new.2⟩ with
    | .ok stored => stored.1
    | .error _ => s
  else s

/-- A turn of the loop up to the answer of the relay, and what it adds to the log. -/
def Worker.relay (answer : RelayAnswer) (w : Worker) : Worker × List Event :=
  match w with
  | ⟨row :: rest, none⟩ =>
      match answer, dispatchEnvelope services row with
      | .accepted, some envelope => (⟨rest, some row⟩, [.relayed row.id envelope])
      | _, _ => (⟨rest, none⟩, [])
  | w => (w, [])

variable [DecidableEq κ] [DecidableEq ι]

def step (s : System κ ι) : Action κ ι → System κ ι
  | .schedule ctx req deliverAt mailbox message =>
      { s with store := schedule services ctx req deliverAt mailbox message s.store }
  | .select worker now rows =>
      if s.workers worker = .idle ∧ Selects now s.store rows then
        { s with workers := Function.update s.workers worker ⟨rows.take batchLimit, none⟩ }
      else s
  | .relay worker answer =>
      let after := (s.workers worker).relay services answer
      { s with
        workers := Function.update s.workers worker after.1
        log := s.log ++ after.2 }
  | .update worker through =>
      match (s.workers worker).sent with
      | none => s
      | some row =>
          let workers := Function.update s.workers worker ⟨(s.workers worker).batch, none⟩
          if through then { s with workers := workers, store := markSent row.id s.store }
          else { s with workers := workers, log := s.log ++ [.unmarked row.id] }
  | .check request ctx message =>
      match checkScheduled ctx message s.store with
      | .error _ => s
      | .ok () => { s with cancels := Function.update s.cancels request (some message) }
  | .cancel request =>
      match s.cancels request with
      | none => s
      | some message =>
          { s with
            store := cancelWrite message s.store
            cancels := Function.update s.cancels request none
            log := s.log ++ [.cancelled message] }
  | .cancelAll ctx =>
      let (rows, store) := cancelAllScheduled ctx s.store
      { s with store := store, log := s.log ++ rows.map fun row => .cancelled row.id }

end

/-! ### What should hold -/

def Event.relays (message : Uuid) : Event → Bool
  | .relayed id _ => id = message
  | _ => false

/-- Every message is relayed at most once, and no more after it has been cancelled. -/
structure OnceAndFinal (log : List Event) : Prop where
  once : ∀ message, log.countP (Event.relays message) ≤ 1
  final : ∀ before after message, log = before ++ .cancelled message :: after →
    after.countP (Event.relays message) = 0

def Known (s : Store) (message : Uuid) : Prop := message ∈ s.messages.map (·.id)

def Scheduled (s : Store) (message : Uuid) : Prop :=
  ∃ row ∈ s.messages, row.id = message ∧ row.deliverAt.isSome

/-- A row that is relayed is still scheduled, no worker is between its relay and its update, and
no update after a relay of it has failed. -/
def Careful (services : Services) (s : System κ ι) : Action κ ι → Prop
  | .relay worker answer => ∀ message envelope,
      .relayed message envelope ∈ ((s.workers worker).relay services answer).2 →
        Scheduled s.store message ∧
          (∀ other row, (s.workers other).sent = some row → row.id ≠ message) ∧
          .unmarked message ∉ s.log
  | _ => True

/-! ### The log -/

variable {log more : List Event} {message : Uuid}

/-- The message has been relayed. -/
def Relayed (log : List Event) (message : Uuid) : Prop := ∃ e ∈ log, e.relays message

theorem relayed_append :
    Relayed (log ++ more) message ↔ Relayed log message ∨ Relayed more message := by
  simp [Relayed, or_and_right, exists_or]

theorem countP_eq_zero_iff : log.countP (Event.relays message) = 0 ↔ ¬Relayed log message := by
  simp [Relayed, List.countP_eq_zero]

theorem onceAndFinal_snoc {e : Event} :
    OnceAndFinal (log ++ [e]) ↔ OnceAndFinal log ∧
      ∀ message, e.relays message → ¬Relayed log message ∧ .cancelled message ∉ log := by
  constructor
  · intro ⟨once, final⟩
    refine ⟨⟨?_, ?_⟩, ?_⟩
    · intro message
      have count := once message
      rw [List.countP_append] at count
      omega
    · intro before after message split
      have count := final before (after ++ [e]) message (by rw [split]; simp)
      rw [List.countP_append] at count
      omega
    · intro message relays
      have one : [e].countP (Event.relays message) = 1 := by simp [relays]
      constructor
      · have count := once message
        rw [List.countP_append, one] at count
        exact countP_eq_zero_iff.1 (by omega)
      · intro cancelled
        obtain ⟨before, after, rfl⟩ := List.append_of_mem cancelled
        have count := final before (after ++ [e]) message (by simp)
        rw [List.countP_append, one] at count
        omega
  · intro ⟨⟨once, final⟩, new⟩
    constructor
    · intro message
      rw [List.countP_append]
      by_cases relays : e.relays message
      · have zero := countP_eq_zero_iff.2 (new message relays).1
        have one : [e].countP (Event.relays message) = 1 := by simp [relays]
        omega
      · have none : [e].countP (Event.relays message) = 0 := by simp [relays]
        have count := once message
        omega
    · intro before after message split
      rcases List.eq_nil_or_concat after with rfl | ⟨front, last, rfl⟩
      · rfl
      · have regroup : before ++ .cancelled message :: (front ++ [last]) =
            (before ++ .cancelled message :: front) ++ [last] := by simp
        rw [List.concat_eq_append, regroup] at split
        obtain ⟨rfl, same⟩ := List.append_inj' split rfl
        cases same
        have count := final before front message rfl
        rw [List.concat_eq_append, List.countP_append, count]
        by_cases relays : e.relays message
        · exact absurd (by simp) (new message relays).2
        · simp [relays]

/-- Events that relay nothing do no harm. -/
theorem onceAndFinal_quiet (quiet : ∀ message, ¬Relayed more message) :
    OnceAndFinal (log ++ more) ↔ OnceAndFinal log := by
  induction more using List.reverseRecOn with
  | nil => rw [List.append_nil]
  | append_singleton more e ih =>
    have rest : ∀ message, ¬Relayed more message := fun message relayed =>
      quiet message (relayed_append.2 (.inl relayed))
    rw [← List.append_assoc, onceAndFinal_snoc, ih rest]
    apply and_iff_left
    intro message relays
    exact absurd (relayed_append.2 (.inr ⟨e, by simp, relays⟩)) (quiet message)

/-! ### The store -/

section
variable {s : Store} {selected : MessageRow → Bool} {flags : List Str → List Str}

theorem Scheduled.known (scheduled : Scheduled s message) : Known s message := by
  obtain ⟨row, inside, same, _⟩ := scheduled
  exact List.mem_map.mpr ⟨row, inside, same⟩

theorem known_unschedule : Known (unschedule selected flags s) message ↔ Known s message := by
  unfold Known unschedule
  simp only [List.map_map, List.mem_map, Function.comp_apply]
  have same (row : MessageRow) :
      (if selected row then unscheduled flags row else row).id = row.id := by
    split_ifs <;> rfl
  simp only [same]

theorem scheduled_unschedule : Scheduled (unschedule selected flags s) message ↔
    ∃ row ∈ s.messages, row.id = message ∧ row.deliverAt.isSome ∧ ¬selected row := by
  unfold Scheduled unschedule
  simp only [List.mem_map, exists_exists_and_eq_and]
  have kept (row : MessageRow) :
      (if selected row then unscheduled flags row else row).id = message ∧
        (if selected row then unscheduled flags row else row).deliverAt.isSome ↔
      row.id = message ∧ row.deliverAt.isSome ∧ ¬selected row := by
    split_ifs with chosen
    · simp [chosen, unscheduled]
    · simp [chosen]
  simp only [kept]

/-- An update of the row of one message. -/
theorem scheduled_unschedule_one {target : Uuid} :
    Scheduled (unschedule (fun row => row.id = target) flags s) message ↔
      Scheduled s message ∧ message ≠ target := by
  rw [scheduled_unschedule]
  unfold Scheduled
  constructor
  · rintro ⟨row, inside, rfl, timed, other⟩
    exact ⟨⟨row, inside, rfl, timed⟩, fun same => other (decide_eq_true same)⟩
  · rintro ⟨⟨row, inside, rfl, timed⟩, other⟩
    exact ⟨row, inside, rfl, timed, fun same => other (of_decide_eq_true same)⟩

theorem scheduled_cancelAll {ctx : RequestCtx} :
    Scheduled (cancelAllScheduled ctx s).2 message ↔
      Scheduled s message ∧ message ∉ (cancelAllScheduled ctx s).1.map (·.id) := by
  unfold cancelAllScheduled
  rw [scheduled_unschedule]
  constructor
  · rintro ⟨row, inside, rfl, timed, kept⟩
    refine ⟨⟨row, inside, rfl, timed⟩, fun gone => ?_⟩
    obtain ⟨other, chosen, same⟩ := List.mem_map.mp gone
    obtain ⟨present, selected⟩ := List.mem_filter.mp chosen
    rw [List.inj_on_of_nodup_map s.constraints.2 present inside same] at selected
    exact kept selected
  · rintro ⟨⟨row, inside, rfl, timed⟩, kept⟩
    refine ⟨row, inside, rfl, timed, fun selected => kept ?_⟩
    exact List.mem_map.mpr ⟨row, List.mem_filter.mpr ⟨inside, selected⟩, rfl⟩

theorem known_of_checked {ctx : RequestCtx} (found : checkScheduled ctx message s = .ok ()) :
    Known s message := by
  unfold checkScheduled at found
  split at found
  · cases found
  · next row held =>
    have own := List.find?_some held
    simp only [Bool.and_eq_true, decide_eq_true_eq] at own
    exact List.mem_map.mpr ⟨row, List.mem_of_find?_eq_some held, own.1.1⟩

theorem persist_messages {services : Services} {ctx : RequestCtx} {req : SendRequest}
    {deliverAt : Int} {new : NewIds s} {stored : Store × Uuid}
    (done : persistForDelivery services ctx req deliverAt s new = .ok stored) :
    ∃ row : MessageRow, row.id = new.message ∧ stored.1.messages = s.messages ++ [row] := by
  simp only [persistForDelivery, bind_eq_ok_iff] at done
  obtain ⟨m, _, kept⟩ := done
  cases found : s.mailboxes.find? (isDrafts ctx) with
  | some mb =>
    rw [found] at kept
    cases kept
    exact ⟨_, rfl, rfl⟩
  | none =>
    rw [found] at kept
    by_cases taken : s.mailboxes.any (nameTaken ctx)
    · simp only [if_pos taken] at kept
      cases kept
    · simp only [if_neg taken] at kept
      cases kept
      exact ⟨_, rfl, rfl⟩

/-- A row that is stored is new. -/
theorem schedule_adds (services : Services) (ctx : RequestCtx) (req : SendRequest)
    (deliverAt : Int) (mailbox id : Uuid) (s : Store) :
    (∀ message, Known s message →
        Known (schedule services ctx req deliverAt mailbox id s) message) ∧
      ∀ message, Known s message →
        (Scheduled (schedule services ctx req deliverAt mailbox id s) message ↔
          Scheduled s message) := by
  unfold schedule
  split_ifs with new
  · split
    · next stored done =>
      obtain ⟨row, own, messages⟩ := persist_messages done
      unfold Known Scheduled
      rw [messages]
      refine ⟨fun message known => ?_, fun message known => ?_⟩
      · rw [List.map_append]
        exact List.mem_append_left _ known
      · constructor
        · rintro ⟨found, inside, same, timed⟩
          rcases List.mem_append.mp inside with before | last
          · exact ⟨found, before, same, timed⟩
          · rw [List.mem_singleton.mp last, own] at same
            rw [← same] at known
            exact absurd known new.2
        · rintro ⟨found, inside, same, timed⟩
          exact ⟨found, List.mem_append_left _ inside, same, timed⟩
    · exact ⟨fun _ known => known, fun _ _ => Iff.rfl⟩
  · exact ⟨fun _ known => known, fun _ _ => Iff.rfl⟩

end

/-! ### The invariant -/

/-- A row that a worker holds was scheduled when it was selected; since then it may have been
relayed or cancelled. A message that has been relayed stays scheduled only until its update. -/
structure Inv (s : System κ ι) : Prop where
  batch : ∀ worker, ∀ row ∈ (s.workers worker).batch, Known s.store row.id ∧
    (Scheduled s.store row.id ∨ Relayed s.log row.id ∨ .cancelled row.id ∈ s.log)
  sent : ∀ worker row, (s.workers worker).sent = some row → Relayed s.log row.id
  cancels : ∀ request message, s.cancels request = some message → Known s.store message
  relayed : ∀ message, Relayed s.log message → Known s.store message ∧
    (Scheduled s.store message →
      (∃ worker row, (s.workers worker).sent = some row ∧ row.id = message) ∨
        .unmarked message ∈ s.log)
  cancelled : ∀ message, .cancelled message ∈ s.log →
    Known s.store message ∧ ¬Scheduled s.store message
  unmarked : ∀ message, .unmarked message ∈ s.log → Relayed s.log message

theorem inv_start (store : Store) : Inv (System.start store : System κ ι) where
  batch := fun _ _ inside => nomatch inside
  sent := fun _ _ held => nomatch held
  cancels := fun _ _ held => nomatch held
  relayed := fun _ ⟨_, inside, _⟩ => nomatch inside
  cancelled := fun _ inside => nomatch inside
  unmarked := fun _ inside => nomatch inside

section
variable {s : System κ ι} {services : Services}

theorem Inv.schedule (inv : Inv s) {store : Store}
    (known : ∀ message, Known s.store message → Known store message)
    (scheduled : ∀ message, Known s.store message →
      (Scheduled store message ↔ Scheduled s.store message)) :
    Inv { s with store := store } where
  batch := fun worker row inside => by
    obtain ⟨present, state⟩ := inv.batch worker row inside
    exact ⟨known _ present, state.imp_left (scheduled _ present).mpr⟩
  sent := inv.sent
  cancels := fun request message held => known _ (inv.cancels request message held)
  relayed := fun message relayed => by
    obtain ⟨present, state⟩ := inv.relayed message relayed
    exact ⟨known _ present, fun still => state ((scheduled _ present).mp still)⟩
  cancelled := fun message cancelled => by
    obtain ⟨present, ended⟩ := inv.cancelled message cancelled
    exact ⟨known _ present, fun still => ended ((scheduled _ present).mp still)⟩
  unmarked := inv.unmarked

theorem not_relayed_cancelled (gone : List Uuid) : ¬Relayed (gone.map .cancelled) message := by
  rintro ⟨e, inside, relays⟩
  obtain ⟨id, _, rfl⟩ := List.mem_map.mp inside
  cases relays

/-- Messages are cancelled: their rows are no longer scheduled, all others are as they were. -/
theorem Inv.cancel (inv : Inv s) {store : Store} {cancels : ι → Option Uuid} (gone : List Uuid)
    (known : ∀ message, Known store message ↔ Known s.store message)
    (present : ∀ message ∈ gone, Known s.store message)
    (scheduled : ∀ message, Scheduled store message ↔ Scheduled s.store message ∧ message ∉ gone)
    (fewer : ∀ request message, cancels request = some message →
      s.cancels request = some message) :
    Inv { s with store := store, cancels := cancels, log := s.log ++ gone.map .cancelled } where
  batch := fun worker row inside => by
    obtain ⟨present, state⟩ := inv.batch worker row inside
    refine ⟨(known _).mpr present, ?_⟩
    by_cases hit : row.id ∈ gone
    · exact .inr (.inr (List.mem_append_right _ (List.mem_map_of_mem hit)))
    · rcases state with still | relayed | cancelled
      · exact .inl ((scheduled _).mpr ⟨still, hit⟩)
      · exact .inr (.inl (relayed_append.mpr (.inl relayed)))
      · exact .inr (.inr (List.mem_append_left _ cancelled))
  sent := fun worker row held => relayed_append.mpr (.inl (inv.sent worker row held))
  cancels := fun request message held =>
    (known _).mpr (inv.cancels request message (fewer request message held))
  relayed := fun message relayed => by
    have before := (relayed_append.mp relayed).resolve_right (not_relayed_cancelled gone)
    obtain ⟨present, state⟩ := inv.relayed message before
    refine ⟨(known _).mpr present, fun still => ?_⟩
    exact (state ((scheduled _).mp still).1).imp_right (List.mem_append_left _)
  cancelled := fun message cancelled => by
    rcases List.mem_append.mp cancelled with before | now
    · obtain ⟨present, ended⟩ := inv.cancelled message before
      exact ⟨(known _).mpr present, fun still => ended ((scheduled _).mp still).1⟩
    · obtain ⟨id, hit, same⟩ := List.mem_map.mp now
      cases same
      exact ⟨(known _).mpr (present _ hit), fun still => ((scheduled _).mp still).2 hit⟩
  unmarked := fun message unmarked => by
    rcases List.mem_append.mp unmarked with before | now
    · exact relayed_append.mpr (.inl (inv.unmarked message before))
    · obtain ⟨id, _, same⟩ := List.mem_map.mp now
      cases same

variable [DecidableEq κ]

/-- A worker that has sent nothing goes on with other rows. -/
theorem Inv.hold (inv : Inv s) {worker : κ} {rows : List MessageRow}
    (idle : (s.workers worker).sent = none)
    (good : ∀ row ∈ rows, Known s.store row.id ∧
      (Scheduled s.store row.id ∨ Relayed s.log row.id ∨ .cancelled row.id ∈ s.log)) :
    Inv { s with workers := Function.update s.workers worker ⟨rows, none⟩ } where
  batch := fun other row inside => by
    by_cases own : other = worker
    · subst own
      simp only [Function.update_self] at inside
      exact good row inside
    · simp only [Function.update_of_ne own] at inside
      exact inv.batch other row inside
  sent := fun other row held => by
    by_cases own : other = worker
    · subst own
      simp only [Function.update_self] at held
      cases held
    · simp only [Function.update_of_ne own] at held
      exact inv.sent other row held
  cancels := inv.cancels
  relayed := fun message relayed => by
    obtain ⟨present, state⟩ := inv.relayed message relayed
    refine ⟨present, fun still => (state still).imp_left ?_⟩
    rintro ⟨other, row, held, same⟩
    have elsewhere : other ≠ worker := by
      rintro rfl
      rw [idle] at held
      cases held
    exact ⟨other, row, by simpa only [Function.update_of_ne elsewhere] using held, same⟩
  cancelled := inv.cancelled
  unmarked := inv.unmarked

theorem relayed_single {id : Uuid} {envelope : Envelope} :
    Relayed [.relayed id envelope] message ↔ id = message := by
  simp [Relayed, Event.relays]

/-- A worker relays the first of its rows. -/
theorem Inv.relay (inv : Inv s) {worker : κ} {row : MessageRow} {rest : List MessageRow}
    (envelope : Envelope) (holds : s.workers worker = ⟨row :: rest, none⟩) :
    Inv { s with
      workers := Function.update s.workers worker ⟨rest, some row⟩
      log := s.log ++ [.relayed row.id envelope] } where
  batch := fun other r inside => by
    have before : r ∈ (s.workers other).batch := by
      by_cases own : other = worker
      · subst own
        simp only [Function.update_self] at inside
        rw [holds]
        exact List.mem_cons_of_mem _ inside
      · simpa only [Function.update_of_ne own] using inside
    obtain ⟨present, state⟩ := inv.batch other r before
    refine ⟨present, state.imp_right (Or.imp ?_ ?_)⟩
    · exact fun relayed => relayed_append.mpr (.inl relayed)
    · exact List.mem_append_left _
  sent := fun other r held => by
    by_cases own : other = worker
    · subst own
      simp only [Function.update_self, Option.some.injEq] at held
      exact relayed_append.mpr (.inr (relayed_single.2 (congrArg _ held)))
    · simp only [Function.update_of_ne own] at held
      exact relayed_append.mpr (.inl (inv.sent other r held))
  cancels := inv.cancels
  relayed := fun message relayed => by
    rcases relayed_append.mp relayed with before | now
    · obtain ⟨present, state⟩ := inv.relayed message before
      refine ⟨present, fun still => (state still).imp ?_ (List.mem_append_left _)⟩
      rintro ⟨other, r, held, same⟩
      have elsewhere : other ≠ worker := by
        rintro rfl
        rw [holds] at held
        cases held
      exact ⟨other, r, by simpa only [Function.update_of_ne elsewhere] using held, same⟩
    · have same := relayed_single.1 now
      refine ⟨?_, fun _ => .inl ⟨worker, row, by simp only [Function.update_self], same⟩⟩
      rw [← same]
      exact (inv.batch worker row (by rw [holds]; exact List.mem_cons_self)).1
  cancelled := fun message cancelled => by
    rcases List.mem_append.mp cancelled with before | now
    · exact inv.cancelled message before
    · cases List.mem_singleton.mp now
  unmarked := fun message unmarked => by
    rcases List.mem_append.mp unmarked with before | now
    · exact relayed_append.mpr (.inl (inv.unmarked message before))
    · cases List.mem_singleton.mp now

/-- The update of a row that has been relayed goes through. -/
theorem Inv.mark (inv : Inv s) {worker : κ} {row : MessageRow}
    (holds : (s.workers worker).sent = some row) :
    Inv { s with
      workers := Function.update s.workers worker ⟨(s.workers worker).batch, none⟩
      store := markSent row.id s.store } where
  batch := fun other r inside => by
    have before : r ∈ (s.workers other).batch := by
      by_cases own : other = worker
      · subst own
        simpa only [Function.update_self] using inside
      · simpa only [Function.update_of_ne own] using inside
    obtain ⟨present, state⟩ := inv.batch other r before
    refine ⟨known_unschedule.mpr present, ?_⟩
    by_cases own : r.id = row.id
    · exact .inr (.inl (own ▸ inv.sent worker row holds))
    · exact state.imp_left fun still => scheduled_unschedule_one.mpr ⟨still, own⟩
  sent := fun other r held => by
    by_cases own : other = worker
    · subst own
      simp only [Function.update_self] at held
      cases held
    · simp only [Function.update_of_ne own] at held
      exact inv.sent other r held
  cancels := fun request message held => known_unschedule.mpr (inv.cancels request message held)
  relayed := fun message relayed => by
    obtain ⟨present, state⟩ := inv.relayed message relayed
    refine ⟨known_unschedule.mpr present, fun still => ?_⟩
    obtain ⟨before, different⟩ := scheduled_unschedule_one.mp still
    refine (state before).imp_left ?_
    rintro ⟨other, r, held, same⟩
    have elsewhere : other ≠ worker := by
      rintro rfl
      rw [holds] at held
      cases held
      exact different same.symm
    exact ⟨other, r, by simpa only [Function.update_of_ne elsewhere] using held, same⟩
  cancelled := fun message cancelled => by
    obtain ⟨present, ended⟩ := inv.cancelled message cancelled
    exact ⟨known_unschedule.mpr present, fun still => ended (scheduled_unschedule_one.mp still).1⟩
  unmarked := inv.unmarked

/-- The update of a row that has been relayed fails. -/
theorem Inv.unmark (inv : Inv s) {worker : κ} {row : MessageRow}
    (holds : (s.workers worker).sent = some row) :
    Inv { s with
      workers := Function.update s.workers worker ⟨(s.workers worker).batch, none⟩
      log := s.log ++ [.unmarked row.id] } where
  batch := fun other r inside => by
    have before : r ∈ (s.workers other).batch := by
      by_cases own : other = worker
      · subst own
        simpa only [Function.update_self] using inside
      · simpa only [Function.update_of_ne own] using inside
    obtain ⟨present, state⟩ := inv.batch other r before
    refine ⟨present, state.imp_right (Or.imp ?_ ?_)⟩
    · exact fun relayed => relayed_append.mpr (.inl relayed)
    · exact List.mem_append_left _
  sent := fun other r held => by
    by_cases own : other = worker
    · subst own
      simp only [Function.update_self] at held
      cases held
    · simp only [Function.update_of_ne own] at held
      exact relayed_append.mpr (.inl (inv.sent other r held))
  cancels := inv.cancels
  relayed := fun message relayed => by
    have before : Relayed s.log message := by
      refine (relayed_append.mp relayed).resolve_right ?_
      simp [Relayed, Event.relays]
    obtain ⟨present, state⟩ := inv.relayed message before
    refine ⟨present, fun still => ?_⟩
    rcases state still with ⟨other, r, held, same⟩ | failed
    · by_cases own : other = worker
      · subst own
        rw [holds] at held
        cases held
        exact .inr (List.mem_append_right _ (List.mem_singleton.mpr (congrArg _ same.symm)))
      · exact .inl ⟨other, r, by simpa only [Function.update_of_ne own] using held, same⟩
    · exact .inr (List.mem_append_left _ failed)
  cancelled := fun message cancelled => by
    rcases List.mem_append.mp cancelled with before | now
    · exact inv.cancelled message before
    · cases List.mem_singleton.mp now
  unmarked := fun message unmarked => by
    refine relayed_append.mpr (.inl ?_)
    rcases List.mem_append.mp unmarked with before | now
    · exact inv.unmarked message before
    · cases List.mem_singleton.mp now
      exact inv.sent worker row holds

end

/-! ### Runs -/

section
variable {services : Services}

/-- A turn passes over the first row or relays it. -/
theorem relay_cases (services : Services) (answer : RelayAnswer) (w : Worker) :
    w.relay services answer = (w, []) ∨ ∃ row rest, w = ⟨row :: rest, none⟩ ∧
      (w.relay services answer = (⟨rest, none⟩, []) ∨
        ∃ envelope, w.relay services answer = (⟨rest, some row⟩, [.relayed row.id envelope])) := by
  unfold Worker.relay
  split
  · next row rest =>
    refine .inr ⟨row, rest, rfl, ?_⟩
    split
    · next envelope _ => exact .inr ⟨envelope, rfl⟩
    · exact .inl rfl
  · exact .inl rfl

variable [DecidableEq κ] [DecidableEq ι] {s : System κ ι} {action : Action κ ι}

theorem step_relay (worker : κ) (answer : RelayAnswer) :
    step services s (.relay worker answer) =
      { s with
        workers := Function.update s.workers worker ((s.workers worker).relay services answer).1
        log := s.log ++ ((s.workers worker).relay services answer).2 } := rfl

theorem Inv.step (inv : Inv s) : Inv (step services s action) := by
  cases action with
  | schedule ctx req deliverAt mailbox message =>
    obtain ⟨known, scheduled⟩ := schedule_adds services ctx req deliverAt mailbox message s.store
    exact inv.schedule known scheduled
  | select worker now rows =>
    simp only [Compose.step]
    split_ifs with enabled
    · obtain ⟨idle, perm, _⟩ := enabled
      apply inv.hold (by rw [idle]; rfl)
      intro row inside
      obtain ⟨present, timed⟩ := List.mem_filter.mp (perm.subset (List.mem_of_mem_take inside))
      have scheduled : Scheduled s.store row.id := by
        refine ⟨row, present, rfl, ?_⟩
        cases time : row.deliverAt with
        | none => simp [time] at timed
        | some _ => rfl
      exact ⟨scheduled.known, .inl scheduled⟩
    · exact inv
  | relay worker answer =>
    rw [step_relay]
    rcases relay_cases services answer (s.workers worker) with
      same | ⟨row, rest, holds, passed | sent⟩
    · rw [same, Function.update_eq_self, List.append_nil]
      exact inv
    · rw [passed, List.append_nil]
      apply inv.hold (by rw [holds])
      intro r inside
      apply inv.batch worker r
      rw [holds]
      exact List.mem_cons_of_mem _ inside
    · obtain ⟨envelope, sent⟩ := sent
      rw [sent]
      exact inv.relay envelope holds
  | update worker through =>
    simp only [Compose.step]
    cases holds : (s.workers worker).sent with
    | none => exact inv
    | some row =>
      dsimp only
      split_ifs
      · exact inv.mark holds
      · exact inv.unmark holds
  | check request ctx message =>
    simp only [Compose.step]
    split
    · exact inv
    · next found =>
      refine ⟨inv.batch, inv.sent, ?_, inv.relayed, inv.cancelled, inv.unmarked⟩
      intro other id held
      by_cases own : other = request
      · subst own
        simp only [Function.update_self, Option.some.injEq] at held
        rw [← held]
        exact known_of_checked found
      · simp only [Function.update_of_ne own] at held
        exact inv.cancels other id held
  | cancel request =>
    simp only [Compose.step]
    cases held : s.cancels request with
    | none => exact inv
    | some message =>
      refine inv.cancel [message] (fun _ => known_unschedule) ?_ ?_ ?_
      · intro id inside
        rw [List.mem_singleton.mp inside]
        exact inv.cancels request message held
      · intro id
        rw [List.mem_singleton]
        exact scheduled_unschedule_one
      · intro other id pending
        by_cases own : other = request
        · subst own
          simp only [Function.update_self] at pending
          cases pending
        · simpa only [Function.update_of_ne own] using pending
  | cancelAll ctx =>
    have logged : (cancelAllScheduled ctx s.store).1.map (fun row => Event.cancelled row.id) =
        ((cancelAllScheduled ctx s.store).1.map (·.id)).map .cancelled := by
      rw [List.map_map]
      rfl
    simp only [Compose.step, logged]
    refine inv.cancel _ (fun _ => known_unschedule) ?_ (fun _ => scheduled_cancelAll)
      fun _ _ pending => pending
    intro id inside
    obtain ⟨row, chosen, rfl⟩ := List.mem_map.mp inside
    exact List.mem_map_of_mem (List.mem_filter.mp chosen).1

/-- Only a relay adds a relay to the log. -/
theorem step_log (services : Services) (other : ∀ worker answer, action ≠ .relay worker answer) :
    ∃ more, (step services s action).log = s.log ++ more ∧ ∀ message, ¬Relayed more message := by
  have nothing : ∃ more, s.log = s.log ++ more ∧ ∀ message, ¬Relayed more message :=
    ⟨[], by simp, by simp [Relayed]⟩
  cases action with
  | schedule => exact nothing
  | select =>
    simp only [step]
    split_ifs
    · exact nothing
    · exact nothing
  | relay worker answer => exact absurd rfl (other worker answer)
  | update worker through =>
    simp only [step]
    split
    · exact nothing
    · split_ifs
      · exact nothing
      · exact ⟨_, rfl, by simp [Relayed, Event.relays]⟩
  | check =>
    simp only [step]
    split
    · exact nothing
    · exact nothing
  | cancel =>
    simp only [step]
    split
    · exact nothing
    · exact ⟨_, rfl, by simp [Relayed, Event.relays]⟩
  | cancelAll =>
    refine ⟨_, rfl, ?_⟩
    rintro message ⟨e, inside, relays⟩
    obtain ⟨row, _, rfl⟩ := List.mem_map.mp inside
    cases relays

/-- A step keeps the log good just where it relays with care. -/
theorem careful_iff (inv : Inv s) (good : OnceAndFinal s.log) :
    Careful services s action ↔ OnceAndFinal (step services s action).log := by
  by_cases relay : ∃ worker answer, action = .relay worker answer
  · obtain ⟨worker, answer, rfl⟩ := relay
    rw [step_relay]
    simp only [Careful]
    rcases relay_cases services answer (s.workers worker) with
      same | ⟨row, rest, holds, passed | sent⟩
    · simp [same, good]
    · simp [passed, good]
    · obtain ⟨envelope, sent⟩ := sent
      have head : row ∈ (s.workers worker).batch := by
        rw [holds]
        exact List.mem_cons_self
      simp only [sent, List.mem_singleton, Event.relayed.injEq, and_imp, forall_eq_apply_imp_iff,
        forall_eq]
      rw [onceAndFinal_snoc, and_iff_right good]
      constructor
      · rintro ⟨scheduled, unsent, marked⟩ message relays
        have same : row.id = message := of_decide_eq_true relays
        subst same
        constructor
        · intro before
          rcases (inv.relayed _ before).2 scheduled with ⟨other, r, held, same⟩ | failed
          · exact unsent other r held same
          · exact marked failed
        · intro cancelled
          exact (inv.cancelled _ cancelled).2 scheduled
      · intro new
        obtain ⟨unrelayed, uncancelled⟩ := new row.id (decide_eq_true rfl)
        refine ⟨?_, ?_, ?_⟩
        · rcases (inv.batch worker row head).2 with scheduled | relayed | cancelled
          · exact scheduled
          · exact absurd relayed unrelayed
          · exact absurd cancelled uncancelled
        · intro other r held same
          exact unrelayed (same ▸ inv.sent other r held)
        · intro failed
          exact unrelayed (inv.unmarked _ failed)
  · have other : ∀ worker answer, action ≠ .relay worker answer :=
      fun worker answer same => relay ⟨worker, answer, same⟩
    obtain ⟨more, logged, quiet⟩ := step_log services (s := s) other
    rw [logged, onceAndFinal_quiet quiet]
    refine iff_of_true ?_ good
    cases action with
    | relay worker answer => exact absurd rfl (other worker answer)
    | _ => trivial

/-- In a run of workers and cancel requests every message is relayed at most once, and never after
a cancel, just where every relay is of a row that is still scheduled and that no relay before has
left without its update. -/
theorem onceAndFinal_iff (services : Services) (store : Store) (actions : List (Action κ ι)) :
    EachStep (step services) (Careful services) (System.start store) actions ↔
      Throughout (step services) (fun s => OnceAndFinal s.log) (System.start store) actions := by
  have initial : OnceAndFinal (System.start store : System κ ι).log :=
    ⟨fun _ => Nat.zero_le _, fun before after message split => by
      cases before <;> cases split⟩
  have decided : EachStep (step services) (Careful services) (System.start store) actions ↔
      Throughout (step services) (fun s => Inv s ∧ OnceAndFinal s.log) (System.start store)
        actions :=
    eachStep_iff_throughout
      (fun _ _ ⟨inv, good⟩ => (careful_iff inv good).trans (and_iff_right inv.step).symm)
      ⟨inv_start store, initial⟩ actions
  rw [decided]
  constructor
  · exact Throughout.imp fun _ holds => holds.2
  · intro holds
    have always : EachStep (step services) (fun _ _ => True) (System.start store) actions :=
      eachStep_iff.mpr fun _ _ _ _ => trivial
    have invs := always.throughout (fun _ _ inv _ => Inv.step inv) (inv_start store)
    rw [throughout_iff] at holds invs ⊢
    intro before after split
    exact ⟨invs before after split, holds before after split⟩

end

section Sample

def readsAll : Services := ⟨fun _ => true, [], fun _ => none, fun _ _ => true⟩

def dueRow : MessageRow where
  id := 5
  mailboxId := 1
  tenantId := 1
  flags := [draftFlag]
  deliverAt := some 60
  fromAddr := some "a@x.org".toList
  toAddrs := ["b@x.org".toList]
  body := ⟨"a@x.org".toList, [], none, ["b@x.org".toList], [], [], none, none, .plain []⟩

def dueStore : Store := ⟨⟨[⟨1, 7, 1, draftsName, some draftsUse⟩], [dueRow]⟩, by decide⟩

/-- The message is cancelled after a worker has read its row. -/
def lateCancel : List (Action Bool Unit) :=
  [.select true 60 [dueRow], .check () ⟨1, 7⟩ 5, .cancel (), .relay true .accepted]

/-- The update after the relay fails, and the next tick finds the row again. -/
def lostUpdate : List (Action Bool Unit) :=
  [.select true 60 [dueRow], .relay true .accepted, .update true false,
    .select true 65 [dueRow], .relay true .accepted]

theorem relayed_again :
    (¬Throughout (step readsAll) (fun s => OnceAndFinal s.log) (.start dueStore) lateCancel) ∧
      ¬Throughout (step readsAll) (fun s => OnceAndFinal s.log) (.start dueStore) lostUpdate := by
  let envelope : Envelope := ⟨some "a@x.org".toList, ["b@x.org".toList]⟩
  have logs : (lateCancel.foldl (step readsAll) (.start dueStore)).log =
        [.cancelled 5, .relayed 5 envelope] ∧
      (lostUpdate.foldl (step readsAll) (.start dueStore)).log =
        [.relayed 5 envelope, .unmarked 5, .relayed 5 envelope] := by
    decide
  constructor
  · intro holds
    have last := throughout_iff.mp holds lateCancel [] (by simp)
    rw [logs.1] at last
    exact absurd (last.final [] _ 5 rfl) (by decide)
  · intro holds
    have last := throughout_iff.mp holds lostUpdate [] (by simp)
    rw [logs.2] at last
    exact absurd (last.once 5) (by decide)

end Sample

end Expresso.Compose
