import Expresso.Text.Str
import Expresso.Transition.Runs
import Mathlib.Data.List.Induction
import Mathlib.Logic.Function.Basic

/-! The throttles on failed logins: that of the IMAP server and that of the authenticator that
CalDAV, CardDAV and mail submission share. -/

namespace Expresso.Auth
open Text Transition

/-- Instants and durations are in nanoseconds. -/
structure FailureTracker where
  windowStart : Nat
  failures : UInt32
  lockedUntil : Option Nat
  deriving DecidableEq

structure Config where
  maxFailures : UInt32
  failureWindow : Nat
  lockoutDuration : Nat

abbrev Failures := Str → Option FailureTracker

def isLockedOut (key : Str) (now : Nat) (failures : Failures) : Bool :=
  ((failures key).bind (·.lockedUntil)).any fun locked => now < locked

/-- The tracker in the window that a failure counts in. -/
def FailureTracker.window (cfg : Config) (now : Nat) (entry : FailureTracker) : FailureTracker :=
  if cfg.failureWindow < now - entry.windowStart then ⟨now, 0, none⟩ else entry

def FailureTracker.record (cfg : Config) (now : Nat) (entry : FailureTracker) : FailureTracker :=
  let entry := entry.window cfg now
  let failures := entry.failures + 1
  { entry with
    failures := failures
    lockedUntil :=
      if cfg.maxFailures ≤ failures then some (now + cfg.lockoutDuration) else entry.lockedUntil }

def recordFailure (cfg : Config) (key : Str) (now : Nat) (failures : Failures) : Failures :=
  Function.update failures key
    (some (((failures key).getD ⟨now, 0, none⟩).record cfg now))

def clearFailures (key : Str) (failures : Failures) : Failures :=
  Function.update failures key none

/-! ### The two throttles -/

inductive Throttle where
  | loginLockout
  | kcBasicAuthenticator
  deriving DecidableEq

/-- `LoginLockout` lowers the name in each of its methods; those of `KcBasicAuthenticator` get
the lowered name. -/
def Throttle.key : Throttle → Str → Str
  | .loginLockout, user => toAsciiLowercase user
  | .kcBasicAuthenticator, userKey => userKey

inductive Operation where
  | recordFailure | clearFailures | isLockedOut
  deriving DecidableEq

structure Call where
  now : Nat
  user : Str
  operation : Operation
  deriving DecidableEq

def step (throttle : Throttle) (cfg : Config) (failures : Failures) (call : Call) : Failures :=
  match call.operation with
  | .recordFailure => recordFailure cfg (throttle.key call.user) call.now failures
  | .clearFailures => clearFailures (throttle.key call.user) failures
  | .isLockedOut => failures

def run (throttle : Throttle) (cfg : Config) (calls : List Call) : Failures :=
  calls.foldl (step throttle cfg) fun _ => none

/-! ### How long a lock lasts -/

section
variable (throttle : Throttle) (cfg : Config)

/-- The failure that the call records is the threshold's or a later one of its window. -/
def Locks (failures : Failures) (call : Call) : Prop :=
  call.operation = .recordFailure ∧
    cfg.maxFailures ≤
      ((((failures (throttle.key call.user)).getD ⟨call.now, 0, none⟩).window cfg
        call.now).failures + 1)

def Clears (key : Str) (call : Call) : Prop :=
  call.operation = .clearFailures ∧ throttle.key call.user = key

/-- Whenever a call locks its key, the key is locked out at every time of the lockout, unless
its failures are cleared: a moment of the run lies between two of its calls. -/
def HoldsItsDuration (calls : List Call) : Prop :=
  ∀ before call between after, calls = before ++ call :: between ++ after →
    Locks throttle cfg (run throttle cfg before) call →
    (∀ c ∈ between, ¬Clears throttle (throttle.key call.user) c) →
    ∀ now, (∀ c ∈ call :: between, c.now ≤ now) → (∀ c ∈ after, now ≤ c.now) →
      now < call.now + cfg.lockoutDuration →
      isLockedOut (throttle.key call.user) now
        (run throttle cfg (before ++ call :: between)) = true

/-- The call records a failure of a key that is locked out, after the window of its tracker; and
one failure is below the threshold. -/
def Forgets (failures : Failures) (call : Call) : Prop :=
  call.operation = .recordFailure ∧
    ((failures (throttle.key call.user)).any fun entry =>
      entry.lockedUntil.any (call.now < ·) && cfg.failureWindow < call.now - entry.windowStart) ∧
    1 < cfg.maxFailures

instance (failures : Failures) (call : Call) : Decidable (Forgets throttle cfg failures call) :=
  inferInstanceAs (Decidable (_ ∧ _ ∧ _))

end

section
variable {throttle : Throttle} {cfg : Config} {failures : Failures} {call : Call} {key : Str}

/-- The key is locked until the limit at least. -/
def LockedUntil (key : Str) (limit : Nat) (failures : Failures) : Prop :=
  ∃ entry locked, failures key = some entry ∧ entry.lockedUntil = some locked ∧ limit ≤ locked

theorem LockedUntil.isLockedOut {limit now : Nat} (locks : LockedUntil key limit failures)
    (early : now < limit) : isLockedOut key now failures = true := by
  obtain ⟨entry, locked, found, until_, later⟩ := locks
  simp [Auth.isLockedOut, found, until_]
  omega

theorem step_other (other : throttle.key call.user ≠ key) :
    step throttle cfg failures call key = failures key := by
  unfold step recordFailure clearFailures
  cases call.operation <;> simp [Function.update_of_ne other.symm]

theorem step_recordFailure (records : call.operation = .recordFailure) :
    step throttle cfg failures call (throttle.key call.user) =
      some (((failures (throttle.key call.user)).getD ⟨call.now, 0, none⟩).record cfg call.now) := by
  simp [step, records, recordFailure]

/-- A call that locks its key sets the lock to its own time and the duration. -/
theorem Locks.lockedUntil (locks : Locks throttle cfg failures call) :
    LockedUntil (throttle.key call.user) (call.now + cfg.lockoutDuration)
      (step throttle cfg failures call) := by
  refine ⟨_, call.now + cfg.lockoutDuration, step_recordFailure locks.1, ?_, Nat.le_refl _⟩
  simp only [FailureTracker.record]
  exact if_pos locks.2

theorem FailureTracker.window_expired {entry : FailureTracker} {now : Nat}
    (expired : cfg.failureWindow < now - entry.windowStart) :
    entry.window cfg now = ⟨now, 0, none⟩ := if_pos expired

theorem FailureTracker.window_open {entry : FailureTracker} {now : Nat}
    (inside : ¬cfg.failureWindow < now - entry.windowStart) : entry.window cfg now = entry :=
  if_neg inside

theorem record_lockedUntil {entry : FailureTracker} {now limit locked : Nat}
    (until_ : entry.lockedUntil = some locked) (later : limit ≤ locked)
    (late : limit ≤ now + cfg.lockoutDuration)
    (remembers : cfg.failureWindow < now - entry.windowStart → ¬1 < cfg.maxFailures) :
    ∃ locked', (entry.record cfg now).lockedUntil = some locked' ∧ limit ≤ locked' := by
  by_cases expired : cfg.failureWindow < now - entry.windowStart
  · have reached : cfg.maxFailures ≤ 0 + 1 := UInt32.not_lt.mp (remembers expired)
    simp only [FailureTracker.record, FailureTracker.window_expired expired, if_pos reached]
    exact ⟨_, rfl, late⟩
  · simp only [FailureTracker.record, FailureTracker.window_open expired]
    split
    · exact ⟨_, rfl, late⟩
    · exact ⟨_, until_, later⟩

/-- A call in the time of a lock keeps it, unless it clears or forgets it. -/
theorem lockedUntil_step {limit : Nat} (locks : LockedUntil key limit failures)
    (kept : ¬Clears throttle key call) (remembers : ¬Forgets throttle cfg failures call)
    (early : call.now < limit) (late : limit ≤ call.now + cfg.lockoutDuration) :
    LockedUntil key limit (step throttle cfg failures call) := by
  obtain ⟨entry, locked, found, until_, later⟩ := locks
  by_cases own : throttle.key call.user = key
  · subst own
    cases operation : call.operation with
    | isLockedOut => exact ⟨entry, locked, by simp [step, operation, found], until_, later⟩
    | clearFailures => exact absurd ⟨operation, rfl⟩ kept
    | recordFailure =>
      have here : step throttle cfg failures call (throttle.key call.user) =
          some (((failures (throttle.key call.user)).getD ⟨call.now, 0, none⟩).record cfg
            call.now) := step_recordFailure operation
      rw [found, Option.getD_some] at here
      have known : call.now < locked := by omega
      obtain ⟨locked', extended, longer⟩ := record_lockedUntil until_ later late
        fun expired bound => remembers ⟨operation, by simp [found, until_, known, expired], bound⟩
      exact ⟨_, locked', here, extended, longer⟩
  · exact ⟨entry, locked, (step_other own).trans found, until_, later⟩

theorem lockedUntil_run {limit : Nat} {between : List Call}
    (locks : LockedUntil key limit failures)
    (kept : ∀ c ∈ between, ¬Clears throttle key c)
    (remembers : EachStep (step throttle cfg) (fun s c => ¬Forgets throttle cfg s c) failures
      between)
    (early : ∀ c ∈ between, c.now < limit)
    (late : ∀ c ∈ between, limit ≤ c.now + cfg.lockoutDuration) :
    LockedUntil key limit (between.foldl (step throttle cfg) failures) := by
  induction between generalizing failures with
  | nil => exact locks
  | cons c rest ih =>
    rw [List.forall_mem_cons] at kept early late
    exact ih (lockedUntil_step locks kept.1 remembers.1 early.1 late.1) kept.2 remembers.2
      early.2 late.2

/-! ### Where a lock comes from -/

/-- The lock that a call leaves is its own, or there was one that it has not cleared. -/
theorem step_lockedUntil {entry : FailureTracker} {locked : Nat}
    (found : step throttle cfg failures call key = some entry)
    (until_ : entry.lockedUntil = some locked) :
    (throttle.key call.user = key ∧ Locks throttle cfg failures call ∧
      locked = call.now + cfg.lockoutDuration) ∨
    (¬Clears throttle key call ∧
      ∃ entry', failures key = some entry' ∧ entry'.lockedUntil = some locked) := by
  by_cases own : throttle.key call.user = key
  · subst own
    cases operation : call.operation with
    | isLockedOut =>
      refine .inr ⟨fun clears => ?_, entry, by simpa [step, operation] using found, until_⟩
      cases operation.symm.trans clears.1
    | clearFailures => simp [step, operation, clearFailures] at found
    | recordFailure =>
      rw [step_recordFailure operation, Option.some.injEq] at found
      subst found
      by_cases reached : Locks throttle cfg failures call
      · refine .inl ⟨rfl, reached, ?_⟩
        simp only [FailureTracker.record, if_pos reached.2, Option.some.injEq] at until_
        exact until_.symm
      · refine .inr ⟨fun clears => (by cases operation.symm.trans clears.1), ?_⟩
        have below := fun more => reached ⟨operation, more⟩
        simp only [FailureTracker.record, if_neg below] at until_
        cases before : failures (throttle.key call.user) with
        | none =>
          rw [before, Option.getD_none, FailureTracker.window_open (by simp)] at until_
          cases until_
        | some entry' =>
          rw [before, Option.getD_some] at until_
          by_cases expired : cfg.failureWindow < call.now - entry'.windowStart
          · rw [FailureTracker.window_expired expired] at until_
            cases until_
          · rw [FailureTracker.window_open expired] at until_
            exact ⟨entry', rfl, until_⟩
  · exact .inr ⟨fun clears => own clears.2, entry, (step_other own).symm.trans found, until_⟩

theorem run_append (first second : List Call) :
    run throttle cfg (first ++ second) = second.foldl (step throttle cfg) (run throttle cfg first) :=
  List.foldl_append

/-- The lock of a key is that of a call that locked it, and no later call has cleared it. -/
theorem run_lockedUntil (calls : List Call) {entry : FailureTracker} {locked : Nat}
    (found : run throttle cfg calls key = some entry)
    (until_ : entry.lockedUntil = some locked) :
    ∃ before call after, calls = before ++ call :: after ∧ throttle.key call.user = key ∧
      Locks throttle cfg (run throttle cfg before) call ∧
      locked = call.now + cfg.lockoutDuration ∧ ∀ c ∈ after, ¬Clears throttle key c := by
  induction calls using List.reverseRecOn generalizing entry locked with
  | nil => cases found
  | append_singleton calls last ih =>
    rw [run_append, List.foldl_cons, List.foldl_nil] at found
    obtain ⟨own, locks, ends⟩ | ⟨keeps, entry', before, same⟩ := step_lockedUntil found until_
    · exact ⟨calls, last, [], rfl, own, locks, ends, fun c member => absurd member (by simp)⟩
    · obtain ⟨before, call, after, split, own, locks, ends, kept⟩ := ih before same
      refine ⟨before, call, after ++ [last], by simp [split], own, locks, ends, ?_⟩
      intro c member
      obtain later | rfl := by simpa using member
      · exact kept c later
      · exact keeps

end

/-- A failure that forgets the lock ends it. -/
theorem Forgets.ends {throttle : Throttle} {cfg : Config} {failures : Failures} {call : Call}
    (forgets : Forgets throttle cfg failures call) :
    isLockedOut (throttle.key call.user) call.now (step throttle cfg failures call) = false := by
  obtain ⟨records, forgotten, bound⟩ := forgets
  have here : step throttle cfg failures call (throttle.key call.user) =
      some (((failures (throttle.key call.user)).getD ⟨call.now, 0, none⟩).record cfg call.now) :=
    step_recordFailure records
  cases found : failures (throttle.key call.user) with
  | none => simp [found] at forgotten
  | some entry =>
    have expired : cfg.failureWindow < call.now - entry.windowStart := by
      simp only [found, Option.any_some, Bool.and_eq_true, decide_eq_true_eq] at forgotten
      exact forgotten.2
    have below : ¬cfg.maxFailures ≤ 0 + 1 := UInt32.not_le.mpr bound
    rw [found, Option.getD_some] at here
    simp only [isLockedOut, here, Option.bind_some, FailureTracker.record,
      FailureTracker.window_expired expired, if_neg below]
    rfl

/-- Every lock holds its duration if and only if no failure is recorded in the time of a lock but
after the window of the failures that led to it. -/
theorem lockout_holds_iff (throttle : Throttle) (cfg : Config) (calls : List Call)
    (timed : calls.Pairwise fun first second => first.now ≤ second.now) :
    HoldsItsDuration throttle cfg calls ↔
      EachStep (step throttle cfg) (fun s c => ¬Forgets throttle cfg s c) (fun _ => none)
        calls := by
  constructor
  · intro holds
    rw [eachStep_iff]
    rintro before c after rfl forgets
    change Forgets throttle cfg (run throttle cfg before) c at forgets
    have lock := forgets.2.1
    simp only [Option.any_eq_true, Bool.and_eq_true, decide_eq_true_eq] at lock
    obtain ⟨entry, found, ⟨locked, until_, early⟩, -⟩ := lock
    obtain ⟨first, call, between, rfl, own, locks, ends, kept⟩ := run_lockedUntil before found until_
    rw [List.append_assoc, List.cons_append, List.pairwise_append, List.pairwise_cons,
      List.pairwise_append, List.pairwise_cons] at timed
    obtain ⟨-, ⟨fromCall, -, ⟨fromC, -⟩, toC⟩, -⟩ := timed
    have stays := holds first call (between ++ [c]) after (by simp) locks
      (fun d member => ?_) c.now (fun d member => ?_) fromC (ends ▸ early)
    · rw [← List.cons_append, ← List.append_assoc, run_append, List.foldl_cons, List.foldl_nil,
        own, forgets.ends] at stays
      cases stays
    · rw [own]
      obtain earlier | rfl := by simpa using member
      · exact kept d earlier
      · exact fun clears => by cases forgets.1.symm.trans clears.1
    · obtain rfl | earlier | rfl := by simpa using member
      · exact fromCall c (by simp)
      · exact toC d earlier c (by simp)
      · exact Nat.le_refl _
  · rintro remembers before call between after rfl locks kept now late - early
    rw [List.append_assoc, List.cons_append, eachStep_append] at remembers
    obtain ⟨-, -, remembers⟩ := remembers
    rw [eachStep_append] at remembers
    rw [List.append_assoc, List.pairwise_append, List.cons_append, List.pairwise_cons] at timed
    obtain ⟨-, ⟨fromCall, -⟩, -⟩ := timed
    rw [List.forall_mem_cons] at late
    rw [run_append, List.foldl_cons]
    refine (lockedUntil_run locks.lockedUntil kept remembers.1 (fun c member => ?_)
      fun c member => ?_).isLockedOut early
    · exact Nat.lt_of_le_of_lt (late.2 c member) early
    · exact Nat.add_le_add_right (fromCall c (List.mem_append_left _ member)) _

/-- Two failures lock for five seconds, and count in a window of one. -/
def twoFailures : Config := ⟨2, 1000000000, 5000000000⟩

def failedAt (now : Nat) : Call := ⟨now, "Ann".toList, .recordFailure⟩

theorem lockout_holds_twoFailures :
    HoldsItsDuration .loginLockout twoFailures
      [failedAt 0, failedAt 500000000, failedAt 900000000] :=
  (lockout_holds_iff .loginLockout twoFailures _ (by decide)).mpr (by
    simp only [EachStep]
    decide)

/-- An attempt that was under way when the key was locked fails two seconds later. -/
theorem lockout_forgotten :
    let calls := [failedAt 0, failedAt 0, failedAt 2000000000]
    ¬HoldsItsDuration .loginLockout twoFailures calls ∧
      ¬HoldsItsDuration .kcBasicAuthenticator twoFailures calls := by
  intro calls
  have both : ∀ throttle : Throttle, ¬HoldsItsDuration throttle twoFailures calls := by
    intro throttle holds
    have locked := holds [failedAt 0] (failedAt 0) [failedAt 2000000000] [] rfl
      (by cases throttle <;> exact ⟨rfl, by decide⟩)
      (by cases throttle <;> exact fun c member clears => by simp_all [Clears, failedAt])
      2000000000 (by decide) (by simp) (by decide)
    cases throttle <;> revert locked <;> decide
  exact ⟨both .loginLockout, both .kcBasicAuthenticator⟩

end Expresso.Auth
