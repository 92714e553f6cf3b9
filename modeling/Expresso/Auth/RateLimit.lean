import Expresso.Interval.Sliding
import Mathlib.Logic.Function.Basic

/-! The limit on logins from one address: a sliding window over the calls let through. -/

namespace Expresso.Auth
open Interval

inductive IpAddr where
  | v4 (bits : BitVec 32)
  | v6 (bits : BitVec 128)
  deriving DecidableEq

/-- Instants and the window are in nanoseconds; an address without a bucket has an empty one. -/
structure RateLimiter where
  window : Nat
  max : Nat
  trustForwarded : Bool
  buckets : IpAddr → List Nat

def RateLimiter.withTrustProxy (window max : Nat) (trustForwarded : Bool) : RateLimiter :=
  ⟨window, max, trustForwarded, fun _ => []⟩

def RateLimiter.new (window max : Nat) : RateLimiter := .withTrustProxy window max false

/-- One call at an instant: the answer and the limiter after it. -/
def RateLimiter.check (l : RateLimiter) (ip : IpAddr) (now : Nat) : Bool × RateLimiter :=
  let q := (l.buckets ip).dropWhile fun t => l.window < now - t
  if l.max ≤ q.length then (false, { l with buckets := Function.update l.buckets ip q })
  else (true, { l with buckets := Function.update l.buckets ip (q ++ [now]) })

structure Request where
  ip : IpAddr
  now : Nat
  deriving DecidableEq

/-- The limiter after a sequence of calls. -/
def RateLimiter.after (l : RateLimiter) (requests : List Request) : RateLimiter :=
  requests.foldl (fun l r => (l.check r.ip r.now).2) l

/-- The calls of a sequence that are let through. -/
def RateLimiter.accepted : RateLimiter → List Request → List Request
  | _, [] => []
  | l, r :: rest =>
      (if (l.check r.ip r.now).1 then [r] else []) ++ (l.check r.ip r.now).2.accepted rest

/-! ### One address -/

/-- Longer ago than the window. -/
def outdated (window now t : Nat) : Bool := window < now - t

theorem outdated_aging (window : Nat) : Aging (outdated window) where
  later ordered aged := by simp only [outdated, decide_eq_true_eq] at *; omega
  earlier ordered aged := by simp only [outdated, decide_eq_true_eq] at *; omega
  present now := by simp [outdated]

def timesOf (ip : IpAddr) (requests : List Request) : List Nat :=
  (requests.filter (·.ip = ip)).map (·.now)

section
variable {l : RateLimiter} {ip : IpAddr}

theorem check_eq (r : Request) : l.check r.ip r.now =
    (admits (outdated l.window) l.max r.now (l.buckets r.ip),
      { l with buckets := Function.update l.buckets r.ip
                (enqueue (outdated l.window) l.max r.now (l.buckets r.ip)) }) := by
  unfold RateLimiter.check enqueue admits pruned outdated
  by_cases full : l.max ≤ ((l.buckets r.ip).dropWhile fun t => l.window < r.now - t).length
  · simp [full, not_lt.mpr full]
  · simp [full, not_le.mp full]

theorem check_other {r : Request} (other : r.ip ≠ ip) :
    (l.check r.ip r.now).2.buckets ip = l.buckets ip := by
  rw [check_eq]
  exact Function.update_of_ne other.symm _ _

theorem check_settings (r : Request) :
    (l.check r.ip r.now).2.window = l.window ∧ (l.check r.ip r.now).2.max = l.max := by
  rw [check_eq]
  exact ⟨rfl, rfl⟩

theorem timesOf_append (first later : List Request) :
    timesOf ip (first ++ later) = timesOf ip first ++ timesOf ip later := by
  rw [timesOf, List.filter_append, List.map_append]
  rfl

theorem timesOf_single (r : Request) : timesOf ip [r] = if r.ip = ip then [r.now] else [] := by
  unfold timesOf
  by_cases mine : r.ip = ip <;> simp [mine]

/-- An address has the queue, and the accepted calls, of its own calls. -/
theorem bucket_after (requests : List Request) :
    ((l.after requests).buckets ip =
      queueAfter (outdated l.window) l.max (l.buckets ip) (timesOf ip requests)) ∧
    timesOf ip (l.accepted requests) =
      admitted (outdated l.window) l.max (l.buckets ip) (timesOf ip requests) := by
  induction requests generalizing l with
  | nil => exact ⟨rfl, rfl⟩
  | cons r rest ih =>
    obtain ⟨window, max⟩ := @check_settings l r
    obtain ⟨bucket, times⟩ := @ih (l.check r.ip r.now).2
    rw [window, max] at bucket times
    have split : timesOf ip (r :: rest) =
        (if r.ip = ip then [r.now] else []) ++ timesOf ip rest := by
      rw [← List.singleton_append, timesOf_append, timesOf_single]
    rw [split, RateLimiter.accepted, timesOf_append, times]
    by_cases mine : r.ip = ip
    · subst mine
      have queue : (l.check r.ip r.now).2.buckets r.ip =
          enqueue (outdated l.window) l.max r.now (l.buckets r.ip) := by
        rw [check_eq]
        exact Function.update_self ..
      rw [queue] at bucket times
      rw [if_pos rfl, List.singleton_append, admitted, queue]
      refine ⟨bucket, ?_⟩
      congr 1
      rw [check_eq]
      split <;> simp [timesOf]
    · rw [check_other mine] at bucket times
      rw [if_neg mine, List.nil_append, check_other mine]
      refine ⟨bucket, ?_⟩
      have none : timesOf ip (if (l.check r.ip r.now).1 then [r] else []) = [] := by
        split <;> simp [timesOf, mine]
      rw [none, List.nil_append]

theorem length_filter_timesOf (within : Nat → Bool) (requests : List Request) :
    (requests.filter fun r => r.ip = ip ∧ within r.now = true).length =
      ((timesOf ip requests).filter within).length := by
  unfold timesOf
  rw [List.filter_map, List.length_map, List.filter_filter]
  congr 1
  refine List.filter_congr fun r _ => ?_
  simp [Bool.and_comm]

theorem timesOf_ordered {requests : List Request}
    (ordered : requests.Pairwise fun a b => a.now ≤ b.now) :
    (timesOf ip requests).Pairwise (· ≤ ·) :=
  List.pairwise_map.mpr (ordered.filter _)

theorem mem_timesOf {t : Nat} {requests : List Request} (member : t ∈ timesOf ip requests) :
    ∃ r ∈ requests, r.now = t := by
  obtain ⟨r, listed, same⟩ := List.mem_map.mp member
  exact ⟨r, (List.mem_filter.mp listed).1, same⟩

end

/-! ### The guarantee -/

/-- The answer to a call after a sequence of calls. -/
def RateLimiter.allows (l : RateLimiter) (before : List Request) (r : Request) : Bool :=
  ((l.after before).check r.ip r.now).1

section
variable {window max : Nat} {trustForwarded : Bool} {before : List Request} {r : Request}

theorem allows_eq : (RateLimiter.withTrustProxy window max trustForwarded).allows before r =
    admits (outdated window) max r.now
      (queueAfter (outdated window) max [] (timesOf r.ip before)) := by
  have settings : ∀ l : RateLimiter, (l.after before).window = l.window ∧
      (l.after before).max = l.max := by
    induction before with
    | nil => exact fun _ => ⟨rfl, rfl⟩
    | cons first rest ih =>
      intro l
      obtain ⟨window, max⟩ := @check_settings l first
      obtain ⟨window', max'⟩ := ih (l.check first.ip first.now).2
      exact ⟨window'.trans window, max'.trans max⟩
  rw [RateLimiter.allows, check_eq, (settings _).1, (settings _).2, (bucket_after before).1]
  rfl

theorem timesOf_kept (accepted : List Request) (ip : IpAddr) :
    timesOf ip (accepted.filter (·.ip = ip)) = timesOf ip accepted := by
  unfold timesOf
  rw [List.filter_filter]
  simp

/-- In any interval as long as the window no more calls of an address are let through than the
limit; one is turned away only when so many were in the window that ends with it; and the answer is
the same where the calls turned away, and those of other addresses, are left out. -/
theorem check_limits (window max : Nat) (trustForwarded : Bool) {requests : List Request}
    (ordered : requests.Pairwise fun a b => a.now ≤ b.now) :
    let l := RateLimiter.withTrustProxy window max trustForwarded
    (∀ ip start, ((l.accepted requests).filter fun r =>
        r.ip = ip ∧ start ≤ r.now ∧ r.now ≤ start + window).length ≤ max) ∧
      ∀ before r after, requests = before ++ r :: after →
        (l.allows before r = false → ((l.accepted before).filter fun a =>
          a.ip = r.ip ∧ a.now ≤ r.now ∧ r.now ≤ a.now + window).length = max) ∧
        l.allows before r = l.allows ((l.accepted before).filter (·.ip = r.ip)) r := by
  intro l
  have aging := outdated_aging window
  have limited : ∀ ip before (within : Nat → Bool), before.Pairwise (fun a b => a.now ≤ b.now) →
      (∀ t t', within t = true → within t' = true → t ≤ t' → outdated window t' t = false) →
      ((l.accepted before).filter fun r => r.ip = ip ∧ within r.now = true).length ≤ max := by
    intro ip before within ordered young
    rw [length_filter_timesOf within, (bucket_after before).2]
    exact length_admitted_le aging (timesOf_ordered ordered) young
  refine ⟨fun ip start => ?_, ?_⟩
  · have bound := limited ip requests (fun t => start ≤ t ∧ t ≤ start + window) ordered ?_
    · simpa using bound
    · intro t t' first second _
      simp only [decide_eq_true_eq, outdated, decide_eq_false_iff_not] at *
      omega
  · rintro before r after rfl
    obtain ⟨earlier, -, across⟩ := List.pairwise_append.mp ordered
    have past : ∀ t ∈ timesOf r.ip before, t ≤ r.now := by
      intro t member
      obtain ⟨a, listed, rfl⟩ := mem_timesOf member
      exact across a listed r List.mem_cons_self
    have queue : (timesOf r.ip before).Pairwise (· ≤ ·) := timesOf_ordered earlier
    constructor
    · intro refused
      rw [allows_eq, Bool.eq_false_iff, ne_eq, admits_queueAfter_iff aging queue past] at refused
      have bound := limited r.ip before (fun t => t ≤ r.now ∧ r.now ≤ t + window) earlier ?_
      · have same : ((l.accepted before).filter fun a =>
            a.ip = r.ip ∧ a.now ≤ r.now ∧ r.now ≤ a.now + window).length =
            ((admitted (outdated window) max [] (timesOf r.ip before)).filter
              fun t => !outdated window r.now t).length := by
          have counted := @length_filter_timesOf r.ip
            (fun t => t ≤ r.now ∧ r.now ≤ t + window) (l.accepted before)
          rw [(bucket_after before).2] at counted
          simp only [decide_eq_true_eq] at counted
          refine counted.trans (congrArg _ (List.filter_congr fun t member => ?_))
          have here := past t (admitted_subset _ member)
          rw [Bool.eq_iff_iff]
          simp only [outdated, decide_eq_true_eq, Bool.not_eq_true', decide_eq_false_iff_not]
          omega
        have within : ((l.accepted before).filter fun a =>
            a.ip = r.ip ∧ a.now ≤ r.now ∧ r.now ≤ a.now + window).length ≤ max := by
          simpa using bound
        rw [same] at within ⊢
        omega
      · intro t t' first second _
        simp only [decide_eq_true_eq, outdated, decide_eq_false_iff_not] at *
        omega
    · rw [allows_eq, allows_eq, timesOf_kept, (bucket_after before).2]
      exact (admits_admitted aging queue past).symm

end

/-- Two logins from one address, a whole window apart. -/
def twoLogins : List Request := [⟨.v4 1, 0⟩, ⟨.v4 1, 60⟩]

theorem check_limits_twoLogins :
    (RateLimiter.new 60 1).allows [⟨.v4 1, 0⟩] ⟨.v4 1, 60⟩ = false ∧
      (((RateLimiter.new 60 1).accepted [⟨.v4 1, 0⟩]).filter fun a =>
        a.ip = .v4 1 ∧ a.now ≤ 60 ∧ 60 ≤ a.now + 60).length = 1 := by
  have ordered : twoLogins.Pairwise fun a b => a.now ≤ b.now := by decide
  have refused : (RateLimiter.new 60 1).allows [⟨.v4 1, 0⟩] ⟨.v4 1, 60⟩ = false := by decide
  exact ⟨refused, ((check_limits 60 1 false ordered).2 [⟨.v4 1, 0⟩] ⟨.v4 1, 60⟩ [] rfl).1 refused⟩

end Expresso.Auth
