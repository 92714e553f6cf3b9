import Mathlib

/-! Requests to a shared state. A request makes its calls one after the other; the calls of
several requests come in any order, and each of them may fail. -/

namespace Expresso.Transition

/-- A call reads and writes the state in one step. If it fails, the state stays and the request
goes on in another way. -/
inductive Request (σ ρ : Type) where
  | done (result : ρ)
  | call (write : σ → σ) (next : σ → Request σ ρ) (failed : Request σ ρ)

variable {ι σ ρ : Type}

/-- A request by itself, none of its calls failing. -/
def Request.run : Request σ ρ → σ → σ × ρ
  | done result, s => (s, result)
  | call write next _, s => (next s).run (write s)

def Request.result : Request σ ρ → Option ρ
  | done result => some result
  | call _ _ _ => none

theorem Request.result_eq_some_iff {request : Request σ ρ} {result : ρ} :
    request.result = some result ↔ request = .done result := by
  cases request <;> simp [Request.result]

/-- The next call of a request, which goes through or fails. A request that is done makes no
call. -/
def Request.step (through : Bool) : Request σ ρ → σ → σ × Request σ ρ
  | done result, s => (s, done result)
  | call write next failed, s => if through then (write s, next s) else (s, failed)

/-- A state and the requests that are under way. -/
structure Pool (ι σ ρ : Type) where
  state : σ
  requests : ι → Request σ ρ

variable [DecidableEq ι]

/-- One request takes a turn. -/
def Pool.step (pool : Pool ι σ ρ) (turn : ι × Bool) : Pool ι σ ρ :=
  let after := (pool.requests turn.1).step turn.2 pool.state
  ⟨after.1, Function.update pool.requests turn.1 after.2⟩

namespace Pool

variable {pool : Pool ι σ ρ} {turn : ι × Bool}

theorem step_state :
    (pool.step turn).state = ((pool.requests turn.1).step turn.2 pool.state).1 := rfl

theorem step_own :
    (pool.step turn).requests turn.1 = ((pool.requests turn.1).step turn.2 pool.state).2 :=
  Function.update_self _ _ _

theorem step_other {i : ι} (other : i ≠ turn.1) :
    (pool.step turn).requests i = pool.requests i :=
  Function.update_of_ne other _ _

theorem step_done {result : ρ} (finished : pool.requests turn.1 = .done result) :
    pool.step turn = pool := by
  simp only [step, finished, Request.step]
  rw [← finished, Function.update_eq_self]

/-- A request that is done stays so. -/
theorem foldl_done {i : ι} {result : ρ} (turns : List (ι × Bool))
    (finished : pool.requests i = .done result) :
    (turns.foldl step pool).requests i = .done result := by
  induction turns generalizing pool with
  | nil => exact finished
  | cons turn rest ih =>
    apply ih
    by_cases own : i = turn.1
    · rw [step_done (own ▸ finished)]
      exact finished
    · rw [step_other own]
      exact finished

/-- A request that gets no turn stays as it is. -/
theorem foldl_waiting {i : ι} (turns : List (ι × Bool)) (waits : i ∉ turns.map (·.1)) :
    (turns.foldl step pool).requests i = pool.requests i := by
  induction turns generalizing pool with
  | nil => rfl
  | cons turn rest ih =>
    obtain ⟨other, later⟩ := not_or.mp (List.mem_cons.not.mp waits)
    rw [List.foldl_cons, ih later, step_other other]

/-! ### The order of the requests -/

/-- The two ends of a request. -/
inductive Mark where
  | began | ended
  deriving DecidableEq

/-- A turn that is written down: whether it is the first of its request, and whether the request
is done with it. -/
def record (run : Pool ι σ ρ × List (ι × Mark)) (turn : ι × Bool) :
    Pool ι σ ρ × List (ι × Mark) :=
  let after := run.1.step turn
  (after, run.2 ++
    (if (turn.1, .began) ∈ run.2 then [] else [(turn.1, .began)]) ++
    if (run.1.requests turn.1).result.isNone ∧ (after.requests turn.1).result.isSome then
      [(turn.1, .ended)]
    else [])

theorem foldl_record_fst (turns : List (ι × Bool)) (run : Pool ι σ ρ × List (ι × Mark)) :
    (turns.foldl record run).1 = turns.foldl step run.1 := by
  induction turns generalizing run with
  | nil => rfl
  | cons turn rest ih => exact ih (record run turn)

section
variable {history : List (ι × Mark)}

theorem record_done {result : ρ} (finished : pool.requests turn.1 = .done result)
    (known : (turn.1, .began) ∈ history) : record (pool, history) turn = (pool, history) := by
  have concluded : (pool.requests turn.1).result = some result := by rw [finished]; rfl
  simp [record, step_done finished, known, concluded]

theorem record_later {write : σ → σ} {next : σ → Request σ ρ} {failed : Request σ ρ}
    (calls : pool.requests turn.1 = .call write next failed)
    (known : (turn.1, .began) ∈ history) :
    record (pool, history) turn = (pool.step turn, history ++
      if ((pool.step turn).requests turn.1).result.isSome then [(turn.1, .ended)] else []) := by
  have going : (pool.requests turn.1).result = none := by rw [calls]; rfl
  simp [record, known, going]

theorem record_first {write : σ → σ} {next : σ → Request σ ρ} {failed : Request σ ρ}
    (calls : pool.requests turn.1 = .call write next failed)
    (new : (turn.1, .began) ∉ history) :
    record (pool, history) turn = (pool.step turn, history ++ [(turn.1, .began)] ++
      if ((pool.step turn).requests turn.1).result.isSome then [(turn.1, .ended)] else []) := by
  have going : (pool.requests turn.1).result = none := by rw [calls]; rfl
  simp [record, new, going]

end

end Pool

end Expresso.Transition
