/-
  File:      AgentKernel/Orchestrator/Idempotency.lean
  Subject:   The in-memory idempotency store (runtime/orchestrator/src/idempotency.ts).

  `run(key, fn)` answers from a stored result, else joins the execution already under way for the
  key, else starts `fn`. The type `φ` stands for what is known of a started execution (its
  promise). A resolved execution is stored and leaves `inFlight`; a rejected one is left where it
  is, so later callers of the key join the rejection.
-/
import AgentKernel.Orchestrator.Types

namespace AgentKernel.Orchestrator

/-- The results by key, and what is under way by key. -/
structure IdempotencyStore (φ : Type) where
  completed : String → Option NodeResult
  inFlight : String → Option φ

/-- How `run` treats a caller. -/
inductive RunAnswer (φ : Type) where
  | done (result : NodeResult)
  | joined (promise : φ)
  | fresh

namespace IdempotencyStore

variable {φ : Type}

/-- Nothing has been asked for. -/
def empty : IdempotencyStore φ := ⟨fun _ => none, fun _ => none⟩

/-- The key has a result. -/
def has (st : IdempotencyStore φ) (key : String) : Bool := (st.completed key).isSome

/-- The result of a key. -/
def get (st : IdempotencyStore φ) (key : String) : Option NodeResult := st.completed key

/-- The choice `run` makes for a key. -/
def run (st : IdempotencyStore φ) (key : String) : RunAnswer φ :=
  match st.completed key with
  | some r => .done r
  | none =>
      match st.inFlight key with
      | some p => .joined p
      | none => .fresh

/-- `inFlight.set(key, promise)`. -/
def setInFlight (st : IdempotencyStore φ) (key : String) (p : φ) : IdempotencyStore φ :=
  { st with inFlight := fun k => if k = key then some p else st.inFlight k }

/-- A result from an earlier life. -/
def seedCompleted (st : IdempotencyStore φ) (key : String) (r : NodeResult) : IdempotencyStore φ :=
  { st with completed := fun k => if k = key then some r else st.completed k }

/-- The `then` of a started execution: store the result, drop the promise. -/
def settle (st : IdempotencyStore φ) (key : String) (r : NodeResult) : IdempotencyStore φ where
  completed := fun k => if k = key then some r else st.completed k
  inFlight := fun k => if k = key then none else st.inFlight k

theorem run_eq_fresh {st : IdempotencyStore φ} {key : String} :
    st.run key = .fresh ↔ st.completed key = none ∧ st.inFlight key = none := by
  unfold run
  cases st.completed key <;> cases st.inFlight key <;> simp

theorem run_eq_done {st : IdempotencyStore φ} {key : String} {r : NodeResult} :
    st.run key = .done r ↔ st.completed key = some r := by
  unfold run
  cases st.completed key <;> cases st.inFlight key <;> simp

end IdempotencyStore

end AgentKernel.Orchestrator
