/-
  File:      AgentKernel/Transition.lean
  Subject:   The kernel's table-driven state machine (kernel/transition/src/state-machine.ts).

  The table is the only source of legality: an event without an entry raises
  `IllegalTransitionError`, whose text names the event and the state.
-/
import Mathlib

namespace AgentKernel

/-- `StateMachine<S, E>`: the transition table. -/
structure StateMachine (S E : Type) where
  transitions : S → E → Option S

/-- `IllegalTransitionError`. -/
structure IllegalTransitionError (S E : Type) where
  source : S
  event : E

namespace StateMachine

variable {S E : Type} (m : StateMachine S E)

/-- The machine allows the event. -/
def canTransition (s : S) (e : E) : Bool := (m.transitions s e).isSome

/-- One transition, or the error that says which is not allowed. -/
def transition (s : S) (e : E) : Except (IllegalTransitionError S E) S :=
  match m.transitions s e with
  | some next => .ok next
  | none => .error ⟨s, e⟩

theorem transition_eq_ok {s s' : S} {e : E} :
    m.transition s e = .ok s' ↔ m.transitions s e = some s' := by
  unfold transition
  cases m.transitions s e <;> simp

theorem transition_eq_error {s : S} {e : E} {err : IllegalTransitionError S E} :
    m.transition s e = .error err ↔ m.canTransition s e = false ∧ err = ⟨s, e⟩ := by
  unfold transition canTransition
  cases m.transitions s e <;> simp [eq_comm]

end StateMachine

end AgentKernel
