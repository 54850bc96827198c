/-
  File:      AgentKernel/Storage/Projections.lean
  Subject:   What is rebuilt from the events after a restart (storage/store/src/projections.ts).

  * `fold`, the reducers and `projectSystem` are projections.ts;
  * **`projectSystem_eq`**: every counter of a projection counts the events of one type.
-/
import AgentKernel.Contracts.Events

namespace AgentKernel.Storage

/-! ## 1. Reducers -/

variable {S : Type}

/-- What one event does to a projection. -/
abbrev Reducer (S : Type) := S → LedgerEvent → S

/-- The projection of some events. -/
def fold (events : List LedgerEvent) (reducer : Reducer S) (initial : S) : S :=
  events.foldl reducer initial

/-- How many runs there have been, and how they have ended. -/
structure RunProjection where
  runs : Nat := 0
  completed : Nat := 0
  failed : Nat := 0
  blocked : Nat := 0
  deriving DecidableEq

/-- None. -/
def initialRunProjection : RunProjection := {}

/-- Runs are counted by their first and their last event. -/
def runProjectionReducer : Reducer RunProjection := fun s e =>
  match e.type with
  | "RunCreated" => { s with runs := s.runs + 1 }
  | "TaskCompleted" => { s with completed := s.completed + 1 }
  | "TaskFailed" => { s with failed := s.failed + 1 }
  | "ImmuneBlocked" => { s with blocked := s.blocked + 1 }
  | _ => s

/-- How many approvals there have been. -/
structure ApprovalProjection where
  required : Nat := 0
  granted : Nat := 0
  denied : Nat := 0
  deriving DecidableEq

/-- None. -/
def initialApprovalProjection : ApprovalProjection := {}

/-- Approvals are counted by their events. -/
def approvalProjectionReducer : Reducer ApprovalProjection := fun s e =>
  match e.type with
  | "ApprovalRequired" => { s with required := s.required + 1 }
  | "ApprovalGranted" => { s with granted := s.granted + 1 }
  | "ApprovalDenied" => { s with denied := s.denied + 1 }
  | _ => s

/-- How much has been used. -/
structure UsageProjection where
  runs : Nat := 0
  modelCalls : Nat := 0
  toolCalls : Nat := 0
  deriving DecidableEq

/-- Nothing. -/
def initialUsageProjection : UsageProjection := {}

/-- Usage is counted by what has been done, not by what has been metered. -/
def usageProjectionReducer : Reducer UsageProjection := fun s e =>
  match e.type with
  | "RunCreated" => { s with runs := s.runs + 1 }
  | "PlanGenerated" => { s with modelCalls := s.modelCalls + 1 }
  | "execution.completed" => { s with toolCalls := s.toolCalls + 1 }
  | _ => s

/-- The three projections together. -/
structure SystemProjection where
  runs : RunProjection := initialRunProjection
  approvals : ApprovalProjection := initialApprovalProjection
  usage : UsageProjection := initialUsageProjection
  deriving DecidableEq

/-- The projection of all events. -/
def projectSystem (events : List LedgerEvent) : SystemProjection where
  runs := fold events runProjectionReducer initialRunProjection
  approvals := fold events approvalProjectionReducer initialApprovalProjection
  usage := fold events usageProjectionReducer initialUsageProjection

/-! ## 2. Counters -/

/-- How many events have the type. -/
def typed (type : String) (events : List LedgerEvent) : Nat := events.countP (·.type = type)

variable {events : List LedgerEvent}

theorem typed_cons {type : String} {e : LedgerEvent} :
    typed type (e :: events) = typed type events + if e.type = type then 1 else 0 := by
  simp [typed, List.countP_cons]

theorem fold_runs (s : RunProjection) : fold events runProjectionReducer s =
    { runs := s.runs + typed "RunCreated" events
      completed := s.completed + typed "TaskCompleted" events
      failed := s.failed + typed "TaskFailed" events
      blocked := s.blocked + typed "ImmuneBlocked" events } := by
  induction events generalizing s with
  | nil => rfl
  | cons e events ih =>
      rw [fold, List.foldl_cons, ← fold, ih]
      simp only [typed_cons]
      unfold runProjectionReducer
      split <;> simp_all <;> omega

theorem fold_approvals (s : ApprovalProjection) : fold events approvalProjectionReducer s =
    { required := s.required + typed "ApprovalRequired" events
      granted := s.granted + typed "ApprovalGranted" events
      denied := s.denied + typed "ApprovalDenied" events } := by
  induction events generalizing s with
  | nil => rfl
  | cons e events ih =>
      rw [fold, List.foldl_cons, ← fold, ih]
      simp only [typed_cons]
      unfold approvalProjectionReducer
      split <;> simp_all <;> omega

theorem fold_usage (s : UsageProjection) : fold events usageProjectionReducer s =
    { runs := s.runs + typed "RunCreated" events
      modelCalls := s.modelCalls + typed "PlanGenerated" events
      toolCalls := s.toolCalls + typed "execution.completed" events } := by
  induction events generalizing s with
  | nil => rfl
  | cons e events ih =>
      rw [fold, List.foldl_cons, ← fold, ih]
      simp only [typed_cons]
      unfold usageProjectionReducer
      split <;> simp_all <;> omega

/-- **Each counter counts the events of its type.** -/
theorem projectSystem_eq : projectSystem events =
    { runs :=
        { runs := typed "RunCreated" events, completed := typed "TaskCompleted" events
          failed := typed "TaskFailed" events, blocked := typed "ImmuneBlocked" events }
      approvals :=
        { required := typed "ApprovalRequired" events, granted := typed "ApprovalGranted" events
          denied := typed "ApprovalDenied" events }
      usage :=
        { runs := typed "RunCreated" events, modelCalls := typed "PlanGenerated" events
          toolCalls := typed "execution.completed" events } } := by
  unfold projectSystem
  rw [fold_runs, fold_approvals, fold_usage]
  simp [initialRunProjection, initialApprovalProjection, initialUsageProjection]

end AgentKernel.Storage
