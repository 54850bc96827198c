/-
  File:      AgentKernel/Orchestrator/Types.lean
  Subject:   The workflow contract: nodes, results, jobs, policies, and the node state machine
             (types.ts, node-machine.ts, retry.ts, compensation.ts of runtime/orchestrator).

  Left out because nothing the executor decides reads it: actors, clocks and the length of a
  backoff delay.
-/
import AgentKernel.Contracts.Json
import AgentKernel.Transition

namespace AgentKernel.Orchestrator

/-- The id of a node. -/
abbrev NodeId := String

/-! ## 1. The node state machine -/

/-- How far a node is. -/
inductive NodeStatus where
  | planned | ready | running | waiting | verifying | completed | failed | retrying
  | compensating | rolledBack | quarantined | cancelled | skipped
  deriving DecidableEq

/-- What can happen to a node. -/
inductive NodeEvent where
  | prepare | start | wait | approve | deny | verify | complete | fail | retry | resume
  | compensate | rollback | quarantine | cancel | skip
  deriving DecidableEq

/-- The status as the source writes it; the text reaches error messages. -/
def NodeStatus.text : NodeStatus → String
  | .planned => "PLANNED"
  | .ready => "READY"
  | .running => "RUNNING"
  | .waiting => "WAITING"
  | .verifying => "VERIFYING"
  | .completed => "COMPLETED"
  | .failed => "FAILED"
  | .retrying => "RETRYING"
  | .compensating => "COMPENSATING"
  | .rolledBack => "ROLLED_BACK"
  | .quarantined => "QUARANTINED"
  | .cancelled => "CANCELLED"
  | .skipped => "SKIPPED"

/-- The event, as errors spell it. -/
def NodeEvent.text : NodeEvent → String
  | .prepare => "PREPARE"
  | .start => "START"
  | .wait => "WAIT"
  | .approve => "APPROVE"
  | .deny => "DENY"
  | .verify => "VERIFY"
  | .complete => "COMPLETE"
  | .fail => "FAIL"
  | .retry => "RETRY"
  | .resume => "RESUME"
  | .compensate => "COMPENSATE"
  | .rollback => "ROLLBACK"
  | .quarantine => "QUARANTINE"
  | .cancel => "CANCEL"
  | .skip => "SKIP"

/-- `nodeStateMachine`: the table of legal transitions. -/
def nodeStateMachine : StateMachine NodeStatus NodeEvent where
  transitions
    | .planned, .prepare => some .ready
    | .planned, .cancel => some .cancelled
    | .planned, .skip => some .skipped
    | .ready, .start => some .running
    | .ready, .cancel => some .cancelled
    | .running, .wait => some .waiting
    | .running, .verify => some .verifying
    | .running, .fail => some .failed
    | .running, .cancel => some .cancelled
    | .waiting, .approve => some .running
    | .waiting, .deny => some .failed
    | .waiting, .cancel => some .cancelled
    | .verifying, .complete => some .completed
    | .verifying, .fail => some .failed
    | .failed, .retry => some .retrying
    | .failed, .compensate => some .compensating
    | .failed, .quarantine => some .quarantined
    | .failed, .cancel => some .cancelled
    | .retrying, .resume => some .running
    | .compensating, .rollback => some .rolledBack
    | _, _ => none

/-- `IllegalTransitionError.message`. -/
def illegalTransitionMessage (e : IllegalTransitionError NodeStatus NodeEvent) : String :=
  "Illegal state transition: event '" ++ e.event.text ++ "' is not allowed from state '"
    ++ e.source.text ++ "'"

/-- `isTerminal`: membership in TERMINAL_STATUSES. -/
def NodeStatus.isTerminal : NodeStatus → Bool
  | .completed | .failed | .rolledBack | .quarantined | .cancelled | .skipped => true
  | _ => false

/-! ## 2. Nodes and results -/

/-- How an action has ended. -/
inductive ResultStatus where
  | success | failure
  deriving DecidableEq

/-- The status, as conditions spell it. -/
def ResultStatus.text : ResultStatus → String
  | .success => "success"
  | .failure => "failure"

/-- A piece of evidence. -/
structure EvidenceRef where
  evidenceId : String
  kind : String
  deriving DecidableEq

/-- A documented node result. -/
structure NodeResult where
  status : ResultStatus
  output : Json
  evidence : List EvidenceRef

/-- A result read as the object it is, for paths into it. -/
def NodeResult.toJson (r : NodeResult) : Json :=
  .obj [("status", .str r.status.text), ("output", r.output),
    ("evidence", .arr (r.evidence.map fun e =>
      .obj [("evidenceId", .str e.evidenceId), ("kind", .str e.kind)]))]

/-- What a node does. -/
inductive NodeKind where
  | action | conditional | approval
  deriving DecidableEq

/-- How often a node is tried, and after which errors. -/
structure RetryPolicy where
  maxAttempts : Nat
  retryableErrors : List String
  deriving DecidableEq

/-- One attempt. -/
def defaultRetry : RetryPolicy := { maxAttempts := 1, retryableErrors := [] }

/-- What undoes a node, if anything does. -/
inductive CompensationSpec where
  | action (action : String) (input : Option Json)
  | irreversible

/-- The `when` of a condition: a verdict of a node, or a value at a path of its result. -/
inductive ConditionWhen where
  | verdict (nodeId : NodeId) (expected : ResultStatus)
  | path (nodeId : NodeId) (path : String) (equals : Option Json)

/-- The node a condition looks at. -/
def ConditionWhen.nodeId : ConditionWhen → NodeId
  | .verdict nodeId _ => nodeId
  | .path nodeId _ _ => nodeId

/-- A condition, and the nodes that hang on it. -/
structure ConditionSpec where
  condition : ConditionWhen
  thenNodes : List NodeId
  elseNodes : Option (List NodeId)

/-- What an approval is asked for. -/
structure ApprovalSpec where
  action : String
  reason : String
  deriving DecidableEq

/-- A node of a graph. -/
structure WorkflowNode where
  id : NodeId
  kind : NodeKind
  action : Option String := none
  input : Option Json := none
  deps : List NodeId
  agentId : Option String := none
  tenantId : Option String := none
  toolId : Option String := none
  retry : Option RetryPolicy := none
  timeoutMs : Option Nat := none
  compensation : Option CompensationSpec := none
  condition : Option ConditionSpec := none
  approval : Option ApprovalSpec := none

/-- A string that JavaScript takes as true: present and not empty. -/
def truthy (s : Option String) : Option String := s.filter (· ≠ "")

/-- `WorkflowJob`. -/
structure WorkflowJob where
  id : String
  nodeId : NodeId
  runId : String
  operationId : String
  idempotencyKey : String
  attempt : Nat
  deriving DecidableEq

/-! ## 3. Retry policy -/

/-- `error.includes(r)`. -/
def includesText (error r : String) : Bool := decide (r.toList <:+: error.toList)

/-- An entry matches if the error has it as a part. -/
def isRetryable (policy : RetryPolicy) (error : String) : Bool :=
  policy.retryableErrors.contains "*" ||
    policy.retryableErrors.any fun r => includesText error r || error == r

/-! ## 4. Compensation -/

/-- `CompensationRegistry`: compensations by action. -/
structure CompensationRegistry where
  byAction : String → Option CompensationSpec

/-- Nothing undoes anything. -/
def CompensationRegistry.empty : CompensationRegistry := ⟨fun _ => none⟩

/-- What undoes an action; the last registration counts. -/
def CompensationRegistry.register (r : CompensationRegistry) (action : String)
    (compensation : CompensationSpec) : CompensationRegistry :=
  ⟨fun a => if a = action then some compensation else r.byAction a⟩

/-- The node's own compensation, or that of its action. -/
def CompensationRegistry.compensationFor (r : CompensationRegistry) (node : WorkflowNode) :
    Option CompensationSpec :=
  match node.compensation with
  | some spec => some spec
  | none => (truthy node.action).bind r.byAction

/-- A compensation that is an action: what `'action' in spec` selects. -/
structure CompensationAction where
  action : String
  input : Option Json

/-- The action that undoes a node, if one does. -/
def CompensationRegistry.actionFor (r : CompensationRegistry) (node : WorkflowNode) :
    Option CompensationAction :=
  match r.compensationFor node with
  | some (.action action input) => some ⟨action, input⟩
  | _ => none

/-- `spec !== undefined && 'irreversible' in spec && spec.irreversible`. -/
def CompensationRegistry.isIrreversible (r : CompensationRegistry) (node : WorkflowNode) : Bool :=
  match r.compensationFor node with
  | some .irreversible => true
  | _ => false

end AgentKernel.Orchestrator
