/-
  File:      AgentKernel/Orchestrator/Executor.lean
  Subject:   The state helpers and the node life cycle of `DagExecutor`
             (runtime/orchestrator/src/executor.ts), one synchronous stretch of code at a time.

  JavaScript runs the code between two `await`s without interruption. Every definition here is
  such a stretch: it takes the executor's shared state (`Core`) and answers the new state and
  the place where the code awaits next (`FlightPc` inside `executeWithRetry`, `FailPc` inside
  `failNode`). Machine.lean lets the environment choose which waiting piece of code goes on.

  * An exception keeps the changes made before it, so a stretch that can throw returns
    `Except Thrown _` with the state in the error.
  * `trace` records what can be observed: ledger events, calls of the handler with their
    settlements, answers to approval requests, and every event the node state machine refused.
    A handler call is named by its position in the trace.
  * `World` holds what the injected hooks answer at this moment (`requiresApproval`,
    `failureGuard.assess`); Machine.lean lets it change between any two stretches.
  * `persist()`, `sleep` and the observer hook are awaits that resolve; a rejecting
    `onBeforeStart` is the answer `hookFailed`.
-/
import AgentKernel.Orchestrator.Bulkhead
import AgentKernel.Orchestrator.Events
import AgentKernel.Orchestrator.Idempotency

namespace AgentKernel.Orchestrator

/-! ## 1. Options, answers of the environment, observations -/

/-- The constructor options that stay fixed, and the digest of `node:crypto`. -/
structure Options where
  limits : BulkheadLimits
  compensations : CompensationRegistry
  sha256 : String → String

/-- Options together with the run they are used for. -/
structure Context extends Options where
  runId : String
  taskId : String
  graph : List WorkflowNode

/-- What a guard of the executor says of a node. -/
structure GuardVerdict where
  stop : Bool
  quarantine : Bool
  reason : Option String

/-- What the synchronous hooks of the handler and the failure guard answer now. -/
structure World where
  requiresApproval : String → Bool
  assess : NodeId → Nat → String → Option GuardVerdict

/-- How a call of `handler.run` settles. -/
inductive RunOutcome where
  | resolved (result : NodeResult)
  | rejected (message : String)

/-- What an await of the executor is answered with. -/
inductive Answer where
  | tick
  | hookFailed (message : String)
  | run (outcome : RunOutcome)
  | timeout
  | approval (granted : Bool)
  | approvalRejected (message : String)

/-- The four reasons the executor calls `handler.run` for. -/
inductive Purpose where
  | forward | compensation | upstream
  deriving DecidableEq

/-- What can be seen of a run from outside. -/
inductive Obs where
  | event (e : WorkflowEvent)
  | called (call : Nat) (node : NodeId) (purpose : Purpose) (action : String) (input : Option Json)
      (needsApproval : Bool)
  | settled (call : Nat) (node : NodeId) (purpose : Purpose) (outcome : RunOutcome)
  | approval (node : NodeId) (action : String) (granted : Bool)
  | illegal (node : NodeId) (status : NodeStatus) (event : NodeEvent)

/-! ## 2. The shared state -/

/-- What the executor keeps of a node. -/
structure InternalNode where
  status : NodeStatus := .planned
  attempt : Nat := 1
  failureCount : Nat := 0
  result : Option NodeResult := none
  error : Option String := none
  skippedReason : Option String := none

/-- Where `failNode` awaits. -/
inductive FailPc where
  /-- the persist after `WorkflowNodeCompensating` -/
  | compensating (spec : CompensationAction)
  /-- the node's own compensation call -/
  | undoing (spec : CompensationAction) (call : Nat)
  /-- the compensation call for the completed node `id`; `rest` is still to be visited -/
  | sweeping (id : NodeId) (spec : CompensationAction) (call : Nat) (rest : List NodeId)
  /-- the last persist -/
  | persisting

/-- Where `executeWithRetry` awaits. -/
inductive FlightPc where
  /-- the persist after `WorkflowNodeRunning`, and the observer hook -/
  | ran
  /-- the answer to an approval request -/
  | waiting (req : ApprovalRequest)
  /-- the persist after the recorded answer -/
  | answered (req : ApprovalRequest) (granted : Bool)
  /-- the forward call of the handler -/
  | calling (action : String) (input : Option Json) (call : Nat)
  /-- `runNodeAction` has returned -/
  | judged (result : NodeResult)
  /-- `runNodeAction` has thrown -/
  | threw (error : String)
  /-- the persist after `WorkflowNodeVerified` -/
  | verified (result : NodeResult)
  /-- the persist after `WorkflowNodeRetrying`, and the backoff -/
  | retrying
  /-- inside `failNode(node, error)`; `thrown` is thrown when it returns -/
  | failing (thrown error : String) (pc : FailPc)
  /-- the promise has rejected -/
  | rejected (error : String)

/-- One call of `executeWithRetry`: its node, its job (whose `attempt` it counts up), its await. -/
structure Flight where
  node : WorkflowNode
  job : WorkflowJob
  pc : FlightPc

/-- The state all workers share. -/
structure Core where
  nodes : NodeId → InternalNode
  results : NodeId → Option NodeResult
  completionOrder : List NodeId
  compensated : List NodeId
  store : IdempotencyStore Flight
  /-- calls whose attempt timed out and which have not settled -/
  late : List (Nat × NodeId)
  world : World
  trace : List Obs

/-- An exception, with the state it leaves behind. -/
structure Thrown where
  core : Core
  message : String

namespace Core

/-- The state of a node. -/
def status (s : Core) (id : NodeId) : NodeStatus := (s.nodes id).status

/-- What is kept of a node is replaced. -/
def setNode (s : Core) (id : NodeId) (n : InternalNode) : Core :=
  { s with nodes := fun x => if x = id then n else s.nodes x }

/-- Only the state is. -/
def setStatus (s : Core) (id : NodeId) (status : NodeStatus) : Core :=
  s.setNode id { s.nodes id with status := status }

/-- Only the number of the attempt is. -/
def setAttempt (s : Core) (id : NodeId) (attempt : Nat) : Core :=
  s.setNode id { s.nodes id with attempt := attempt }

/-- Only the error is. -/
def setError (s : Core) (id : NodeId) (error : String) : Core :=
  s.setNode id { s.nodes id with error := some error }

/-- Only the reason for passing it over is. -/
def setSkippedReason (s : Core) (id : NodeId) (reason : String) : Core :=
  s.setNode id { s.nodes id with skippedReason := some reason }

/-- One failure more. -/
def countFailure (s : Core) (id : NodeId) : Core :=
  s.setNode id { s.nodes id with failureCount := (s.nodes id).failureCount + 1 }

/-- Something is seen. -/
def observe (s : Core) (o : Obs) : Core := { s with trace := s.trace ++ [o] }

/-- An event is recorded. -/
def emit (s : Core) (e : WorkflowEvent) : Core := s.observe (.event e)

/-- How far an operation is under its key. -/
def setFlight (s : Core) (key : String) (f : Flight) : Core :=
  { s with store := s.store.setInFlight key f }

/-- `handler.run(action, input, node)`; the call is named by its position in the trace. -/
def invoke (s : Core) (id : NodeId) (purpose : Purpose) (action : String) (input : Option Json) :
    Core :=
  s.observe (.called s.trace.length id purpose action input (s.world.requiresApproval action))

/-- `transition(node, event)`. -/
def fire (s : Core) (id : NodeId) (e : NodeEvent) : Except Thrown Core :=
  match nodeStateMachine.transition (s.status id) e with
  | .ok next => .ok (s.setStatus id next)
  | .error err =>
      .error ⟨s.observe (.illegal id err.source err.event), illegalTransitionMessage err⟩

end Core

/-- `value ?? {}`. -/
def orEmpty : Option Json → Json
  | none | some .null => .obj []
  | some v => v

/-! ## 3. Keys, jobs, inputs -/

variable (c : Context)

/-- The id of a node's operation. -/
def operationId (n : WorkflowNode) : String := c.runId ++ ":" ++ n.id

/-- The key of a node's operation. -/
def keyOf (n : WorkflowNode) : String := idempotencyKey c.sha256 (operationId c n) (orEmpty n.input)

/-- The job of a node. -/
def toJob (s : Core) (n : WorkflowNode) : WorkflowJob where
  id := "job-" ++ c.runId ++ "-" ++ n.id
  nodeId := n.id
  runId := c.runId
  operationId := operationId c n
  idempotencyKey := keyOf c n
  attempt := (s.nodes n.id).attempt

/-- The input of a node; a reference is replaced by what it points at. -/
def resolveInput (results : NodeId → Option NodeResult) (n : WorkflowNode) :
    Except String (Option Json) :=
  match isInputRef n.input with
  | some ref =>
      match results ref.nodeId with
      | some r => .ok (getPath r.toJson ref.path)
      | none => .error ("cannot resolve $ref to '" ++ ref.nodeId ++ "' (no result)")
  | none => .ok (some (orEmpty n.input))

/-! ## 4. Readiness and skipping -/

/-- One round of the loop of `promoteReady`. -/
def promoteNode (s : Core) (n : WorkflowNode) : Core :=
  if s.status n.id = .planned ∧ n.deps.all fun d => s.status d = .completed then
    match s.fire n.id .prepare with
    | .ok s => s.emit (.nodeReady n.id)
    | .error t => t.core
  else s

/-- Every node whose dependencies are done becomes ready, in the order of the graph. -/
def promoteReady (s : Core) : Core := c.graph.foldl promoteNode s

/-- The body shared by `skipNode` and `cascadeSkip`: transition, reason, event. -/
def markSkipped (s : Core) (id : NodeId) (reason : String) : Except Thrown Core := do
  let s ← s.fire id .skip
  .ok ((s.setSkippedReason id reason).emit (.nodeSkipped id reason))

/-- `cascadeSkip(nodeId)`. Each nested call comes after one more node has become terminal, so the
    number of nodes is fuel enough (`cascadeSkip_closed`). -/
def cascadeSkip : Nat → Core → NodeId → Except Thrown Core
  | 0, s, _ => .ok s
  | fuel + 1, s, id =>
      c.graph.foldlM (fun s other =>
        if id ∈ other.deps ∧ ¬ (s.status other.id).isTerminal then do
          let s ← markSkipped s other.id ("dependency '" ++ id ++ "' skipped")
          cascadeSkip fuel s other.id
        else .ok s) s

/-- A node is passed over, and all that hangs on it. -/
def skipNode (s : Core) (id : NodeId) (reason : String) : Except Thrown Core :=
  if (nodeById c.graph id).isNone ∨ (s.status id).isTerminal then .ok s
  else do
    let s ← markSkipped s id reason
    cascadeSkip c c.graph.length s id

/-! ## 5. Conditions -/

/-- The two ways a conditional node can go. -/
inductive Branch where
  | thenBranch | elseBranch
  deriving DecidableEq

/-- The branch, as events spell it. -/
def Branch.text : Branch → String
  | .thenBranch => "then"
  | .elseBranch => "else"

/-- A template literal writes an absent text as `undefined`. -/
def shown (v : Option Json) : String := ((v.map stableStringify).getD "undefined")

/-- Which way the condition goes, and why. -/
def matchCondition (cond : ConditionSpec) (source : NodeResult) : Branch × String :=
  match cond.condition with
  | .verdict _ expected =>
      (if source.status = expected then .thenBranch else .elseBranch,
        "verdict is " ++ source.status.text ++ " (expected " ++ expected.text ++ ")")
  | .path _ path equals =>
      let actual := getPath source.toJson path
      (if actual.map stableStringify = equals.map stableStringify then .thenBranch else .elseBranch,
        "'" ++ path ++ "' === " ++ shown equals ++ " (got " ++ shown actual ++ ")")

/-- The nodes of the branch that was not chosen. -/
def unchosen (cond : ConditionSpec) : Branch → List NodeId
  | .thenBranch => cond.elseNodes.getD []
  | .elseBranch => cond.thenNodes

/-- The documented result of a conditional node. -/
def conditionResult (n : WorkflowNode) (cond : ConditionSpec) (source : NodeResult) : NodeResult where
  status := .success
  output := .obj [("branch", .str (matchCondition cond source).1.text),
    ("verdict", .str source.status.text), ("detail", .str (matchCondition cond source).2)]
  evidence := source.evidence ++ [⟨"condition:" ++ n.id, "verification"⟩]

/-- Why a node of the other branch is passed over. -/
def skipReason (n : WorkflowNode) (chosen : Branch) : String :=
  "conditional '" ++ n.id ++ "' chose the '" ++ chosen.text ++ "' branch"

/-- The end of `runConditional`: skip the nodes of the other branch, return the verdict. -/
def conclude (s : Core) (n : WorkflowNode) (cond : ConditionSpec) (source : NodeResult) :
    Core × FlightPc :=
  let chosen := (matchCondition cond source).1
  match (unchosen cond chosen).foldlM (fun s id => skipNode c s id (skipReason n chosen)) s with
  | .ok s => (s, .judged (conditionResult n cond source))
  | .error t => (t.core, .threw t.message)

/-! ## 6. Completion and failure -/

/-- A node is completed with its result. -/
def completeNode (s : Core) (n : WorkflowNode) (result : NodeResult) : Except Thrown Core := do
  let s ← if s.status n.id = .running then s.fire n.id .verify else .ok s
  let s ← s.fire n.id .complete
  let s := s.setNode n.id { s.nodes n.id with result := some result }
  let s := { s with
    results := fun x => if x = n.id then some result else s.results x
    completionOrder := s.completionOrder ++ [n.id] }
  .ok (promoteReady c (s.emit (.nodeCompleted n.id result (operationId c n) (keyOf c n))))

/-- The transitions `failNode` begins with: FAIL, after START for a node that was never started. -/
def failTransition (s : Core) (n : WorkflowNode) : Except Thrown Core :=
  match s.status n.id with
  | .running | .verifying | .waiting => s.fire n.id .fail
  | .ready => do
      let s ← s.fire n.id .start
      s.fire n.id .fail
  | _ => .ok s

/-- `failNode` up to its first await. -/
def failNode (s : Core) (n : WorkflowNode) (error : String) (quarantine : Bool) :
    Except Thrown (Core × FailPc) := do
  let s ← failTransition s n
  let s := s.setError n.id error
  if quarantine then
    let s ← s.fire n.id .quarantine
    .ok (s.emit (.nodeQuarantined n.id error), .persisting)
  else
    match c.compensations.actionFor n with
    | some spec =>
        let s ← s.fire n.id .compensate
        .ok (s.emit (.nodeCompensating n.id spec.action), .compensating spec)
    | none =>
        .ok (s.emit (.nodeFailed n.id error (c.compensations.isIrreversible n)), .persisting)

/-- The loop of `compensateUpstream` up to its next call: the first remaining id that is not the
    failed node, is completed and has a compensation action. -/
def sweepNext (s : Core) (failed : NodeId) : List NodeId → Core × FailPc
  | [] => (s, .persisting)
  | id :: rest =>
      match (if id = failed ∨ s.status id ≠ .completed then none
        else (nodeById c.graph id).bind c.compensations.actionFor) with
      | some spec =>
          (s.invoke id .upstream spec.action (some (orEmpty spec.input)),
            .sweeping id spec s.trace.length rest)
      | none => sweepNext s failed rest

/-- What a stretch of `failNode` ends in. -/
inductive FailStep where
  | more (core : Core) (pc : FailPc)
  | done (core : Core)
  | threw (t : Thrown)

/-- `failNode(node, error)` from one await to the next; `none` when the answer does not fit. -/
def failStep (s : Core) (n : WorkflowNode) (error : String) : FailPc → Answer → Option FailStep
  | .compensating spec, .tick =>
      some (.more (s.invoke n.id .compensation spec.action (some (orEmpty spec.input)))
        (.undoing spec s.trace.length))
  | .undoing _ call, .run outcome =>
      -- a failed compensation is swallowed: the node is rolled back either way
      match (s.observe (.settled call n.id .compensation outcome)).fire n.id .rollback with
      | .error t => some (.threw t)
      | .ok s =>
          let s := s.emit (.nodeRolledBack n.id error)
          let next := sweepNext c s n.id s.completionOrder.reverse
          some (.more next.1 next.2)
  | .sweeping id spec call rest, .run outcome =>
      let s := s.observe (.settled call id .upstream outcome)
      let s := { s with compensated := s.compensated ++ [id] }
      let next := sweepNext c (s.emit (.nodeCompensated id spec.action)) n.id rest
      some (.more next.1 next.2)
  | .persisting, .tick => some (.done s)
  | _, _ => none

/-! ## 7. The attempts of a node -/

/-- The top of the retry loop: transition, `WorkflowNodeRunning`. -/
def beginAttempt (s : Core) (n : WorkflowNode) (job : WorkflowJob) : Core × FlightPc :=
  let s := s.setAttempt n.id job.attempt
  match s.fire n.id (if s.status n.id = .retrying then .resume else .start) with
  | .error t => (t.core, .rejected t.message)
  | .ok s => (s.emit (.nodeRunning n.id job.id job.attempt job.operationId), .ran)

/-- `resolveInput`, then the forward call. -/
def callForward (s : Core) (n : WorkflowNode) (action : String) : Core × FlightPc :=
  match resolveInput s.results n with
  | .error e => (s, .threw e)
  | .ok input => (s.invoke n.id .forward action input, .calling action input s.trace.length)

/-- What is asked before an action that needs approval. -/
def approvalRequest (n : WorkflowNode) (action : String) : ApprovalRequest where
  action := action
  reason := (n.approval.map (·.reason)).getD ("approval required for '" ++ action ++ "'")
  nodeId := n.id

/-- `requestApproval` up to the question. -/
def requestApproval (s : Core) (n : WorkflowNode) (action : String) : Core × FlightPc :=
  match s.fire n.id .wait with
  | .error t => (t.core, .threw t.message)
  | .ok s =>
      (s.emit (.approvalRequired (approvalRequest n action)), .waiting (approvalRequest n action))

/-- `requestApproval` from the answer on. -/
def recordApproval (s : Core) (n : WorkflowNode) (req : ApprovalRequest) (granted : Bool) :
    Core × FlightPc :=
  let s := s.observe (.approval n.id req.action granted)
  match s.fire n.id (if granted then .approve else .deny) with
  | .error t => (t.core, .threw t.message)
  | .ok s =>
      (s.emit (if granted then .approvalGranted req else .approvalDenied req),
        .answered req granted)

/-- The capability an APPROVAL node asks for. -/
def approvalAction (n : WorkflowNode) : String :=
  ((n.approval.map (·.action)).or n.action).getD "approval"

/-- The documented result of an APPROVAL node. -/
def approvalResult (n : WorkflowNode) (action : String) : NodeResult where
  status := .success
  output := .obj [("approved", .bool true), ("action", .str action)]
  evidence := [⟨"approval:" ++ n.id, "approval"⟩]

/-- The error of a denied request, by the kind of the node that asked. -/
def denialError (n : WorkflowNode) (action : String) : String :=
  match n.kind with
  | .approval => "approval '" ++ action ++ "' denied"
  | _ => "'" ++ action ++ "' requires approval and was denied"

/-- The text of a result with status 'failure'. -/
def failureError (r : NodeResult) : String :=
  match getPath r.output "error" with
  | some (.str reason) => reason
  | _ => "node failed"

/-- `runNodeAction` up to its first await. -/
def runNodeAction (s : Core) (n : WorkflowNode) : Core × FlightPc :=
  match n.kind with
  | .conditional =>
      match n.condition with
      | none => (s, .threw ("conditional node '" ++ n.id ++ "' has no condition"))
      | some cond =>
          match truthy n.action with
          | some action => callForward s n action
          | none =>
              match s.results cond.condition.nodeId with
              | some source => conclude c s n cond source
              | none =>
                  (s, .threw ("condition references missing result of '"
                    ++ cond.condition.nodeId ++ "'"))
  | .approval => requestApproval s n (approvalAction n)
  | .action =>
      if s.world.requiresApproval (n.action.getD "") then
        requestApproval s n (n.action.getD "")
      else callForward s n (n.action.getD "")

/-- `runNodeAction` after an approval request. -/
def afterApproval (s : Core) (n : WorkflowNode) (action : String) (granted : Bool) :
    Core × FlightPc :=
  if granted then
    match n.kind with
    | .approval => (s, .judged (approvalResult n action))
    | _ => callForward s n action
  else (s, .threw (denialError n action))

/-- `runNodeAction` after the forward call. -/
def afterRun (s : Core) (n : WorkflowNode) : RunOutcome → Core × FlightPc
  | .rejected e => (s, .threw e)
  | .resolved r =>
      match n.kind, n.condition with
      | .conditional, some cond => conclude c s n cond r
      | _, _ =>
          match r.status with
          | .failure => (s, .threw (failureError r))
          | .success => (s, .judged r)

/-- The node's own policy, or one attempt. -/
def retryPolicy (n : WorkflowNode) : RetryPolicy := n.retry.getD defaultRetry

/-- `attempt < policy.maxAttempts && isRetryable(policy, error)`. -/
def retryable (n : WorkflowNode) (attempt : Nat) (error : String) : Bool :=
  decide (attempt < (retryPolicy n).maxAttempts) && isRetryable (retryPolicy n) error

/-- The `catch` of an attempt decides to try again. -/
def willRetry (s : Core) (n : WorkflowNode) (attempt : Nat) (error : String) : Bool :=
  retryable n attempt error &&
    !(((s.world.assess n.id ((s.nodes n.id).failureCount + 1) error).map (·.stop)).getD false)

/-- The `catch` of an attempt. -/
def catchAttempt (s : Core) (n : WorkflowNode) (attempt : Nat) (error : String) :
    Core × FlightPc :=
  let again := willRetry s n attempt error
  let s := s.countFailure n.id
  let guard := s.world.assess n.id (s.nodes n.id).failureCount error
  if again then
    match (do let s ← s.fire n.id .fail; s.fire n.id .retry : Except Thrown Core) with
    | .error t => (t.core, .rejected t.message)
    | .ok s => (s.emit (.nodeRetrying n.id attempt (attempt + 1) error), .retrying)
  else
    let stop := (guard.map (·.stop)).getD false
    let reported := if stop then (guard.bind (·.reason)).getD error else error
    match failNode c s n reported ((guard.map (·.quarantine)).getD false) with
    | .error t => (t.core, .rejected t.message)
    | .ok (s, pc) => (s, .failing error reported pc)

/-- The end of the try block: VERIFY, `WorkflowNodeVerified`. -/
def verifyNode (s : Core) (n : WorkflowNode) (result : NodeResult) : Core × FlightPc :=
  match s.fire n.id .verify with
  | .error t => (t.core, .threw t.message)
  | .ok s => (s.emit (.nodeVerified n.id result.status result.evidence), .verified result)

/-- `executeWithRetry` from one await to the next, except for its return. -/
def flightNext (s : Core) (f : Flight) : FlightPc → Answer → Option (Core × FlightPc)
  | .ran, .tick => some (runNodeAction c s f.node)
  | .ran, .hookFailed e => some (s, .threw e)
  | .waiting req, .approval granted => some (recordApproval s f.node req granted)
  | .waiting _, .approvalRejected e => some (s, .threw e)
  | .answered req granted, .tick => some (afterApproval s f.node req.action granted)
  | .calling _ _ call, .run outcome =>
      some (afterRun c (s.observe (.settled call f.node.id .forward outcome)) f.node outcome)
  | .calling _ _ call, .timeout =>
      -- the promise is abandoned, the call itself goes on
      match f.node.timeoutMs with
      | some (ms + 1) =>
          some ({ s with late := s.late ++ [(call, f.node.id)] },
            .threw ("timeout after " ++ toString (ms + 1) ++ "ms"))
      | _ => none
  | .judged result, .tick => some (verifyNode s f.node result)
  | .threw e, .tick => some (catchAttempt c s f.node f.job.attempt e)
  | .retrying, .tick =>
      some (beginAttempt s f.node { f.job with attempt := f.job.attempt + 1 })
  | .failing thrown error pc, a =>
      match failStep c s f.node error pc a with
      | some (.more s pc) => some (s, .failing thrown error pc)
      | some (.done s) => some (s, .rejected thrown)
      | some (.threw t) => some (t.core, .rejected t.message)
      | none => none
  | _, _ => none

/-- The job of a flight counts its attempts: a resumed attempt has the next number. -/
def nextJob (f : Flight) : WorkflowJob :=
  match f.pc with
  | .retrying => { f.job with attempt := f.job.attempt + 1 }
  | _ => f.job

/-- One stretch of the execution in flight under `key`. Its return stores the result. -/
def flightStep (s : Core) (key : String) (a : Answer) : Option Core :=
  match s.store.inFlight key with
  | none => none
  | some f =>
      match f.pc, a with
      | .verified r, .tick => some { s with store := s.store.settle key r }
      | pc, a =>
          (flightNext c s f pc a).map fun next =>
            next.1.setFlight key { f with job := nextJob f, pc := next.2 }

/-- A call that outlived its attempt settles; nobody reads the result. -/
def lateStep (s : Core) (call : Nat) (outcome : RunOutcome) : Option Core :=
  match s.late.find? fun p => p.1 == call with
  | none => none
  | some (_, id) =>
      some ({ s with late := s.late.filter fun p => p.1 ≠ call }.observe
        (.settled call id .forward outcome))

end AgentKernel.Orchestrator
