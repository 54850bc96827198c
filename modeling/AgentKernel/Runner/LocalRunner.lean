/-
  File:      AgentKernel/Runner/LocalRunner.lean
  Subject:   The local runner and its concurrent runs (apps/cli/src/local-runner.ts,
             kernel/execution/src/execute.ts and registry.ts, plugins/models/src/provider.ts).

  A run goes on by itself from one `await` to the next. What it awaits, and with which of its steps
  and results, is its program point (`Awaiting`); between two points nothing of another run can
  happen, at a point anything can. The answers of the outside (an approval, what an executor says,
  returns or throws, the checks of `onVerify`) come with the move that ends the wait.

  What is read of the clock and of the random generator goes into an event each time, so that it is
  a function of the number of events before it. The ledger is the one in memory, whose `flush` does
  nothing; the move that ends its wait may still fail.
-/
import AgentKernel.Economics
import AgentKernel.Policy
import AgentKernel.Verification
import AgentKernel.Immune.Runtime

namespace AgentKernel.Runner

open Events Immune

variable {sha256 : String → String}

/-! ## 1. Options -/

/-- Where a runner runs. -/
inductive RunMode where
  | local | cloud
  deriving DecidableEq

/-- The mode, as outcomes spell it. -/
def RunMode.text : RunMode → String
  | .local => "local"
  | .cloud => "cloud"

/-- What a runner is made with; the ledger it may be given stands beside it (`System.createOn`). -/
structure RunnerOptions where
  mode : RunMode
  budget : BudgetPolicy := freeBudget
  grants : List Grant := []
  approvalPolicy : ApprovalPolicy := defaultApprovalPolicy
  /-- Whether there is an `onApprovalRequired`. -/
  asksForApproval : Bool := false
  /-- The guard of names: why a name is rejected. -/
  capabilityGuard : Option (String → Option String) := none

/-- The input of a step: a value, or computed from the results so far. The function is handed the
    array itself: what it does to it is a deed of its own (`Deed.touch`). -/
inductive StepInput where
  | value (v : Value)
  | compute (f : List Result → Except String Value)

/-- One step of a run. -/
structure RunStep where
  action : String
  input : Option StepInput := none

/-- How far the one who runs is trusted. -/
inductive ActorTrust where
  | unknown | suspicious | verified | trusted
  deriving DecidableEq

/-- The same for the immune gate. -/
def ActorTrust.state : ActorTrust → TrustState
  | .unknown => .unknown
  | .suspicious => .suspicious
  | .verified => .verified
  | .trusted => .trusted

/-- What a run is started with. -/
structure RunTaskOptions where
  actorId : Option String := none
  actorTrust : Option ActorTrust := none
  plan : Option (List String) := none
  steps : Option (List RunStep) := none
  /-- Whether there is an `onVerify`. -/
  verifies : Bool := false

/-- What `MockProvider` plans. -/
def mockPlan : List String := ["repo.read", "test.run", "github.pull_request.create"]

/-! ## 2. Runs -/

/-- Why a run rejects. -/
inductive RunError where
  | approval (message : String)
  | immune (error : ImmuneError)
  | input (message : String)
  | executorNotFound (action : String)
  | canExecute (message : String)
  | executor (message : String)
  | verify (message : String)
  | billing (message : String)
  | flush (message : String)

/-- What a run comes to, with its evidence. -/
structure ProofCarryingOutcome where
  runId : String
  taskId : String
  intent : String
  actorId : String
  mode : RunMode
  verdict : Verdict
  results : List Result
  verification : Verification
  usage : Usage
  ledger : List LedgerEvent

/-- The points of `execute` at which it waits. -/
inductive ExecutePoint where
  /-- The event of a denial. -/
  | denied (reason : String)
  /-- The event of a request. -/
  | requested (input : Value)
  /-- `canExecute`. -/
  | asked (input : Value)
  /-- The event of a rejection. -/
  | refused
  /-- The executor. -/
  | executing
  /-- The event of a completion. -/
  | completed (result : Result)
  /-- The result has been returned, and the run waits for it. -/
  | returned (result : Result)

/-- What a run waits for. -/
inductive Awaiting where
  | plan
  | approval (step : RunStep) (rest : List RunStep)
  | execute (point : ExecutePoint) (step : RunStep) (rest : List RunStep)
  | verify
  | billing (verification : Verification) (usage : Usage)
  | flush (verification : Verification) (usage : Usage)
  | settled (outcome : Except RunError ProofCarryingOutcome)

/-- A run under way. -/
structure Running where
  intent : String
  taskId : String
  runId : String
  opts : RunTaskOptions
  results : List Result
  awaiting : Awaiting

namespace Running

/-- Who runs. -/
def actorId (r : Running) : String := r.opts.actorId.getD "coder"

/-- One result more. -/
def push (r : Running) (result : Result) : Running := { r with results := r.results ++ [result] }

/-- It waits for something. -/
def await (r : Running) (awaiting : Awaiting) : Running := { r with awaiting := awaiting }

/-- It rejects. -/
def reject (r : Running) (error : RunError) : Running := r.await (.settled (.error error))

end Running

/-- A failure with its reason. -/
def fail (reason : String) : Result :=
  { status := .failure, output := .obj [("error", .str reason)], evidence := [] }

/-! ## 3. The shared state -/

/-- What the outside provides where so many events have been recorded. -/
structure Clock where
  stamps : Nat → Stamp
  millis : Nat → Nat
  uuids : Nat → String
  readings : Nat → Readings

/-- An executor that has been run. -/
structure Invocation where
  runId : String
  action : String
  input : Value

/-- What all runs of one runner share. -/
structure LocalRunner (sha256 : String → String) where
  opts : RunnerOptions
  clock : Clock
  ledger : Ledger sha256
  meter : UsageMeter
  policy : PolicyEngine
  immune : ImmuneRuntime sha256
  /-- The actions with an executor. -/
  executors : List String
  /-- The executions started so far; nothing in the runner reads them. -/
  invoked : List Invocation

namespace LocalRunner

/-- A runner on which nothing has run. -/
def create (opts : RunnerOptions) (clock : Clock) : LocalRunner sha256 where
  opts := opts
  clock := clock
  ledger := .empty sha256
  meter := .empty
  policy := { grants := opts.grants, approvalPolicy := opts.approvalPolicy }
  immune := .create {} (some (.empty sha256))
  executors := []
  invoked := []

variable (s : LocalRunner sha256)

/-- An event goes into the ledger, with the stamp that is due. -/
def append (actor : Actor) (type taskId runId : String) (payload : Value) : LocalRunner sha256 :=
  let draft : LedgerEventDraft :=
    { actor := actor, type := type, taskId := taskId, runId := runId, payload := payload }
  { s with ledger := s.ledger.append draft (s.clock.stamps s.ledger.events.length) }

/-- An event of the system about a run. -/
def log (r : Running) (type : String) (payload : List (String × Value)) : LocalRunner sha256 :=
  s.append systemActor type r.taskId r.runId (.obj payload)

/-- What `makeEmitter` gives to `execute`. -/
def emit (r : Running) (type : String) (payload : List (String × Value)) : LocalRunner sha256 :=
  s.append { type := .agent, id := r.actorId } type r.taskId r.runId (.obj payload)

/-- `meter.record`, and what the meter tells the ledger. -/
def record (r : Running) (resource : UsageResource) : LocalRunner sha256 :=
  let event : UsageEvent :=
    { resource := resource, amount := 1, time := s.clock.millis s.ledger.events.length
      actorId := r.actorId, runId := r.runId }
  let meter := s.meter.record event
  append { s with meter := meter } systemActor "UsageRecorded" r.runId r.runId
    (.obj [("event", event.value), ("usage", meter.total.value)])

/-- The immune runtime records in the runner's own ledger. -/
def immuneGate (request : ImmuneRequest) :
    LocalRunner sha256 × Except ImmuneError ImmuneDecision :=
  let immune := { s.immune with incidents := { s.immune.incidents with ledger := some s.ledger } }
  let out := immune.evaluateAndApply request (s.clock.readings s.ledger.events.length)
  ({ s with immune := out.1, ledger := out.1.incidents.ledger.getD s.ledger }, out.2)

/-! ## 4. From a step into its execution -/

/-- How a step leaves the loop: on to the next one, out of the loop, or at an `await`. -/
inductive Flow (α : Type) where
  | next (a : α)
  | leave (a : α)
  | halt (a : α)

/-- The input of a step; one that is missing is an empty object. -/
def resolveInput (step : RunStep) (results : List Result) : Except String Value :=
  match step.input with
  | none => .ok (.obj [])
  | some (.value v) =>
      match v with
      | .undefined | .null => .ok (.obj [])
      | v => .ok v
  | some (.compute f) => f results

/-- `execute`, to its first `await`. -/
def execute (r : Running) (step : RunStep) (rest : List RunStep) (input : Value) :
    LocalRunner sha256 × Running :=
  let decision := s.policy.evaluate r.actorId step.action "*"
  if !decision.allowed then
    (s.emit r "execution.denied" [("action", .str step.action), ("reason", .str decision.reason)],
      r.await (.execute (.denied decision.reason) step rest))
  else
    (s.emit r "execution.requested" [("action", .str step.action), ("input", input)],
      r.await (.execute (.requested input) step rest))

/-- What the immune gate is asked about a step. -/
def requestOf (r : Running) (step : RunStep) : ImmuneRequest where
  principal :=
    { id := r.actorId, type := .agent, trust := (r.opts.actorTrust.getD .verified).state }
  capability := step.action
  scope := some "*"

/-- A step that policy and approval let pass: quota, immune gate, execution. -/
def attempt (r : Running) (step : RunStep) (rest : List RunStep) :
    Flow (LocalRunner sha256 × Running) :=
  let q := s.opts.budget.allows s.meter.total .toolCalls 1
  if !q.allowed then
    .leave (s.log r "QuotaExceeded" [("action", .str step.action), ("reason", .str q.reason)],
      r.push (fail q.reason))
  else
    match s.immuneGate (requestOf r step) with
    | (s, .error error) => .halt (s, r.reject (.immune error))
    | (s, .ok decision) =>
        if !decision.allowed then
          .next (s.log r "ImmuneBlocked"
              [("action", .str step.action), ("level", .str decision.level.text),
                ("immuneAction", .str decision.action.text),
                ("reasons", .arr (decision.reasons.map .str))],
            r.push (fail ("immune " ++ decision.action.text ++ ": " ++
              joinReasons decision.reasons)))
        else
          match resolveInput step r.results with
          | .error message => .halt (s, r.reject (.input message))
          | .ok input => .halt (s.execute r step rest input)

/-- A step from its start: guard of names, policy, approval. -/
def consider (r : Running) (step : RunStep) (rest : List RunStep) :
    Flow (LocalRunner sha256 × Running) :=
  match s.opts.capabilityGuard.bind fun guard => guard step.action with
  | some reason =>
      .next (s.log r "CapabilityRejected" [("action", .str step.action), ("reason", .str reason)],
        r.push (fail reason))
  | none =>
      let decision := s.policy.evaluate r.actorId step.action "*"
      if !decision.allowed then
        .next (s.log r "ApprovalDenied"
            [("action", .str step.action), ("reason", .str decision.reason)],
          r.push (fail decision.reason))
      else if decision.approvalRequired then
        .halt (s.log r "ApprovalRequired" [("action", .str step.action)],
          r.await (.approval step rest))
      else s.attempt r step rest

/-! ## 5. The loop and what follows it -/

/-- Evidence as a payload. -/
def evidenceValue (evidence : List LedgerEvidence) : Value :=
  .arr (evidence.map fun e => .obj [("evidenceId", .str e.evidenceId), ("kind", .str e.kind)])

/-- Verification and verdict, to the `await` of the billing. -/
def conclude (r : Running) (checks : List VerificationCheck) : LocalRunner sha256 × Running :=
  let verification := verify (s.clock.uuids s.ledger.events.length) r.intent checks
  let s := s.log r "VerificationCompleted"
    [("verdict", .str verification.verdict.text), ("evidence", evidenceValue verification.evidence)]
  let s :=
    if verification.verdict = .passed then s.log r "TaskCompleted" [("intent", .str r.intent)]
    else
      s.log r "TaskFailed"
        [("intent", .str r.intent), ("verdict", .str verification.verdict.text)]
  (s, r.await (.billing verification s.meter.total))

/-- The checks a run makes of its results. -/
def checksOf (results : List Result) : List VerificationCheck :=
  results.zipIdx.map fun p =>
    { id := "check-" ++ toString p.2, name := "action[" ++ toString p.2 ++ "]"
      verdict := if p.1.status = .success then .passed else .failed
      evidence := some p.1.evidence }

/-- Behind the last step: `onVerify`, or the verdict by the results. -/
def afterLoop (r : Running) : LocalRunner sha256 × Running :=
  if r.opts.verifies then (s, r.await .verify) else s.conclude r (checksOf r.results)

/-- The loop over the steps. -/
def loop (s : LocalRunner sha256) (r : Running) : List RunStep → LocalRunner sha256 × Running
  | [] => s.afterLoop r
  | step :: rest =>
      match s.consider r step rest with
      | .next (s, r) => loop s r rest
      | .leave (s, r) => s.afterLoop r
      | .halt stopped => stopped

/-- Goes on where `attempt` has left. -/
def resumeLoop (rest : List RunStep) :
    Flow (LocalRunner sha256 × Running) → LocalRunner sha256 × Running
  | .next (s, r) => s.loop r rest
  | .leave (s, r) => s.afterLoop r
  | .halt stopped => stopped

/-- The plan has come. -/
def planned (r : Running) (plan : List String) : LocalRunner sha256 × Running :=
  let steps := r.opts.steps.getD
    (plan.map fun action => { action := action, input := some (.value (.obj [])) })
  let s := s.record r .modelCalls
  let s := s.log r "PlanGenerated" [("plan", .arr (steps.map fun step => .str step.action))]
  s.loop r steps

/-- `run`, to its first `await`. -/
def run (intent : String) (opts : RunTaskOptions) (taskId runId : String) :
    LocalRunner sha256 × Running :=
  let r : Running :=
    { intent := intent, taskId := taskId, runId := runId, opts := opts, results := []
      awaiting := .plan }
  let s := s.log r "RunCreated" [("intent", .str intent), ("mode", .str s.opts.mode.text)]
  let s := s.log r "TaskCreated" [("intent", .str intent)]
  let s := s.record r .runs
  match opts.plan with
  | some plan => s.planned r plan
  | none => (s, r)

/-! ## 6. Going on after an `await` -/

/-- How a wait ends. -/
inductive Wake where
  | done
  | answer (yes : Bool)
  | result (result : Result)
  | checks (checks : List VerificationCheck)
  | thrown (message : String)

/-- `execute` after one of its waits. -/
def executeOn (r : Running) (step : RunStep) (rest : List RunStep) :
    ExecutePoint → Wake → Option (LocalRunner sha256 × Running)
  | .denied reason, .done => some (s, r.await (.execute (.returned (fail reason)) step rest))
  | .requested input, .done =>
      if s.executors.contains step.action then
        some (s, r.await (.execute (.asked input) step rest))
      else some (s, r.reject (.executorNotFound step.action))
  | .asked input, .answer true =>
      some ({ s with invoked := s.invoked ++ [⟨r.runId, step.action, input⟩] },
        r.await (.execute .executing step rest))
  | .asked _, .answer false =>
      some (s.emit r "execution.rejected"
          [("action", .str step.action), ("reason", .str "executor cannot execute")],
        r.await (.execute .refused step rest))
  | .asked _, .thrown message => some (s, r.reject (.canExecute message))
  | .refused, .done =>
      some (s, r.await (.execute (.returned (fail "executor cannot execute")) step rest))
  | .executing, .result result =>
      some (s.emit r "execution.completed"
          [("action", .str step.action), ("status", .str result.status.text),
            ("evidence", evidenceValue result.evidence)],
        r.await (.execute (.completed result) step rest))
  | .executing, .thrown message => some (s, r.reject (.executor message))
  | .completed result, .done => some (s, r.await (.execute (.returned result) step rest))
  | .returned result, .done => some ((s.record r .toolCalls).loop (r.push result) rest)
  | _, _ => none

/-- A run after one of its waits. -/
def resume (r : Running) (wake : Wake) : Option (LocalRunner sha256 × Running) :=
  match r.awaiting, wake with
  | .plan, .done => some (s.planned r mockPlan)
  | .approval step rest, .answer approved =>
      if s.opts.asksForApproval && approved then
        let s := s.log r "ApprovalGranted" [("action", .str step.action)]
        some (resumeLoop rest (s.attempt r step rest))
      else
        let s := s.log r "ApprovalDenied"
          [("action", .str step.action), ("reason", .str "not approved")]
        some (s.loop (r.push (fail ("'" ++ step.action ++ "' requires approval"))) rest)
  | .approval _ _, .thrown message =>
      if s.opts.asksForApproval then some (s, r.reject (.approval message)) else none
  | .execute point step rest, wake => s.executeOn r step rest point wake
  | .verify, .checks checks => some (s.conclude r checks)
  | .verify, .thrown message => some (s, r.reject (.verify message))
  | .billing verification usage, .done => some (s, r.await (.flush verification usage))
  | .billing _ _, .thrown message => some (s, r.reject (.billing message))
  | .flush verification usage, .done =>
      some (s, r.await (.settled (.ok
        { runId := r.runId, taskId := r.taskId, intent := r.intent, actorId := r.actorId
          mode := s.opts.mode, verdict := verification.verdict, results := r.results
          verification := verification, usage := usage, ledger := s.ledger.events })))
  | .flush _ _, .thrown message => some (s, r.reject (.flush message))
  | _, _ => none

end LocalRunner

/-! ## 7. Concurrent runs -/

/-- A runner and all the runs that have been started on it. -/
structure System (sha256 : String → String) where
  runner : LocalRunner sha256
  runs : List Running

/-- What a runner is called for, and how its waits end. -/
inductive Move where
  | run (intent : String) (opts : RunTaskOptions) (taskId runId : String)
  | resume (i : Nat) (wake : LocalRunner.Wake)
  | grant (grant : Grant)
  | registerExecutor (action : String)

namespace System

/-- A runner without runs. -/
def create (opts : RunnerOptions) (clock : Clock) : System sha256 where
  runner := .create opts clock
  runs := []

/-- A grant or a registration that throws leaves all as it is. -/
def step (s : System sha256) : Move → Option (System sha256)
  | .run intent opts taskId runId =>
      let out := s.runner.run intent opts taskId runId
      some { runner := out.1, runs := s.runs ++ [out.2] }
  | .resume i wake =>
      (s.runs[i]?).bind fun r =>
        (s.runner.resume r wake).map fun out => { runner := out.1, runs := s.runs.set i out.2 }
  | .grant grant =>
      match s.runner.policy.addGrant grant with
      | .ok policy => some { s with runner := { s.runner with policy := policy } }
      | .error _ => some s
  | .registerExecutor action =>
      if s.runner.executors.contains action then some s
      else some { s with runner := { s.runner with executors := s.runner.executors ++ [action] } }

end System

end AgentKernel.Runner
