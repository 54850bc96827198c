/-
  File:      AgentKernel/Orchestrator/Machine.lean
  Subject:   The concurrent machine of one executor process: the drive loop, its workers and the
             executions in flight (executor.ts `run`, `drive`, `dispatch`, `runJob`, `cancel`,
             `finalize`, `outcome`; scheduler.ts).

  `step c s l` runs one waiting piece of code up to its next await; the label `l` says which one
  and what its await is answered with. Any order of labels is allowed, so a property of every
  run holds for every order in which promises settle.

  * `flight key a`: the execution of `executeWithRetry` under `key`;
  * `worker i a`: worker `i` of the current dispatch (an idle worker dequeues, a seated one waits
    for the shared promise, one inside its own `failNode` goes on there);
  * `drive`: the drive loop;
  * `redeliver job at`: the queue delivers an enqueued job once more;
  * `late`, `cancel`, `world`: an abandoned call settles, `cancel(reason)` is called, the answers
    of the injected hooks change.
-/
import AgentKernel.Lib.Runs
import AgentKernel.Orchestrator.Executor

namespace AgentKernel.Orchestrator

/-! ## 1. State -/

/-- Where a worker of `dispatch` awaits. -/
inductive Worker where
  /-- about to dequeue -/
  | idle
  /-- `sleep(0)` while the bulkhead is full -/
  | seat (job : WorkflowJob) (node : WorkflowNode)
  /-- the promise of the idempotency store; `stored` is a result that was there already -/
  | holding (job : WorkflowJob) (node : WorkflowNode) (wasDeduped : Bool)
      (stored : Option NodeResult)
  /-- `failNode` called from the catch of `runJob` -/
  | failing (job : WorkflowJob) (node : WorkflowNode) (error : String) (pc : FailPc)
  | finished
  | died (error : String)

/-- Where the drive loop awaits. -/
inductive Drive where
  /-- before the first `promoteReady` -/
  | starting
  /-- `scheduler.enqueue(job)` -/
  | enqueuing (job : WorkflowJob) (rest : List WorkflowJob)
  /-- the persist before `dispatch` -/
  | enqueued
  /-- `Promise.all` of the workers -/
  | dispatching
  /-- the last persist -/
  | finalizing
  | resolved
  | aborted (error : String)

/-- A run under way: what all share, the queue, and where everybody is. -/
structure State where
  core : Core
  queue : List WorkflowJob
  /-- every job the queue has ever been given -/
  enqueued : List WorkflowJob
  workers : List Worker
  drive : Drive
  limiter : ConcurrencyLimiter
  cancelled : Option String
  deduped : Nat

/-- Who moves, and what the outside answers. -/
inductive Label where
  | drive
  | worker (i : Nat) (a : Answer)
  | flight (key : String) (a : Answer)
  | late (call : Nat) (outcome : RunOutcome)
  | redeliver (job : Nat) (at_ : Nat)
  | cancel (reason : String)
  | world (w : World)

namespace State

/-- The state of a node. -/
def status (s : State) (id : NodeId) : NodeStatus := s.core.status id

/-- A worker is somewhere else. -/
def setWorker (s : State) (i : Nat) (w : Worker) : State := { s with workers := s.workers.set i w }

/-- An event is recorded. -/
def emit (s : State) (e : WorkflowEvent) : State := { s with core := s.core.emit e }

end State

variable (c : Context)

/-! ## 2. The drive loop -/

/-- A node that is not at its end is cancelled. -/
def cancelNode (reason : String) (s : Core) (n : WorkflowNode) : Core :=
  if (s.status n.id).isTerminal then s
  else (s.setStatus n.id .cancelled).emit (.nodeCancelled n.id reason)

/-- All nodes are, and the run is. -/
def cancelAll (s : Core) (reason : String) : Core :=
  (c.graph.foldl (cancelNode reason) s).emit (.runCancelled c.runId reason)

/-- The run status `finalize` computes. -/
def finalStatus (s : Core) : WorkflowRunStatus :=
  let statuses := c.graph.map fun n => s.status n.id
  if statuses.any (· = .quarantined) then .quarantined
  else if statuses.any (fun x => x = .failed ∨ x = .rolledBack) then .failed
  else if statuses.all (fun x => x = .completed ∨ x = .skipped ∨ x = .cancelled) then
    if statuses.any (· = .cancelled) then .cancelled else .completed
  else .failed

/-- The last event of the run. -/
def finalize (s : State) : State :=
  match finalStatus c s.core with
  | .completed => s.emit (.runCompleted c.runId)
  | .cancelled => s.emit (.runCancelled c.runId (s.cancelled.getD "cancelled"))
  | status => s.emit (.runFailed c.runId status)

/-- `scheduler.enqueue(job)` on the in-process queue. -/
def enqueue (s : State) (job : WorkflowJob) : State :=
  { s with queue := s.queue ++ [job], enqueued := s.enqueued ++ [job] }

/-- The head of the drive loop up to its next await. -/
def loopHead (s : State) : State :=
  match s.cancelled with
  | some reason =>
      { finalize c { s with core := cancelAll c s.core reason } with drive := .finalizing }
  | none =>
      match (c.graph.filter fun n => s.status n.id = .ready).map (toJob c s.core) with
      | [] => { finalize c s with drive := .finalizing }
      | job :: rest => { enqueue s job with drive := .enqueuing job rest }

/-- The worker is done. -/
def isFinished : Worker → Bool
  | .finished => true
  | _ => false

/-- The error of the first worker that died: what `Promise.all` rejects with. -/
def firstDeath (workers : List Worker) : Option String :=
  workers.findSome? fun
    | .died e => some e
    | _ => none

/-- One step of the loop that fills the queue. -/
def driveStep (s : State) : Option State :=
  match s.drive with
  | .starting => some (loopHead c { s with core := promoteReady c s.core })
  | .enqueuing job rest =>
      let s := s.emit (.jobEnqueued job.nodeId job.id job.idempotencyKey job.attempt)
      match rest with
      | [] => some { s with drive := .enqueued }
      | next :: rest => some { enqueue s next with drive := .enqueuing next rest }
  | .enqueued =>
      some { s with
        workers := List.replicate (max 1 c.limits.maxConcurrentJobs) .idle
        drive := .dispatching }
  | .dispatching =>
      match firstDeath s.workers with
      | some e => some { s with drive := .aborted e }
      | none => if s.workers.all isFinished then some (loopHead c s) else none
  | .finalizing => some { s with drive := .resolved }
  | .resolved => none
  | .aborted _ => none

/-! ## 3. The workers -/

/-- The seat a job takes in the bulkhead. -/
def slotOf (job : WorkflowJob) (n : WorkflowNode) : BulkheadSlot :=
  ⟨job.id, n.agentId, n.tenantId, n.toolId⟩

/-- The `finally` of `runJob`. -/
def release (s : State) (i : Nat) (job : WorkflowJob) (n : WorkflowNode) (next : Worker) : State :=
  { s with limiter := s.limiter.release (slotOf job n) }.setWorker i next

/-- `runJob` from the bulkhead on: take a seat or sleep, then ask the idempotency store. -/
def acquireSeat (s : State) (i : Nat) (job : WorkflowJob) (n : WorkflowNode) : State :=
  match s.limiter.tryAcquire c.limits (slotOf job n) with
  | none => s.setWorker i (.seat job n)
  | some limiter =>
      let s := { s with limiter := limiter }
      let wasDeduped := s.core.store.has job.idempotencyKey
      match s.core.store.run job.idempotencyKey with
      | .done r => s.setWorker i (.holding job n wasDeduped (some r))
      | .joined _ => s.setWorker i (.holding job n wasDeduped none)
      | .fresh =>
          let begun := beginAttempt s.core n job
          { s with core := begun.1.setFlight job.idempotencyKey ⟨n, job, begun.2⟩ }.setWorker i
            (.holding job n wasDeduped none)

/-- The `catch` of `runJob`. -/
def catchJob (s : State) (i : Nat) (job : WorkflowJob) (n : WorkflowNode) (error : String) :
    State :=
  if (s.status n.id).isTerminal then release s i job n .idle
  else
    match failNode c s.core n error false with
    | .error t => release { s with core := t.core } i job n (.died t.message)
    | .ok (core, pc) => { s with core := core }.setWorker i (.failing job n error pc)

/-- `runJob` once the promise has resolved. -/
def resolveJob (s : State) (i : Nat) (job : WorkflowJob) (n : WorkflowNode) (wasDeduped : Bool)
    (result : NodeResult) : State :=
  let s := { s with deduped := s.deduped + if wasDeduped then 1 else 0 }
  if (s.status n.id).isTerminal then release s i job n .idle
  else
    match completeNode c s.core n result with
    | .ok core => release { s with core := core } i job n .idle
    | .error t => catchJob c { s with core := t.core } i job n t.message

/-- What the promise under `key` has settled to: a stored result, or a rejection. -/
def settledAs (s : Core) (key : String) : Option (Except String NodeResult) :=
  match s.store.completed key with
  | some r => some (.ok r)
  | none =>
      match s.store.inFlight key with
      | some ⟨_, _, .rejected e⟩ => some (.error e)
      | _ => none

/-- One step of a worker. -/
def workerStep (s : State) (i : Nat) (a : Answer) : Option State :=
  match s.workers[i]?, a with
  | some .idle, .tick =>
      if s.cancelled.isSome then some (s.setWorker i .finished)
      else
        match s.queue with
        | [] => some (s.setWorker i .finished)
        | job :: rest =>
            let s := { s with queue := rest }
            match nodeById c.graph job.nodeId with
            | none => some (s.setWorker i .idle)
            | some n => some (acquireSeat c s i job n)
  | some (.seat job n), .tick => some (acquireSeat c s i job n)
  | some (.holding job n wasDeduped stored), .tick =>
      match stored with
      | some r => some (resolveJob c s i job n wasDeduped r)
      | none =>
          match settledAs s.core job.idempotencyKey with
          | some (.ok r) => some (resolveJob c s i job n wasDeduped r)
          | some (.error e) => some (catchJob c s i job n e)
          | none => none
  | some (.failing job n error pc), a =>
      match failStep c s.core n error pc a with
      | some (.more core pc) => some ({ s with core := core }.setWorker i (.failing job n error pc))
      | some (.done core) => some (release { s with core := core } i job n .idle)
      | some (.threw t) => some (release { s with core := t.core } i job n (.died t.message))
      | none => none
  | _, _ => none

/-! ## 4. The machine -/

/-- One step of the run; `none` where the label does not fit. -/
def step (s : State) : Label → Option State
  | .drive => driveStep c s
  | .worker i a => workerStep c s i a
  | .flight key a => (flightStep c s.core key a).map fun core => { s with core := core }
  | .late call outcome => (lateStep s.core call outcome).map fun core => { s with core := core }
  | .redeliver job at_ =>
      s.enqueued[job]?.map fun j => { s with queue := s.queue.insertIdx (min at_ s.queue.length) j }
  | .cancel reason => some { s with cancelled := some reason }
  | .world w => some { s with core := { s.core with world := w } }

/-- The executor's fields after `run` has reset them, before the first event. -/
def Core.fresh (w : World) (trace : List Obs) : Core where
  nodes := fun _ => {}
  results := fun _ => none
  completionOrder := []
  compensated := []
  store := .empty
  late := []
  world := w
  trace := trace

/-- An executor about to drive: nothing queued, no workers. `old` are jobs the queue was given
    earlier and may deliver again. -/
def State.launch (core : Core) (old : List WorkflowJob) : State where
  core := core
  queue := []
  enqueued := old
  workers := []
  drive := .starting
  limiter := .empty
  cancelled := none
  deduped := 0

/-- `run(graph)` after `WorkflowRunCreated`. -/
def State.initial (w : World) : State :=
  .launch ((Core.fresh w []).emit (.runCreated c.runId c.taskId c.graph)) []

/-! ## 5. The outcome -/

/-- The ledger events of a trace. -/
def ledgerOf (trace : List Obs) : List WorkflowEvent :=
  trace.filterMap fun
    | .event e => some e
    | _ => none

/-- What a run comes to. -/
structure WorkflowRunOutcome where
  status : WorkflowRunStatus
  nodes : List NodeSnapshot
  results : List (NodeId × NodeResult)
  completed : List NodeId
  failed : List (NodeId × String)
  rolledBack : List NodeId
  skipped : List NodeId
  quarantined : List NodeId
  dedupedDeliveries : Nat
  events : List WorkflowEvent

/-- The status of the run, by the states of its nodes. -/
def deriveStatus (nodes : List NodeSnapshot) : WorkflowRunStatus :=
  if nodes.any (·.status = .quarantined) then .quarantined
  else if nodes.any (fun n => n.status = .failed ∨ n.status = .rolledBack) then .failed
  else if nodes.any (·.status = .cancelled) then .cancelled
  else .completed

/-- The outcome, read off the state. -/
def outcome (s : State) : WorkflowRunOutcome :=
  let nodes : List NodeSnapshot := c.graph.map fun n =>
    let node := s.core.nodes n.id
    ⟨n.id, node.status, node.attempt, node.result, node.error, node.skippedReason⟩
  { status := deriveStatus nodes
    nodes := nodes
    results := c.graph.filterMap fun n => (s.core.results n.id).map fun r => (n.id, r)
    completed := (nodes.filter (·.status = .completed)).map (·.nodeId)
    failed := (nodes.filter (·.status = .failed)).map fun n => (n.nodeId, n.error.getD "failed")
    rolledBack := (nodes.filter (·.status = .rolledBack)).map (·.nodeId) ++ s.core.compensated
    skipped := (nodes.filter (·.status = .skipped)).map (·.nodeId)
    quarantined := (nodes.filter (·.status = .quarantined)).map (·.nodeId)
    dedupedDeliveries := s.deduped
    events := ledgerOf s.core.trace }

end AgentKernel.Orchestrator
