/-
  File:      AgentKernel/Orchestrator/Hydrate.lean
  Subject:   Rebuilding an executor from a ledger (executor.ts `hydrate`), and an executor that
             resumes from it.

  `scan` is the loop over the events: the last `WorkflowRunCreated` names the run and its graph,
  every other event with a node id that JavaScript takes as true is folded into that node's
  snapshot. `restoreNode` is the loop over the snapshots; a cascade of the skipped nodes and a
  `promoteReady` follow.
-/
import AgentKernel.Orchestrator.Machine

namespace AgentKernel.Orchestrator

/-- What the loop over the events has gathered. -/
structure Scan where
  graph : Option (List WorkflowNode) := none
  runId : Option String := none
  taskId : Option String := none
  snapshots : Snapshots := []

/-- One event of the ledger; without a payload it cannot be read. -/
def scanEvent (sc : Scan) (e : LedgerEventLike) : Except String Scan :=
  match e.payload with
  | .nullish => .error "Cannot read properties of a null payload"
  | .fields p =>
      if e.type = .runCreated then
        .ok { sc with graph := p.graph, runId := p.runId, taskId := p.taskId }
      else
        match truthy p.nodeId with
        | none => .ok sc
        | some id => .ok { sc with snapshots := applyEventToSnapshot id e.type p sc.snapshots }

/-- All events of the ledger. -/
def scan (events : List LedgerEventLike) : Except String Scan := events.foldlM scanEvent {}

variable (c : Context)

/-- The loop body over the snapshots. -/
def restoreNode (s : Core) (snap : NodeSnapshot) : Core :=
  match nodeById c.graph snap.nodeId with
  | none => s
  | some n =>
      let s := s.setAttempt n.id snap.attempt
      match snap.status, snap.result with
      | .completed, some r =>
          let s := s.setNode n.id { s.nodes n.id with status := .completed, result := some r }
          { s with
            results := fun x => if x = n.id then some r else s.results x
            completionOrder := s.completionOrder ++ [n.id]
            store := s.store.seedCompleted (keyOf c n) r }
      | status, _ =>
          if status = .skipped then
            s.setNode n.id { s.nodes n.id with
              status := .skipped, skippedReason := snap.skippedReason }
          else if status.isTerminal then
            s.setNode n.id { s.nodes n.id with status := status, error := snap.error }
          else s

/-- `for (const node of nodes) if (node.status === 'SKIPPED') cascadeSkip(node)`. -/
def cascadeSkipped (s : Core) : Except Thrown Core :=
  c.graph.foldlM (fun s n =>
    if s.status n.id = .skipped then cascadeSkip c c.graph.length s n.id else .ok s) s

/-- The executor's fields once the snapshots are restored. -/
def restore (snapshots : Snapshots) (s : Core) : Core := snapshots.foldl (restoreNode c) s

/-- `hydrate(events)` on a fresh executor whose ledger shows `trace`. -/
def hydrate (o : Options) (w : World) (trace : List Obs) (events : List LedgerEventLike) :
    Except String (Context × Core) := do
  let sc ← scan events
  match sc.graph with
  | none => .error "hydrate: no WorkflowRunCreated event found"
  | some graph =>
      let c : Context :=
        { o with
          graph := graph
          runId := sc.runId.getD "undefined"
          taskId := sc.taskId.getD "undefined" }
      match cascadeSkipped c (restore c sc.snapshots (Core.fresh w trace)) with
      | .error t => .error t.message
      | .ok s => .ok (c, promoteReady c s)

/-- The ledger of the run, as another executor reads it back. -/
def ledgerEvents (events : List WorkflowEvent) : List LedgerEventLike :=
  events.map (WorkflowEvent.toLedger c.taskId c.runId)

/-- `hydrate(events)` on the run's own ledger, then `resume()`; `old` are jobs given to the queue
    before the crash. -/
def State.resumed (w : World) (events : List WorkflowEvent) (old : List WorkflowJob)
    (s : State) : Prop :=
  ∃ core, hydrate c.toOptions w (events.map .event) (ledgerEvents c events) = .ok (c, core) ∧
    s = .launch core old

end AgentKernel.Orchestrator
