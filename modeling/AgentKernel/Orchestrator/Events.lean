/-
  File:      AgentKernel/Orchestrator/Events.lean
  Subject:   The events the executor appends to the ledger, the ledger's own view of an event,
             and the fold of a ledger into node snapshots (executor.ts, `emit` and
             `applyEventToSnapshot`; types.ts).

  `WorkflowEvent` has one constructor for each `emit` of the executor, with the data it emits.
  `LedgerEventLike` is what `hydrate` reads back: a type, two ids and a payload that other
  producers may have written. A payload is `null`/`undefined`, on which a property access throws,
  or it is seen through the properties `hydrate` asks for, each possibly absent.
-/
import AgentKernel.Orchestrator.Dag

namespace AgentKernel.Orchestrator

/-! ## 1. Events as the executor emits them -/

/-- The request handed to `requestApproval` and recorded with its answer. -/
structure ApprovalRequest where
  action : String
  reason : String
  nodeId : NodeId
  deriving DecidableEq

/-- How a run has ended. -/
inductive WorkflowRunStatus where
  | completed | failed | cancelled | quarantined
  deriving DecidableEq

/-- The events of a run, with what they say. -/
inductive WorkflowEvent where
  | runCreated (runId taskId : String) (graph : List WorkflowNode)
  | jobEnqueued (nodeId : NodeId) (jobId idempotencyKey : String) (attempt : Nat)
  | nodeReady (nodeId : NodeId)
  | nodeRunning (nodeId : NodeId) (jobId : String) (attempt : Nat) (operationId : String)
  | nodeVerified (nodeId : NodeId) (status : ResultStatus) (evidence : List EvidenceRef)
  | nodeCompleted (nodeId : NodeId) (result : NodeResult) (operationId idempotencyKey : String)
  | nodeFailed (nodeId : NodeId) (error : String) (irreversible : Bool)
  | nodeRetrying (nodeId : NodeId) (attempt nextAttempt : Nat) (error : String)
  | nodeSkipped (nodeId : NodeId) (reason : String)
  | nodeCompensating (nodeId : NodeId) (compensation : String)
  | nodeRolledBack (nodeId : NodeId) (error : String)
  | nodeCompensated (nodeId : NodeId) (compensation : String)
  | nodeQuarantined (nodeId : NodeId) (error : String)
  | nodeCancelled (nodeId : NodeId) (reason : String)
  | approvalRequired (req : ApprovalRequest)
  | approvalGranted (req : ApprovalRequest)
  | approvalDenied (req : ApprovalRequest)
  | runCompleted (runId : String)
  | runCancelled (runId reason : String)
  | runFailed (runId : String) (status : WorkflowRunStatus)

/-! ## 2. Events as the ledger holds them -/

/-- Their types. -/
inductive EventType where
  | runCreated | jobEnqueued | nodeReady | nodeRunning | nodeVerified | nodeCompleted | nodeFailed
  | nodeRetrying | nodeSkipped | nodeCompensating | nodeRolledBack | nodeCompensated
  | nodeQuarantined | nodeCancelled | approvalRequired | approvalGranted | approvalDenied
  | runCompleted | runCancelled | runFailed
  | other (name : String)
  deriving DecidableEq

/-- The properties `hydrate` reads from a payload; `none` is `undefined`. -/
structure PayloadFields where
  runId : Option String := none
  taskId : Option String := none
  graph : Option (List WorkflowNode) := none
  nodeId : Option NodeId := none
  attempt : Option Nat := none
  result : Option NodeResult := none
  error : Option String := none
  reason : Option String := none

/-- What a reader finds under `payload`. -/
inductive Payload where
  | nullish
  | fields (p : PayloadFields)

/-- An event, as a reader finds it in a ledger. -/
structure LedgerEventLike where
  type : EventType
  taskId : String
  runId : String
  payload : Payload

/-- The type of an event. -/
def WorkflowEvent.type : WorkflowEvent → EventType
  | .runCreated .. => .runCreated
  | .jobEnqueued .. => .jobEnqueued
  | .nodeReady .. => .nodeReady
  | .nodeRunning .. => .nodeRunning
  | .nodeVerified .. => .nodeVerified
  | .nodeCompleted .. => .nodeCompleted
  | .nodeFailed .. => .nodeFailed
  | .nodeRetrying .. => .nodeRetrying
  | .nodeSkipped .. => .nodeSkipped
  | .nodeCompensating .. => .nodeCompensating
  | .nodeRolledBack .. => .nodeRolledBack
  | .nodeCompensated .. => .nodeCompensated
  | .nodeQuarantined .. => .nodeQuarantined
  | .nodeCancelled .. => .nodeCancelled
  | .approvalRequired .. => .approvalRequired
  | .approvalGranted .. => .approvalGranted
  | .approvalDenied .. => .approvalDenied
  | .runCompleted .. => .runCompleted
  | .runCancelled .. => .runCancelled
  | .runFailed .. => .runFailed

/-- The payload object of each event, as far as `hydrate` can see it. -/
def WorkflowEvent.payload : WorkflowEvent → PayloadFields
  | .runCreated runId taskId graph => { runId := runId, taskId := taskId, graph := graph }
  | .jobEnqueued nodeId _ _ attempt => { nodeId := nodeId, attempt := attempt }
  | .nodeReady nodeId => { nodeId := nodeId }
  | .nodeRunning nodeId _ attempt _ => { nodeId := nodeId, attempt := attempt }
  | .nodeVerified nodeId _ _ => { nodeId := nodeId }
  | .nodeCompleted nodeId result _ _ => { nodeId := nodeId, result := result }
  | .nodeFailed nodeId error _ => { nodeId := nodeId, error := error }
  | .nodeRetrying nodeId attempt _ error => { nodeId := nodeId, attempt := attempt, error := error }
  | .nodeSkipped nodeId reason => { nodeId := nodeId, reason := reason }
  | .nodeCompensating nodeId _ => { nodeId := nodeId }
  | .nodeRolledBack nodeId error => { nodeId := nodeId, error := error }
  | .nodeCompensated nodeId _ => { nodeId := nodeId }
  | .nodeQuarantined nodeId error => { nodeId := nodeId, error := error }
  | .nodeCancelled nodeId reason => { nodeId := nodeId, reason := reason }
  | .approvalRequired req => { nodeId := req.nodeId, reason := req.reason }
  | .approvalGranted req => { nodeId := req.nodeId, reason := req.reason }
  | .approvalDenied req => { nodeId := req.nodeId, reason := req.reason }
  | .runCompleted runId => { runId := runId }
  | .runCancelled runId reason => { runId := runId, reason := reason }
  | .runFailed runId _ => { runId := runId }

/-- `emit`: the ledger stamps the event with the executor's task and run. -/
def WorkflowEvent.toLedger (taskId runId : String) (e : WorkflowEvent) : LedgerEventLike :=
  ⟨e.type, taskId, runId, .fields e.payload⟩

/-! ## 3. Snapshots -/

/-- What the events say of a node. -/
structure NodeSnapshot where
  nodeId : NodeId
  status : NodeStatus := .planned
  attempt : Nat := 1
  result : Option NodeResult := none
  error : Option String := none
  skippedReason : Option String := none

/-- What one event writes into the snapshot of its node; `none` for the `default` branch. -/
def snapshotWrite (type : EventType) (p : PayloadFields) (snap : NodeSnapshot) :
    Option NodeSnapshot :=
  match type with
  | .nodeRunning => some { snap with status := .running, attempt := p.attempt.getD snap.attempt }
  | .nodeVerified => some { snap with status := .verifying }
  | .nodeCompleted => some { snap with status := .completed, result := p.result }
  | .nodeFailed => some { snap with status := .failed, error := p.error }
  | .nodeRetrying => some { snap with status := .retrying }
  | .nodeSkipped => some { snap with status := .skipped, skippedReason := p.reason }
  | .nodeCompensating => some { snap with status := .compensating }
  | .nodeRolledBack => some { snap with status := .rolledBack, error := p.error }
  | .nodeQuarantined => some { snap with status := .quarantined, error := p.error }
  | .nodeCancelled => some { snap with status := .cancelled }
  | _ => none

/-- The snapshot map, in insertion order. -/
abbrev Snapshots := List NodeSnapshot

/-- The snapshot of a node. -/
def Snapshots.get (m : Snapshots) (id : NodeId) : Option NodeSnapshot :=
  m.find? fun s => s.nodeId == id

/-- `Map.set`: overwrite in place, or append. -/
def Snapshots.set (m : Snapshots) (snap : NodeSnapshot) : Snapshots :=
  match m with
  | [] => [snap]
  | s :: rest => if s.nodeId == snap.nodeId then snap :: rest else s :: Snapshots.set rest snap

/-- What one event does to the snapshots. -/
def applyEventToSnapshot (nodeId : NodeId) (type : EventType) (p : PayloadFields)
    (snapshots : Snapshots) : Snapshots :=
  match snapshotWrite type p ((snapshots.get nodeId).getD { nodeId := nodeId }) with
  | some snap => snapshots.set snap
  | none => snapshots

/-! ## 4. Reading one node's snapshot from a ledger -/

theorem snapshotWrite_nodeId {type : EventType} {p : PayloadFields} {snap snap' : NodeSnapshot}
    (h : snapshotWrite type p snap = some snap') : snap'.nodeId = snap.nodeId := by
  cases type <;> simp only [snapshotWrite, Option.some.injEq, reduceCtorEq] at h <;> subst h <;> rfl

theorem Snapshots.get_set (m : Snapshots) (snap : NodeSnapshot) (id : NodeId) :
    (m.set snap).get id = if snap.nodeId = id then some snap else m.get id := by
  induction m with
  | nil =>
      by_cases h : snap.nodeId = id <;> simp [Snapshots.set, Snapshots.get, List.find?, h]
  | cons s rest ih =>
      unfold Snapshots.set
      by_cases hs : s.nodeId = snap.nodeId
      · by_cases h : snap.nodeId = id
        · simp [Snapshots.get, hs, h]
        · have hb : (snap.nodeId == id) = false := by simpa using h
          simp [Snapshots.get, List.find?, hs, h, hb]
      · have hb : (s.nodeId == snap.nodeId) = false := by simpa using hs
        rw [hb]
        by_cases hid : s.nodeId = id
        · have hne : snap.nodeId ≠ id := fun e => hs (hid.trans e.symm)
          simp [Snapshots.get, List.find?, hid, hne]
        · have hb' : (s.nodeId == id) = false := by simpa using hid
          simpa [Snapshots.get, List.find?, hb'] using ih

/-- The snapshot one event leaves for the node `id`: events of other nodes do not touch it. -/
def snapshotStep (id : NodeId) (snap : NodeSnapshot) (nodeId : NodeId) (type : EventType)
    (p : PayloadFields) : NodeSnapshot :=
  if nodeId = id then (snapshotWrite type p snap).getD snap else snap

theorem get_applyEventToSnapshot (m : Snapshots) (nodeId id : NodeId) (type : EventType)
    (p : PayloadFields) :
    ((applyEventToSnapshot nodeId type p m).get id).getD { nodeId := id } =
      snapshotStep id ((m.get id).getD { nodeId := id }) nodeId type p := by
  unfold applyEventToSnapshot snapshotStep
  by_cases h : nodeId = id
  · subst h
    cases hw : snapshotWrite type p ((m.get nodeId).getD { nodeId := nodeId }) with
    | none => simp
    | some snap =>
        have hn : snap.nodeId = nodeId := by
          rw [snapshotWrite_nodeId hw]
          cases hg : m.get nodeId with
          | none => rfl
          | some s => simpa using List.find?_some hg
        simp [Snapshots.get_set, hn]
  · cases hw : snapshotWrite type p ((m.get nodeId).getD { nodeId := nodeId }) with
    | none => simp [h]
    | some snap =>
        have hn : snap.nodeId = nodeId := by
          rw [snapshotWrite_nodeId hw]
          cases hg : m.get nodeId with
          | none => rfl
          | some s => simpa using List.find?_some hg
        simp [Snapshots.get_set, hn, h]

end AgentKernel.Orchestrator
