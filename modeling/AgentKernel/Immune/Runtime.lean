/-
  File:      AgentKernel/Immune/Runtime.lean
  Subject:   The immune runtime: decisions applied (kernel/immune/src/runtime.ts, quarantine.ts,
             kill-switch.ts, incident.ts).

  The gate decides from its configuration and the request alone. What its decisions lead to is kept
  in three other places: the quarantine's records, the kill switch and the current level.

  A thrown error is an answer, next to the state the call leaves behind. Random ids and times of
  day come with the call, and so does the policy as it stands at the call. Metrics, health,
  recovery, breakers and integrity are left out: no call below reads them.
-/
import AgentKernel.Immune.Gate
import AgentKernel.Events.Ledger
import AgentKernel.Transition

namespace AgentKernel.Immune

open Events

/-! ## 1. Quarantine -/

/-- How far the containment of an entity has gone. -/
inductive QuarantineState where
  | active | suspicious | quarantined | analysis | recovered | revoked
  deriving DecidableEq

/-- The state, as errors and records spell it. -/
def QuarantineState.text : QuarantineState → String
  | .active => "ACTIVE"
  | .suspicious => "SUSPICIOUS"
  | .quarantined => "QUARANTINED"
  | .analysis => "ANALYSIS"
  | .recovered => "RECOVERED"
  | .revoked => "REVOKED"

/-- What can be done to an entity. -/
inductive QuarantineEvent where
  | flag | quarantine | analyze | recover | revoke
  deriving DecidableEq

/-- The event, as errors spell it. -/
def QuarantineEvent.text : QuarantineEvent → String
  | .flag => "flag"
  | .quarantine => "quarantine"
  | .analyze => "analyze"
  | .recover => "recover"
  | .revoke => "revoke"

/-- `QUARANTINE_MACHINE`. -/
def quarantineMachine : StateMachine QuarantineState QuarantineEvent where
  transitions
    | .active, .flag => some .suspicious
    | .suspicious, .quarantine => some .quarantined
    | .quarantined, .analyze => some .analysis
    | .analysis, .recover => some .recovered
    | .analysis, .revoke => some .revoked
    | _, _ => none

/-- What is left of the file system to a contained entity. -/
inductive FilesystemRestriction where
  | readonly | blocked | normal
  deriving DecidableEq

/-- What is left of the network. -/
inductive NetworkRestriction where
  | blocked | allowlist | normal
  deriving DecidableEq

/-- Whether its credentials still hold. -/
inductive CredentialsRestriction where
  | revoked | normal
  deriving DecidableEq

/-- Whether it may start processes. -/
inductive ProcessRestriction where
  | blocked | normal
  deriving DecidableEq

/-- Whether its plugin is on. -/
inductive PluginRestriction where
  | disabled | normal
  deriving DecidableEq

/-- All that is left to a contained entity. -/
structure QuarantineRestrictions where
  filesystem : FilesystemRestriction
  network : NetworkRestriction
  credentials : CredentialsRestriction
  newProcesses : ProcessRestriction
  plugin : PluginRestriction
  deriving DecidableEq

/-- `FULL_QUARANTINE`. -/
def fullQuarantine : QuarantineRestrictions := ⟨.readonly, .blocked, .revoked, .blocked, .disabled⟩

/-- `NORMAL_RESTRICTIONS`. -/
def normalRestrictions : QuarantineRestrictions := ⟨.normal, .normal, .normal, .normal, .normal⟩

/-- What the quarantine knows of one entity. -/
structure QuarantineRecord where
  entityId : String
  state : QuarantineState
  reason : String
  restrictions : QuarantineRestrictions
  enteredAt : String
  evidence : List String
  deriving DecidableEq

/-! ## 2. Incidents -/

/-- How far an incident has been dealt with. -/
inductive IncidentState where
  | detected | classified | contained | recovering | verified | closed
  deriving DecidableEq

/-- The state, as errors and events spell it. -/
def IncidentState.text : IncidentState → String
  | .detected => "DETECTED"
  | .classified => "CLASSIFIED"
  | .contained => "CONTAINED"
  | .recovering => "RECOVERING"
  | .verified => "VERIFIED"
  | .closed => "CLOSED"

/-- What can be done about an incident. -/
inductive IncidentEvent where
  | classify | contain | recover | verify | close
  deriving DecidableEq

/-- The event, as errors spell it. -/
def IncidentEvent.text : IncidentEvent → String
  | .classify => "classify"
  | .contain => "contain"
  | .recover => "recover"
  | .verify => "verify"
  | .close => "close"

/-- `INCIDENT_MACHINE`. -/
def incidentMachine : StateMachine IncidentState IncidentEvent where
  transitions
    | .detected, .classify => some .classified
    | .classified, .contain => some .contained
    | .contained, .recover => some .recovering
    | .recovering, .verify => some .verified
    | .verified, .close => some .closed
    | _, _ => none

/-- One entry of what has been done about an incident. -/
structure TimelineEntry where
  time : String
  note : String
  deriving DecidableEq

/-- What the engine knows of one incident. -/
structure IncidentRecord where
  id : String
  state : IncidentState
  severity : RiskSeverity
  title : String
  detections : List String
  evidenceHashes : List String
  timeline : List TimelineEntry
  deriving DecidableEq

/-! ## 3. Errors -/

/-- What the runtime throws. -/
inductive ImmuneError where
  | illegalQuarantine (error : IllegalTransitionError QuarantineState QuarantineEvent)
  | unknownEntity (entityId : String)
  | illegalIncident (error : IllegalTransitionError IncidentState IncidentEvent)
  | unknownIncident (id : String)

/-- The text of an event that a state does not allow, whatever the machine. -/
def illegalText (source event : String) : String :=
  "Illegal state transition: event '" ++ event ++ "' is not allowed from state '" ++ source ++ "'"

/-- The text of what is thrown. -/
def ImmuneError.message : ImmuneError → String
  | .illegalQuarantine error => illegalText error.source.text error.event.text
  | .unknownEntity entityId => "quarantine: unknown entity '" ++ entityId ++ "'"
  | .illegalIncident error => illegalText error.source.text error.event.text
  | .unknownIncident id => "incident: unknown incident '" ++ id ++ "'"

/-! ## 4. The records of the quarantine -/

/-- The records, each under the id of its entity. -/
structure Quarantine where
  records : String → Option QuarantineRecord
  keyed : ∀ id r, records id = some r → r.entityId = id

namespace Quarantine

/-- Nobody is known. -/
def empty : Quarantine where
  records _ := none
  keyed _ _ h := nomatch h

/-- The record of an entity is put under its own id. -/
def set (q : Quarantine) (record : QuarantineRecord) : Quarantine where
  records := Function.update q.records record.entityId (some record)
  keyed id r h := by
    by_cases hid : id = record.entityId
    · rw [hid, Function.update_self] at h
      rw [hid, Option.some.inj h]
    · rw [Function.update_of_ne hid] at h
      exact q.keyed id r h

variable (q : Quarantine)

/-- What an event does to an entity that is known: its machine moves, and only a recovery changes what
    is left to it. -/
def transition (current : QuarantineRecord) (event : QuarantineEvent) (reason : String)
    (evidence : List String) : Except ImmuneError (Quarantine × QuarantineRecord) :=
  match quarantineMachine.transition current.state event with
  | .error error => .error (.illegalQuarantine error)
  | .ok next =>
      let record := { current with
        state := next
        reason := reason
        evidence := evidence
        restrictions := if next = .recovered then normalRestrictions else current.restrictions }
      .ok (q.set record, record)

/-- An entity that is not known yet is taken into quarantine at once. -/
def quarantine (entityId reason : String) (evidence : List String) (enteredAt : String) :
    Except ImmuneError (Quarantine × QuarantineRecord) :=
  match q.records entityId with
  | some existing => q.transition existing .quarantine reason evidence
  | none =>
      let record : QuarantineRecord :=
        { entityId := entityId, state := .quarantined, reason := reason
          restrictions := fullQuarantine, enteredAt := enteredAt, evidence := evidence }
      .ok (q.set record, record)

/-- An entity that is not known yet becomes suspicious, and keeps all it has. -/
def flag (entityId reason enteredAt : String) : Except ImmuneError (Quarantine × QuarantineRecord) :=
  match q.records entityId with
  | some existing => q.transition existing .flag reason []
  | none =>
      let record : QuarantineRecord :=
        { entityId := entityId, state := .suspicious, reason := reason
          restrictions := normalRestrictions, enteredAt := enteredAt, evidence := [] }
      .ok (q.set record, record)

/-- An event for an entity that has to be known. -/
def must (entityId : String) (event : QuarantineEvent) :
    Except ImmuneError (Quarantine × QuarantineRecord) :=
  match q.records entityId with
  | none => .error (.unknownEntity entityId)
  | some existing => q.transition existing event existing.reason existing.evidence

/-- A quarantined entity is looked at. -/
def analyze (entityId : String) : Except ImmuneError (Quarantine × QuarantineRecord) :=
  q.must entityId .analyze

/-- It is let go again, without restrictions; a note is put behind the reason. -/
def recover (entityId : String) (note : Option String) :
    Except ImmuneError (Quarantine × QuarantineRecord) :=
  (q.must entityId .recover).map fun (q, r) =>
    let r := match note with
      | some note =>
          if note = "" then r else { r with reason := r.reason ++ " — recovered: " ++ note }
      | none => r
    (q.set { r with restrictions := normalRestrictions }, r)

/-- It is shut out for good. -/
def revoke (entityId reason : String) : Except ImmuneError (Quarantine × QuarantineRecord) :=
  (q.must entityId .revoke).map fun (q, r) =>
    let r := { r with reason := reason }
    (q.set r, r)

/-- In quarantine, or looked at there. -/
def isQuarantined (entityId : String) : Bool :=
  match q.records entityId with
  | some r => r.state = .quarantined || r.state = .analysis
  | none => false

end Quarantine

/-! ## 5. The kill switch -/

/-- What can be killed. -/
inductive KillTargetType where
  | run | agent | plugin | runner
  deriving DecidableEq

/-- Somebody asks for something to be killed. -/
structure KillRequest where
  targetType : KillTargetType
  targetId : String
  reason : String
  requester : String

/-- What has become of the request. -/
structure KillOutcome where
  approved : Bool
  applied : Bool
  reason : String
  deriving DecidableEq

/-- What the kill switch reads of a decision of the policy. -/
structure PolicyAnswer where
  allowed : Bool
  approvalRequired : Bool
  reason : String

/-- `PolicyView.evaluate`: principal, capability and scope. -/
abbrev PolicyView := String → String → Option String → PolicyAnswer

/-- What `KillSwitch.request` answers. -/
def killOutcome (policy : Option PolicyView) (req : KillRequest) : KillOutcome :=
  if startsWith req.requester "agent:" || startsWith req.requester "tool:" then
    match policy with
    | none => ⟨false, false, "kill requests require a policy evaluator"⟩
    | some policy =>
        let d := policy req.requester "immune.kill" (some req.targetId)
        if !d.allowed then ⟨false, false, "policy denied: " ++ d.reason⟩
        else if d.approvalRequired then ⟨false, false, "kill requires approval by policy"⟩
        else ⟨true, true, "kill approved by policy"⟩
  else if req.requester = "system" ∨ req.requester = "immune" then ⟨true, true, "system kill"⟩
  else ⟨false, false, "unknown requester '" ++ req.requester ++ "'"⟩

/-- The sets of killed ids, in the order of insertion. -/
structure KillSwitch where
  killed : KillTargetType → List String

namespace KillSwitch

/-- Nothing is killed. -/
def empty : KillSwitch := ⟨fun _ => []⟩

/-- The target has been killed before. -/
def isKilled (k : KillSwitch) (type : KillTargetType) (id : String) : Bool :=
  (k.killed type).contains id

/-- The target is killed, once. -/
def apply (k : KillSwitch) (req : KillRequest) : KillSwitch :=
  if k.isKilled req.targetType req.targetId then k
  else ⟨Function.update k.killed req.targetType (k.killed req.targetType ++ [req.targetId])⟩

/-- The target is killed if the requester may have it killed. -/
def request (k : KillSwitch) (policy : Option PolicyView) (req : KillRequest) :
    KillSwitch × KillOutcome :=
  let outcome := killOutcome policy req
  (if outcome.applied then k.apply req else k, outcome)

end KillSwitch

/-! ## 6. The incident engine -/

variable {sha256 : String → String}

/-- The incidents by id, and the ledger that is told of them. -/
structure IncidentEngine (sha256 : String → String) where
  incidents : String → Option IncidentRecord
  ledger : Option (Ledger sha256)

/-- The time of day of a phase, and the stamp of its event. -/
structure PhaseStamp where
  time : String
  event : Stamp

namespace IncidentEngine

variable (engine : IncidentEngine sha256)

/-- The event of one phase of an incident. -/
def draft (incident : IncidentRecord) (phase : String) (payload : List (String × Value)) :
    LedgerEventDraft where
  actor := systemActor
  type := "immune.incident." ++ phase
  taskId := "immune"
  runId := incident.id
  payload := .obj ([("incidentId", .str incident.id), ("phase", .str phase)] ++ payload)

/-- Stores an incident and records its phase; the incident gets the hash of the event. -/
def record (incident : IncidentRecord) (phase : String) (payload : List (String × Value))
    (stamp : Stamp) : IncidentEngine sha256 × IncidentRecord :=
  match engine.ledger with
  | none => ({ engine with
      incidents := Function.update engine.incidents incident.id (some incident) }, incident)
  | some ledger =>
      let ev := ledger.event (draft incident phase payload) stamp
      let incident := { incident with evidenceHashes := incident.evidenceHashes ++ [ev.hash] }
      ({ incidents := Function.update engine.incidents incident.id (some incident)
         ledger := some (ledger.append (draft incident phase payload) stamp) }, incident)

/-- A new incident, which is announced. -/
def detect (id title : String) (severity : RiskSeverity) (detections : List String)
    (now : PhaseStamp) : IncidentEngine sha256 × IncidentRecord :=
  let incident : IncidentRecord :=
    { id := id, state := .detected, severity := severity, title := title, detections := detections
      evidenceHashes := [], timeline := [⟨now.time, "detected: " ++ title⟩] }
  engine.record incident "detected"
    [("title", .str title), ("severity", .str severity.text),
      ("detections", .arr (detections.map .str))] now.event

/-- What every later phase does: the machine moves, the timeline grows, the ledger is told. -/
def step (id : String) (event : IncidentEvent) (note : String) (now : PhaseStamp) :
    Except ImmuneError (IncidentEngine sha256 × IncidentRecord) :=
  match engine.incidents id with
  | none => .error (.unknownIncident id)
  | some current =>
      match incidentMachine.transition current.state event with
      | .error error => .error (.illegalIncident error)
      | .ok state =>
          let record := { current with
            state := state
            timeline := current.timeline ++ [⟨now.time, note⟩] }
          .ok (engine.record record event.text [("note", .str note)] now.event)

/-- It is given its severity. -/
def classify (id : String) (severity : RiskSeverity) (now : PhaseStamp) :
    Except ImmuneError (IncidentEngine sha256 × IncidentRecord) :=
  (engine.step id .classify ("classified as " ++ severity.text) now).map fun (engine, next) =>
    let next := { next with severity := severity }
    ({ engine with incidents := Function.update engine.incidents id (some next) }, next)

/-- It is contained. -/
def contain (id note : String) (now : PhaseStamp) :
    Except ImmuneError (IncidentEngine sha256 × IncidentRecord) :=
  engine.step id .contain note now

/-- It is being recovered from. -/
def recover (id note : String) (now : PhaseStamp) :
    Except ImmuneError (IncidentEngine sha256 × IncidentRecord) :=
  engine.step id .recover note now

/-- The recovery is verified. -/
def verify (id note : String) (now : PhaseStamp) :
    Except ImmuneError (IncidentEngine sha256 × IncidentRecord) :=
  engine.step id .verify note now

/-- It is closed. -/
def close (id note : String) (now : PhaseStamp) :
    Except ImmuneError (IncidentEngine sha256 × IncidentRecord) :=
  engine.step id .close note now

end IncidentEngine

/-! ## 7. The runtime -/

/-- The random id and the times of day that a call may read. -/
structure Readings where
  enteredAt : String
  incidentId : String
  detected : PhaseStamp
  classified : PhaseStamp
  contained : PhaseStamp

/-- What is killed of a principal. -/
def killTargetFor : PrincipalType → KillTargetType
  | .agent => .agent
  | .plugin | .tool => .plugin
  | .runner => .runner
  | .user | .model | .service => .run

/-- The gate's configuration with all that it acts upon. -/
structure ImmuneRuntime (sha256 : String → String) where
  /-- The configuration of the gate. -/
  config : ImmuneGateConfig
  currentLevel : ImmunityLevel
  quarantine : Quarantine
  killSwitch : KillSwitch
  incidents : IncidentEngine sha256

namespace ImmuneRuntime

/-- A runtime in which nothing has happened. -/
def create (config : ImmuneGateConfig) (ledger : Option (Ledger sha256)) : ImmuneRuntime sha256 where
  config := config
  currentLevel := config.level.getD .green
  quarantine := .empty
  killSwitch := .empty
  incidents := { incidents := fun _ => none, ledger := ledger }

variable (s : ImmuneRuntime sha256)

/-- The incident of a decision: detected, classified and contained in one go. -/
def openIncident (decision : ImmuneDecision) (entityId detail : String) (now : Readings) :
    ImmuneRuntime sha256 × Except ImmuneError Unit :=
  let (incidents, incident) := s.incidents.detect now.incidentId
    ("immune " ++ decision.action.text ++ " on '" ++ entityId ++ "'") decision.risk.severity
    (decision.risk.reasons.map (·.detail)) now.detected
  match incidents.classify incident.id decision.risk.severity now.classified with
  | .error error => ({ s with incidents := incidents }, .error error)
  | .ok (incidents, _) =>
      match incidents.contain incident.id detail now.contained with
      | .error error => ({ s with incidents := incidents }, .error error)
      | .ok (incidents, _) =>
          ({ s with
              incidents := incidents
              currentLevel := maxLevel s.currentLevel decision.level }, .ok ())

/-- The reasons of a decision, or its action where there are none. -/
def detailOf (decision : ImmuneDecision) : String :=
  let reasons := joinReasons decision.reasons
  if reasons = "" then decision.action.text else reasons

/-- What a decision comes to: a record in quarantine, a kill, an incident, or nothing. -/
def apply (decision : ImmuneDecision) (request : ImmuneRequest) (now : Readings) :
    ImmuneRuntime sha256 × Except ImmuneError Unit :=
  let id := request.principal.id
  let detail := detailOf decision
  if decision.action = .allow ∨ decision.action = .monitor ∨ decision.action = .approvalRequired then
    (s, .ok ())
  else if decision.action = .restrict then (s, .ok ())
  else if decision.action = .quarantine ∨ decision.action = .kill ∨ decision.level = .red ∨
      decision.level = .black then
    match s.quarantine.quarantine id detail (decision.risk.reasons.map (·.detail)) now.enteredAt with
    -- thrown before the kill switch and the incident engine are reached
    | .error error => (s, .error error)
    | .ok (quarantine, _) =>
        let killSwitch :=
          if decision.action = .kill then
            (s.killSwitch.request none { targetType := killTargetFor request.principal.type
                                         targetId := id, reason := detail
                                         requester := "immune" }).1
          else s.killSwitch
        openIncident { s with quarantine := quarantine, killSwitch := killSwitch } decision id detail
          now
  else (s, .ok ())

/-- A request is judged, and the judgement carried out. -/
def evaluateAndApply (request : ImmuneRequest) (now : Readings) :
    ImmuneRuntime sha256 × Except ImmuneError ImmuneDecision :=
  let decision := s.config.evaluate request
  let (s, result) := s.apply decision request now
  (s, result.map fun _ => decision)

/-- The common body of `kill` and `requestKill`: the kill switch is applied first. -/
def killBy (policy : Option PolicyView) (req : KillRequest) (enteredAt : String) :
    ImmuneRuntime sha256 × Except ImmuneError KillOutcome :=
  let (killSwitch, outcome) := s.killSwitch.request policy req
  let s := { s with killSwitch := killSwitch }
  if outcome.applied then
    match s.quarantine.quarantine req.targetId req.reason [] enteredAt with
    | .error error => (s, .error error)
    | .ok (quarantine, _) => ({ s with quarantine := quarantine }, .ok outcome)
  else (s, .ok outcome)

/-- A kill that the policy has to let pass. -/
def requestKill (policy : Option PolicyView) (requester : String) (targetType : KillTargetType)
    (targetId reason enteredAt : String) : ImmuneRuntime sha256 × Except ImmuneError KillOutcome :=
  s.killBy policy
    { targetType := targetType, targetId := targetId, reason := reason, requester := requester }
    enteredAt

/-- A kill by the immune runtime itself, without a policy. -/
def kill (targetType : KillTargetType) (targetId reason enteredAt : String) :
    ImmuneRuntime sha256 × Except ImmuneError KillOutcome :=
  s.killBy none
    { targetType := targetType, targetId := targetId, reason := reason, requester := "immune" }
    enteredAt

/-- The quarantine's own calls leave the rest of the runtime alone. -/
def onQuarantine (result : Except ImmuneError (Quarantine × QuarantineRecord)) :
    ImmuneRuntime sha256 × Except ImmuneError QuarantineRecord :=
  match result with
  | .error error => (s, .error error)
  | .ok (quarantine, record) => ({ s with quarantine := quarantine }, .ok record)

end ImmuneRuntime

/-! ## 8. Calls -/

/-- The calls of the runtime. -/
inductive Call where
  | evaluateAndApply (request : ImmuneRequest) (now : Readings)
  | kill (targetType : KillTargetType) (targetId reason enteredAt : String)
  | requestKill (policy : Option PolicyView) (requester : String) (targetType : KillTargetType)
      (targetId reason enteredAt : String)
  | flag (entityId reason enteredAt : String)
  | analyze (entityId : String)
  | recover (entityId : String) (note : Option String)
  | revoke (entityId reason : String)

/-- What they give back. -/
inductive Answer where
  | decision (d : ImmuneDecision)
  | outcome (o : KillOutcome)
  | record (r : QuarantineRecord)

/-- A call on the runtime, or on its quarantine. -/
def ImmuneRuntime.call (s : ImmuneRuntime sha256) :
    Call → ImmuneRuntime sha256 × Except ImmuneError Answer
  | .evaluateAndApply request now =>
      let (s, result) := s.evaluateAndApply request now
      (s, result.map .decision)
  | .kill targetType targetId reason enteredAt =>
      let (s, result) := s.kill targetType targetId reason enteredAt
      (s, result.map .outcome)
  | .requestKill policy requester targetType targetId reason enteredAt =>
      let (s, result) := s.requestKill policy requester targetType targetId reason enteredAt
      (s, result.map .outcome)
  | .flag entityId reason enteredAt =>
      let (s, result) := s.onQuarantine (s.quarantine.flag entityId reason enteredAt)
      (s, result.map .record)
  | .analyze entityId =>
      let (s, result) := s.onQuarantine (s.quarantine.analyze entityId)
      (s, result.map .record)
  | .recover entityId note =>
      let (s, result) := s.onQuarantine (s.quarantine.recover entityId note)
      (s, result.map .record)
  | .revoke entityId reason =>
      let (s, result) := s.onQuarantine (s.quarantine.revoke entityId reason)
      (s, result.map .record)

/-- Every call leads to a state, also one that throws. -/
def ImmuneRuntime.step (s : ImmuneRuntime sha256) (c : Call) : Option (ImmuneRuntime sha256) :=
  some (s.call c).1

end AgentKernel.Immune
