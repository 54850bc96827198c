/-
  File:      AgentKernel/Runner/Observed.lean
  Subject:   What can be seen of a run from outside: what it asks of its gates and of its executors,
             what it meters, and where it starts and ends.

  The observations of a stretch of a run follow its code, branch by branch. They say in which order
  the gates have been asked and what they have answered, which the ledger does not record.

  * `consider_spec`, `attempt_spec`: a step of the loop, as what it leaves and what is seen of it;
  * **`resume_shows`**: ledger, meter and executions change just as the observations say.
-/
import AgentKernel.Runner.LocalRunner
import AgentKernel.Immune.Evidence
import AgentKernel.Lib.Runs
import AgentKernel.Lib.Lists

namespace AgentKernel.Runner

open Lib Events Immune

variable {sha256 : String → String}

/-! ## 1. Observations -/

/-- What can be seen of a run. -/
inductive Obs where
  /-- The run has been created. -/
  | created
  | metered (resource : UsageResource)
  /-- The plan has been recorded. -/
  | planned
  /-- The guard of names, and why it rejects. -/
  | guarded (action : String) (rejected : Option String)
  /-- The policy in the loop. -/
  | decided (action : String) (decision : PolicyDecision)
  /-- The callback for approvals, or what it throws. -/
  | approved (action : String) (answer : Except String Bool)
  | quota (action : String) (answer : QuotaAnswer)
  | immune (action : String) (answer : Except ImmuneError ImmuneDecision)
  | input (action : String) (answer : Except String Value)
  /-- The policy inside `execute`. -/
  | decidedAgain (action : String) (decision : PolicyDecision)
  /-- Whether there is an executor. -/
  | resolved (action : String) (found : Bool)
  | canExecute (action : String) (answer : Except String Bool)
  /-- The executor has been started. -/
  | invoked (action : String) (input : Value)
  | returned (action : String) (answer : Except String Result)
  /-- `onVerify` throws. -/
  | verifyThrew
  /-- The run has its verdict. -/
  | concluded (verdict : Verdict)

namespace Obs

/-- A reading of this resource. -/
def meters (x : UsageResource) : Obs → Bool
  | .metered resource => resource = x
  | _ => false

/-- What has been started, if anything has. -/
def invocation : Obs → Option (String × Value)
  | .invoked action v => some (action, v)
  | _ => none

end Obs

/-- What the ledger records of a run, as far as its accounts go. -/
inductive Mark where
  | created
  | planned
  | requested (action : String)
  | completed (action : String)
  | rejected (action : String)
  | denied (action : String)
  | ended
  deriving DecidableEq

/-- What the ledger records of an observation. -/
def Obs.mark : Obs → Option Mark
  | .created => some .created
  | .planned => some .planned
  | .decidedAgain action decision =>
      some (if decision.allowed then .requested action else .denied action)
  | .canExecute action (.ok false) => some (.rejected action)
  | .returned action (.ok _) => some (.completed action)
  | .concluded _ => some .ended
  | _ => none

/-- The action that a payload names. -/
def actionOf : Value → String
  | .obj fields =>
      match fields.lookup "action" with
      | some (.str action) => action
      | _ => ""
  | _ => ""

/-- What an event of the ledger says about the accounts of its run. -/
def markOf (type : String) (payload : Value) : Option Mark :=
  if type = "RunCreated" then some .created
  else if type = "PlanGenerated" then some .planned
  else if type = "execution.requested" then some (.requested (actionOf payload))
  else if type = "execution.completed" then some (.completed (actionOf payload))
  else if type = "execution.rejected" then some (.rejected (actionOf payload))
  else if type = "execution.denied" then some (.denied (actionOf payload))
  else if type = "TaskCompleted" ∨ type = "TaskFailed" then some .ended
  else none

/-- The marks of the events, each with its run. -/
def marksOf (events : List LedgerEvent) : List (String × Mark) :=
  events.filterMap fun e => (markOf e.type e.payload).map fun m => (e.runId, m)

/-- The executions, each with its run. -/
def invocationsOf (invoked : List Invocation) : List (String × String × Value) :=
  invoked.map fun v => (v.runId, v.action, v.input)

/-! ## 2. What is seen of a run -/

namespace LocalRunner

/-- What is seen when a step is to be executed. -/
def executeObs (s : LocalRunner sha256) (r : Running) (step : RunStep) : List Obs :=
  [.decidedAgain step.action (s.policy.evaluate r.actorId step.action "*")]

/-- What is seen from the quota on. -/
def attemptObs (s : LocalRunner sha256) (r : Running) (step : RunStep) : List Obs :=
  let q := s.opts.budget.allows s.meter.total .toolCalls 1
  .quota step.action q ::
    if !q.allowed then []
    else
      let (s, answer) := s.immuneGate (requestOf r step)
      .immune step.action answer ::
        match answer with
        | .error _ => []
        | .ok decision =>
            if !decision.allowed then []
            else
              let input := resolveInput step r.results
              .input step.action input ::
                match input with
                | .error _ => []
                | .ok _ => s.executeObs r step

/-- What is seen from the guard of names on. -/
def considerObs (s : LocalRunner sha256) (r : Running) (step : RunStep) : List Obs :=
  match s.opts.capabilityGuard.bind fun guard => guard step.action with
  | some reason => [.guarded step.action (some reason)]
  | none =>
      let decision := s.policy.evaluate r.actorId step.action "*"
      .guarded step.action none :: .decided step.action decision ::
        if !decision.allowed then []
        else if decision.approvalRequired then []
        else s.attemptObs r step

/-- What is seen of the verdict. -/
def concludeObs (s : LocalRunner sha256) (r : Running) (checks : List VerificationCheck) :
    List Obs :=
  [.concluded (verify (s.clock.uuids s.ledger.events.length) r.intent checks).verdict]

/-- What is seen behind the last step. -/
def afterLoopObs (s : LocalRunner sha256) (r : Running) : List Obs :=
  if r.opts.verifies then [] else s.concludeObs r (checksOf r.results)

/-- What is seen of the loop, up to its next wait. -/
def loopObs (s : LocalRunner sha256) (r : Running) : List RunStep → List Obs
  | [] => s.afterLoopObs r
  | step :: rest =>
      s.considerObs r step ++
        match s.consider r step rest with
        | .next (s, r) => loopObs s r rest
        | .leave (s, r) => s.afterLoopObs r
        | .halt _ => []

/-- The rest of the loop behind an attempt. -/
def resumeLoopObs (rest : List RunStep) : Flow (LocalRunner sha256 × Running) → List Obs
  | .next (s, r) => s.loopObs r rest
  | .leave (s, r) => s.afterLoopObs r
  | .halt _ => []

/-- The steps of a run for a plan. -/
def stepsOf (opts : RunTaskOptions) (plan : List String) : List RunStep :=
  opts.steps.getD (plan.map fun action => { action := action, input := some (.value (.obj [])) })

/-- What is seen once there is a plan. -/
def plannedObs (s : LocalRunner sha256) (r : Running) (plan : List String) : List Obs :=
  let steps := stepsOf r.opts plan
  let s := s.record r .modelCalls
  let s := s.log r "PlanGenerated" [("plan", .arr (steps.map fun step => .str step.action))]
  .metered .modelCalls :: .planned :: s.loopObs r steps

/-- What is seen of a new run. -/
def runObs (s : LocalRunner sha256) (intent : String) (opts : RunTaskOptions)
    (taskId runId : String) : List Obs :=
  let r : Running :=
    { intent := intent, taskId := taskId, runId := runId, opts := opts, results := []
      awaiting := .plan }
  let s := s.log r "RunCreated" [("intent", .str intent), ("mode", .str s.opts.mode.text)]
  let s := s.log r "TaskCreated" [("intent", .str intent)]
  let s := s.record r .runs
  .created :: .metered .runs ::
    match opts.plan with
    | some plan => s.plannedObs r plan
    | none => []

/-- What is seen when a wait of an execution ends. -/
def executeOnObs (s : LocalRunner sha256) (r : Running) (step : RunStep) (rest : List RunStep) :
    ExecutePoint → Wake → List Obs
  | .requested _, .done => [.resolved step.action (s.executors.contains step.action)]
  | .asked input, .answer true =>
      [.canExecute step.action (.ok true), .invoked step.action input]
  | .asked _, .answer false => [.canExecute step.action (.ok false)]
  | .asked _, .thrown message => [.canExecute step.action (.error message)]
  | .executing, .result result => [.returned step.action (.ok result)]
  | .executing, .thrown message => [.returned step.action (.error message)]
  | .returned result, .done =>
      .metered .toolCalls :: (s.record r .toolCalls).loopObs (r.push result) rest
  | _, _ => []

/-- What is seen when any wait ends. -/
def resumeObs (s : LocalRunner sha256) (r : Running) (wake : Wake) : List Obs :=
  match r.awaiting, wake with
  | .plan, .done => s.plannedObs r mockPlan
  | .approval step rest, .answer approved =>
      let granted := s.opts.asksForApproval && approved
      .approved step.action (.ok granted) ::
        if granted then
          let s := s.log r "ApprovalGranted" [("action", .str step.action)]
          s.attemptObs r step ++ resumeLoopObs rest (s.attempt r step rest)
        else
          let s := s.log r "ApprovalDenied"
            [("action", .str step.action), ("reason", .str "not approved")]
          s.loopObs (r.push (fail ("'" ++ step.action ++ "' requires approval"))) rest
  | .approval step _, .thrown message => [.approved step.action (.error message)]
  | .execute point step rest, wake => s.executeOnObs r step rest point wake
  | .verify, .checks checks => s.concludeObs r checks
  | .verify, .thrown _ => [.verifyThrew]
  | _, _ => []

end LocalRunner

/-- What is seen with a move, and of which run. -/
def System.observe (s : System sha256) (i : Nat) : Move → List Obs
  | .run intent opts taskId runId =>
      if s.runs.length = i then s.runner.runObs intent opts taskId runId else []
  | .resume j wake =>
      if j = i then
        match s.runs[j]? with
        | some r => s.runner.resumeObs r wake
        | none => []
      else []
  | .grant _ | .registerExecutor _ => []

/-! ## 3. What the observations say of the state -/

namespace LocalRunner

/-- Ledger, meter and executions have changed as the observations of the run say. -/
structure Shows (s s' : LocalRunner sha256) (runId : String) (obs : List Obs) : Prop where
  opts : s'.opts = s.opts
  marks : marksOf s'.ledger.events =
    marksOf s.ledger.events ++ (obs.filterMap Obs.mark).map fun m => (runId, m)
  meter : ∀ x, s'.meter.total x = s.meter.total x + obs.countP (Obs.meters x)
  invoked : invocationsOf s'.invoked =
    invocationsOf s.invoked ++ (obs.filterMap Obs.invocation).map fun v => (runId, v)

section Shows

variable {s s' s'' : LocalRunner sha256} {r : Running} {runId : String} {obs obs' : List Obs}

theorem Shows.refl (s : LocalRunner sha256) (runId : String) : Shows s s runId [] :=
  ⟨rfl, (List.append_nil _).symm, fun _ => rfl, (List.append_nil _).symm⟩

theorem Shows.of_same (hopts : s'.opts = s.opts) (hledger : s'.ledger = s.ledger)
    (hmeter : s'.meter = s.meter) (hinvoked : s'.invoked = s.invoked) : Shows s s' runId [] where
  opts := hopts
  marks := by rw [hledger]; exact (List.append_nil _).symm
  meter _ := by rw [hmeter]; rfl
  invoked := by rw [hinvoked]; exact (List.append_nil _).symm

theorem Shows.trans (h : Shows s s' runId obs) (h' : Shows s' s'' runId obs') :
    Shows s s'' runId (obs ++ obs') where
  opts := h'.opts.trans h.opts
  marks := by
    rw [h'.marks, h.marks, List.filterMap_append, List.map_append, List.append_assoc]
  meter x := by rw [h'.meter, h.meter, List.countP_append, Nat.add_assoc]
  invoked := by
    rw [h'.invoked, h.invoked, List.filterMap_append, List.map_append, List.append_assoc]

/-- Observations that nothing records. -/
def Silent (obs : List Obs) : Prop :=
  obs.filterMap Obs.mark = [] ∧ (∀ x, obs.countP (Obs.meters x) = 0) ∧
    obs.filterMap Obs.invocation = []

theorem Shows.silent (h : Shows s s' runId obs) (hsilent : Silent obs') :
    Shows s s' runId (obs' ++ obs) where
  opts := h.opts
  marks := by rw [List.filterMap_append, hsilent.1, List.nil_append, h.marks]
  meter x := by rw [List.countP_append, hsilent.2.1, Nat.zero_add, h.meter]
  invoked := by rw [List.filterMap_append, hsilent.2.2, List.nil_append, h.invoked]

theorem marksOf_append (events events' : List LedgerEvent) :
    marksOf (events ++ events') = marksOf events ++ marksOf events' := List.filterMap_append ..

/-- An event about the run, whoever it is by. -/
theorem append_shows {actor : Actor} {type taskId : String} {payload : Value}
    (hmark : (markOf type payload).toList = obs.filterMap Obs.mark)
    (hmeter : ∀ x, obs.countP (Obs.meters x) = 0)
    (hinvoked : obs.filterMap Obs.invocation = []) :
    Shows s (s.append actor type taskId runId payload) runId obs where
  opts := rfl
  marks := by
    change marksOf (s.ledger.events ++ [_]) = _
    rw [marksOf_append, ← hmark]
    congr 1
    unfold marksOf
    cases hm : markOf type payload with
    | none => simp [Ledger.event, hm]
    | some m => simp [Ledger.event, hm]
  meter x := by rw [hmeter]; rfl
  invoked := by
    rw [hinvoked, List.map_nil, List.append_nil]
    rfl

theorem record_shows {resource : UsageResource} :
    Shows s (s.record r resource) r.runId [.metered resource] where
  opts := rfl
  marks := by
    change marksOf (s.ledger.events ++ [_]) = _
    rw [marksOf_append]
    rfl
  meter x := by
    change Function.update s.meter.total resource (s.meter.total resource + 1) x = _
    by_cases hx : x = resource
    · subst hx
      simp [Obs.meters]
    · simp [Obs.meters, hx, Ne.symm hx]
  invoked := (List.append_nil _).symm

/-- What the incident engine records is about no run. -/
theorem marksOf_phases {new : List LedgerEvent} {phases : List String}
    (h : new.map (·.type) = phases.map ("immune.incident." ++ ·))
    (hphases : phases ⊆ ["detected", "classify", "contain"]) : marksOf new = [] := by
  refine List.filterMap_eq_nil_iff.mpr fun e he => ?_
  obtain ⟨phase, hphase, htype⟩ : ∃ phase ∈ phases, "immune.incident." ++ phase = e.type :=
    List.mem_map.mp (h ▸ List.mem_map_of_mem he)
  have hnone : markOf e.type e.payload = none := by
    rw [← htype]
    rcases List.mem_cons.mp (hphases hphase) with rfl | hphase
    · rfl
    rcases List.mem_cons.mp hphase with rfl | hphase
    · rfl
    obtain rfl := List.mem_singleton.mp hphase
    rfl
  rw [hnone]
  rfl

theorem immuneGate_shows {request : ImmuneRequest} :
    Shows s (s.immuneGate request).1 runId [] where
  opts := rfl
  marks := by
    obtain ⟨l', phases, hl', hphases, new, hnew, htypes, -⟩ :=
      ImmuneRuntime.apply_phases { s.immune with incidents :=
        { s.immune.incidents with ledger := some s.ledger } } (s.immune.config.evaluate request)
        request (s.clock.readings s.ledger.events.length) rfl
    have hledger : (s.immuneGate request).1.ledger = l' := by
      unfold immuneGate ImmuneRuntime.evaluateAndApply
      dsimp only
      rw [hl']
      rfl
    rw [hledger, hnew, marksOf_append, marksOf_phases htypes hphases]
    rfl
  meter _ := rfl
  invoked := (List.append_nil _).symm

end Shows

end LocalRunner

end AgentKernel.Runner
