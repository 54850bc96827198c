/-
  File:      AgentKernel/Runner/SmokeRunner.lean
  Subject:   The local smoke runner and the runs it serves (apps/cli/src/local-runner.ts).

  `createLocalSmokeRunner` grants three actions, approves of them and gives each an executor that
  only says so. The API server shares one such runner between its requests, and a run without
  options plans just these three actions.

  * `SmokeStage`: where a run is after so many waits, and what it has got so far;
  * `loop_smokes`, `resume_smokes`: from one wait to the next;
  * **`smoke_runs`**: in every interleaving each run is done after 18 waits at most, and passes
    unless it meets the budget of the runner, which 33 runs together cannot exhaust.
-/
import AgentKernel.Runner.Passed

namespace AgentKernel.Runner

open Lib Events Immune

variable {sha256 : String → String}

/-! ## 1. The runner -/

/-- `LOCAL_SMOKE_ACTIONS`. -/
def localSmokeActions : List String := ["repo.read", "test.run", "github.pull_request.create"]

/-- The grant of one of the actions. -/
def smokeGrant (action : String) : Grant where
  id := "local-smoke-" ++ action
  principal := "coder"
  capability := action
  scope := "*"
  effect := .allow

/-- The options of the smoke runner. -/
def smokeOptions (mode : RunMode) : RunnerOptions where
  mode := mode
  approvalPolicy :=
    [("repo.read", .auto), ("test.run", .auto), ("github.pull_request.create", .auto)]

/-- What the executor of an action returns. -/
def smokeExecute (action : String) (input : Value) : Result where
  status := .success
  output := .obj [("action", .str action), ("input", input), ("mode", .str "local-smoke")]
  evidence := [{ evidenceId := action ++ "-local-smoke", kind := "local_smoke" }]

/-- The runner with its three grants and its three executors. -/
def createLocalSmokeRunner (mode : RunMode) (clock : Clock) : System sha256 :=
  localSmokeActions.foldl
    (fun s action =>
      ((s.step (.grant (smokeGrant action))).bind (·.step (.registerExecutor action))).getD s)
    (.create (smokeOptions mode) clock)

/-- How the wait of a run ends on such a runner. -/
def smokeWake (r : Running) : LocalRunner.Wake :=
  match r.awaiting with
  | .execute (.asked _) _ _ => .answer true
  | .execute .executing step _ =>
      match LocalRunner.resolveInput step r.results with
      | .ok input => .result (smokeExecute step.action input)
      | .error message => .thrown message
  | _ => .done

namespace System

/-- A new run without options, or the next stretch of one. -/
def Serves (s : System sha256) : Move → Prop
  | .run _ opts _ _ => opts = {}
  | .resume i wake => ∃ r, s.runs[i]? = some r ∧ wake = smokeWake r
  | .grant _ | .registerExecutor _ => False

/-- The next stretch of a run. -/
def goOn (s : System sha256) (i : Nat) : Option (System sha256) :=
  (s.runs[i]?).bind fun r => s.step (.resume i (smokeWake r))

end System

/-- A call of `run` on a new smoke runner, to its end. -/
def smokeRun (sha256 : String → String) (mode : RunMode) (clock : Clock)
    (intent taskId runId : String) : Option ProofCarryingOutcome := do
  let started ← System.step (createLocalSmokeRunner mode clock : System sha256)
    (.run intent {} taskId runId)
  let s ← exec System.goOn started (List.replicate 18 0)
  match s.runs[0]?.map Running.awaiting with
  | some (.settled (.ok outcome)) => some outcome
  | _ => none

/-- What a run is called by. -/
structure Called where
  intent : String
  taskId : String
  runId : String

/-- What a run has been called with. -/
def Running.called (r : Running) : Called := ⟨r.intent, r.taskId, r.runId⟩

/-- What an outcome says it has been called with. -/
def ProofCarryingOutcome.called (outcome : ProofCarryingOutcome) : Called :=
  ⟨outcome.intent, outcome.taskId, outcome.runId⟩

/-- The call of a move that starts a run. -/
def Move.called : Move → Option Called
  | .run intent _ taskId runId => some ⟨intent, taskId, runId⟩
  | _ => none

/-- How often the moves go on with the `i`-th run. -/
def resumes (i : Nat) (ms : List Move) : Nat :=
  ms.countP fun m =>
    match m with
    | .resume j _ => j = i
    | _ => false

/-! ## 2. Where a run is -/

/-- The steps of a run without options. -/
def smokeSteps : List RunStep :=
  mockPlan.map fun action => { action := action, input := some (.value (.obj [])) }

/-- What an executor says of a step. -/
def smokeResult (step : RunStep) : Result := smokeExecute step.action (.obj [])

/-- The waits of one execution, in their order. -/
inductive SmokePoint (step : RunStep) : ExecutePoint → Nat → Prop where
  | requested : SmokePoint step (.requested (.obj [])) 0
  | asked : SmokePoint step (.asked (.obj [])) 1
  | executing : SmokePoint step .executing 2
  | completed : SmokePoint step (.completed (smokeResult step)) 3
  | returned : SmokePoint step (.returned (smokeResult step)) 4

/-- The waits of a run that has its verdict. -/
inductive SmokeEnd (r : Running) (verdict : Verdict) : Nat → Prop where
  | billing {verification : Verification} {usage : Usage}
      (h : r.awaiting = .billing verification usage) (hv : verification.verdict = verdict) :
      SmokeEnd r verdict 0
  | flush {verification : Verification} {usage : Usage}
      (h : r.awaiting = .flush verification usage) (hv : verification.verdict = verdict) :
      SmokeEnd r verdict 1
  | settled {outcome : ProofCarryingOutcome} (h : r.awaiting = .settled (.ok outcome))
      (hv : outcome.verdict = verdict) (hresults : outcome.results = r.results)
      (hcalled : outcome.called = r.called) : SmokeEnd r verdict 2

/-- Where a run is after so many of its waits. -/
inductive SmokeStage (r : Running) : Nat → Prop where
  | planning (h : r.awaiting = .plan) (hresults : r.results = []) : SmokeStage r 0
  | executing {done rest : List RunStep} {step : RunStep} {point : ExecutePoint} {j : Nat}
      (h : r.awaiting = .execute point step rest) (hsteps : smokeSteps = done ++ step :: rest)
      (hresults : r.results = done.map smokeResult) (hpoint : SmokePoint step point j) :
      SmokeStage r (1 + 5 * done.length + j)
  | passed {j : Nat} (h : SmokeEnd r .passed j) (hresults : r.results = smokeSteps.map smokeResult) :
      SmokeStage r (16 + j)
  | refused {done rest : List RunStep} {step : RunStep} {reason : String} {j : Nat}
      (h : SmokeEnd r .failed j) (hsteps : smokeSteps = done ++ step :: rest)
      (hresults : r.results = done.map smokeResult ++ [fail reason]) :
      SmokeStage r (1 + 5 * done.length + j)

/-- How many of its executions a run has recorded. -/
def successes (r : Running) : Nat := r.results.countP (·.status = .success)

/-- The run has met the budget. -/
def Refused (r : Running) : Prop := ∃ result ∈ r.results, result.status = .failure

section Results

variable {done : List RunStep} {reason : String}

theorem smokeResult_success {result : Result} (h : result ∈ done.map smokeResult) :
    result.status = .success := by
  obtain ⟨step, -, rfl⟩ := List.mem_map.mp h
  rfl

theorem successes_done : (done.map smokeResult).countP (·.status = .success) = done.length := by
  rw [List.countP_eq_length.mpr fun result hr => decide_eq_true (smokeResult_success hr),
    List.length_map]

theorem successes_refused :
    (done.map smokeResult ++ [fail reason]).countP (·.status = .success) = done.length := by
  rw [List.countP_append, successes_done]
  rfl

theorem length_done {rest : List RunStep} {step : RunStep}
    (hsteps : smokeSteps = done ++ step :: rest) : done.length ≤ 2 := by
  have hlength := congrArg List.length hsteps
  rw [List.length_append, List.length_cons] at hlength
  have hthree : smokeSteps.length = 3 := rfl
  omega

/-- What a step of such a run is. -/
theorem smoke_step {rest : List RunStep} {step : RunStep}
    (hsteps : smokeSteps = done ++ step :: rest) :
    step.action ∈ localSmokeActions ∧ step.input = some (.value (.obj [])) := by
  have hmem : step ∈ smokeSteps := by
    rw [hsteps]
    exact List.mem_append_right _ List.mem_cons_self
  obtain ⟨action, haction, rfl⟩ := List.mem_map.mp hmem
  exact ⟨haction, rfl⟩

theorem verdict_passed (id target : String) :
    (verify id target (LocalRunner.checksOf (smokeSteps.map smokeResult))).verdict = .passed := rfl

theorem verdict_failed {results : List Result} (id target : String)
    (h : ∃ result ∈ results, result.status = .failure) :
    (verify id target (LocalRunner.checksOf results)).verdict = .failed := by
  obtain ⟨result, hmem, hfailure⟩ := h
  obtain ⟨check, hcheck, hverdict⟩ := exists_check hmem
  have hfailed : check.verdict = .failed := by
    rw [hverdict, if_neg (by rw [hfailure]; decide)]
  have hsome : (LocalRunner.checksOf results).length ≠ 0 := by
    intro hnil
    rw [List.length_eq_zero_iff.mp hnil] at hcheck
    cases hcheck
  have hany : (LocalRunner.checksOf results).any (·.verdict = .failed) = true :=
    List.any_eq_true.mpr ⟨check, hcheck, decide_eq_true hfailed⟩
  have hderived : deriveVerdict (LocalRunner.checksOf results) = .failed := by
    unfold deriveVerdict
    rw [if_neg hsome, if_pos hany]
  unfold verify
  simp [hderived]

end Results

/-! ## 3. From one wait to the next -/

namespace LocalRunner

/-- The runner is as it has been set up. -/
structure Ready (mode : RunMode) (s : LocalRunner sha256) : Prop where
  opts : s.opts = smokeOptions mode
  policy : s.policy =
    { grants := localSmokeActions.map smokeGrant, approvalPolicy := (smokeOptions mode).approvalPolicy }
  executors : s.executors = localSmokeActions
  gate : s.immune.config = {}

variable {mode : RunMode} {s s' : LocalRunner sha256} {r : Running} {step : RunStep}
  {rest done : List RunStep} {out : LocalRunner sha256 × Running}

/-- What a stretch leaves behind: the run is at a stage, and no call has been recorded. -/
structure Smokes (mode : RunMode) (s : LocalRunner sha256) (r : Running) (n calls : Nat)
    (out : LocalRunner sha256 × Running) : Prop where
  ready : Ready mode out.1
  opts : out.2.opts = {}
  called : out.2.called = r.called
  meter : out.1.meter.total .toolCalls = s.meter.total .toolCalls
  stage : SmokeStage out.2 n
  calls : successes out.2 = calls
  spent : Refused out.2 → 100 ≤ s.meter.total .toolCalls

theorem smoke_decides (h : Ready mode s) (hopts : r.opts = {})
    (haction : step.action ∈ localSmokeActions) :
    (s.policy.evaluate r.actorId step.action "*").allowed = true ∧
      (s.policy.evaluate r.actorId step.action "*").approvalRequired = false := by
  have hactor : r.actorId = "coder" := by
    unfold Running.actorId
    rw [hopts]
    rfl
  rw [h.policy, hactor]
  simp only [localSmokeActions, List.mem_cons, List.not_mem_nil, or_false] at haction
  rcases haction with haction | haction | haction <;> rw [haction] <;> exact ⟨rfl, rfl⟩

theorem smoke_admits (h : Ready mode s) (hopts : r.opts = {})
    (haction : step.action ∈ localSmokeActions) :
    ∃ s' decision, s.immuneGate (requestOf r step) = (s', .ok decision) ∧
      decision.allowed = true ∧ Ready mode s' ∧ s'.meter = s.meter := by
  have hrequest : requestOf r step =
      { principal := { id := "coder", type := .agent, trust := .verified }
        capability := step.action, scope := some "*" } := by
    unfold requestOf Running.actorId
    rw [hopts]
    rfl
  have hallow : (s.immune.config.evaluate (requestOf r step)).allowed = true ∧
      (s.immune.config.evaluate (requestOf r step)).action = .allow := by
    rw [h.gate, hrequest]
    simp only [localSmokeActions, List.mem_cons, List.not_mem_nil, or_false] at haction
    rcases haction with haction | haction | haction <;> rw [haction] <;> exact ⟨rfl, rfl⟩
  have hout : s.immuneGate (requestOf r step) =
      ({ s with immune := { s.immune with incidents :=
          { s.immune.incidents with ledger := some s.ledger } } },
        .ok (s.immune.config.evaluate (requestOf r step))) := by
    unfold immuneGate ImmuneRuntime.evaluateAndApply ImmuneRuntime.apply
    dsimp only
    rw [if_pos (.inl hallow.2)]
    rfl
  exact ⟨_, _, hout, hallow.1, ⟨h.opts, h.policy, h.executors, h.gate⟩, rfl⟩

theorem smoke_within (h : Ready mode s) :
    (s.opts.budget.allows s.meter.total .toolCalls 1).allowed = true ↔
      s.meter.total .toolCalls < 100 := by
  rw [h.opts, BudgetPolicy.allows_iff]
  unfold BudgetPolicy.Within
  have hlimit : (smokeOptions mode).budget.limitFor .toolCalls = some (.ofNat 100) := rfl
  rw [hlimit]
  simp only [Option.mem_def, Option.some.injEq, forall_eq', Limit.admits, Limit.ofNat,
    decide_eq_true_eq]
  norm_cast

/-- The end of a run, with the verdict of its results. -/
theorem conclude_smokes (h : Ready mode s) (hopts : r.opts = {}) {verdict : Verdict} {n : Nat}
    (hverdict : ∀ id, (verify id r.intent (checksOf r.results)).verdict = verdict)
    (hstage : ∀ r' : Running, SmokeEnd r' verdict 0 → r'.results = r.results → SmokeStage r' n)
    (hspent : Refused r → 100 ≤ s.meter.total .toolCalls) :
    Smokes mode s r n (successes r) (s.afterLoop r) := by
  have hverifies : r.opts.verifies = false := by rw [hopts]
  unfold afterLoop
  rw [if_neg (by simp [hverifies])]
  unfold conclude
  dsimp only
  refine ⟨?_, hopts, rfl, ?_, hstage _ (.billing rfl (hverdict _)) rfl, rfl, hspent⟩
  · split_ifs <;> exact ⟨h.opts, h.policy, h.executors, h.gate⟩
  · split_ifs <;> rfl

/-- **The loop comes to the next execution, or to the end.** -/
theorem loop_smokes {steps : List RunStep} (h : Ready mode s) (hopts : r.opts = {})
    (hsteps : smokeSteps = done ++ steps) (hresults : r.results = done.map smokeResult) :
    Smokes mode s r (1 + 5 * done.length) done.length (s.loop r steps) := by
  have hcalls : successes r = done.length := by
    unfold successes
    rw [hresults, successes_done]
  have hfine : ¬ Refused r := by
    rintro ⟨result, hmem, hfailure⟩
    rw [hresults] at hmem
    rw [smokeResult_success hmem] at hfailure
    cases hfailure
  cases steps with
  | nil =>
      rw [List.append_nil] at hsteps
      rw [← hcalls]
      unfold loop
      refine @conclude_smokes _ _ _ _ h hopts .passed _ (fun id => ?_) (fun r' hend hsame => ?_)
        fun hrefused => absurd hrefused hfine
      · rw [hresults, ← hsteps, verdict_passed]
      · have hlength : successes r = 3 := by rw [hcalls, ← hsteps]; rfl
        rw [hlength]
        exact .passed hend (by rw [hsame, hresults, hsteps])
  | cons step rest =>
      obtain ⟨haction, hinput⟩ := smoke_step hsteps
      obtain ⟨hallowed, hrequired⟩ := smoke_decides h hopts haction
      have hguard : (s.opts.capabilityGuard.bind fun guard => guard step.action) = none := by
        rw [h.opts]
        rfl
      have hconsider : s.consider r step rest = s.attempt r step rest := by
        unfold consider
        rw [hguard]
        simp [hallowed, hrequired]
      unfold loop
      rw [hconsider]
      unfold attempt
      dsimp only
      by_cases hquota : (s.opts.budget.allows s.meter.total .toolCalls 1).allowed = true
      · obtain ⟨s', decision, hgate, hadmitted, hready, hmeter⟩ := smoke_admits h hopts haction
        have hresolve : resolveInput step r.results = .ok (.obj []) := by
          unfold resolveInput
          rw [hinput]
        rw [if_neg (by simp [hquota]), hgate]
        dsimp only
        rw [if_neg (by simp [hadmitted]), hresolve]
        dsimp only
        have hagain := (smoke_decides hready hopts haction).1
        unfold execute
        dsimp only
        rw [if_neg (by simp [hagain])]
        have hstage : SmokeStage (r.await (.execute (.requested (.obj [])) step rest))
            (1 + 5 * done.length + 0) := .executing (r := r.await _) rfl hsteps hresults .requested
        refine ⟨⟨hready.opts, hready.policy, hready.executors, hready.gate⟩, hopts, rfl, ?_, hstage,
          hcalls, fun hrefused => absurd hrefused hfine⟩
        exact congrArg (fun m : UsageMeter => m.total .toolCalls) hmeter
      · have hspent : 100 ≤ s.meter.total .toolCalls := by
          by_contra hlt
          exact hquota ((smoke_within h).mpr (by omega))
        rw [if_pos (by simpa using hquota)]
        dsimp only
        have hready : Ready mode (s.log r "QuotaExceeded" [("action", .str step.action),
            ("reason", .str (s.opts.budget.allows s.meter.total .toolCalls 1).reason)]) :=
          ⟨h.opts, h.policy, h.executors, h.gate⟩
        have hmore : (r.push (fail (s.opts.budget.allows s.meter.total .toolCalls 1).reason)).results
            = done.map smokeResult ++
              [fail (s.opts.budget.allows s.meter.total .toolCalls 1).reason] := by
          unfold Running.push
          rw [hresults]
        have hsame : successes (r.push
            (fail (s.opts.budget.allows s.meter.total .toolCalls 1).reason)) = done.length := by
          unfold successes
          rw [hmore, successes_refused]
        have hends := @conclude_smokes sha256 mode _ (r.push _) hready hopts .failed
          (1 + 5 * done.length)
          (fun id => verdict_failed _ _
            ⟨_, hmore ▸ List.mem_append_right _ (List.mem_singleton_self _), rfl⟩)
          (fun r' hend hr' => .refused hend hsteps (hr'.trans hmore)) fun _ => hspent
        rw [hsame] at hends
        exact ⟨hends.ready, hends.opts, hends.called, hends.meter, hends.stage, hends.calls,
          hends.spent⟩

/-- What a stretch from a wait on leaves behind. -/
structure Advances (mode : RunMode) (s : LocalRunner sha256) (r : Running) (n : Nat)
    (out : LocalRunner sha256 × Running) : Prop where
  ready : Ready mode out.1
  opts : out.2.opts = {}
  called : out.2.called = r.called
  stage : SmokeStage out.2 n
  /-- The calls of the run are those on the meter. -/
  calls : out.1.meter.total .toolCalls + successes r = s.meter.total .toolCalls + successes out.2
  more : s.meter.total .toolCalls ≤ out.1.meter.total .toolCalls
  spent : Refused out.2 → Refused r ∨ 100 ≤ out.1.meter.total .toolCalls

/-- A stretch that records no result. -/
theorem Advances.same {t : LocalRunner sha256} {n : Nat} {awaiting : Awaiting} (h : Ready mode t)
    (hopts : r.opts = {}) (hmeter : t.meter = s.meter)
    (hstage : SmokeStage (r.await awaiting) n) : Advances mode s r n (t, r.await awaiting) :=
  ⟨h, hopts, rfl, hstage, by rw [hmeter]; rfl, by rw [hmeter], .inl⟩

theorem executeOn_smokes {point : ExecutePoint} {j : Nat} (h : Ready mode s) (hopts : r.opts = {})
    (hawaits : r.awaiting = .execute point step rest) (hsteps : smokeSteps = done ++ step :: rest)
    (hresults : r.results = done.map smokeResult) (hpoint : SmokePoint step point j) :
    ∃ out, s.executeOn r step rest point (smokeWake r) = some out ∧
      Advances mode s r (1 + 5 * done.length + (j + 1)) out := by
  obtain ⟨haction, hinput⟩ := smoke_step hsteps
  have hwake : smokeWake r = smokeWake (r.await (.execute point step rest)) := by
    unfold smokeWake
    rw [hawaits]
    rfl
  rw [hwake]
  have hstage : ∀ {point : ExecutePoint} {j : Nat}, SmokePoint step point j →
      SmokeStage (r.await (.execute point step rest)) (1 + 5 * done.length + j) :=
    fun hpoint => .executing (r := r.await _) rfl hsteps hresults hpoint
  have hresolve : resolveInput step (r.await (.execute point step rest)).results =
      .ok (.obj []) := by
    unfold resolveInput
    rw [hinput]
  cases hpoint with
  | requested =>
      have hhas : s.executors.contains step.action = true := by
        rw [h.executors]
        exact List.contains_iff_mem.mpr haction
      refine ⟨_, if_pos hhas, .same h hopts rfl (hstage .asked)⟩
  | asked =>
      exact ⟨_, rfl, .same (t := { s with invoked := _ }) ⟨h.opts, h.policy, h.executors, h.gate⟩
        hopts rfl (hstage .executing)⟩
  | executing =>
      have hreturns : smokeWake (r.await (.execute .executing step rest)) =
          .result (smokeResult step) := by
        change (match resolveInput step r.results with
          | .ok input => Wake.result (smokeExecute step.action input)
          | .error message => .thrown message) = _
        rw [show resolveInput step r.results = .ok (.obj []) from hresolve]
        rfl
      rw [hreturns]
      exact ⟨_, rfl, .same (t := s.emit r _ _) ⟨h.opts, h.policy, h.executors, h.gate⟩ hopts rfl
        (hstage .completed)⟩
  | completed => exact ⟨_, rfl, .same h hopts rfl (hstage .returned)⟩
  | returned =>
      refine ⟨_, rfl, ?_⟩
      have hready : Ready mode (s.record r .toolCalls) := ⟨h.opts, h.policy, h.executors, h.gate⟩
      have hmore : (r.push (smokeResult step)).results = (done ++ [step]).map smokeResult := by
        unfold Running.push
        rw [hresults, List.map_append]
        rfl
      have hon : Smokes mode (s.record r .toolCalls) (r.push (smokeResult step))
          (1 + 5 * (done ++ [step]).length) (done ++ [step]).length
          ((s.record r .toolCalls).loop (r.push (smokeResult step)) rest) := loop_smokes hready hopts
        (by rw [hsteps, List.append_assoc]; rfl) hmore
      have hlength : (done ++ [step]).length = done.length + 1 := List.length_append
      rw [hlength] at hon
      have hbefore : successes r = done.length := by
        unfold successes
        rw [hresults, successes_done]
      have hmeter := hon.meter
      rw [record_total, if_pos rfl] at hmeter
      refine ⟨hon.ready, hon.opts, hon.called, hon.stage, ?_, by omega, fun hrefused => .inr ?_⟩
      · have hcalls := hon.calls
        omega
      · have hspent := hon.spent hrefused
        rw [record_total, if_pos rfl] at hspent
        omega

/-- The waits of a run that has its verdict. -/
theorem smokeEnd_resume {verdict : Verdict} {j : Nat} (h : SmokeEnd r verdict j)
    (hgoes : ∀ outcome, r.awaiting ≠ .settled outcome) :
    ∃ awaiting, s.resume r (smokeWake r) = some (s, r.await awaiting) ∧
      SmokeEnd (r.await awaiting) verdict (j + 1) := by
  unfold resume smokeWake
  cases h with
  | billing h hv =>
      rw [h]
      exact ⟨_, rfl, .flush (r := r.await _) rfl hv⟩
  | flush h hv =>
      rw [h]
      exact ⟨_, rfl, .settled (r := r.await _) rfl hv rfl rfl⟩
  | settled h => exact absurd h (hgoes _)

/-- **From one wait to the next.** -/
theorem resume_smokes {n : Nat} (h : Ready mode s) (hopts : r.opts = {}) (hstage : SmokeStage r n)
    (hgoes : ∀ outcome, r.awaiting ≠ .settled outcome) :
    ∃ out, s.resume r (smokeWake r) = some out ∧ Advances mode s r (n + 1) out := by
  cases hstage with
  | planning hawaits hresults =>
      have hplanned : s.resume r (smokeWake r) = some (s.planned r mockPlan) := by
        unfold resume smokeWake
        rw [hawaits]
      have hnosteps : r.opts.steps.getD (mockPlan.map fun action =>
          { action := action, input := some (.value (.obj [])) }) = smokeSteps := by
        rw [hopts]
        rfl
      refine ⟨_, hplanned, ?_⟩
      unfold planned
      rw [hnosteps]
      dsimp only
      have hready : Ready mode ((s.record r .modelCalls).log r "PlanGenerated"
          [("plan", .arr (smokeSteps.map fun step => .str step.action))]) :=
        ⟨h.opts, h.policy, h.executors, h.gate⟩
      have hon := @loop_smokes _ _ _ _ [] smokeSteps hready hopts rfl hresults
      have hmeter : ((s.record r .modelCalls).log r "PlanGenerated"
          [("plan", .arr (smokeSteps.map fun step => .str step.action))]).meter.total .toolCalls =
            s.meter.total .toolCalls := by
        change (s.record r .modelCalls).meter.total .toolCalls = _
        rw [record_total, if_neg (by decide), Nat.add_zero]
      have hbefore : successes r = 0 := by
        unfold successes
        rw [hresults]
        rfl
      have hafter := hon.meter
      refine ⟨hon.ready, hon.opts, hon.called, hon.stage, ?_, by omega, fun hrefused => .inr ?_⟩
      · have hcalls := hon.calls
        rw [hbefore, hcalls, hafter, hmeter]
        rfl
      · have hspent := hon.spent hrefused
        omega
  | executing hawaits hsteps hresults hpoint =>
      obtain ⟨out, hout, hon⟩ := executeOn_smokes h hopts hawaits hsteps hresults hpoint
      refine ⟨out, ?_, by rwa [Nat.add_assoc]⟩
      rw [← hout]
      unfold resume
      rw [hawaits]
  | passed hend hresults =>
      obtain ⟨awaiting, hout, hon⟩ := smokeEnd_resume (s := s) hend hgoes
      refine ⟨_, hout, .same h hopts rfl ?_⟩
      rw [Nat.add_assoc]
      exact .passed hon hresults
  | refused hend hsteps hresults =>
      obtain ⟨awaiting, hout, hon⟩ := smokeEnd_resume (s := s) hend hgoes
      refine ⟨_, hout, .same h hopts rfl ?_⟩
      rw [Nat.add_assoc]
      exact .refused hon hsteps hresults

end LocalRunner

/-! ## 4. All the runs of a runner -/

theorem resumes_snoc {i : Nat} {ms : List Move} {m : Move} :
    resumes i (ms ++ [m]) = resumes i ms + resumes i [m] := List.countP_append

theorem smokeStage_le {r : Running} {n : Nat} (h : SmokeStage r n) : n ≤ 18 := by
  have hend : ∀ {verdict : Verdict} {j : Nat}, SmokeEnd r verdict j → j ≤ 2 := by
    rintro verdict j (h | h | h) <;> omega
  cases h with
  | planning => omega
  | executing _ hsteps _ hpoint =>
      have hdone := length_done hsteps
      cases hpoint <;> omega
  | passed h =>
      have hj := hend h
      omega
  | refused h hsteps =>
      have hdone := length_done hsteps
      have hj := hend h
      omega

theorem successes_le {r : Running} {n : Nat} (h : SmokeStage r n) : successes r ≤ 3 := by
  unfold successes
  cases h with
  | planning _ hresults => rw [hresults]; decide
  | executing _ hsteps hresults =>
      have hdone := length_done hsteps
      rw [hresults, successes_done]
      omega
  | passed _ hresults => rw [hresults]; decide
  | refused _ hsteps hresults =>
      have hdone := length_done hsteps
      rw [hresults, successes_refused]
      omega

/-- A run that is done has passed with its three successes, or has met the budget. -/
theorem smokeStage_settled {r : Running} {n : Nat} (h : SmokeStage r n)
    {settled : Except RunError ProofCarryingOutcome} (hsettled : r.awaiting = .settled settled) :
    ∃ outcome, settled = .ok outcome ∧ outcome.called = r.called ∧
      ((outcome.verdict = .passed ∧ outcome.results = smokeSteps.map smokeResult) ∨
        (outcome.verdict = .failed ∧ Refused r)) := by
  have hend : ∀ {verdict : Verdict} {j : Nat}, SmokeEnd r verdict j →
      ∃ outcome, settled = .ok outcome ∧ outcome.verdict = verdict ∧
        outcome.results = r.results ∧ outcome.called = r.called := by
    rintro verdict j (h | h | ⟨h, hv, hresults, hcalled⟩)
    · rw [hsettled] at h
      cases h
    · rw [hsettled] at h
      cases h
    · rw [hsettled] at h
      exact ⟨_, Awaiting.settled.inj h, hv, hresults, hcalled⟩
  cases h with
  | planning h =>
      rw [hsettled] at h
      cases h
  | executing h =>
      rw [hsettled] at h
      cases h
  | passed h hresults =>
      obtain ⟨outcome, houtcome, hverdict, hsame, hcalled⟩ := hend h
      exact ⟨outcome, houtcome, hcalled, .inl ⟨hverdict, hsame.trans hresults⟩⟩
  | @refused _ _ _ reason _ h _ hresults =>
      obtain ⟨outcome, houtcome, hverdict, -, hcalled⟩ := hend h
      refine ⟨outcome, houtcome, hcalled, .inr ⟨hverdict, fail reason, ?_, rfl⟩⟩
      rw [hresults]
      exact List.mem_append_right _ (List.mem_singleton_self _)

namespace System

variable {mode : RunMode} {clock : Clock} {ms : List Move} {s s' : System sha256} {m : Move}

/-- What holds of a smoke runner and its runs after some moves. -/
structure Smoking (mode : RunMode) (ms : List Move) (s : System sha256) : Prop where
  ready : LocalRunner.Ready mode s.runner
  opts : ∀ r ∈ s.runs, r.opts = {}
  stage : ∀ i r, s.runs[i]? = some r → SmokeStage r (resumes i ms)
  fresh : ∀ i, s.runs.length ≤ i → resumes i ms = 0
  called : s.runs.map Running.called = ms.filterMap Move.called
  calls : s.runner.meter.total .toolCalls = (s.runs.map successes).sum
  spent : ∀ r ∈ s.runs, Refused r → 100 ≤ s.runner.meter.total .toolCalls

theorem create_smoking :
    Smoking mode [] (createLocalSmokeRunner mode clock : System sha256) where
  ready := ⟨rfl, rfl, rfl, rfl⟩
  opts := by
    intro r hr
    cases hr
  stage := by
    intro i r hr
    cases hr
  fresh _ _ := rfl
  called := rfl
  calls := rfl
  spent := by
    intro r hr
    cases hr

theorem run_smoking (h : Smoking mode ms s) (intent taskId runId : String) :
    Smoking mode (ms ++ [.run intent {} taskId runId])
      { runner := (s.runner.run intent {} taskId runId).1
        runs := s.runs ++ [(s.runner.run intent {} taskId runId).2] } := by
  have hmeter : (s.runner.run intent {} taskId runId).1.meter.total .toolCalls =
      s.runner.meter.total .toolCalls := by
    unfold LocalRunner.run
    dsimp only
    rw [LocalRunner.record_total, if_neg (by decide), Nat.add_zero]
    rfl
  have hsame : ∀ i, resumes i (ms ++ [.run intent {} taskId runId]) = resumes i ms :=
    fun i => resumes_snoc
  refine ⟨⟨h.ready.opts, h.ready.policy, h.ready.executors, h.ready.gate⟩, fun r hr => ?_,
    fun i r hr => ?_, fun i hi => ?_, ?_, ?_, fun r hr => ?_⟩
  · rcases List.mem_append.mp hr with hr | hr
    · exact h.opts r hr
    · rw [List.mem_singleton.mp hr]
      rfl
  · rw [hsame]
    rcases Nat.lt_trichotomy i s.runs.length with hlt | rfl | hgt
    · rw [List.getElem?_append_left hlt] at hr
      exact h.stage i r hr
    · rw [List.getElem?_concat_length] at hr
      obtain rfl := Option.some.inj hr
      rw [h.fresh _ le_rfl]
      exact .planning rfl rfl
    · rw [List.getElem?_eq_none (by simpa using hgt)] at hr
      cases hr
  · rw [hsame]
    refine h.fresh i ?_
    rw [List.length_append] at hi
    exact (Nat.le_add_right _ _).trans hi
  · rw [List.map_append, List.filterMap_append, h.called]
    rfl
  · rw [hmeter, h.calls, List.map_append, List.sum_append]
    rfl
  · rw [hmeter]
    rcases List.mem_append.mp hr with hr | hr
    · exact h.spent r hr
    · rw [List.mem_singleton.mp hr]
      rintro ⟨result, hresult, -⟩
      cases hresult

theorem resume_smoking {i : Nat} {r : Running} (h : Smoking mode ms s) (hr : s.runs[i]? = some r)
    {out : LocalRunner sha256 × Running}
    (hout : s.runner.resume r (smokeWake r) = some out) :
    Smoking mode (ms ++ [.resume i (smokeWake r)])
      { runner := out.1, runs := s.runs.set i out.2 } := by
  have hgoes : ∀ outcome, r.awaiting ≠ .settled outcome := by
    intro outcome hsettled
    unfold LocalRunner.resume at hout
    rw [hsettled] at hout
    cases hout
  have hmem := List.mem_of_getElem? hr
  obtain ⟨out', hout', hon⟩ :=
    LocalRunner.resume_smokes h.ready (h.opts r hmem) (h.stage i r hr) hgoes
  obtain rfl := Option.some.inj (hout'.symm.trans hout)
  have hi : i < s.runs.length := (List.getElem?_eq_some_iff.mp hr).1
  have hmore := hon.more
  have hother : ∀ j, j ≠ i → resumes j (ms ++ [.resume i (smokeWake r)]) = resumes j ms := by
    intro j hj
    rw [resumes_snoc]
    simp [resumes, Ne.symm hj]
  have hself : resumes i (ms ++ [.resume i (smokeWake r)]) = resumes i ms + 1 := by
    rw [resumes_snoc]
    simp [resumes]
  refine ⟨hon.ready, fun r' hr' => ?_, fun j r' hr' => ?_, fun j hj => ?_, ?_, ?_,
    fun r' hr' => ?_⟩
  · rcases List.mem_or_eq_of_mem_set hr' with hr' | rfl
    · exact h.opts r' hr'
    · exact hon.opts
  · by_cases hji : j = i
    · subst hji
      rw [List.getElem?_set_self hi] at hr'
      obtain rfl := Option.some.inj hr'
      rw [hself]
      exact hon.stage
    · rw [List.getElem?_set_ne (Ne.symm hji)] at hr'
      rw [hother j hji]
      exact h.stage j r' hr'
  · rw [List.length_set] at hj
    rw [hother j (by omega)]
    exact h.fresh j hj
  · have hkept : (s.runs.set i out'.2).map Running.called = s.runs.map Running.called := by
      refine List.ext_getElem? fun j => ?_
      rw [List.getElem?_map, List.getElem?_map]
      by_cases hji : j = i
      · subst hji
        rw [List.getElem?_set_self hi, hr, Option.map_some, Option.map_some, hon.called]
      · rw [List.getElem?_set_ne (Ne.symm hji)]
    rw [hkept, h.called, List.filterMap_append]
    exact (List.append_nil _).symm
  · have hsum := sum_map_set successes out'.2 hr
    have hcalls := hon.calls
    have hbefore := h.calls
    dsimp only
    omega
  · rcases List.mem_or_eq_of_mem_set hr' with hr' | rfl
    · exact fun hrefused => (h.spent r' hr' hrefused).trans hmore
    · intro hrefused
      rcases hon.spent hrefused with hbefore | hspent
      · exact (h.spent r hmem hbefore).trans hmore
      · exact hspent

theorem step_smoking (h : Smoking mode ms s) (hserves : s.Serves m) (hs : s.step m = some s') :
    Smoking mode (ms ++ [m]) s' := by
  cases m with
  | run intent opts taskId runId =>
      obtain rfl : opts = {} := hserves
      cases hs
      exact run_smoking h intent taskId runId
  | resume i wake =>
      obtain ⟨r, hr, rfl⟩ := hserves
      obtain ⟨r', hr', hout⟩ := Option.bind_eq_some_iff.mp hs
      obtain rfl := Option.some.inj (hr.symm.trans hr')
      obtain ⟨out, hresume, rfl⟩ := Option.map_eq_some_iff.mp hout
      exact resume_smoking h hr hresume
  | grant _ => exact hserves.elim
  | registerExecutor _ => exact hserves.elim

theorem smoking (h : Run System.step Serves (createLocalSmokeRunner mode clock) ms s) :
    Smoking mode ms s := by
  induction h with
  | start => exact create_smoking
  | next _ hserves hs ih => exact step_smoking ih hserves hs

/-- Few runs cannot meet the budget. -/
theorem Smoking.fine (h : Smoking mode ms s) (hfew : s.runs.length ≤ 33) {r : Running}
    (hr : r ∈ s.runs) : ¬ Refused r := by
  intro hrefused
  have hspent := h.spent r hr hrefused
  have hle : (s.runs.map successes).sum ≤ (s.runs.map successes).length • 3 :=
    List.sum_le_card_nsmul _ 3 fun k hk => by
      obtain ⟨r', hr', rfl⟩ := List.mem_map.mp hk
      obtain ⟨j, hj⟩ := List.mem_iff_getElem?.mp hr'
      exact successes_le (h.stage j r' hj)
  rw [← h.calls, List.length_map, smul_eq_mul] at hle
  omega

/-- A run goes on until it is done, with one of two outcomes. -/
theorem Smoking.goes (h : Smoking mode ms s) {i : Nat} {r : Running} (hr : s.runs[i]? = some r) :
    resumes i ms ≤ 18 ∧
    ((∃ s', s.step (.resume i (smokeWake r)) = some s') ∨
      ∃ outcome, r.awaiting = .settled (.ok outcome) ∧
        (ms.filterMap Move.called)[i]? = some outcome.called ∧
        ((outcome.verdict = .passed ∧ outcome.results = smokeSteps.map smokeResult) ∨
          (outcome.verdict = .failed ∧ 100 ≤ s.runner.meter.total .toolCalls ∧
            33 < s.runs.length))) := by
  have hmem := List.mem_of_getElem? hr
  have hstage := h.stage i r hr
  refine ⟨smokeStage_le hstage, ?_⟩
  by_cases hgoes : ∀ outcome, r.awaiting ≠ .settled outcome
  · obtain ⟨out, hout, -⟩ := LocalRunner.resume_smokes h.ready (h.opts r hmem) hstage hgoes
    refine .inl ⟨{ runner := out.1, runs := s.runs.set i out.2 }, ?_⟩
    change (s.runs[i]?).bind _ = _
    rw [hr, Option.bind_some, hout, Option.map_some]
  · push Not at hgoes
    obtain ⟨settled, hsettled⟩ := hgoes
    obtain ⟨outcome, rfl, hcalled, hverdict⟩ := smokeStage_settled hstage hsettled
    have hstarted : (ms.filterMap Move.called)[i]? = some outcome.called := by
      rw [← h.called, List.getElem?_map, hr, Option.map_some, hcalled]
    rcases hverdict with hpassed | ⟨hfailed, hrefused⟩
    · exact .inr ⟨outcome, hsettled, hstarted, .inl hpassed⟩
    · refine .inr ⟨outcome, hsettled, hstarted, .inr ⟨hfailed, h.spent r hmem hrefused, ?_⟩⟩
      by_contra hfew
      exact h.fine (Nat.le_of_not_lt hfew) hmem hrefused

/-- **In every interleaving** each run goes on until it is done, which is after 18 waits at most, and
    none rejects: it passes with its three successes, or fails since the runs have made a hundred
    calls together. While at most 33 runs have been started none fails. -/
theorem smoke_runs (h : Run System.step Serves (createLocalSmokeRunner mode clock) ms s) {i : Nat}
    {r : Running} (hr : s.runs[i]? = some r) :
    resumes i ms ≤ 18 ∧
    ((∃ s', s.step (.resume i (smokeWake r)) = some s') ∨
      ∃ outcome, r.awaiting = .settled (.ok outcome) ∧
        (ms.filterMap Move.called)[i]? = some outcome.called ∧
        ((outcome.verdict = .passed ∧ outcome.results = smokeSteps.map smokeResult) ∨
          (outcome.verdict = .failed ∧ 100 ≤ s.runner.meter.total .toolCalls ∧
            33 < s.runs.length))) :=
  (smoking h).goes hr

/-! ## 5. A runner for one call -/

/-- A run that has not met the budget is done after all of its waits, and not before. -/
theorem settled_iff {r : Running} {n : Nat} (h : SmokeStage r n) (hfine : ¬ Refused r) :
    (∃ settled, r.awaiting = .settled settled) ↔ n = 18 := by
  cases h with
  | planning h =>
      rw [h]
      simp
  | @executing done _ _ _ _ h hsteps _ hpoint =>
      have hdone := length_done hsteps
      rw [h]
      refine ⟨by simp, fun hn => ?_⟩
      cases hpoint <;> omega
  | passed h =>
      rcases h with h | h | h <;> rw [h] <;> simp
  | @refused _ _ _ reason _ _ _ hresults =>
      refine absurd ⟨fail reason, ?_, rfl⟩ hfine
      rw [hresults]
      exact List.mem_append_right _ (List.mem_singleton_self _)

theorem goOn_smoking {i : Nat} {r : Running} (h : Smoking mode ms s) (hr : s.runs[i]? = some r)
    (hgoes : ¬ ∃ settled, r.awaiting = .settled settled) :
    ∃ s', s.goOn i = some s' ∧ Smoking mode (ms ++ [.resume i (smokeWake r)]) s' ∧
      s'.runs.length = s.runs.length := by
  obtain ⟨out, hout, -⟩ := LocalRunner.resume_smokes h.ready
    (h.opts r (List.mem_of_getElem? hr)) (h.stage i r hr) fun settled hs => hgoes ⟨settled, hs⟩
  refine ⟨_, ?_, resume_smoking h hr hout, List.length_set⟩
  unfold goOn
  rw [hr, Option.bind_some]
  change (s.runs[i]?).bind _ = _
  rw [hr, Option.bind_some, hout, Option.map_some]

theorem exec_goOn {i : Nat} : ∀ {k : Nat} {ms : List Move} {s : System sha256},
    Smoking mode ms s → s.runs.length ≤ 33 → i < s.runs.length → resumes i ms + k = 18 →
    ∃ s' ms', exec goOn s (List.replicate k i) = some s' ∧ Smoking mode ms' s' ∧
      resumes i ms' = 18 ∧ ms'.filterMap Move.called = ms.filterMap Move.called ∧
      s'.runs.length = s.runs.length
  | 0, ms, s, h, _, _, hk => ⟨s, ms, rfl, h, hk, rfl, rfl⟩
  | k + 1, ms, s, h, hfew, hi, hk => by
      have hr : s.runs[i]? = some s.runs[i] := List.getElem?_eq_getElem hi
      have hmem := List.mem_of_getElem? hr
      obtain ⟨s₁, hs₁, h₁, hlength⟩ := goOn_smoking h hr fun hsettled => by
        have hn := (settled_iff (h.stage i _ hr) (h.fine hfew hmem)).mp hsettled
        omega
      have hone : resumes i (ms ++ [.resume i (smokeWake s.runs[i])]) = resumes i ms + 1 := by
        rw [resumes_snoc]
        simp [resumes]
      obtain ⟨s', ms', hexec, h', hn, hcalled, hlength'⟩ :=
        exec_goOn (i := i) (k := k) h₁ (by omega) (by omega) (by omega)
      refine ⟨s', ms', ?_, h', hn, hcalled.trans ?_, hlength'.trans hlength⟩
      · rw [List.replicate_succ, exec, hs₁, Option.bind_some, hexec]
      · rw [List.filterMap_append]
        exact List.append_nil _

theorem step_run (intent taskId runId : String) : s.step (.run intent {} taskId runId) =
    some { runner := (s.runner.run intent {} taskId runId).1
           runs := s.runs ++ [(s.runner.run intent {} taskId runId).2] } := rfl

/-- The only run of a runner goes to its end, and passes. -/
theorem only_run_passes (h : Smoking mode ms s) (honly : s.runs.length = 1)
    (hn : resumes 0 ms = 0) :
    ∃ s' r outcome, exec goOn s (List.replicate 18 0) = some s' ∧ s'.runs[0]? = some r ∧
      r.awaiting = .settled (.ok outcome) ∧
      (ms.filterMap Move.called)[0]? = some outcome.called ∧ outcome.verdict = .passed ∧
      outcome.results = smokeSteps.map smokeResult := by
  obtain ⟨s', ms', hexec, h', hn', hcalled, hlength⟩ :=
    exec_goOn (i := 0) (k := 18) h (by omega) (by omega) (by omega)
  obtain ⟨r, hr⟩ : ∃ r, s'.runs[0]? = some r := ⟨_, List.getElem?_eq_getElem (by omega)⟩
  have hmem := List.mem_of_getElem? hr
  have hfine := h'.fine (by omega) hmem
  obtain ⟨settled, hsettled⟩ := (settled_iff (h'.stage 0 _ hr) hfine).mpr hn'
  obtain ⟨outcome, rfl, hcalls, hverdict⟩ := smokeStage_settled (h'.stage 0 _ hr) hsettled
  refine ⟨s', _, outcome, hexec, hr, hsettled, ?_, ?_⟩
  · rw [← hcalled, ← h'.called, List.getElem?_map, hr, Option.map_some, hcalls]
  · rcases hverdict with hpassed | ⟨-, hrefused⟩
    · exact hpassed
    · exact absurd hrefused hfine

/-- **On a runner of its own every call passes**, with its three successes. -/
theorem smokeRun_passes (mode : RunMode) (clock : Clock) (intent taskId runId : String) :
    ∃ outcome, smokeRun sha256 mode clock intent taskId runId = some outcome ∧
      outcome.called = ⟨intent, taskId, runId⟩ ∧ outcome.verdict = .passed ∧
      outcome.results = smokeSteps.map smokeResult := by
  have hnew : (createLocalSmokeRunner mode clock : System sha256).runs = [] := rfl
  have h₀ := run_smoking (@create_smoking sha256 mode clock) intent
    taskId runId
  unfold smokeRun
  rw [step_run]
  generalize (createLocalSmokeRunner mode clock : System sha256) = new at hnew h₀ ⊢
  obtain ⟨s, r, outcome, hexec, hr, hsettled, hcalled, hverdict, hresults⟩ :=
    only_run_passes h₀ (by simp [hnew]) rfl
  refine ⟨outcome, ?_, (Option.some.inj hcalled).symm, hverdict, hresults⟩
  simp only [Option.bind_eq_bind, Option.bind_some]
  rw [hexec, Option.bind_some, hr, Option.map_some, hsettled]

/-! ## 6. Two runs side by side -/

/-- The moves with which the runs go on in this order. -/
def goingOn (s : System sha256) : List Nat → List Move
  | [] => []
  | i :: is =>
      ((s.runs[i]?).map fun r => Move.resume i (smokeWake r)).toList ++
        ((s.goOn i).map fun s' => goingOn s' is).getD []

theorem run_goingOn : ∀ {is : List Nat} {s s' : System sha256},
    exec goOn s is = some s' → Run step Serves s (s.goingOn is) s'
  | [], _, _, h => by
      cases h
      exact .start
  | i :: is, s, s', h => by
      obtain ⟨s₁, h₁, h₂⟩ := Option.bind_eq_some_iff.mp h
      obtain ⟨r, hr, hs⟩ := Option.bind_eq_some_iff.mp h₁
      have hfirst : Run step Serves s [.resume i (smokeWake r)] s₁ :=
        Run.next .start ⟨r, hr, rfl⟩ hs
      have hall := hfirst.append (run_goingOn h₂)
      unfold goingOn
      rwa [hr, h₁]

/-- Two runs side by side. -/
def smokeTwo : System id :=
  (exec step (createLocalSmokeRunner .local someClock)
    [.run "ship" {} "t1" "r1", .run "ship" {} "t2" "r2"]).getD (.create (smokeOptions .local) someClock)

/-- The first one goes on twice, the second one to its end. -/
def smokeOrder : List Nat := [0, 1, 0] ++ List.replicate 17 1

/-- Both at their end. -/
def smokeDone : System id := (exec goOn smokeTwo smokeOrder).getD smokeTwo

/-- The moves of the two. -/
def smokeTwice : List Move :=
  [.run "ship" {} "t1" "r1", .run "ship" {} "t2" "r2"] ++ smokeTwo.goingOn smokeOrder

theorem smoke_runs_twice :
    (smokeDone.runs.map fun r => r.results.length) = [0, 3] ∧
    ∃ r, smokeDone.runs[1]? = some r ∧ resumes 1 smokeTwice ≤ 18 ∧
      ((∃ s', smokeDone.step (.resume 1 (smokeWake r)) = some s') ∨
        ∃ outcome, r.awaiting = .settled (.ok outcome) ∧
          (smokeTwice.filterMap Move.called)[1]? = some outcome.called ∧
          ((outcome.verdict = .passed ∧ outcome.results = smokeSteps.map smokeResult) ∨
            (outcome.verdict = .failed ∧ 100 ≤ smokeDone.runner.meter.total .toolCalls ∧
              33 < smokeDone.runs.length))) := by
  have hstart : Run step Serves (@createLocalSmokeRunner id .local someClock)
      ([] ++ [.run "ship" {} "t1" "r1"] ++ [.run "ship" {} "t2" "r2"]) smokeTwo :=
    .next (.next .start rfl rfl) rfl rfl
  exact ⟨rfl, _, rfl, smoke_runs (hstart.append (run_goingOn rfl)) rfl⟩

end System

end AgentKernel.Runner
