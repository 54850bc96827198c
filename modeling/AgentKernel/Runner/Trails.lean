/-
  File:      AgentKernel/Runner/Trails.lean
  Subject:   What can have been seen of a run, for each of its waits.

  The results of a run are objects of its executors in an array that its steps are handed. How far
  others change them is a parameter of the trails, `Sharing`.

  * `Handled`: what is seen of a step that has left a result, and `Broken`: of one that has thrown;
  * `Trail`: the same of a whole run;
  * **`loop_goes`**, **`resume_goes`**, **`run_goes`**: a run keeps to its trail, and ledger, meter
    and executions change just as the observations say.
-/
import AgentKernel.Runner.Observed

namespace AgentKernel.Runner

open Lib Events Immune

variable {sha256 : String → String}

/-! ## 1. What becomes of results -/

/-- What others may make of the results of a run: of an object on its way from the executor into the
    array, and of the array before and after the verdict. -/
structure Sharing where
  object : Result → Result → Prop
  array : List Result → List Result → Prop
  late : List Result → List Result → Prop
  object_refl : ∀ result, object result result
  array_nil : array [] []
  array_push : ∀ {pushed now : List Result} (result : Result), array pushed now →
    array (pushed ++ [result]) (now ++ [result])
  late_of_array : ∀ {pushed now : List Result}, array pushed now → late pushed now

/-- They leave them as they are. -/
def Sharing.untouched : Sharing where
  object := Eq
  array := Eq
  late := Eq
  object_refl _ := rfl
  array_nil := rfl
  array_push := by
    rintro _ _ result rfl
    rfl
  late_of_array h := h

/-! ## 2. What is seen of a step -/

section Step

variable (K : Sharing) (action : String)

/-- Policy and approval let the step pass. -/
inductive Cleared : List Obs → Prop where
  | atOnce {decision : PolicyDecision} (hallowed : decision.allowed = true)
      (hrequired : decision.approvalRequired = false) :
      Cleared [.guarded action none, .decided action decision]
  | approved {decision : PolicyDecision} (hallowed : decision.allowed = true)
      (hrequired : decision.approvalRequired = true) :
      Cleared [.guarded action none, .decided action decision, .approved action (.ok true)]

/-- Quota and immune gate let it pass too, and it has its input. -/
inductive Gated (v : Value) : List Obs → Prop where
  | intro {seen : List Obs} {answer : QuotaAnswer} {decision : ImmuneDecision}
      (hcleared : Cleared action seen) (hquota : answer.allowed = true)
      (himmune : decision.allowed = true) :
      Gated v (seen ++ [.quota action answer, .immune action (.ok decision), .input action (.ok v)])

/-- The policy inside `execute` lets it pass once more. -/
inductive Requested (v : Value) : List Obs → Prop where
  | intro {seen : List Obs} {decision : PolicyDecision} (hgated : Gated action v seen)
      (hallowed : decision.allowed = true) : Requested v (seen ++ [.decidedAgain action decision])

/-- What is seen of a step whose execution is at a point. -/
inductive At : ExecutePoint → List Obs → Prop where
  | denied {seen : List Obs} {v : Value} {decision : PolicyDecision} (h : Gated action v seen)
      (hdenied : decision.allowed = false) :
      At (.denied decision.reason) (seen ++ [.decidedAgain action decision])
  | requested {seen : List Obs} {v : Value} (h : Requested action v seen) : At (.requested v) seen
  | asked {seen : List Obs} {v : Value} (h : Requested action v seen) :
      At (.asked v) (seen ++ [.resolved action true])
  | refused {seen : List Obs} {v : Value} (h : Requested action v seen) :
      At .refused (seen ++ [.resolved action true, .canExecute action (.ok false)])
  | executing {seen : List Obs} {v : Value} (h : Requested action v seen) :
      At .executing
        (seen ++ [.resolved action true, .canExecute action (.ok true), .invoked action v])
  | completed {seen : List Obs} {v : Value} {given result : Result} (h : Requested action v seen)
      (hkept : K.object given result) :
      At (.completed result)
        (seen ++ [.resolved action true, .canExecute action (.ok true), .invoked action v,
          .returned action (.ok given)])
  | deniedBack {seen : List Obs} {reason : String} {result : Result} (h : At (.denied reason) seen)
      (hkept : K.object (fail reason) result) : At (.returned result) seen
  | refusedBack {seen : List Obs} {result : Result} (h : At .refused seen)
      (hkept : K.object (fail "executor cannot execute") result) : At (.returned result) seen
  | back {seen : List Obs} {result : Result} (h : At (.completed result) seen) :
      At (.returned result) seen

/-- What is seen of a step that has left a result. -/
inductive Handled : Result → List Obs → Prop where
  | guard {reason : String} : Handled (fail reason) [.guarded action (some reason)]
  | policy {decision : PolicyDecision} (hdenied : decision.allowed = false) :
      Handled (fail decision.reason) [.guarded action none, .decided action decision]
  | approval {decision : PolicyDecision} {reason : String} :
      Handled (fail reason)
        [.guarded action none, .decided action decision, .approved action (.ok false)]
  | quota {seen : List Obs} {answer : QuotaAnswer} (h : Cleared action seen)
      (hquota : answer.allowed = false) :
      Handled (fail answer.reason) (seen ++ [.quota action answer])
  | immune {seen : List Obs} {answer : QuotaAnswer} {decision : ImmuneDecision} {reason : String}
      (h : Cleared action seen) (himmune : decision.allowed = false) :
      Handled (fail reason) (seen ++ [.quota action answer, .immune action (.ok decision)])
  | executed {seen : List Obs} {result : Result} (h : At K action (.returned result) seen) :
      Handled result (seen ++ [.metered .toolCalls])

/-- What is seen of a step that has thrown. -/
inductive Broken : List Obs → Prop where
  | approval {decision : PolicyDecision} {message : String} :
      Broken [.guarded action none, .decided action decision, .approved action (.error message)]
  | immune {seen : List Obs} {answer : QuotaAnswer} {error : ImmuneError}
      (h : Cleared action seen) :
      Broken (seen ++ [.quota action answer, .immune action (.error error)])
  | input {seen : List Obs} {answer : QuotaAnswer} {decision : ImmuneDecision} {message : String}
      (h : Cleared action seen) :
      Broken (seen ++ [.quota action answer, .immune action (.ok decision),
        .input action (.error message)])
  | unresolved {seen : List Obs} {v : Value} (h : Requested action v seen) :
      Broken (seen ++ [.resolved action false])
  | canExecute {seen : List Obs} {v : Value} {message : String} (h : Requested action v seen) :
      Broken (seen ++ [.resolved action true, .canExecute action (.error message)])
  | executor {seen : List Obs} {v : Value} {message : String} (h : Requested action v seen) :
      Broken (seen ++ [.resolved action true, .canExecute action (.ok true), .invoked action v,
        .returned action (.error message)])

end Step

/-! ## 3. What is seen of a run -/

/-- What is seen of steps that have left results. -/
inductive Handles (K : Sharing) : List RunStep → List Result → List Obs → Prop where
  | nil : Handles K [] [] []
  | snoc {steps : List RunStep} {step : RunStep} {results : List Result} {result : Result}
      {seen seen' : List Obs} (h : Handles K steps results seen)
      (hstep : Handled K step.action result seen') :
      Handles K (steps ++ [step]) (results ++ [result]) (seen ++ seen')

namespace Running

/-- The steps of the run. -/
def steps (r : Running) : List RunStep :=
  LocalRunner.stepsOf r.opts (r.opts.plan.getD mockPlan)

/-- The run has its verdict. -/
def Concluded (r : Running) (verification : Verification) : Prop :=
  match r.awaiting with
  | .billing v _ | .flush v _ => v = verification
  | .settled (.ok outcome) =>
      outcome.verdict = verification.verdict ∧ outcome.results = r.results
  | .settled (.error (.billing _)) | .settled (.error (.flush _)) => True
  | _ => False

end Running

/-- What is seen before the first step. -/
def opening : List Obs := [.created, .metered .runs, .metered .modelCalls, .planned]

/-- The run is about to consider the first of the steps `rest`. -/
inductive Reached (K : Sharing) (rest : List RunStep) (r : Running) : List Obs → Prop where
  | intro {done : List RunStep} {pushed : List Result} {seen : List Obs}
      (hsteps : r.steps = done ++ rest) (hdone : Handles K done pushed seen)
      (hkept : K.array pushed r.results) : Reached K rest r (opening ++ seen)

/-- The run is considering a step that policy and approval have let pass. -/
inductive Passing (K : Sharing) (step : RunStep) (rest : List RunStep) (r : Running) :
    List Obs → Prop where
  | intro {done : List RunStep} {pushed : List Result} {seen seen' : List Obs}
      (hsteps : r.steps = done ++ step :: rest) (hdone : Handles K done pushed seen)
      (hkept : K.array pushed r.results) (hcleared : Cleared step.action seen') :
      Passing K step rest r (opening ++ seen ++ seen')

/-- The run has left the loop, early only with a failure. -/
inductive Left (K : Sharing) (r : Running) (pushed : List Result) : List Obs → Prop where
  | intro {done rest : List RunStep} {seen : List Obs} (hsteps : r.steps = done ++ rest)
      (hdone : Handles K done pushed seen)
      (hrest : rest = [] ∨ ∃ result ∈ pushed, result.status = .failure) :
      Left K r pushed (opening ++ seen)

/-- The run is leaving the loop. -/
def Leaving (K : Sharing) (r : Running) (seen : List Obs) : Prop :=
  ∃ pushed, Left K r pushed seen ∧ K.array pushed r.results

section Reached

variable {K : Sharing} {r : Running} {step : RunStep} {rest : List RunStep} {pushed : List Result}
  {seen obs : List Obs}

/-- The next step, once this one has left a result. -/
theorem Reached.next {done : List RunStep} {result : Result}
    (hsteps : r.steps = done ++ step :: rest) (hdone : Handles K done pushed seen)
    (hkept : K.array pushed r.results) (h : Handled K step.action result obs) :
    Reached K rest (r.push result) (opening ++ seen ++ obs) := by
  have hrest : (r.push result).steps = (done ++ [step]) ++ rest := by
    rw [← List.append_cons]
    exact hsteps
  rw [List.append_assoc]
  exact .intro hrest (hdone.snoc h) (K.array_push result hkept)

/-- The loop is left at its end. -/
theorem Reached.leaving (h : Reached K [] r seen) : Leaving K r seen := by
  obtain ⟨hsteps, hdone, hkept⟩ := h
  exact ⟨_, .intro hsteps hdone (.inl rfl), hkept⟩

/-- The loop is left with a failure. -/
theorem Leaving.failed {done : List RunStep} {reason : String}
    (hsteps : r.steps = done ++ step :: rest) (hdone : Handles K done pushed seen)
    (hkept : K.array pushed r.results) (h : Handled K step.action (fail reason) obs) :
    Leaving K (r.push (fail reason)) (opening ++ seen ++ obs) := by
  have hrest : (r.push (fail reason)).steps = (done ++ [step]) ++ rest := by
    rw [← List.append_cons]
    exact hsteps
  rw [List.append_assoc]
  exact ⟨_, .intro hrest (hdone.snoc h)
    (.inr ⟨_, List.mem_append_right _ (List.mem_singleton_self _), rfl⟩), K.array_push _ hkept⟩

theorem Left.await {awaiting : Awaiting} (h : Left K r pushed seen) :
    Left K (r.await awaiting) pushed seen := by
  obtain ⟨hsteps, hdone, hrest⟩ := h
  exact .intro hsteps hdone hrest

end Reached

/-- What is seen of a run, by what it awaits. -/
inductive Trail (K : Sharing) (r : Running) : List Obs → Prop where
  | planning (h : r.awaiting = .plan) (hplan : r.opts.plan = none) (hresults : r.results = []) :
      Trail K r [.created, .metered .runs]
  | asking {done rest : List RunStep} {step : RunStep} {pushed : List Result} {seen : List Obs}
      {decision : PolicyDecision} (h : r.awaiting = .approval step rest)
      (hsteps : r.steps = done ++ step :: rest) (hdone : Handles K done pushed seen)
      (hkept : K.array pushed r.results)
      (hallowed : decision.allowed = true) (hrequired : decision.approvalRequired = true) :
      Trail K r (opening ++ seen ++ [.guarded step.action none, .decided step.action decision])
  | executing {done rest : List RunStep} {step : RunStep} {point : ExecutePoint}
      {pushed : List Result} {seen seen' : List Obs} (h : r.awaiting = .execute point step rest)
      (hsteps : r.steps = done ++ step :: rest) (hdone : Handles K done pushed seen)
      (hkept : K.array pushed r.results) (hat : At K step.action point seen') :
      Trail K r (opening ++ seen ++ seen')
  | verifying {pushed : List Result} {seen : List Obs} (h : r.awaiting = .verify)
      (hverifies : r.opts.verifies = true) (hleft : Left K r pushed seen)
      (hkept : K.array pushed r.results) : Trail K r seen
  | concluded {pushed : List Result} {seen : List Obs} {verification : Verification}
      (h : r.Concluded verification) (hleft : Left K r pushed seen)
      (hlate : K.late pushed r.results)
      (hverdict : r.opts.verifies = false → ∃ id now, K.array pushed now ∧
        verification = verify id r.intent (LocalRunner.checksOf now)) :
      Trail K r (seen ++ [.concluded verification.verdict])
  | broken {done rest : List RunStep} {step : RunStep} {error : RunError} {pushed : List Result}
      {seen seen' : List Obs} (h : r.awaiting = .settled (.error error))
      (hsteps : r.steps = done ++ step :: rest) (hdone : Handles K done pushed seen)
      (hlate : K.late pushed r.results) (hbroken : Broken step.action seen') :
      Trail K r (opening ++ seen ++ seen')
  | unverified {pushed : List Result} {seen : List Obs} {message : String}
      (h : r.awaiting = .settled (.error (.verify message))) (hleft : Left K r pushed seen)
      (hlate : K.late pushed r.results) : Trail K r (seen ++ [.verifyThrew])

namespace LocalRunner

variable {K : Sharing} {s s' s'' : LocalRunner sha256} {r : Running} {step : RunStep}
  {rest : List RunStep} {pushed : List Result} {seen obs obs' : List Obs}
  {out out' : LocalRunner sha256 × Running}

/-! ## 4. A stretch of a run -/

/-- The run goes on with these observations to where `P` holds of all that is seen of it. -/
structure Goes (P : Running → List Obs → Prop) (s : LocalRunner sha256) (r : Running)
    (seen : List Obs) (out : LocalRunner sha256 × Running) (obs : List Obs) : Prop where
  shows : Shows s out.1 r.runId obs
  runId : out.2.runId = r.runId
  holds : P out.2 (seen ++ obs)

theorem Goes.trans {P Q : Running → List Obs → Prop} (h : Goes P s r seen out obs)
    (h' : Goes Q out.1 out.2 (seen ++ obs) out' obs') : Goes Q s r seen out' (obs ++ obs') where
  shows := h.shows.trans (h.runId ▸ h'.shows)
  runId := h'.runId.trans h.runId
  holds := by
    rw [← List.append_assoc]
    exact h'.holds

/-- How a step of the loop leaves it. -/
def FlowGoes (K : Sharing) (s : LocalRunner sha256) (r : Running) (rest : List RunStep)
    (seen obs : List Obs) : Flow (LocalRunner sha256 × Running) → Prop
  | .next out => Goes (Reached K rest) s r seen out obs
  | .leave out => Goes (Leaving K) s r seen out obs
  | .halt out => Goes (Trail K) s r seen out obs

theorem Goes.flow {P : Running → List Obs → Prop} {flow : Flow (LocalRunner sha256 × Running)}
    (h : Goes P s r seen out obs) (h' : FlowGoes K out.1 out.2 rest (seen ++ obs) obs' flow) :
    FlowGoes K s r rest seen (obs ++ obs') flow := by
  cases flow with
  | next out => exact h.trans h'
  | leave out => exact h.trans h'
  | halt out => exact h.trans h'

/-- A change that nothing is seen of. -/
theorem Goes.after {P : Running → List Obs → Prop} (h : Shows s s' r.runId [])
    (h' : Goes P s' r seen out obs) : Goes P s r seen out obs where
  shows := h.trans h'.shows
  runId := h'.runId
  holds := h'.holds

/-- Observations that nothing records, of a state that does not change. -/
theorem Goes.silent {P : Running → List Obs → Prop} {r' : Running} (hsilent : Silent obs)
    (hrun : r'.runId = r.runId) (h : P r' (seen ++ obs)) : Goes P s r seen (s, r') obs where
  shows := by simpa using (Shows.refl s r.runId).silent hsilent
  runId := hrun
  holds := h

/-- A move that nothing is seen of. -/
theorem Goes.unseen {P : Running → List Obs → Prop} {r' : Running} (hrun : r'.runId = r.runId)
    (h : P r' seen) : Goes P s r seen (s, r') [] :=
  .silent ⟨rfl, fun _ => rfl, rfl⟩ hrun (by rwa [List.append_nil])

theorem Goes.record {P : Running → List Obs → Prop} {r' : Running} {resource : UsageResource}
    (hrun : r'.runId = r.runId) (h : P r' (seen ++ [.metered resource])) :
    Goes P s r seen (s.record r resource, r') [.metered resource] where
  shows := record_shows
  runId := hrun
  holds := h

/-- An event about the run. -/
theorem Goes.append {P : Running → List Obs → Prop} {r' : Running} {actor : Actor}
    {type : String} {payload : Value}
    (hmark : (markOf type payload).toList = obs.filterMap Obs.mark) (hmeter : ∀ x, obs.countP (Obs.meters x) = 0)
    (hinvoked : obs.filterMap Obs.invocation = []) (hrun : r'.runId = r.runId)
    (h : P r' (seen ++ obs)) :
    Goes P s r seen (s.append actor type r.taskId r.runId payload, r') obs where
  shows := append_shows hmark hmeter hinvoked
  runId := hrun
  holds := h

/-! ## 5. The loop -/

theorem execute_goes {done : List RunStep} {v : Value} (hsteps : r.steps = done ++ step :: rest)
    (hdone : Handles K done pushed seen) (hkept : K.array pushed r.results)
    (hgated : Gated step.action v obs) :
    Goes (Trail K) s r (opening ++ seen ++ obs) (s.execute r step rest v) (s.executeObs r step) := by
  unfold execute executeObs
  dsimp only
  cases hd : (s.policy.evaluate r.actorId step.action "*").allowed with
  | false =>
      refine .append ?_ (fun _ => rfl) rfl rfl ?_
      · simp only [List.filterMap, Obs.mark, hd]
        rfl
      · rw [List.append_assoc _ obs]
        exact .executing rfl hsteps hdone hkept (.denied hgated hd)
  | true =>
      refine .append ?_ (fun _ => rfl) rfl rfl ?_
      · simp only [List.filterMap, Obs.mark, hd]
        rfl
      · rw [List.append_assoc _ obs]
        exact .executing rfl hsteps hdone hkept (.requested (.intro hgated hd))

theorem attempt_goes (h : Passing K step rest r seen) :
    FlowGoes K s r rest seen (s.attemptObs r step) (s.attempt r step rest) := by
  obtain @⟨done, pushed, seen, seen', hsteps, hdone, hkept, hcleared⟩ := h
  unfold attempt attemptObs
  dsimp only
  cases hq : (s.opts.budget.allows s.meter.total .toolCalls 1).allowed with
  | false =>
      refine Goes.append rfl (fun _ => rfl) rfl rfl ?_
      rw [List.append_assoc]
      exact Leaving.failed hsteps hdone hkept (.quota hcleared hq)
  | true =>
      simp only [Bool.not_true, Bool.false_eq_true, if_false]
      have himmune : Shows s (s.immuneGate (requestOf r step)).1 r.runId [] := immuneGate_shows
      rcases hout : s.immuneGate (requestOf r step) with ⟨s', error | decision⟩
      · rw [hout] at himmune
        refine Goes.after himmune (.silent ⟨rfl, fun _ => rfl, rfl⟩ rfl ?_)
        rw [List.append_assoc]
        exact .broken rfl hsteps hdone (K.late_of_array hkept) (.immune hcleared)
      · rw [hout] at himmune
        dsimp only
        cases hd : decision.allowed with
        | false =>
            refine Goes.after himmune (.append rfl (fun _ => rfl) rfl rfl ?_)
            rw [List.append_assoc]
            exact Reached.next hsteps hdone hkept (.immune hcleared hd)
        | true =>
            simp only [Bool.not_true, Bool.false_eq_true, if_false]
            cases hinput : resolveInput step r.results with
            | error message =>
                refine Goes.after himmune (.silent ⟨rfl, fun _ => rfl, rfl⟩ rfl ?_)
                rw [List.append_assoc]
                exact .broken rfl hsteps hdone (K.late_of_array hkept) (.input hcleared)
            | ok v =>
                have hgated := Gated.intro hcleared hq hd (v := v)
                have hexecute := execute_goes (s := s') hsteps hdone hkept hgated
                rw [← List.append_assoc] at hexecute
                have hgates : Goes (fun _ _ => True) s' r (opening ++ seen ++ seen') (s', r)
                    [.quota step.action (s.opts.budget.allows s.meter.total .toolCalls 1),
                      .immune step.action (.ok decision), .input step.action (.ok v)] :=
                  .silent ⟨rfl, fun _ => rfl, rfl⟩ rfl trivial
                exact Goes.after himmune (hgates.trans hexecute)

theorem consider_goes (h : Reached K (step :: rest) r seen) :
    FlowGoes K s r rest seen (s.considerObs r step) (s.consider r step rest) := by
  obtain @⟨done, pushed, seen, hsteps, hdone, hkept⟩ := h
  unfold consider considerObs
  dsimp only
  cases s.opts.capabilityGuard.bind fun guard => guard step.action with
  | some reason =>
      refine Goes.append rfl (fun _ => rfl) rfl rfl ?_
      exact Reached.next hsteps hdone hkept .guard
  | none =>
      cases hd : (s.policy.evaluate r.actorId step.action "*").allowed with
      | false =>
          refine Goes.append rfl (fun _ => rfl) rfl rfl ?_
          exact Reached.next hsteps hdone hkept (.policy hd)
      | true =>
          simp only [Bool.not_true, Bool.false_eq_true, if_false]
          cases hrequired : (s.policy.evaluate r.actorId step.action "*").approvalRequired with
          | true =>
              refine Goes.append rfl (fun _ => rfl) rfl rfl ?_
              exact .asking rfl hsteps hdone hkept hd hrequired
          | false =>
              have hpassing := Passing.intro hsteps hdone hkept (.atOnce hd hrequired)
              have hcleared : Goes (fun _ _ => True) s r (opening ++ seen) (s, r)
                  [.guarded step.action none,
                    .decided step.action (s.policy.evaluate r.actorId step.action "*")] :=
                .silent ⟨rfl, fun _ => rfl, rfl⟩ rfl trivial
              exact hcleared.flow (attempt_goes hpassing)

theorem conclude_goes {checks : List VerificationCheck} (hleft : Left K r pushed seen)
    (hkept : K.array pushed r.results)
    (hchecks : r.opts.verifies = false → checks = checksOf r.results) :
    Goes (Trail K) s r seen (s.conclude r checks) (s.concludeObs r checks) := by
  unfold conclude concludeObs
  dsimp only
  have hverdict := Trail.concluded (r := r.await (.billing
    (verify (s.clock.uuids s.ledger.events.length) r.intent checks) s.meter.total)) rfl hleft.await
    (K.late_of_array hkept) fun hv => ⟨_, _, hkept, by rw [hchecks hv]; rfl⟩
  have hlogged : ∀ value, Shows s (s.log r "VerificationCompleted" value) r.runId [] :=
    fun _ => append_shows rfl (fun _ => rfl) rfl
  split_ifs
  · exact .after (hlogged _) (.append rfl (fun _ => rfl) rfl rfl hverdict)
  · exact .after (hlogged _) (.append rfl (fun _ => rfl) rfl rfl hverdict)

theorem afterLoop_goes (h : Leaving K r seen) :
    Goes (Trail K) s r seen (s.afterLoop r) (s.afterLoopObs r) := by
  obtain ⟨pushed, hleft, hkept⟩ := h
  unfold afterLoop afterLoopObs
  cases hv : r.opts.verifies with
  | true => exact .unseen rfl (.verifying rfl hv hleft.await hkept)
  | false => exact conclude_goes hleft hkept fun _ => rfl

/-- **The loop, over any steps.** -/
theorem loop_goes : ∀ {steps : List RunStep} {s : LocalRunner sha256} {r : Running}
    {seen : List Obs}, Reached K steps r seen →
      Goes (Trail K) s r seen (s.loop r steps) (s.loopObs r steps)
  | [], _, _, _, h => afterLoop_goes h.leaving
  | step :: rest, s, r, seen, h => by
      have hflow : FlowGoes K s r rest seen _ (s.consider r step rest) := consider_goes h
      unfold loop loopObs
      cases hc : s.consider r step rest with
      | next out =>
          rw [hc] at hflow
          exact Goes.trans hflow (loop_goes hflow.holds)
      | leave out =>
          rw [hc] at hflow
          exact Goes.trans hflow (afterLoop_goes hflow.holds)
      | halt out =>
          rw [hc] at hflow
          have hhalt : Goes (Trail K) s r seen out (s.considerObs r step) := hflow
          simpa using hhalt

theorem resumeLoop_goes {flow : Flow (LocalRunner sha256 × Running)}
    (h : FlowGoes K s r rest seen obs flow) :
    Goes (Trail K) s r seen (resumeLoop rest flow) (obs ++ resumeLoopObs rest flow) := by
  cases flow with
  | next out => exact Goes.trans h (loop_goes h.holds)
  | leave out => exact Goes.trans h (afterLoop_goes h.holds)
  | halt out =>
      have hhalt : Goes (Trail K) s r seen out obs := h
      simpa [resumeLoop, resumeLoopObs] using hhalt

/-! ## 6. After a wait -/

variable {wake : Wake}

theorem planned_goes {plan : List String} (hplan : stepsOf r.opts plan = r.steps)
    (hresults : r.results = []) :
    Goes (Trail K) s r [.created, .metered .runs] (s.planned r plan) (s.plannedObs r plan) := by
  have hmetered : Goes (fun _ _ => True) s r [.created, .metered .runs]
      (s.record r .modelCalls, r) [.metered .modelCalls] := .record rfl trivial
  have hnone : K.array [] r.results := hresults ▸ K.array_nil
  have hstart : Reached K (stepsOf r.opts plan) r (opening ++ []) := .intro hplan.symm .nil hnone
  have hlogged : Goes (Reached K (stepsOf r.opts plan)) (s.record r .modelCalls) r
      [.created, .metered .runs, .metered .modelCalls]
      ((s.record r .modelCalls).log r "PlanGenerated"
        [("plan", .arr ((stepsOf r.opts plan).map fun step => .str step.action))], r) [.planned] :=
    .append rfl (fun _ => rfl) rfl rfl hstart
  exact hmetered.trans (hlogged.trans (loop_goes hlogged.holds))

theorem executeOn_goes {done : List RunStep} {point : ExecutePoint}
    (hsteps : r.steps = done ++ step :: rest) (hdone : Handles K done pushed seen)
    (hkept : K.array pushed r.results)
    (hat : At K step.action point obs) (h : s.executeOn r step rest point wake = some out) :
    Goes (Trail K) s r (opening ++ seen ++ obs) out (s.executeOnObs r step rest point wake) := by
  cases point with
  | denied reason =>
      cases wake with
      | done =>
          cases h
          exact .unseen rfl (.executing rfl hsteps hdone hkept (.deniedBack hat (K.object_refl _)))
      | answer | result | checks | thrown => cases h
  | requested v =>
      cases hat with
      | requested hrequested =>
      cases wake with
      | done =>
          unfold executeOn at h
          unfold executeOnObs
          dsimp only at h ⊢
          cases hfound : s.executors.contains step.action with
          | true =>
              rw [hfound] at h
              cases h
              refine .silent ⟨rfl, fun _ => rfl, rfl⟩ rfl ?_
              rw [List.append_assoc]
              exact .executing rfl hsteps hdone hkept (.asked hrequested)
          | false =>
              rw [hfound] at h
              cases h
              refine .silent ⟨rfl, fun _ => rfl, rfl⟩ rfl ?_
              rw [List.append_assoc]
              exact .broken rfl hsteps hdone (K.late_of_array hkept) (.unresolved hrequested)
      | answer | result | checks | thrown => cases h
  | asked v =>
      cases hat with
      | asked hrequested =>
      cases wake with
      | answer yes =>
          cases yes with
          | true =>
              cases h
              refine ⟨⟨rfl, (List.append_nil _).symm, fun _ => rfl, List.map_append ..⟩, rfl, ?_⟩
              rw [List.append_assoc, List.append_assoc _ [_]]
              exact .executing rfl hsteps hdone hkept (.executing hrequested)
          | false =>
              cases h
              refine .append rfl (fun _ => rfl) rfl rfl ?_
              rw [List.append_assoc, List.append_assoc _ [_]]
              exact .executing rfl hsteps hdone hkept (.refused hrequested)
      | thrown message =>
          cases h
          refine .silent ⟨rfl, fun _ => rfl, rfl⟩ rfl ?_
          rw [List.append_assoc, List.append_assoc _ [_]]
          exact .broken rfl hsteps hdone (K.late_of_array hkept) (.canExecute hrequested)
      | done | result | checks => cases h
  | refused =>
      cases wake with
      | done =>
          cases h
          exact .unseen rfl (.executing rfl hsteps hdone hkept (.refusedBack hat (K.object_refl _)))
      | answer | result | checks | thrown => cases h
  | executing =>
      cases hat with
      | executing hrequested =>
      cases wake with
      | result result =>
          cases h
          refine .append rfl (fun _ => rfl) rfl rfl ?_
          rw [List.append_assoc, List.append_assoc _ [_, _, _]]
          exact .executing rfl hsteps hdone hkept (.completed hrequested (K.object_refl _))
      | thrown message =>
          cases h
          refine .silent ⟨rfl, fun _ => rfl, rfl⟩ rfl ?_
          rw [List.append_assoc, List.append_assoc _ [_, _, _]]
          exact .broken rfl hsteps hdone (K.late_of_array hkept) (.executor hrequested)
      | done | answer | checks => cases h
  | completed result =>
      cases wake with
      | done =>
          cases h
          exact .unseen rfl (.executing rfl hsteps hdone hkept (.back hat))
      | answer | result | checks | thrown => cases h
  | returned result =>
      cases wake with
      | done =>
          cases h
          have hnext : Reached K rest (r.push result)
              (opening ++ seen ++ obs ++ [.metered .toolCalls]) := by
            rw [List.append_assoc]
            exact Reached.next hsteps hdone hkept (.executed hat)
          have hmetered : Goes (Reached K rest) s r _ (s.record r .toolCalls, r.push result)
              [.metered .toolCalls] := .record rfl hnext
          exact hmetered.trans (loop_goes hnext)
      | answer | result | checks | thrown => cases h

/-- **One run, from one wait to the next.** -/
theorem resume_goes (htrail : Trail K r seen) (h : s.resume r wake = some out) :
    Goes (Trail K) s r seen out (s.resumeObs r wake) := by
  unfold resume at h
  unfold resumeObs
  cases htrail with
  | planning hr hplan hresults =>
      rw [hr] at h ⊢
      cases wake with
      | done =>
          cases h
          refine planned_goes ?_ hresults
          rw [Running.steps, hplan]
          rfl
      | answer | result | checks | thrown => cases h
  | @asking done rest step pushed seen decision hr hsteps hdone hkept hallowed hrequired =>
      rw [hr] at h ⊢
      cases wake with
      | answer approved =>
          cases hgranted : s.opts.asksForApproval && approved with
          | true =>
              simp only [hgranted, if_true] at h ⊢
              cases h
              have hlogged : Goes (Passing K step rest) s r
                  (opening ++ seen ++ [.guarded step.action none, .decided step.action decision])
                  (s.log r "ApprovalGranted" [("action", .str step.action)], r)
                  [.approved step.action (.ok true)] := by
                refine .append rfl (fun _ => rfl) rfl rfl ?_
                rw [List.append_assoc]
                exact .intro hsteps hdone hkept (.approved hallowed hrequired)
              exact resumeLoop_goes (hlogged.flow (attempt_goes hlogged.holds))
          | false =>
              simp only [hgranted, Bool.false_eq_true, if_false] at h ⊢
              cases h
              have hdenied : Goes (Reached K rest) s r
                  (opening ++ seen ++ [.guarded step.action none, .decided step.action decision])
                  (s.log r "ApprovalDenied"
                    [("action", .str step.action), ("reason", .str "not approved")],
                    r.push (fail ("'" ++ step.action ++ "' requires approval")))
                  [.approved step.action (.ok false)] := by
                refine .append rfl (fun _ => rfl) rfl rfl ?_
                rw [List.append_assoc]
                exact .next hsteps hdone hkept .approval
              exact hdenied.trans (loop_goes hdenied.holds)
      | thrown message =>
          dsimp only at h
          split_ifs at h
          cases h
          refine .silent ⟨rfl, fun _ => rfl, rfl⟩ rfl ?_
          rw [List.append_assoc]
          exact .broken rfl hsteps hdone (K.late_of_array hkept) .approval
      | done | result | checks => cases h
  | executing hr hsteps hdone hkept hat =>
      rw [hr] at h ⊢
      exact executeOn_goes hsteps hdone hkept hat h
  | verifying hr hverifies hleft hkept =>
      rw [hr] at h ⊢
      cases wake with
      | checks checks =>
          cases h
          exact conclude_goes hleft hkept fun hno => absurd (hverifies.symm.trans hno) nofun
      | thrown message =>
          cases h
          refine .silent ⟨rfl, fun _ => rfl, rfl⟩ rfl ?_
          exact .unverified rfl hleft.await (K.late_of_array hkept)
      | done | answer | result => cases h
  | concluded hr hleft hlate hverdict =>
      unfold Running.Concluded at hr
      cases hawaits : r.awaiting with
      | billing v usage =>
          rw [hawaits] at hr h
          cases wake with
          | done =>
              cases h
              exact .unseen rfl (.concluded hr hleft.await hlate hverdict)
          | thrown message =>
              cases h
              exact .unseen rfl (.concluded trivial hleft.await hlate hverdict)
          | answer | result | checks => cases h
      | flush v usage =>
          rw [hawaits] at hr h
          cases wake with
          | done =>
              cases h
              exact .unseen rfl (.concluded ⟨congrArg Verification.verdict hr, rfl⟩ hleft.await
                hlate hverdict)
          | thrown message =>
              cases h
              exact .unseen rfl (.concluded trivial hleft.await hlate hverdict)
          | answer | result | checks => cases h
      | settled outcome =>
          rw [hawaits] at h
          cases wake <;> cases h
      | plan | approval | execute | verify =>
          rw [hawaits] at hr
          exact hr.elim
  | broken hr | unverified hr =>
      rw [hr] at h
      cases wake <;> cases h

/-- A run, to its first wait. -/
theorem run_goes (s : LocalRunner sha256) (intent : String) (opts : RunTaskOptions)
    (taskId runId : String) :
    Shows s (s.run intent opts taskId runId).1 runId (s.runObs intent opts taskId runId) ∧
      (s.run intent opts taskId runId).2.runId = runId ∧
      Trail K (s.run intent opts taskId runId).2 (s.runObs intent opts taskId runId) := by
  let r : Running :=
    { intent := intent, taskId := taskId, runId := runId, opts := opts, results := []
      awaiting := .plan }
  let s₁ := s.log r "RunCreated" [("intent", .str intent), ("mode", .str s.opts.mode.text)]
  let s₂ := s₁.log r "TaskCreated" [("intent", .str intent)]
  have hcreated : Goes (fun _ _ => True) s r [] (s₁, r) [.created] :=
    .append rfl (fun _ => rfl) rfl rfl trivial
  have htask : Shows s₁ s₂ runId [] := append_shows rfl (fun _ => rfl) rfl
  have hmetered : Goes (fun _ _ => True) s₁ r [.created] (s₂.record r .runs, r) [.metered .runs] :=
    .after htask (.record rfl trivial)
  have hopened := hcreated.trans hmetered
  suffices h : Goes (Trail K) s r [] (s.run intent opts taskId runId)
      (s.runObs intent opts taskId runId) from ⟨h.shows, h.runId, h.holds⟩
  unfold run runObs
  dsimp only
  cases hplan : opts.plan with
  | none =>
      refine ⟨hopened.shows, rfl, ?_⟩
      exact .planning rfl hplan rfl
  | some plan =>
      refine hopened.trans (planned_goes ?_ rfl)
      change stepsOf opts plan = stepsOf opts (opts.plan.getD mockPlan)
      rw [hplan]
      rfl

end LocalRunner

/-! ## 7. All the runs -/

namespace System

/-- All that has been seen of the `i`-th run. -/
def Follows (K : Sharing) (s : System sha256) (i : Nat) (seen : List Obs) : Prop :=
  match s.runs[i]? with
  | some r => Trail K r seen
  | none => seen = []

theorem create_follows {K : Sharing} {opts : RunnerOptions} {clock : Clock} (i : Nat) :
    (@create sha256 opts clock).Follows K i [] := rfl

/-- What a move does to the run it is of, and to what the runs share. -/
inductive Moves (K : Sharing) (s s' : System sha256) (m : Move) (seen : Nat → List Obs) : Prop where
  | aside (hruns : s'.runs = s.runs) (hshows : ∀ runId, s.runner.Shows s'.runner runId [])
      (hobs : ∀ i, s.observe i m = [])
  | starts {r' : Running} {intent taskId : String} {opts : RunTaskOptions}
      (hm : m = .run intent opts taskId r'.runId) (hruns : s'.runs = s.runs ++ [r'])
      (hshows : s.runner.Shows s'.runner r'.runId (s.observe s.runs.length m))
      (htrail : Trail K r' (s.observe s.runs.length m))
      (hobs : ∀ i, i ≠ s.runs.length → s.observe i m = [])
  | resumes {j : Nat} {wake : LocalRunner.Wake} {r r' : Running} (hm : m = .resume j wake)
      (hr : s.runs[j]? = some r)
      (hruns : s'.runs = s.runs.set j r') (hrun : r'.runId = r.runId) (hold : Trail K r (seen j))
      (hshows : s.runner.Shows s'.runner r'.runId (s.observe j m))
      (htrail : Trail K r' (seen j ++ s.observe j m)) (hobs : ∀ i, i ≠ j → s.observe i m = [])

section Moves

variable {K : Sharing} {s s' : System sha256} {m : Move} {seen : Nat → List Obs}

theorem step_moves (hseen : ∀ i, s.Follows K i (seen i)) (h : s.step m = some s') :
    Moves K s s' m seen := by
  cases m with
  | run intent opts taskId runId =>
      cases h
      obtain ⟨hshows, hrun, htrail⟩ := s.runner.run_goes intent opts taskId runId
      have hobs : s.observe s.runs.length (.run intent opts taskId runId) =
          s.runner.runObs intent opts taskId runId := if_pos rfl
      rw [← hobs] at hshows htrail
      exact .starts (by rw [hrun]) rfl (hrun.symm ▸ hshows) htrail fun i hi => if_neg (Ne.symm hi)
  | resume j wake =>
      obtain ⟨r, hr, hout⟩ := Option.bind_eq_some_iff.mp h
      obtain ⟨out, hresume, rfl⟩ := Option.map_eq_some_iff.mp hout
      have hold : Trail K r (seen j) := by
        have hj := hseen j
        unfold Follows at hj
        rwa [hr] at hj
      have hobs : s.observe j (.resume j wake) = s.runner.resumeObs r wake := by
        unfold observe
        dsimp only
        rw [if_pos rfl, hr]
      obtain ⟨hshows, hrun, htrail⟩ := LocalRunner.resume_goes hold hresume
      rw [← hobs] at hshows htrail
      exact .resumes rfl hr rfl hrun hold (hrun.symm ▸ hshows) htrail fun i hi => if_neg (Ne.symm hi)
  | grant grant =>
      unfold step at h
      dsimp only at h
      cases hadd : s.runner.policy.addGrant grant with
      | ok policy =>
          rw [hadd] at h
          cases h
          exact .aside rfl (fun _ => .of_same rfl rfl rfl rfl) fun _ => rfl
      | error message =>
          rw [hadd] at h
          cases h
          exact .aside rfl (fun _ => .refl _ _) fun _ => rfl
  | registerExecutor action =>
      unfold step at h
      dsimp only at h
      split_ifs at h
      · cases h
        exact .aside rfl (fun _ => .refl _ _) fun _ => rfl
      · cases h
        exact .aside rfl (fun _ => .of_same rfl rfl rfl rfl) fun _ => rfl

theorem Moves.follows (h : Moves K s s' m seen) (hseen : ∀ i, s.Follows K i (seen i)) (i : Nat) :
    s'.Follows K i (seen i ++ s.observe i m) := by
  have hi := hseen i
  unfold Follows at hi ⊢
  cases h with
  | aside hruns _ hobs =>
      rw [hruns, hobs, List.append_nil]
      exact hi
  | @starts r' _ _ _ _ hruns _ htrail hobs =>
      rw [hruns]
      by_cases heq : i = s.runs.length
      · subst heq
        rw [List.getElem?_eq_none (Nat.le_refl _)] at hi
        rw [List.getElem?_concat_length, show seen s.runs.length = [] from hi]
        exact htrail
      · rw [hobs i heq, List.append_nil, List.getElem?_append]
        split_ifs with hlt
        · exact hi
        · have hone : [r'][i - s.runs.length]? = none := by
            rw [List.getElem?_eq_none]
            simp only [List.length_singleton]
            omega
          rw [hone]
          rwa [List.getElem?_eq_none (Nat.le_of_not_lt hlt)] at hi
  | @resumes j _ r r' _ hr hruns _ _ _ htrail hobs =>
      rw [hruns]
      by_cases heq : i = j
      · subst heq
        rw [List.getElem?_set_self (List.getElem?_eq_some_iff.mp hr).1]
        exact htrail
      · rw [hobs i heq, List.append_nil, List.getElem?_set_ne (Ne.symm heq)]
        exact hi

/-! ## 8. Whose event it is -/

/-- The ids of the runs. -/
def ids (s : System sha256) : List String := s.runs.map (·.runId)

/-- The ledger and the executions, told apart by the ids of the runs, are what is seen of each. -/
structure Recorded (s : System sha256) (seen : Nat → List Obs) : Prop where
  marks : Attributed s.ids (marksOf s.runner.ledger.events) fun i => (seen i).filterMap Obs.mark
  invoked : Attributed s.ids (invocationsOf s.runner.invoked)
    fun i => (seen i).filterMap Obs.invocation

theorem ids_set {j : Nat} {r r' : Running} (hr : s.runs[j]? = some r) (hrun : r'.runId = r.runId) :
    (s.runs.set j r').map (·.runId) = s.ids := by
  obtain ⟨hlt, rfl⟩ := List.getElem?_eq_some_iff.mp hr
  have hlt' : j < (s.runs.map (·.runId)).length := by rwa [List.length_map]
  have hsame : (s.runs.map (·.runId))[j] = r'.runId := by rw [List.getElem_map, hrun]
  rw [List.map_set, ← hsame, List.set_getElem_self hlt']
  rfl

theorem Moves.ids (h : Moves K s s' m seen) : s.ids <+: s'.ids := by
  cases h with
  | aside hruns =>
      have hsame : s'.ids = s.ids := congrArg (List.map _) hruns
      exact hsame ▸ List.prefix_rfl
  | @starts r' _ _ _ _ hruns =>
      have hadd : s'.ids = s.ids ++ [r'.runId] := by
        unfold System.ids
        rw [hruns, List.map_append]
        rfl
      exact hadd ▸ List.prefix_append _ _
  | resumes _ hr hruns hrun =>
      have hsame : s'.ids = s.ids := (congrArg (List.map _) hruns).trans (ids_set hr hrun)
      exact hsame ▸ List.prefix_rfl

/-- A new run gets an id that none has had. -/
def FreshId (s : System sha256) : Move → Prop
  | .run _ _ _ runId => runId ∉ s.ids
  | _ => True

theorem Moves.distinct (h : Moves K s s' m seen) (hfresh : s.FreshId m) (hdistinct : s.ids.Nodup) :
    s'.ids.Nodup := by
  unfold System.ids
  cases h with
  | aside hruns =>
      rw [hruns]
      exact hdistinct
  | starts hm hruns =>
      rw [hruns, List.map_append]
      rw [hm] at hfresh
      refine List.nodup_append.mpr
        ⟨hdistinct, List.nodup_singleton _, fun id hid new hnew heq => ?_⟩
      obtain rfl := List.mem_singleton.mp hnew
      subst heq
      exact hfresh hid
  | resumes _ hr hruns hrun =>
      rw [hruns, ids_set hr hrun]
      exact hdistinct

/-- What one run adds to a log. -/
theorem attributed_observe {β : Type} {f : Obs → Option β} {owners : List String} {runId : String}
    {log log' : List (String × β)} {j : Nat} (hdistinct : owners.Nodup)
    (hj : owners[j]? = some runId)
    (hlog : log' = log ++ ((s.observe j m).filterMap f).map fun b => (runId, b))
    (hobs : ∀ i, i ≠ j → s.observe i m = [])
    (h : Attributed owners log fun i => (seen i).filterMap f) :
    Attributed owners log' fun i => (seen i ++ s.observe i m).filterMap f := by
  rw [hlog]
  refine h.append hdistinct hj List.filterMap_append fun i hi => ?_
  rw [hobs i hi, List.append_nil]

/-- What a move adds to a log of observations. -/
theorem Moves.attributed {β : Type} {f : Obs → Option β} {log log' : List (String × β)}
    (h : Moves K s s' m seen)
    (hlog : ∀ runId obs, s.runner.Shows s'.runner runId obs →
      log' = log ++ (obs.filterMap f).map fun b => (runId, b))
    (hseen : ∀ i, s.Follows K i (seen i)) (hatt : Attributed s.ids log fun i => (seen i).filterMap f)
    (hdistinct : s'.ids.Nodup) :
    Attributed s'.ids log' fun i => (seen i ++ s.observe i m).filterMap f := by
  cases h with
  | aside hruns hshows hobs =>
      have hsame : (fun i => seen i ++ s.observe i m) = seen :=
        funext fun i => by rw [hobs, List.append_nil]
      have hids : s'.ids = s.ids := congrArg (List.map _) hruns
      have hnothing := hlog "" [] (hshows "")
      rw [List.filterMap_nil, List.map_nil, List.append_nil] at hnothing
      simp only [hobs, List.append_nil]
      rw [hids, hnothing]
      exact hatt
  | @starts r' _ _ _ _ hruns hshows _ hobs =>
      have hids : s'.ids = s.ids ++ [r'.runId] := by
        unfold System.ids
        rw [hruns, List.map_append]
        rfl
      have hlength : s.ids.length = s.runs.length := List.length_map _
      have hnew : r'.runId ∉ s.ids := by
        rw [hids] at hdistinct
        exact fun hmem => List.disjoint_of_nodup_append hdistinct hmem (List.mem_singleton_self _)
      have hnone : seen s.ids.length = [] := by
        have hlast := hseen s.runs.length
        unfold Follows at hlast
        rw [List.getElem?_eq_none (Nat.le_refl _)] at hlast
        rw [hlength]
        exact hlast
      have hj : (s.ids ++ [r'.runId])[s.runs.length]? = some r'.runId := by
        rw [← hlength, List.getElem?_concat_length]
      rw [hids] at hdistinct ⊢
      exact attributed_observe hdistinct hj (hlog _ _ hshows) hobs
        (hatt.enter hnew (by rw [hnone]; rfl))
  | @resumes j _ r r' _ hr hruns hrun _ hshows _ hobs =>
      have hids : s'.ids = s.ids := by rw [← ids_set hr hrun, ← hruns]; rfl
      have hj : s.ids[j]? = some r'.runId := by
        unfold System.ids
        rw [List.getElem?_map, hr, hrun]
        rfl
      rw [hids] at hdistinct ⊢
      exact attributed_observe hdistinct hj (hlog _ _ hshows) hobs hatt

theorem Moves.recorded (h : Moves K s s' m seen) (hseen : ∀ i, s.Follows K i (seen i))
    (hrec : Recorded s seen) (hdistinct : s'.ids.Nodup) :
    Recorded s' fun i => seen i ++ s.observe i m where
  marks := h.attributed (fun _ _ hshows => hshows.marks) hseen hrec.marks hdistinct
  invoked := h.attributed (fun _ _ hshows => hshows.invoked) hseen hrec.invoked hdistinct

end Moves

/-- All that is seen of the `i`-th run along the moves. -/
def trace (s₀ : System sha256) (ms : List Move) (i : Nat) : List Obs :=
  collect System.step (fun s m => s.observe i m) s₀ ms

/-- **In any history each run keeps to its trail**; where the ids of the runs are distinct, ledger
    and executions record of each run what is seen of it. -/
theorem seen_of_run {ok : System sha256 → Move → Prop} {opts : RunnerOptions} {clock : Clock}
    {ms : List Move} {s : System sha256} (h : Run System.step ok (.create opts clock) ms s) :
    (∀ i, s.Follows .untouched i (trace (@create sha256 opts clock) ms i)) ∧
      (s.ids.Nodup → Recorded s (trace (@create sha256 opts clock) ms)) := by
  have hfresh : Recorded (@create sha256 opts clock) fun _ => [] := ⟨.nil, .nil⟩
  refine h.invariant_collect (f := fun i s m => s.observe i m)
    (I := fun s seen => (∀ i, s.Follows .untouched i (seen i)) ∧ (s.ids.Nodup → Recorded s seen))
    ⟨create_follows, fun _ => hfresh⟩ ?_
  intro s m s' seen ⟨hseen, hrec⟩ _ hs
  have hmoves := step_moves hseen hs
  exact ⟨hmoves.follows hseen, fun hd =>
    hmoves.recorded hseen (hrec (hd.sublist hmoves.ids.sublist)) hd⟩

theorem distinct_of_run {opts : RunnerOptions} {clock : Clock} {ms : List Move} {s : System sha256}
    (h : Run System.step FreshId (.create opts clock) ms s) : s.ids.Nodup := by
  refine (h.invariant_collect (f := fun i s m => s.observe i m)
    (I := fun s seen => (∀ i, s.Follows .untouched i (seen i)) ∧ s.ids.Nodup)
    ⟨create_follows, List.nodup_nil⟩ ?_).2
  intro s m s' seen ⟨hseen, hdistinct⟩ hfresh hs
  have hmoves := step_moves hseen hs
  exact ⟨hmoves.follows hseen, hmoves.distinct hfresh hdistinct⟩

end System

end AgentKernel.Runner
