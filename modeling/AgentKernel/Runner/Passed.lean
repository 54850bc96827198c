/-
  File:      AgentKernel/Runner/Passed.lean
  Subject:   What a run has done that passes by its results.

  A step that does not get to a successful execution leaves a failure among the results, whichever
  way it leaves the loop. So a run whose results are all it is judged by, and that passes, has seen
  nothing but successful executions.

  * `verify_passed`: what the verdict says about the results;
  * `Handled.passage`: a step with a successful result has passed each gate, in order;
  * `passed_results`: so have all the steps of a run that passes, where nobody else has its results;
  * **`passed_sound`**: and where nobody hides a failure or adds evidence.
-/
import AgentKernel.Runner.Outside

namespace AgentKernel.Runner

open Lib Events Immune

variable {sha256 : String → String}

/-! ## 1. The verdict -/

section Verdict

variable {results : List Result} {id target : String}

theorem mem_checksOf {c : VerificationCheck} (h : c ∈ LocalRunner.checksOf results) :
    ∃ r ∈ results, c.verdict = (if r.status = .success then .passed else .failed) ∧
      c.evidence = some r.evidence := by
  obtain ⟨p, hp, rfl⟩ := List.mem_map.mp h
  have hmem : p.1 ∈ results := by
    rw [← List.zipIdx_map_fst 0 results]
    exact List.mem_map_of_mem hp
  exact ⟨p.1, hmem, rfl, rfl⟩

theorem exists_check {r : Result} (h : r ∈ results) : ∃ c ∈ LocalRunner.checksOf results,
    c.verdict = (if r.status = .success then .passed else .failed) := by
  rw [← List.zipIdx_map_fst 0 results] at h
  obtain ⟨p, hp, rfl⟩ := List.mem_map.mp h
  exact ⟨_, List.mem_map_of_mem hp, rfl⟩

theorem deriveVerdict_passed {checks : List VerificationCheck}
    (h : deriveVerdict checks = .passed) : checks ≠ [] ∧ ∀ c ∈ checks, c.verdict = .passed := by
  unfold deriveVerdict at h
  split_ifs at h with hlength hfailed hall
  refine ⟨fun hnil => hlength (by rw [hnil]; rfl), fun c hc => ?_⟩
  exact of_decide_eq_true (List.all_eq_true.mp hall c hc)

/-- **What passes has results, all successful, and evidence.** -/
theorem verify_passed (h : (verify id target (LocalRunner.checksOf results)).verdict = .passed) :
    results ≠ [] ∧ (∀ r ∈ results, r.status = .success) ∧ ∃ r ∈ results, r.evidence ≠ [] := by
  unfold verify at h
  dsimp only at h
  split_ifs at h with hnone
  obtain ⟨hchecks, hall⟩ := deriveVerdict_passed h
  refine ⟨fun hnil => hchecks (by rw [hnil]; rfl), fun r hr => ?_, ?_⟩
  · obtain ⟨c, hc, hverdict⟩ := exists_check hr
    have hpassed := hall c hc
    rw [hverdict] at hpassed
    split_ifs at hpassed with hsuccess
    exact hsuccess
  · by_contra hno
    push Not at hno
    refine hnone ⟨h, ?_⟩
    rw [List.length_eq_zero_iff, List.flatMap_eq_nil_iff]
    intro c hc
    obtain ⟨r, hr, -, hevidence⟩ := mem_checksOf hc
    rw [hevidence]
    exact hno r hr

end Verdict

/-! ## 2. The steps -/

/-- The answers that a step has got on its way to a successful execution. -/
structure Passage where
  action : String
  decision : PolicyDecision
  quota : QuotaAnswer
  immune : ImmuneDecision
  input : Value
  again : PolicyDecision
  result : Result
  decided : decision.allowed = true
  within : quota.allowed = true
  admitted : immune.allowed = true
  decidedAgain : again.allowed = true
  success : result.status = .success

/-- What is seen of it, with one execution. -/
def Passage.seen (p : Passage) : List Obs :=
  [.guarded p.action none, .decided p.action p.decision] ++
    (if p.decision.approvalRequired then [.approved p.action (.ok true)] else []) ++
    [.quota p.action p.quota, .immune p.action (.ok p.immune), .input p.action (.ok p.input),
      .decidedAgain p.action p.again, .resolved p.action true, .canExecute p.action (.ok true),
      .invoked p.action p.input, .returned p.action (.ok p.result), .metered .toolCalls]

theorem Passage.invocations (p : Passage) :
    p.seen.filterMap Obs.invocation = [(p.action, p.input)] := by
  unfold seen
  split_ifs <;> rfl

/-- One execution each, in their order. -/
theorem invocations_passages : ∀ ps : List Passage,
    (ps.flatMap Passage.seen).filterMap Obs.invocation = ps.map fun p => (p.action, p.input)
  | [] => rfl
  | p :: ps => by
      rw [List.flatMap_cons, List.filterMap_append, p.invocations, invocations_passages ps]
      rfl

section Steps

/-- What others make of results hides no failure and adds no evidence. -/
structure Sharing.Honest (K : Sharing) : Prop where
  success : ∀ {given now : Result}, K.object given now → now.status = .success →
    given.status = .success
  evidence : ∀ {given now : Result}, K.object given now → now.evidence ≠ [] → given.evidence ≠ []
  successes : ∀ {pushed now : List Result}, K.array pushed now →
    (∀ r ∈ now, r.status = .success) → ∀ r ∈ pushed, r.status = .success
  someEvidence : ∀ {pushed now : List Result}, K.array pushed now →
    (∃ r ∈ now, r.evidence ≠ []) → ∃ r ∈ pushed, r.evidence ≠ []

theorem Sharing.honest_honest : Sharing.honest.Honest where
  success h hsuccess := by
    by_contra hfailed
    obtain ⟨r, hr, hne⟩ := h.failure ⟨_, List.mem_singleton_self _, hfailed⟩
    rw [List.mem_singleton.mp hr] at hne
    exact hne hsuccess
  evidence h hsome := by
    obtain ⟨r, hr, hne⟩ := h.evidence ⟨_, List.mem_singleton_self _, hsome⟩
    rwa [List.mem_singleton.mp hr] at hne
  successes h hall r hr := by
    by_contra hfailed
    obtain ⟨r', hr', hne⟩ := h.failure ⟨r, hr, hfailed⟩
    exact hne (hall r' hr')
  someEvidence h := h.evidence

theorem Sharing.untouched_honest : Sharing.untouched.Honest where
  success := by
    rintro _ _ rfl h
    exact h
  evidence := by
    rintro _ _ rfl h
    exact h
  successes := by
    rintro _ _ rfl h
    exact h
  someEvidence := by
    rintro _ _ rfl h
    exact h

variable {K : Sharing} {action : String} {result : Result} {seen : List Obs}

theorem Handled.passage (hK : K.Honest) (h : Handled K action result seen)
    (hsuccess : result.status = .success) :
    ∃ p : Passage, p.action = action ∧ K.object p.result result ∧ p.seen = seen := by
  cases h with
  | guard | policy | approval | quota | immune => cases hsuccess
  | executed hat =>
      cases hat with
      | deniedBack _ hkept | refusedBack _ hkept => cases hK.success hkept hsuccess
      | back hat =>
          cases hat with
          | @completed _ v given _ hrequested hkept =>
          obtain ⟨hgated, hagain⟩ := hrequested
          obtain ⟨hcleared, hquota, himmune⟩ := hgated
          have hgiven := hK.success hkept hsuccess
          cases hcleared with
          | @atOnce decision hallowed hrequired =>
              refine ⟨⟨action, decision, _, _, v, _, given, hallowed, hquota, himmune, hagain,
                hgiven⟩, rfl, hkept, ?_⟩
              unfold Passage.seen
              rw [hrequired]
              rfl
          | @approved decision hallowed hrequired =>
              refine ⟨⟨action, decision, _, _, v, _, given, hallowed, hquota, himmune, hagain,
                hgiven⟩, rfl, hkept, ?_⟩
              unfold Passage.seen
              rw [hrequired]
              rfl

theorem Handles.passages {steps : List RunStep} {results : List Result} (hK : K.Honest)
    (h : Handles K steps results seen) (hsuccess : ∀ r ∈ results, r.status = .success) :
    ∃ ps : List Passage, ps.map (·.action) = steps.map (·.action) ∧
      List.Forall₂ K.object (ps.map (·.result)) results ∧ ps.flatMap Passage.seen = seen := by
  induction h with
  | nil => exact ⟨[], rfl, .nil, rfl⟩
  | snoc _ hstep ih =>
      obtain ⟨ps, hactions, hresults, hseen⟩ :=
        ih fun r hr => hsuccess r (List.mem_append_left _ hr)
      obtain ⟨p, haction, hresult, hseen'⟩ :=
        hstep.passage hK (hsuccess _ (List.mem_append_right _ (List.mem_singleton_self _)))
      refine ⟨ps ++ [p], ?_, ?_, ?_⟩
      · rw [List.map_append, List.map_append, hactions, List.map_singleton, haction]
        rfl
      · rw [List.map_append]
        exact List.rel_append hresults (.cons hresult .nil)
      · rw [List.flatMap_append, hseen, List.flatMap_singleton, hseen']

end Steps

/-! ## 3. The run -/

/-- The loop is left early only with a failure, so that a run that passes has come to its end. -/
theorem Trail.passed {K : Sharing} {r : Running} {seen : List Obs}
    {outcome : ProofCarryingOutcome} (hK : K.Honest) (h : Trail K r seen)
    (hsettled : r.awaiting = .settled (.ok outcome))
    (hpassed : outcome.verdict = .passed) (hresults : r.opts.verifies = false) :
    outcome.results = r.results ∧ ∃ pushed, K.late pushed r.results ∧
    ∃ ps : List Passage, ps ≠ [] ∧ ps.map (·.action) = r.steps.map (·.action) ∧
      List.Forall₂ K.object (ps.map (·.result)) pushed ∧ (∃ p ∈ ps, p.result.evidence ≠ []) ∧
      seen = opening ++ ps.flatMap Passage.seen ++ [.concluded .passed] := by
  cases h with
  | concluded hconcluded hleft hlate hverdict =>
      obtain ⟨id, now, hkept, rfl⟩ := hverdict hresults
      unfold Running.Concluded at hconcluded
      rw [hsettled] at hconcluded
      obtain ⟨hv, hout⟩ := hconcluded
      rw [hpassed] at hv
      obtain ⟨-, hall, hevidence⟩ := verify_passed hv.symm
      have hpushed := hK.successes hkept hall
      obtain ⟨hsteps, hdone, hrest⟩ := hleft
      obtain rfl | ⟨result, hmem, hfailure⟩ := hrest
      · rw [List.append_nil] at hsteps
        obtain ⟨ps, hactions, hps, hseen⟩ := hdone.passages hK hpushed
        obtain ⟨result, hmem, hsome⟩ := hK.someEvidence hkept hevidence
        obtain ⟨given, hgiven, hobject⟩ := exists_of_forall₂ hps hmem
        obtain ⟨p, hp, rfl⟩ := List.mem_map.mp hgiven
        refine ⟨hout, _, hlate, ps, List.ne_nil_of_mem hp, ?_, hps, ⟨p, hp, ?_⟩, ?_⟩
        · rw [hactions, hsteps]
        · exact hK.evidence hobject hsome
        · rw [hseen, ← hv]
      · rw [hpushed result hmem] at hfailure
        cases hfailure
  | planning h | asking h | executing h | verifying h | broken h | unverified h =>
      rw [hsettled] at h
      cases h

/-- What the verdict `PASSED` promises of a run. -/
structure System.Promised (s : System sha256) (r : Running) (seen : List Obs) : Prop where
  steps : r.steps ≠ []
  /-- Every step has gone through every gate to one execution, in their order. -/
  passages : ∃ ps : List Passage, ps.map (·.action) = r.steps.map (·.action) ∧
    (∃ p ∈ ps, p.result.evidence ≠ []) ∧
    seen = opening ++ ps.flatMap Passage.seen ++ [.concluded .passed] ∧
    (s.ids.Nodup → taggedWith r.runId (invocationsOf s.runner.invoked) =
      ps.map fun p => (p.action, p.input))

namespace System

section Histories

variable {opts : RunnerOptions} {clock : Clock} {ledger : Ledger sha256} {ms : List Move}
  {ds : List (Deed sha256)} {s : System sha256} {i : Nat} {r : Running}
  {outcome : ProofCarryingOutcome}

/-- Where only the runs have the results, these are what the executors have returned. -/
theorem passed_results
    (h : Run System.step (fun _ _ => True) (@create sha256 opts clock) ms s)
    (hr : s.runs[i]? = some r) (hsettled : r.awaiting = .settled (.ok outcome))
    (hpassed : outcome.verdict = .passed) (hresults : r.opts.verifies = false) :
    ∃ ps : List Passage, ps.map (·.action) = r.steps.map (·.action) ∧
      ps.map (·.result) = outcome.results := by
  have htrail := (seen_of_run h).1 i
  unfold Follows at htrail
  rw [hr] at htrail
  obtain ⟨hout, pushed, hlate, ps, -, hactions, hps, -⟩ :=
    Trail.passed Sharing.untouched_honest htrail hsettled hpassed hresults
  have hgiven : ps.map (·.result) = pushed := List.forall₂_eq_eq_eq ▸ hps
  have hpushed : pushed = r.results := hlate
  exact ⟨ps, hactions, hgiven.trans (hpushed.trans hout.symm)⟩

/-- **A run that passes by its results** has had steps, all of them, in their order, through every
    gate to one successful execution, and some evidence: whatever others do, as long as who changes
    results hides no failure and adds no evidence. -/
theorem passed_sound (h : Run System.deed HidesNothing (createOn opts clock ledger) ds s)
    (hr : s.runs[i]? = some r) (hsettled : r.awaiting = .settled (.ok outcome))
    (hpassed : outcome.verdict = .passed) (hresults : r.opts.verifies = false) :
    s.Promised r (deedTrace (createOn opts clock ledger) ds i) := by
  have htrail := follows_of_deeds (fun _ _ hd => hd.within) h i
  unfold Follows at htrail
  rw [hr] at htrail
  obtain ⟨-, -, -, ps, hsome, hactions, -, hevidence, htrace⟩ :=
    Trail.passed Sharing.honest_honest htrail hsettled hpassed hresults
  refine ⟨fun hnil => hsome ?_, ps, hactions, hevidence, htrace, fun hdistinct => ?_⟩
  · rw [hnil] at hactions
    exact List.map_eq_nil_iff.mp hactions
  · have hid : s.ids[i]? = some r.runId := by
      unfold ids
      rw [List.getElem?_map, hr]
      rfl
    have hinvoked := invoked_of_deeds (fun _ _ hd => HidesNothing.within hd) h hdistinct
    rw [hinvoked.own i r.runId hid, htrace, List.filterMap_append, List.filterMap_append,
      invocations_passages]
    exact List.append_nil _

end Histories

/-! ## 4. A history -/

/-- `Keeps`, to be computed. -/
def keeps (given now : List Result) : Bool :=
  (given.all (·.status = .success) || now.any (·.status ≠ .success)) &&
    (now.all (·.evidence = []) || given.any (·.evidence ≠ []))

theorem keeps_sound {given now : List Result} (h : keeps given now = true) : Keeps given now := by
  unfold keeps at h
  simp only [Bool.and_eq_true, Bool.or_eq_true, List.all_eq_true, List.any_eq_true,
    decide_eq_true_eq] at h
  constructor
  · intro hgiven
    obtain ⟨r, hr, hfailed⟩ := hgiven
    exact h.1.resolve_left fun hall => hfailed (hall r hr)
  · intro hnow
    obtain ⟨r, hr, hsome⟩ := hnow
    exact h.2.resolve_left fun hall => hsome (hall r hr)

/-- `HidesNothing`, to be computed. -/
def hidesNothing (s : System sha256) : Deed sha256 → Bool
  | .touch i results inHand =>
      (s.runs[i]?).all fun r =>
        r.judged || keeps r.results results && r.inHand.all fun given => keeps [given] [inHand]
  | _ => true

theorem hidesNothing_sound {s : System sha256} {d : Deed sha256} (h : s.hidesNothing d = true) :
    s.HidesNothing d := by
  cases d with
  | touch i results inHand =>
      intro r hr hjudged
      unfold hidesNothing at h
      simp only [hr, Option.all_some, hjudged, Bool.false_or, Bool.and_eq_true] at h
      refine ⟨keeps_sound h.1, fun given hgiven => keeps_sound ?_⟩
      simpa [hgiven] using h.2
  | move | append | record | immune | policy => trivial

/-- The agent may write, then read. -/
def twoCalls : RunnerOptions where
  mode := .local
  grants := [
    { id := "g1", principal := "coder", capability := "repo.write", scope := "*", effect := .allow },
    { id := "g2", principal := "coder", capability := "repo.read", scope := "*", effect := .allow }]

/-- It writes, and reads what the last result says, `rs => rs.pop()?.output`. -/
def writeAndRead : Move :=
  .run "write and read"
    { plan := some []
      steps := some [{ action := "repo.write" },
        { action := "repo.read"
          input := some (.compute fun rs => .ok ((rs.getLast?.map (·.output)).getD .undefined)) }] }
    "t1" "r1"

/-- The first step ends with `first`, the second takes it out of the array, and succeeds. -/
def writtenAndRead (first : Result) : List (Deed id) :=
  [.move (.registerExecutor "repo.write"), .move (.registerExecutor "repo.read"), .move writeAndRead,
    .move (.resume 0 .done), .move (.resume 0 (.answer true)), .move (.resume 0 (.result first)),
    .move (.resume 0 .done), .move (.resume 0 .done), .touch 0 [] first,
    .move (.resume 0 .done), .move (.resume 0 (.answer true)), .move (.resume 0 (.result haveRead)),
    .move (.resume 0 .done), .move (.resume 0 .done), .move (.resume 0 .done),
    .move (.resume 0 .done)]

/-- Who takes a success out of the array hides nothing. -/
theorem passed_sound_writtenAndRead : ∃ r outcome,
    (afterDeeds twoCalls (writtenAndRead haveRead)).runs[0]? = some r ∧
    r.awaiting = .settled (.ok outcome) ∧ outcome.verdict = .passed ∧
    outcome.results = [haveRead] ∧
    (afterDeeds twoCalls (writtenAndRead haveRead)).Promised r
      (deedTrace (createOn twoCalls someClock (.empty id)) (writtenAndRead haveRead) 0) :=
  ⟨_, _, rfl, rfl, rfl, rfl,
    passed_sound (run_of_exec_check (fun _ _ => hidesNothing_sound) rfl) rfl rfl rfl rfl⟩

/-- What an executor returns that has failed. -/
def haveFailed : Result := { status := .failure, output := .null, evidence := [] }

theorem Promised.returned {s : System sha256} {r : Running} {seen : List Obs}
    (h : s.Promised r seen)
    {action : String} {result : Result} (hmem : .returned action (.ok result) ∈ seen) :
    result.status = .success := by
  obtain ⟨-, ps, -, -, rfl, -⟩ := h
  have hsome : .returned action (.ok result) ∈ ps.flatMap Passage.seen := by
    simpa [opening] using hmem
  obtain ⟨p, -, hp⟩ := List.mem_flatMap.mp hsome
  have heq : result = p.result := by
    unfold Passage.seen at hp
    split_ifs at hp <;> simp at hp <;> exact hp.2
  exact heq ▸ p.success

/-- **The step that reads takes the failure of the step that writes out of the array, and the run
    passes.** -/
theorem popped_failure_passes : ∃ r outcome,
    Run System.deed (fun _ _ => True) (createOn twoCalls someClock (.empty id))
      (writtenAndRead haveFailed) (afterDeeds twoCalls (writtenAndRead haveFailed)) ∧
    (afterDeeds twoCalls (writtenAndRead haveFailed)).runs[0]? = some r ∧
    r.awaiting = .settled (.ok outcome) ∧ outcome.verdict = .passed ∧ r.opts.verifies = false ∧
    .returned "repo.write" (.ok haveFailed) ∈
      deedTrace (createOn twoCalls someClock (.empty id)) (writtenAndRead haveFailed) 0 ∧
    ¬ (afterDeeds twoCalls (writtenAndRead haveFailed)).Promised r
      (deedTrace (createOn twoCalls someClock (.empty id)) (writtenAndRead haveFailed) 0) := by
  have hfailed : .returned "repo.write" (.ok haveFailed) ∈
      deedTrace (createOn twoCalls someClock (.empty id)) (writtenAndRead haveFailed) 0 :=
    List.mem_of_getElem? (i := 13) rfl
  refine ⟨_, _, run_of_exec (fun _ _ => trivial) rfl, rfl, rfl, rfl, rfl, hfailed, fun hsound => ?_⟩
  cases hsound.returned hfailed

end System

end AgentKernel.Runner
