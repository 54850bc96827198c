/-
  File:      AgentKernel/Runner/Authorized.lean
  Subject:   Why an executor has been started (apps/cli/src/local-runner.ts,
             kernel/execution/src/execute.ts).

  A step goes through its gates one after the other, and asks each of them once: the guard of names,
  the policy, who approves, the quota, the immune gate, the policy inside `execute`, the executor
  itself. It waits three times meanwhile, and others come in between: they may take back what a gate
  has said. What it has said to this step, before this execution, is seen of the run.

  * `Announced`, `Stands`: what the ledger says at the waits before an execution;
  * `Stretch`: what is seen of one step;
  * **`executions_authorized`**: whatever others do, every execution stands behind the gates of its
    own step;
  * **`executions_in_order`**: what is seen of a run are its first steps, in their order.
-/
import AgentKernel.Runner.Records

namespace AgentKernel.Runner

open Lib Events Immune

variable {sha256 : String → String}

namespace LocalRunner

/-! ## 1. Announcements -/

/-- The ledger announces the execution with its input. -/
def Announced (s : LocalRunner sha256) (r : Running) (action : String) (v : Value) : Prop :=
  ∃ e ∈ s.ledger.events, e.type = "execution.requested" ∧
    e.actor = { type := .agent, id := r.actorId } ∧ e.runId = r.runId ∧
    e.payload = announced action v

/-- What holds of a run at each of its waits. -/
def Stands (s : LocalRunner sha256) (r : Running) : Prop :=
  match r.awaiting with
  | .execute (.requested v) step _ | .execute (.asked v) step _ => Announced s r step.action v
  | _ => True

variable {s s' : LocalRunner sha256} {r r' : Running} {step : RunStep} {rest : List RunStep}
  {out : LocalRunner sha256 × Running} {action : String} {v : Value}

theorem Announced.mono (hs : s.ledger.events ⊆ s'.ledger.events) (h : Announced s r action v) :
    Announced s' r action v := by
  obtain ⟨e, he, hannounced⟩ := h
  exact ⟨e, hs he, hannounced⟩

/-- All that counts of the run is who runs what. -/
theorem Announced.same (hrun : r'.runId = r.runId) (hopts : r'.opts = r.opts)
    (h : Announced s r action v) : Announced s r' action v := by
  have hactor : r'.actorId = r.actorId := by
    unfold Running.actorId
    rw [hopts]
  unfold Announced
  rw [hactor, hrun]
  exact h

theorem Stands.mono (hs : s.ledger.events ⊆ s'.ledger.events) (h : Stands s r) : Stands s' r := by
  unfold Stands at h ⊢
  split at h
  · exact h.mono hs
  · exact h.mono hs
  · trivial

/-- The results of the run have no part in it. -/
theorem Stands.touched {results : List Result} {inHand : Result} (h : Stands s r) :
    Stands s (r.touched results inHand) := by
  unfold Stands at h
  unfold Stands Running.touched
  dsimp only
  cases hr : r.awaiting with
  | execute point step rest =>
      rw [hr] at h
      cases point with
      | requested v | asked v => exact h
      | denied | refused | executing | completed | returned => trivial
  | plan | approval | verify | billing | flush | settled => trivial

theorem Writes.subset (h : Writes s s') : s.ledger.events ⊆ s'.ledger.events := fun _ he => h.keeps he

/-! ## 2. The loop -/

/-- A stretch of a run writes, and comes to a wait. -/
structure Lands (s : LocalRunner sha256) (r : Running) (out : LocalRunner sha256 × Running) :
    Prop where
  writes : Writes s out.1
  runId : out.2.runId = r.runId
  opts : out.2.opts = r.opts
  stands : Stands out.1 out.2

theorem Lands.after (h : Writes s s') (hl : Lands s' r' out) (hrun : r'.runId = r.runId)
    (hopts : r'.opts = r.opts) : Lands s r out where
  writes := h.trans hl.writes
  runId := hl.runId.trans hrun
  opts := hl.opts.trans hopts
  stands := hl.stands

/-- What a step of the loop leaves behind, wherever it leads. -/
def FlowLands (s : LocalRunner sha256) (r : Running) :
    Flow (LocalRunner sha256 × Running) → Prop
  | .next out | .leave out => Writes s out.1 ∧ out.2.runId = r.runId ∧ out.2.opts = r.opts
  | .halt out => Lands s r out

/-- The failure of a step goes on record. -/
theorem logged_flow {type reason : String} {fields : List (String × Value)}
    (hkeys : (fields.map Prod.fst).Nodup) (h : ∀ f ∈ fields, f.2.Whole) :
    Writes s (s.log r type fields) ∧ (r.push (fail reason)).runId = r.runId ∧
      (r.push (fail reason)).opts = r.opts := ⟨log_writes hkeys h, rfl, rfl⟩

theorem execute_lands : Lands s r (s.execute r step rest v) := by
  unfold execute
  dsimp only
  split_ifs
  · refine ⟨emit_writes (by simp) fun f hf => ?_, rfl, rfl, trivial⟩
    simp only [List.mem_cons, List.not_mem_nil, or_false] at hf
    rcases hf with rfl | rfl <;> trivial
  · have hwrites : Writes s (s.emit r "execution.requested"
        [("action", .str step.action), ("input", v)]) := append_writes (.inr ⟨rfl, _, _, rfl⟩)
    refine ⟨hwrites, rfl, rfl, ?_⟩
    exact ⟨_, List.mem_append_right _ (List.mem_singleton_self _), rfl, rfl, rfl, rfl⟩

theorem attempt_lands : FlowLands s r (s.attempt r step rest) := by
  unfold attempt
  dsimp only
  split_ifs
  · refine logged_flow (by simp) fun f hf => ?_
    simp only [List.mem_cons, List.not_mem_nil, or_false] at hf
    rcases hf with rfl | rfl <;> trivial
  · have hgate := @immuneGate_writes sha256 s (requestOf r step)
    rcases hout : s.immuneGate (requestOf r step) with ⟨s', error | decision⟩
    · rw [hout] at hgate
      exact ⟨hgate, rfl, rfl, trivial⟩
    · rw [hout] at hgate
      dsimp only
      split_ifs
      · refine ⟨hgate.trans (log_writes (by simp) fun f hf => ?_), rfl, rfl⟩
        simp only [List.mem_cons, List.not_mem_nil, or_false] at hf
        rcases hf with rfl | rfl | rfl | rfl
        · trivial
        · trivial
        · trivial
        · exact whole_texts _
      · cases resolveInput step r.results with
        | error message => exact ⟨hgate, rfl, rfl, trivial⟩
        | ok input => exact .after hgate execute_lands rfl rfl

theorem consider_lands : FlowLands s r (s.consider r step rest) := by
  unfold consider
  dsimp only
  split
  · refine logged_flow (by simp) fun f hf => ?_
    simp only [List.mem_cons, List.not_mem_nil, or_false] at hf
    rcases hf with rfl | rfl <;> trivial
  · split_ifs
    · refine logged_flow (by simp) fun f hf => ?_
      simp only [List.mem_cons, List.not_mem_nil, or_false] at hf
      rcases hf with rfl | rfl <;> trivial
    · refine ⟨log_writes (by simp) fun f hf => ?_, rfl, rfl, trivial⟩
      rw [List.mem_singleton.mp hf]
      trivial
    · exact attempt_lands

theorem conclude_lands {checks : List VerificationCheck} : Lands s r (s.conclude r checks) := by
  have hverified : Writes s (s.log r "VerificationCompleted"
      [("verdict", .str (verify (s.clock.uuids s.ledger.events.length) r.intent checks).verdict.text),
        ("evidence", evidenceValue
          (verify (s.clock.uuids s.ledger.events.length) r.intent checks).evidence)]) := by
    refine log_writes (by simp) fun f hf => ?_
    simp only [List.mem_cons, List.not_mem_nil, or_false] at hf
    rcases hf with rfl | rfl
    · trivial
    · exact evidence_whole _
  unfold conclude
  dsimp only
  refine ⟨hverified.trans ?_, rfl, rfl, trivial⟩
  split_ifs
  · refine log_writes (by simp) fun f hf => ?_
    rw [List.mem_singleton.mp hf]
    trivial
  · refine log_writes (by simp) fun f hf => ?_
    simp only [List.mem_cons, List.not_mem_nil, or_false] at hf
    rcases hf with rfl | rfl <;> trivial

theorem afterLoop_lands : Lands s r (s.afterLoop r) := by
  unfold afterLoop
  split_ifs
  · exact ⟨.refl s, rfl, rfl, trivial⟩
  · exact conclude_lands

/-- **The loop comes to a wait at which the run stands.** -/
theorem loop_lands : ∀ {steps : List RunStep} {s : LocalRunner sha256} {r : Running},
    Lands s r (s.loop r steps)
  | [], _, _ => afterLoop_lands
  | step :: rest, s, r => by
      have hflow : FlowLands s r (s.consider r step rest) := consider_lands
      unfold loop
      cases hc : s.consider r step rest with
      | next out =>
          rw [hc] at hflow
          obtain ⟨hwrites, hrun, hopts⟩ := hflow
          exact .after hwrites loop_lands hrun hopts
      | leave out =>
          rw [hc] at hflow
          exact .after hflow.1 afterLoop_lands hflow.2.1 hflow.2.2
      | halt out =>
          rw [hc] at hflow
          exact hflow

theorem resumeLoop_lands {flow : Flow (LocalRunner sha256 × Running)} (h : FlowLands s r flow) :
    Lands s r (resumeLoop rest flow) := by
  cases flow with
  | next out =>
      obtain ⟨hwrites, hrun, hopts⟩ := h
      exact .after hwrites loop_lands hrun hopts
  | leave out => exact .after h.1 afterLoop_lands h.2.1 h.2.2
  | halt out => exact h

theorem planned_lands {plan : List String} : Lands s r (s.planned r plan) := by
  have hlogged : Writes (s.record r .modelCalls) ((s.record r .modelCalls).log r "PlanGenerated"
      [("plan", .arr ((stepsOf r.opts plan).map fun step => .str step.action))]) := by
    refine log_writes (by simp) fun f hf => ?_
    rw [List.mem_singleton.mp hf]
    have hmap : (stepsOf r.opts plan).map (fun step => Value.str step.action) =
        ((stepsOf r.opts plan).map (·.action)).map .str := by
      rw [List.map_map]
      rfl
    dsimp only
    rw [hmap]
    exact whole_texts _
  exact .after (record_writes.trans hlogged) loop_lands rfl rfl

/-! ## 3. From one wait to the next -/

/-- What a run does when a wait ends. -/
structure Resumes (s : LocalRunner sha256) (r : Running) (out : LocalRunner sha256 × Running) :
    Prop extends Lands s r out where
  invoked : ∀ inv ∈ out.1.invoked,
    inv ∈ s.invoked ∨ inv.runId = r.runId ∧ Announced s r inv.action inv.input

theorem Lands.resumes (h : Lands s r out) (hinvoked : out.1.invoked = s.invoked) :
    Resumes s r out where
  toLands := h
  invoked _ hinv := .inl (hinvoked ▸ hinv)

/-- A wait that is over without another one to stand at. -/
theorem Resumes.calm {r' : Running} (hrun : r'.runId = r.runId) (hopts : r'.opts = r.opts)
    (hstands : Stands s r') : Resumes s r (s, r') :=
  Lands.resumes ⟨.refl s, hrun, hopts, hstands⟩ rfl

theorem executeOn_resumes {point : ExecutePoint} {wake : Wake}
    (hr : r.awaiting = .execute point step rest) (hstands : Stands s r)
    (h : s.executeOn r step rest point wake = some out) : Resumes s r out := by
  unfold Stands at hstands
  rw [hr] at hstands
  cases point with
  | denied | refused | completed =>
      cases wake with
      | done =>
          cases h
          exact .calm rfl rfl trivial
      | answer | result | checks | thrown => cases h
  | requested input =>
      cases wake with
      | done =>
          unfold executeOn at h
          dsimp only at h
          split_ifs at h
          · cases h
            exact .calm rfl rfl (.same (r := r) rfl rfl hstands)
          · cases h
            exact .calm rfl rfl trivial
      | answer | result | checks | thrown => cases h
  | asked input =>
      cases wake with
      | answer yes =>
          cases yes with
          | true =>
              -- the only place where an executor is started
              cases h
              refine ⟨⟨⟨rfl, rfl, rfl, [], (List.append_nil _).symm, by simp⟩, rfl, rfl, trivial⟩,
                fun inv hinv => ?_⟩
              rcases List.mem_append.mp hinv with hold | hnew
              · exact .inl hold
              · rw [List.mem_singleton.mp hnew]
                exact .inr ⟨rfl, hstands⟩
          | false =>
              cases h
              refine Lands.resumes ⟨emit_writes (by simp) fun f hf => ?_, rfl, rfl, trivial⟩ rfl
              simp only [List.mem_cons, List.not_mem_nil, or_false] at hf
              rcases hf with rfl | rfl <;> trivial
      | thrown message =>
          cases h
          exact .calm rfl rfl trivial
      | done | result | checks => cases h
  | executing =>
      cases wake with
      | result result =>
          cases h
          refine Lands.resumes ⟨emit_writes (by simp) fun f hf => ?_, rfl, rfl, trivial⟩ rfl
          simp only [List.mem_cons, List.not_mem_nil, or_false] at hf
          rcases hf with rfl | rfl | rfl
          · trivial
          · trivial
          · exact evidence_whole _
      | thrown message =>
          cases h
          exact .calm rfl rfl trivial
      | done | answer | checks => cases h
  | returned result =>
      cases wake with
      | done =>
          cases h
          refine Lands.resumes (.after record_writes (loop_lands (r := r.push result)) rfl rfl) ?_
          exact loop_waits.untouched.invoked
      | answer | result | checks | thrown => cases h

/-- **A run goes from one wait at which it stands to the next**, and starts nothing that is not
    announced. -/
theorem resume_resumes {wake : Wake} (hstands : Stands s r) (h : s.resume r wake = some out) :
    Resumes s r out := by
  unfold resume at h
  cases hr : r.awaiting with
  | execute point step rest =>
      rw [hr] at h
      exact executeOn_resumes hr hstands h
  | plan =>
      rw [hr] at h
      cases wake with
      | done =>
          cases h
          exact planned_lands.resumes planned_waits.untouched.invoked
      | answer | result | checks | thrown => cases h
  | approval step rest =>
      rw [hr] at h
      cases wake with
      | answer approved =>
          dsimp only at h
          split_ifs at h
          · cases h
            have hgranted : Writes s (s.log r "ApprovalGranted" [("action", .str step.action)]) := by
              refine log_writes (by simp) fun f hf => ?_
              rw [List.mem_singleton.mp hf]
              trivial
            refine Lands.resumes (.after hgranted (resumeLoop_lands attempt_lands) rfl rfl) ?_
            exact (resumeLoop_waits attempt_flowsOn).untouched.invoked
          · cases h
            have hdenied : Writes s (s.log r "ApprovalDenied"
                [("action", .str step.action), ("reason", .str "not approved")]) := by
              refine log_writes (by simp) fun f hf => ?_
              simp only [List.mem_cons, List.not_mem_nil, or_false] at hf
              rcases hf with rfl | rfl <;> trivial
            refine Lands.resumes (.after hdenied (loop_lands (r := r.push _)) rfl rfl) ?_
            exact loop_waits.untouched.invoked
      | thrown message =>
          dsimp only at h
          split_ifs at h
          cases h
          exact .calm rfl rfl trivial
      | done | result | checks => cases h
  | verify =>
      rw [hr] at h
      cases wake with
      | checks checks =>
          cases h
          exact conclude_lands.resumes conclude_waits.untouched.invoked
      | thrown message =>
          cases h
          exact .calm rfl rfl trivial
      | done | answer | result => cases h
  | billing verification usage | flush verification usage =>
      rw [hr] at h
      cases wake with
      | done =>
          cases h
          exact .calm rfl rfl trivial
      | thrown message =>
          cases h
          exact .calm rfl rfl trivial
      | answer | result | checks => cases h
  | settled outcome =>
      rw [hr] at h
      cases wake <;> cases h

/-- A new run stands at its first wait. -/
theorem run_lands (s : LocalRunner sha256) (intent : String) (opts : RunTaskOptions)
    (taskId runId : String) :
    Writes s (s.run intent opts taskId runId).1 ∧
      (s.run intent opts taskId runId).1.invoked = s.invoked ∧
      Stands (s.run intent opts taskId runId).1 (s.run intent opts taskId runId).2 := by
  let r : Running :=
    { intent := intent, taskId := taskId, runId := runId, opts := opts, results := []
      awaiting := .plan }
  have hcreated : Writes s (s.log r "RunCreated"
      [("intent", .str intent), ("mode", .str s.opts.mode.text)]) := by
    refine log_writes (by simp) fun f hf => ?_
    simp only [List.mem_cons, List.not_mem_nil, or_false] at hf
    rcases hf with rfl | rfl <;> trivial
  have htask : Writes (s.log r "RunCreated"
      [("intent", .str intent), ("mode", .str s.opts.mode.text)]) ((s.log r "RunCreated"
        [("intent", .str intent), ("mode", .str s.opts.mode.text)]).log r "TaskCreated"
        [("intent", .str intent)]) := by
    refine log_writes (by simp) fun f hf => ?_
    rw [List.mem_singleton.mp hf]
    trivial
  have hstart := (hcreated.trans htask).trans (@record_writes sha256 _ r .runs)
  unfold run
  dsimp only
  cases opts.plan with
  | none => exact ⟨hstart, rfl, trivial⟩
  | some plan =>
      have hlands := Lands.after hstart (@planned_lands sha256 _ r plan) rfl rfl
      exact ⟨hlands.writes, planned_waits.untouched.invoked, hlands.stands⟩

end LocalRunner

/-! ## 4. All the runs -/

namespace System

/-- Every run stands at its wait, and the ledger announces every execution there has been. -/
structure Guarded (s : System sha256) : Prop where
  stands : ∀ r ∈ s.runs, s.runner.Stands r
  announced : ∀ inv ∈ s.runner.invoked, ∃ r ∈ s.runs, inv.runId = r.runId ∧
    s.runner.Announced r inv.action inv.input

variable {s s' : System sha256} {m : Move} {opts : RunnerOptions} {clock : Clock} {ms : List Move}

theorem Guarded.follows {runner : LocalRunner sha256} (h : s.Guarded)
    (hevents : s.runner.ledger.events ⊆ runner.ledger.events)
    (hinvoked : runner.invoked = s.runner.invoked) : Guarded { s with runner := runner } where
  stands r hr := (h.stands r hr).mono hevents
  announced inv hinv := by
    obtain ⟨r, hr, hrun, hannounced⟩ := h.announced inv (hinvoked ▸ hinv)
    exact ⟨r, hr, hrun, hannounced.mono hevents⟩

/-- A run of before, as it is now. -/
theorem kept_of_set {i : Nat} {r r' r'' : Running} (hr : s.runs[i]? = some r)
    (hrun : r''.runId = r.runId) (hopts : r''.opts = r.opts) (hr' : r' ∈ s.runs) :
    ∃ q ∈ s.runs.set i r'', q.runId = r'.runId ∧ q.opts = r'.opts := by
  obtain ⟨j, hj⟩ := List.mem_iff_getElem?.mp hr'
  by_cases hij : i = j
  · subst hij
    obtain rfl := Option.some.inj (hr.symm.trans hj)
    exact ⟨r'', List.mem_set (List.getElem?_eq_some_iff.mp hr).1 _, hrun, hopts⟩
  · refine ⟨r', List.mem_iff_getElem?.mpr ⟨j, ?_⟩, rfl, rfl⟩
    rw [List.getElem?_set_ne hij, hj]

/-- **Every move keeps it.** -/
theorem step_guarded (h : s.Guarded) (hs : s.step m = some s') : s'.Guarded := by
  cases m with
  | run intent opts taskId runId =>
      cases hs
      obtain ⟨hwrites, hinvoked, hstands⟩ := s.runner.run_lands intent opts taskId runId
      have hold := h.follows hwrites.subset hinvoked
      refine ⟨fun r hr => ?_, fun inv hinv => ?_⟩
      · rcases List.mem_append.mp hr with hr | hr
        · exact hold.stands r hr
        · rw [List.mem_singleton.mp hr]
          exact hstands
      · obtain ⟨r, hr, hannounced⟩ := hold.announced inv hinv
        exact ⟨r, List.mem_append_left _ hr, hannounced⟩
  | resume i wake =>
      obtain ⟨r, hr, hout⟩ := Option.bind_eq_some_iff.mp hs
      obtain ⟨out, hresume, rfl⟩ := Option.map_eq_some_iff.mp hout
      have hmem := List.mem_of_getElem? hr
      have hresumes := LocalRunner.resume_resumes (h.stands r hmem) hresume
      have hevents := hresumes.writes.subset
      have hnow : ∀ (inv : Invocation) r', r' ∈ s.runs → inv.runId = r'.runId →
          s.runner.Announced r' inv.action inv.input →
          ∃ q ∈ s.runs.set i out.2, inv.runId = q.runId ∧ out.1.Announced q inv.action inv.input := by
        intro inv r' hr' hrun hannounced
        obtain ⟨q, hq, hsame, hopts⟩ := kept_of_set hr hresumes.runId hresumes.opts hr'
        exact ⟨q, hq, hrun.trans hsame.symm, .same hsame hopts (hannounced.mono hevents)⟩
      refine ⟨fun r' hr' => ?_, fun inv hinv => ?_⟩
      · rcases List.mem_or_eq_of_mem_set hr' with hr' | rfl
        · exact (h.stands r' hr').mono hevents
        · exact hresumes.stands
      · rcases hresumes.invoked inv hinv with hold | ⟨hrun, hnew⟩
        · obtain ⟨r', hr', hrun, hannounced⟩ := h.announced inv hold
          exact hnow inv r' hr' hrun hannounced
        · exact hnow inv r hmem hrun hnew
  | grant grant =>
      unfold step at hs
      dsimp only at hs
      split at hs
      · cases hs
        exact h.follows (List.Subset.refl _) rfl
      · cases hs
        exact h
  | registerExecutor action =>
      unfold step at hs
      dsimp only at hs
      split_ifs at hs
      · cases hs
        exact h
      · cases hs
        exact h.follows (List.Subset.refl _) rfl

/-- **And so does every deed.** -/
theorem deed_guarded {d : Deed sha256} (h : s.Guarded) (hs : s.deed d = some s') : s'.Guarded := by
  cases d with
  | move m => exact step_guarded h hs
  | append | record =>
      cases hs
      exact h.follows (List.subset_append_left _ _) rfl
  | immune | policy =>
      cases hs
      exact h.follows (List.Subset.refl _) rfl
  | touch i results inHand =>
      obtain ⟨r, hr, hout⟩ := Option.bind_eq_some_iff.mp hs
      split_ifs at hout
      cases hout
      refine ⟨fun r' hr' => ?_, fun inv hinv => ?_⟩
      · rcases List.mem_or_eq_of_mem_set hr' with hr' | rfl
        · exact h.stands r' hr'
        · exact (h.stands r (List.mem_of_getElem? hr)).touched
      · obtain ⟨r', hr', hrun, hannounced⟩ := h.announced inv hinv
        have hid : (r.touched results inHand).runId = r.runId := rfl
        obtain ⟨q, hq, hsame, hopts⟩ := kept_of_set hr hid rfl hr'
        exact ⟨q, hq, hrun.trans hsame.symm, .same hsame hopts hannounced⟩

theorem guarded_of_deeds {ok : System sha256 → Deed sha256 → Prop} {ledger : Ledger sha256}
    {ds : List (Deed sha256)} (h : Run System.deed ok (createOn opts clock ledger) ds s) :
    s.Guarded := by
  refine h.invariant (I := Guarded) ⟨fun r hr => ?_, fun inv hinv => ?_⟩
    fun s d s' hg _ hs => deed_guarded hg hs
  · cases hr
  · cases hinv

end System

/-! ## 5. What is seen of one step -/

/-- A step begins, or an executor is started. -/
def Obs.marksStep : Obs → Bool
  | .guarded _ _ | .invoked _ _ => true
  | _ => false

/-- What is seen of one step: its guard of names comes first, and its executor is started once at the
    most, just behind what all its gates have answered. -/
inductive Stretch (action : String) : List Obs → Prop where
  | idle {rejected : Option String} {seen : List Obs} (h : seen.any Obs.marksStep = false) :
      Stretch action (.guarded action rejected :: seen)
  | executed {v : Value} {asked after : List Obs} (h : Requested action v asked)
      (hafter : after.any Obs.marksStep = false) :
      Stretch action (asked ++
        [.resolved action true, .canExecute action (.ok true), .invoked action v] ++ after)

/-- What is seen of some steps, in their order. -/
inductive Stretches : List RunStep → List Obs → Prop where
  | nil : Stretches [] []
  | snoc {steps : List RunStep} {step : RunStep} {seen seen' : List Obs} (h : Stretches steps seen)
      (hstep : Stretch step.action seen') : Stretches (steps ++ [step]) (seen ++ seen')

/-- What is seen of a run: before its first step, of its first steps in their order, and after them. -/
inductive InOrder (steps : List RunStep) : List Obs → Prop where
  | intro {done rest : List RunStep} {before seen after : List Obs} (hsteps : steps = done ++ rest)
      (hbefore : before.any Obs.marksStep = false) (hdone : Stretches done seen)
      (hafter : after.any Obs.marksStep = false) : InOrder steps (before ++ seen ++ after)

section Stretch

variable {K : Sharing} {seen seen' : List Obs} {action : String} {v : Value}

theorem Stretch.append (h : Stretch action seen) (hmore : seen'.any Obs.marksStep = false) :
    Stretch action (seen ++ seen') := by
  cases h with
  | idle h =>
      rw [List.cons_append]
      refine .idle ?_
      rw [List.any_append, h, hmore]
      rfl
  | executed h hafter =>
      rw [List.append_assoc]
      refine .executed h ?_
      rw [List.any_append, hafter, hmore]
      rfl

theorem Cleared.stretch (h : Cleared action seen) : Stretch action seen := by
  cases h with
  | atOnce | approved => exact .idle rfl

theorem Gated.stretch (h : Gated action v seen) : Stretch action seen := by
  obtain ⟨hcleared, -, -⟩ := h
  exact hcleared.stretch.append rfl

theorem Requested.stretch (h : Requested action v seen) : Stretch action seen := by
  obtain ⟨hgated, -⟩ := h
  exact hgated.stretch.append rfl

theorem At.stretch {point : ExecutePoint} (h : At K action point seen) : Stretch action seen := by
  induction h with
  | denied hgated => exact hgated.stretch.append rfl
  | requested hrequested => exact hrequested.stretch
  | asked hrequested | refused hrequested => exact hrequested.stretch.append rfl
  | executing hrequested =>
      have hexecuted : Stretch action (_ ++ []) := .executed hrequested rfl
      rwa [List.append_nil] at hexecuted
  | @completed _ v given _ hrequested =>
      have hexecuted : Stretch action (_ ++ [.returned action (.ok given)]) :=
        .executed hrequested rfl
      rwa [List.append_assoc] at hexecuted
  | deniedBack _ _ ih | refusedBack _ _ ih | back _ ih => exact ih

theorem Handled.stretch {result : Result} (h : Handled K action result seen) :
    Stretch action seen := by
  cases h with
  | guard | policy | approval => exact .idle rfl
  | quota hcleared | immune hcleared => exact hcleared.stretch.append rfl
  | executed hat => exact hat.stretch.append rfl

theorem Broken.stretch (h : Broken action seen) : Stretch action seen := by
  cases h with
  | approval => exact .idle rfl
  | immune hcleared | input hcleared => exact hcleared.stretch.append rfl
  | unresolved hrequested | canExecute hrequested => exact hrequested.stretch.append rfl
  | @executor _ v message hrequested =>
      have hexecuted : Stretch action (_ ++ [.returned action (.error message)]) :=
        .executed hrequested rfl
      rwa [List.append_assoc] at hexecuted

theorem Handles.stretches {steps : List RunStep} {results : List Result}
    (h : Handles K steps results seen) : Stretches steps seen := by
  induction h with
  | nil => exact .nil
  | snoc _ hstep ih => exact ih.snoc hstep.stretch

variable {r : Running} {pushed : List Result}

theorem Left.inOrder (h : Left K r pushed seen) (hafter : seen'.any Obs.marksStep = false) :
    InOrder r.steps (seen ++ seen') := by
  obtain ⟨hsteps, hdone, -⟩ := h
  exact .intro hsteps rfl hdone.stretches hafter

/-- A run at a step has been through those before it. -/
theorem Handles.inOrder {done rest : List RunStep} {step : RunStep}
    (hsteps : r.steps = done ++ step :: rest) (hdone : Handles K done pushed seen)
    (hstep : Stretch step.action seen') : InOrder r.steps (opening ++ seen ++ seen') := by
  have hthis : InOrder r.steps (opening ++ (seen ++ seen') ++ []) :=
    .intro (hsteps.trans (List.append_cons ..)) rfl (hdone.stretches.snoc hstep) rfl
  rwa [List.append_nil, ← List.append_assoc] at hthis

/-- **What is seen of a run are its first steps, in their order.** -/
theorem Trail.inOrder (h : Trail K r seen) : InOrder r.steps seen := by
  cases h with
  | planning =>
      have hnone : InOrder r.steps ([.created, .metered .runs] ++ [] ++ []) :=
        .intro (List.nil_append _).symm rfl .nil rfl
      exact hnone
  | asking _ hsteps hdone => exact hdone.inOrder hsteps (.idle rfl)
  | executing _ hsteps hdone _ hat => exact hdone.inOrder hsteps hat.stretch
  | broken _ hsteps hdone _ hbroken => exact hdone.inOrder hsteps hbroken.stretch
  | verifying _ _ hleft =>
      have hall : InOrder r.steps (seen ++ []) := hleft.inOrder rfl
      rwa [List.append_nil] at hall
  | concluded _ hleft | unverified _ hleft => exact hleft.inOrder rfl

/-- `seen` has the execution, just behind the answers of all its gates. -/
inductive Behind (action : String) (v : Value) : List Obs → Prop where
  | intro {before asked after : List Obs} (h : Requested action v asked) :
      Behind action v (before ++ (asked ++
        [.resolved action true, .canExecute action (.ok true), .invoked action v]) ++ after)

theorem Behind.append (h : Behind action v seen) : Behind action v (seen ++ seen') := by
  obtain ⟨h⟩ := h
  rw [List.append_assoc _ _ seen']
  exact .intro h

theorem Behind.after (h : Behind action v seen) : Behind action v (seen' ++ seen) := by
  obtain ⟨h⟩ := h
  rw [← List.append_assoc, ← List.append_assoc]
  exact .intro h

/-- The gates have been asked before anything is started. -/
theorem Requested.no_invocation {other : String} {u : Value} (h : Requested action v seen) :
    .invoked other u ∉ seen := by
  obtain ⟨⟨hcleared, -, -⟩, -⟩ := h
  cases hcleared with
  | atOnce | approved => simp

theorem not_marked {o : Obs} (h : seen.any Obs.marksStep = false) (ho : o ∈ seen) :
    o.marksStep = false := by
  rw [List.any_eq_false] at h
  simpa using h o ho

theorem Stretch.behind {other : String} (h : Stretch other seen) (hinvoked : .invoked action v ∈ seen) :
    other = action ∧ Behind action v seen := by
  cases h with
  | idle h =>
      rcases List.mem_cons.mp hinvoked with hinvoked | hinvoked
      · cases hinvoked
      · cases not_marked h hinvoked
  | @executed u asked after h hafter =>
      rcases List.mem_append.mp hinvoked with hinvoked | hinvoked
      · rcases List.mem_append.mp hinvoked with hinvoked | hinvoked
        · exact absurd hinvoked h.no_invocation
        · simp only [List.mem_cons, List.not_mem_nil, or_false, reduceCtorEq, false_or,
            Obs.invoked.injEq] at hinvoked
          obtain ⟨rfl, rfl⟩ := hinvoked
          have hbehind : Behind action v ([] ++ (asked ++
              [.resolved action true, .canExecute action (.ok true), .invoked action v]) ++ after) :=
            .intro h
          exact ⟨rfl, hbehind⟩
      · cases not_marked hafter hinvoked

theorem Stretches.behind {steps : List RunStep} (h : Stretches steps seen)
    (hinvoked : .invoked action v ∈ seen) :
    (∃ step ∈ steps, step.action = action) ∧ Behind action v seen := by
  induction h with
  | nil => cases hinvoked
  | @snoc steps step seen seen' _ hstep ih =>
      rcases List.mem_append.mp hinvoked with hinvoked | hinvoked
      · obtain ⟨⟨earlier, hearlier, haction⟩, hbehind⟩ := ih hinvoked
        exact ⟨⟨earlier, List.mem_append_left _ hearlier, haction⟩, hbehind.append⟩
      · obtain ⟨haction, hbehind⟩ := hstep.behind hinvoked
        exact ⟨⟨step, List.mem_append_right _ (List.mem_singleton_self _), haction⟩, hbehind.after⟩

/-- Whatever has been started stands behind the gates of a step of its run. -/
theorem InOrder.behind {steps : List RunStep} (h : InOrder steps seen)
    (hinvoked : .invoked action v ∈ seen) :
    (∃ step ∈ steps, step.action = action) ∧ Behind action v seen := by
  obtain ⟨rfl, hbefore, hdone, hafter⟩ := h
  rcases List.mem_append.mp hinvoked with hinvoked | hinvoked
  · rcases List.mem_append.mp hinvoked with hinvoked | hinvoked
    · cases not_marked hbefore hinvoked
    · obtain ⟨⟨step, hstep, haction⟩, hbehind⟩ := hdone.behind hinvoked
      exact ⟨⟨step, List.mem_append_left _ hstep, haction⟩, hbehind.after.append⟩
  · cases not_marked hafter hinvoked

end Stretch

/-! ## 6. Every history -/

namespace System

variable {opts : RunnerOptions} {clock : Clock} {ledger : Ledger sha256} {ds : List (Deed sha256)}
  {s : System sha256}

/-- **Why an execution has taken place**: a step of its run has asked for it, all the gates have let
    this step pass just before, and the ledger announces it with its input. -/
structure Authorized (s : System sha256) (seen : Nat → List Obs) (inv : Invocation) : Prop where
  run : ∃ i r, s.runs[i]? = some r ∧ inv.runId = r.runId ∧
    (∃ step ∈ r.steps, step.action = inv.action) ∧ Behind inv.action inv.input (seen i)
  announced : ∃ r ∈ s.runs, inv.runId = r.runId ∧ s.runner.Announced r inv.action inv.input

/-- What the runner has started is seen of the run. -/
theorem invoked_seen {ok : System sha256 → Deed sha256 → Prop}
    (h : Run System.deed ok (createOn opts clock ledger) ds s) (hdistinct : s.ids.Nodup)
    {inv : Invocation} (hinv : inv ∈ s.runner.invoked) : ∃ i r, s.runs[i]? = some r ∧
      inv.runId = r.runId ∧
      .invoked inv.action inv.input ∈ deedTrace (createOn opts clock ledger) ds i := by
  have hattributed := invoked_of_deeds (fun _ d _ => within_free d) h hdistinct
  have hmem : (inv.runId, inv.action, inv.input) ∈ invocationsOf s.runner.invoked :=
    List.mem_map_of_mem hinv
  obtain ⟨i, hi⟩ := List.mem_iff_getElem?.mp (hattributed.known _ hmem)
  obtain ⟨r, hr, hrun⟩ : ∃ r, s.runs[i]? = some r ∧ r.runId = inv.runId := by
    unfold ids at hi
    rw [List.getElem?_map] at hi
    exact Option.map_eq_some_iff.mp hi
  have htagged : (inv.action, inv.input) ∈ taggedWith inv.runId (invocationsOf s.runner.invoked) :=
    List.mem_filterMap.mpr ⟨_, hmem, if_pos rfl⟩
  rw [hattributed.own i _ hi] at htagged
  obtain ⟨o, ho, hinvocation⟩ := List.mem_filterMap.mp htagged
  refine ⟨i, r, hr, hrun.symm, ?_⟩
  unfold Obs.invocation at hinvocation
  split at hinvocation
  · obtain ⟨rfl, rfl⟩ := Prod.mk.inj (Option.some.inj hinvocation)
    exact ho
  · cases hinvocation

theorem inOrder_of_deeds {ok : System sha256 → Deed sha256 → Prop}
    (h : Run System.deed ok (createOn opts clock ledger) ds s) {i : Nat} {r : Running}
    (hr : s.runs[i]? = some r) : InOrder r.steps (deedTrace (createOn opts clock ledger) ds i) := by
  have htrail := follows_of_deeds (fun _ d _ => within_free d) h i
  unfold Follows at htrail
  rw [hr] at htrail
  exact htrail.inOrder

theorem authorized_of_deeds {ok : System sha256 → Deed sha256 → Prop}
    (h : Run System.deed ok (createOn opts clock ledger) ds s) (hdistinct : s.ids.Nodup)
    {inv : Invocation} (hinv : inv ∈ s.runner.invoked) :
    s.Authorized (deedTrace (createOn opts clock ledger) ds) inv := by
  obtain ⟨i, r, hr, hrun, hseen⟩ := invoked_seen h hdistinct hinv
  exact ⟨⟨i, r, hr, hrun, (inOrder_of_deeds h hr).behind hseen⟩,
    (guarded_of_deeds h).announced inv hinv⟩

/-- **Every execution is authorized**, whatever other runs do and whoever takes grants back, uses the
    immune runtime, writes into the ledger or changes results meanwhile. -/
theorem executions_authorized
    (h : Run System.deed (fun _ _ => True) (createOn opts clock ledger) ds s)
    (hdistinct : s.ids.Nodup) :
    ∀ inv ∈ s.runner.invoked, s.Authorized (deedTrace (createOn opts clock ledger) ds) inv :=
  fun _ hinv => authorized_of_deeds h hdistinct hinv

/-- Pushes that have to be approved of. -/
def pushOptions : RunnerOptions where
  mode := .local
  grants := [{ id := "g1", principal := "coder", capability := "git.push", scope := "*"
               effect := .allow }]
  asksForApproval := true

/-- Two pushes, of which only the first is approved of, and another run in between; once the first is
    announced, the grant for it is taken back, and given again for the second. -/
def pushedTwice : List (Deed id) :=
  [.move (.registerExecutor "git.push"),
    .move (.run "push" { plan := some ["git.push", "git.push"] } "t1" "r1"),
    .move (.resume 0 (.answer true)), .policy { grants := [], approvalPolicy := [] },
    .move (.resume 0 .done), .move (.run "read" { plan := some ["repo.read"] } "t2" "r2"),
    .move (.resume 0 (.answer true)),
    .move (.resume 0 (.result { status := .success, output := .null, evidence := [] })),
    .policy { grants := pushOptions.grants, approvalPolicy := defaultApprovalPolicy },
    .move (.resume 0 .done), .move (.resume 0 .done), .move (.resume 0 (.answer false))]

theorem executions_authorized_pushedTwice :
    (afterDeeds pushOptions pushedTwice).runner.invoked.map (·.action) = ["git.push"] ∧
    ∀ inv ∈ (afterDeeds pushOptions pushedTwice).runner.invoked,
      (afterDeeds pushOptions pushedTwice).Authorized
        (deedTrace (createOn pushOptions someClock (.empty id)) pushedTwice) inv := by
  have hrun : Run System.deed (fun _ _ => True) (createOn pushOptions someClock (.empty id))
      pushedTwice (afterDeeds pushOptions pushedTwice) := run_of_exec (fun _ _ => trivial) rfl
  exact ⟨rfl, executions_authorized hrun (by decide)⟩

/-- **What is seen of a run are its first steps, in their order**, whatever else happens: the guard of
    a step comes when those before it are over, its executor is started once at the most, and nothing
    else is started for the run. -/
theorem executions_in_order
    (h : Run System.deed (fun _ _ => True) (createOn opts clock ledger) ds s) {i : Nat} {r : Running}
    (hr : s.runs[i]? = some r) :
    InOrder r.steps (deedTrace (createOn opts clock ledger) ds i) ∧
    (s.ids.Nodup → taggedWith r.runId (invocationsOf s.runner.invoked) =
      (deedTrace (createOn opts clock ledger) ds i).filterMap Obs.invocation) := by
  refine ⟨inOrder_of_deeds h hr, fun hdistinct => ?_⟩
  refine (invoked_of_deeds (fun _ d _ => within_free d) h hdistinct).own i r.runId ?_
  unfold ids
  rw [List.getElem?_map, hr]
  rfl

theorem executions_in_order_pushedTwice : ∃ r,
    (afterDeeds pushOptions pushedTwice).runs[0]? = some r ∧ r.results.length = 2 ∧
    InOrder r.steps (deedTrace (createOn pushOptions someClock (.empty id)) pushedTwice 0) ∧
    ((afterDeeds pushOptions pushedTwice).ids.Nodup →
      taggedWith r.runId (invocationsOf (afterDeeds pushOptions pushedTwice).runner.invoked) =
        (deedTrace (createOn pushOptions someClock (.empty id)) pushedTwice 0).filterMap
          Obs.invocation) := by
  have hrun : Run System.deed (fun _ _ => True) (createOn pushOptions someClock (.empty id))
      pushedTwice (afterDeeds pushOptions pushedTwice) := run_of_exec (fun _ _ => trivial) rfl
  exact ⟨_, rfl, rfl, executions_in_order (i := 0) hrun rfl⟩

end System

end AgentKernel.Runner
