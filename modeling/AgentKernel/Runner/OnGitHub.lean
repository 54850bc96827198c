/-
  File:      AgentKernel/Runner/OnGitHub.lean
  Subject:   The local runner with the GitHub plugin (plugins/tools/github/src/tools.ts `register`,
             apps/cli/src/local-runner.ts).

  The plugin registers an executor for each of its actions. An execution of one of them is an exchange
  with GitHub, request by request, and between two requests any other run may go on, any other
  exchange may be continued, and others may do to the runner what they can.

  * `OnGitHub.step`: what the plugin answers the runner is what its exchange has come to;
  * `numbered`: which step of its run an observation is about;
  * `Kept`: the runner is in a history of its own, and every exchange is where its answers have led;
  * **`requests_authorized`**: what GitHub is asked for, an authorized execution has asked for;
  * **`results_exchanged`**: a success of an action of GitHub is what GitHub has said to that step.
-/
import AgentKernel.Runner.Authorized
import AgentKernel.Runner.Passed
import AgentKernel.Tools.Exchanges

namespace AgentKernel

open Lib

namespace GitHub

/-! ## 1. The plugin -/

/-- `GITHUB_ACTIONS`. -/
def GithubAction.all : List GithubAction :=
  [.repoRead, .branchCreate, .fileRead, .fileWrite, .gitCommit, .pullRequestCreate, .pullRequestRead]

/-- The action of a name. -/
def GithubAction.ofName (name : String) : Option GithubAction :=
  GithubAction.all.find? fun action => action.name = name

theorem ofName_eq_some {name : String} {action : GithubAction} :
    GithubAction.ofName name = some action ↔ action.name = name := by
  constructor
  · intro h
    unfold GithubAction.ofName at h
    simpa using List.find?_some h
  · rintro rfl
    cases action <;> rfl

/-- A property, as far as a schema tells one value from another. -/
def leafOf : Value → Option Json
  | .undefined => none
  | .str s => some (.str s)
  | .num n => some (.num n)
  | _ => some .null

/-- An input, as the schemas see it. -/
def inputOf : Value → Option Json
  | .obj fields => some (.obj (fields.filterMap fun f => (leafOf f.2).map fun j => (f.1, j)))
  | .converting self _ => inputOf self
  | _ => none

/-- No property is `NaN` or `Infinity`, of which the schemas take the one and not the other. -/
def finite : Value → Bool
  | .obj fields =>
      fields.all fun f =>
        match f.2 with
        | .nonFinite => false
        | _ => true
  | .converting self _ => finite self
  | _ => true

end GitHub

namespace Runner

open Events Immune

variable {sha256 : String → String}

/-- The number of the step in front of `rest`. -/
def Running.numberOf (r : Running) (rest : List RunStep) : Nat := r.steps.length - (rest.length + 1)

/-- The exchange of an execution: what has been said, and what is still to be. -/
structure Talking where
  run : Nat
  /-- The number of the step in its run. -/
  step : Nat
  inv : Invocation
  said : List (GitHub.GitHubRequest × Except GitHub.GitHubError GitHub.GitHubResponse)
  rest : GitHub.Talk (GitHub.Output × List LedgerEvidence)

/-- The runner, and the exchanges that have begun. -/
structure OnGitHub (sha256 : String → String) where
  system : System sha256
  talks : List Talking

namespace OnGitHub

/-- What can happen next. -/
inductive Move (sha256 : String → String) where
  /-- The runner goes on, or somebody does something to it, and the plugin has no part in that. -/
  | deed (d : Deed sha256)
  /-- `canExecute` answers, and the executor starts. -/
  | start (i : Nat)
  /-- GitHub answers, or the network fails. -/
  | hear (k : Nat) (answer : Except GitHub.GitHubError GitHub.GitHubResponse)
  /-- The executor returns. -/
  | finish (i : Nat)

/-- The runner with the plugin registered. -/
def create (opts : RunnerOptions) (clock : Clock) (ledger : Ledger sha256) : OnGitHub sha256 where
  system :=
    { runner := { LocalRunner.create opts clock with
        ledger := ledger
        executors := GitHub.GithubAction.all.map GitHub.GithubAction.name }
      runs := [] }
  talks := []

/-- The run waits for the plugin. -/
def waitsForPlugin (r : Running) : Bool :=
  match r.awaiting with
  | .execute (.asked _) step _ | .execute .executing step _ =>
      (GitHub.GithubAction.ofName step.action).isSome
  | _ => false

/-- The plugin is what ends the wait. -/
def isPlugins (s : OnGitHub sha256) : Deed sha256 → Bool
  | .move (.resume i _) => (s.system.runs[i]?).any waitsForPlugin
  | _ => false

/-- The exchange of a step. -/
def talkOf (s : OnGitHub sha256) (i k : Nat) : Option Talking :=
  s.talks.find? fun talk => talk.run = i ∧ talk.step = k

/-- GitHub has answered the request that was open. -/
def heard (talk : Talking) (q : GitHub.GitHubRequest)
    (next : GitHub.GitHubResponse → GitHub.Talk (GitHub.Output × List LedgerEvidence))
    (answer : Except GitHub.GitHubError GitHub.GitHubResponse) : Talking :=
  { talk with
    said := talk.said ++ [(q, answer)]
    rest :=
      match answer with
      | .ok res => next res
      | .error err => .done (.error err) }

/-- One move; `none` where it does not fit. -/
def step (platform : GitHub.Platform) (s : OnGitHub sha256) :
    Move sha256 → Option (OnGitHub sha256)
  | .deed d =>
      if s.isPlugins d then none
      else (s.system.deed d).map fun system => { s with system := system }
  | .start i =>
      (s.system.runs[i]?).bind fun r =>
        match r.awaiting with
        | .execute (.asked input) step rest =>
            (GitHub.GithubAction.ofName step.action).bind fun action =>
              if GitHub.finite input then
                (s.system.step (.resume i (.answer true))).map fun system =>
                  { system := system
                    talks := s.talks ++
                      [{ run := i, step := r.numberOf rest, inv := ⟨r.runId, step.action, input⟩
                         said := []
                         rest := GitHub.attempt platform action (GitHub.inputOf input) }] }
              else none
        | _ => none
  | .hear k answer =>
      (s.talks[k]?).bind fun talk =>
        match talk.rest with
        | .ask q next => some { s with talks := s.talks.set k (heard talk q next answer) }
        | .done _ => none
  | .finish i =>
      (s.system.runs[i]?).bind fun r =>
        match r.awaiting with
        | .execute .executing _ rest =>
            (s.talkOf i (r.numberOf rest)).bind fun talk =>
              match talk.rest with
              | .done result =>
                  (s.system.step (.resume i (.result (GitHub.settle result)))).map fun system =>
                    { s with system := system }
              | .ask _ _ => none
        | _ => none

/-! ## 2. What a move does -/

/-- What a move does to the runner and to the exchanges. -/
inductive Does (platform : GitHub.Platform) (s s' : OnGitHub sha256) : Move sha256 → Prop where
  | deed (d : Deed sha256) (hd : s.isPlugins d = false) (hs : s.system.deed d = some s'.system)
      (htalks : s'.talks = s.talks) : Does platform s s' (.deed d)
  | starts (i : Nat) (r : Running) (action : GitHub.GithubAction) (input : Value) (step : RunStep)
      (rest : List RunStep) (hr : s.system.runs[i]? = some r)
      (hat : r.awaiting = .execute (.asked input) step rest)
      (haction : GitHub.GithubAction.ofName step.action = some action)
      (hs : s.system.step (.resume i (.answer true)) = some s'.system)
      (htalks : s'.talks = s.talks ++
        [{ run := i, step := r.numberOf rest, inv := ⟨r.runId, step.action, input⟩, said := []
           rest := GitHub.attempt platform action (GitHub.inputOf input) }]) :
      Does platform s s' (.start i)
  | hears (k : Nat) (talk : Talking) (q : GitHub.GitHubRequest)
      (next : GitHub.GitHubResponse → GitHub.Talk (GitHub.Output × List LedgerEvidence))
      (answer : Except GitHub.GitHubError GitHub.GitHubResponse) (htalk : s.talks[k]? = some talk)
      (hrest : talk.rest = .ask q next) (hs : s'.system = s.system)
      (htalks : s'.talks = s.talks.set k (heard talk q next answer)) :
      Does platform s s' (.hear k answer)
  | finishes (i : Nat) (r : Running) (step : RunStep) (rest : List RunStep) (talk : Talking)
      (result : Except GitHub.GitHubError (GitHub.Output × List LedgerEvidence))
      (hr : s.system.runs[i]? = some r) (hat : r.awaiting = .execute .executing step rest)
      (htalk : talk ∈ s.talks) (hrun : talk.run = i) (hstep : talk.step = r.numberOf rest)
      (hrest : talk.rest = .done result)
      (hs : s.system.step (.resume i (.result (GitHub.settle result))) = some s'.system)
      (htalks : s'.talks = s.talks) : Does platform s s' (.finish i)

theorem step_does {platform : GitHub.Platform} {s s' : OnGitHub sha256} {m : Move sha256}
    (h : s.step platform m = some s') : Does platform s s' m := by
  cases m with
  | deed d =>
      unfold step at h
      dsimp only at h
      split_ifs at h with hd
      obtain ⟨system, hs, rfl⟩ := Option.map_eq_some_iff.mp h
      exact .deed d (by simpa using hd) hs rfl
  | start i =>
      obtain ⟨r, hr, h⟩ := Option.bind_eq_some_iff.mp h
      split at h
      · rename_i input step rest hat
        obtain ⟨action, haction, h⟩ := Option.bind_eq_some_iff.mp h
        split_ifs at h
        obtain ⟨system, hs, rfl⟩ := Option.map_eq_some_iff.mp h
        exact .starts i r action input step rest hr hat haction hs rfl
      · cases h
  | hear k answer =>
      obtain ⟨talk, htalk, h⟩ := Option.bind_eq_some_iff.mp h
      split at h
      · rename_i q next hrest
        cases h
        exact .hears k talk q next answer htalk hrest rfl rfl
      · cases h
  | finish i =>
      obtain ⟨r, hr, h⟩ := Option.bind_eq_some_iff.mp h
      split at h
      · rename_i step rest hat
        obtain ⟨talk, htalk, h⟩ := Option.bind_eq_some_iff.mp h
        split at h
        · rename_i result hrest
          obtain ⟨system, hs, rfl⟩ := Option.map_eq_some_iff.mp h
          unfold talkOf at htalk
          have hof : talk.run = i ∧ talk.step = r.numberOf rest := by simpa using List.find?_some htalk
          exact .finishes i r step rest talk result hr hat (List.mem_of_find?_eq_some htalk) hof.1 hof.2
            hrest hs rfl
        · cases h
      · cases h

end OnGitHub

/-! ## 3. What the runner sees of an executor -/

/-- An executor has returned. -/
def Obs.returns : Obs → Bool
  | .returned _ (.ok _) => true
  | _ => false

namespace LocalRunner

variable {s : LocalRunner sha256} {r : Running} {step : RunStep} {rest : List RunStep} {o : Obs}

theorem attemptObs_returns (h : o ∈ s.attemptObs r step) : o.returns = false := by
  unfold attemptObs at h
  dsimp only at h
  rcases List.mem_cons.mp h with rfl | h
  · rfl
  split_ifs at h
  · cases h
  rcases List.mem_cons.mp h with rfl | h
  · rfl
  split at h
  · cases h
  split_ifs at h
  · cases h
  rcases List.mem_cons.mp h with rfl | h
  · rfl
  split at h
  · cases h
  · rw [List.mem_singleton.mp h]
    rfl

theorem considerObs_returns (h : o ∈ s.considerObs r step) : o.returns = false := by
  unfold considerObs at h
  split at h
  · rw [List.mem_singleton.mp h]
    rfl
  · dsimp only at h
    rcases List.mem_cons.mp h with rfl | h
    · rfl
    rcases List.mem_cons.mp h with rfl | h
    · rfl
    split_ifs at h
    · cases h
    · cases h
    · exact attemptObs_returns h

theorem afterLoopObs_returns (h : o ∈ s.afterLoopObs r) : o.returns = false := by
  unfold afterLoopObs concludeObs at h
  split_ifs at h
  · cases h
  · rw [List.mem_singleton.mp h]
    rfl

/-- The loop only waits for executors. -/
theorem loopObs_returns : ∀ {steps : List RunStep} {s : LocalRunner sha256} {r : Running},
    o ∈ s.loopObs r steps → o.returns = false
  | [], _, _, h => afterLoopObs_returns h
  | step :: rest, s, r, h => by
      unfold loopObs at h
      rcases List.mem_append.mp h with h | h
      · exact considerObs_returns h
      · split at h
        · exact loopObs_returns h
        · exact afterLoopObs_returns h
        · cases h

theorem plannedObs_returns {plan : List String} (h : o ∈ s.plannedObs r plan) : o.returns = false := by
  unfold plannedObs at h
  dsimp only at h
  rcases List.mem_cons.mp h with rfl | h
  · rfl
  rcases List.mem_cons.mp h with rfl | h
  · rfl
  exact loopObs_returns h

theorem runObs_returns {intent taskId runId : String} {opts : RunTaskOptions}
    (h : o ∈ s.runObs intent opts taskId runId) : o.returns = false := by
  unfold runObs at h
  dsimp only at h
  rcases List.mem_cons.mp h with rfl | h
  · rfl
  rcases List.mem_cons.mp h with rfl | h
  · rfl
  split at h
  · exact plannedObs_returns h
  · cases h

theorem resumeLoopObs_returns {flow : Flow (LocalRunner sha256 × Running)}
    (h : o ∈ resumeLoopObs rest flow) : o.returns = false := by
  cases flow with
  | next out => exact loopObs_returns h
  | leave out => exact afterLoopObs_returns h
  | halt out => cases h

/-- What an executor is seen to return has ended the wait for it. -/
theorem resumeObs_returned {wake : Wake} {action : String} {result : Result}
    (h : .returned action (.ok result) ∈ s.resumeObs r wake) :
    wake = .result result ∧ ∃ step rest, r.awaiting = .execute .executing step rest ∧
      step.action = action := by
  have hnot : (Obs.returned action (.ok result)).returns ≠ false := by simp [Obs.returns]
  unfold resumeObs at h
  split at h
  · exact absurd (plannedObs_returns h) hnot
  · dsimp only at h
    rcases List.mem_cons.mp h with h | h
    · cases h
    split_ifs at h
    · rcases List.mem_append.mp h with h | h
      · exact absurd (attemptObs_returns h) hnot
      · exact absurd (resumeLoopObs_returns h) hnot
    · exact absurd (loopObs_returns h) hnot
  · cases List.mem_singleton.mp h
  · rename_i point step rest wake hat
    unfold executeOnObs at h
    split at h
    · cases List.mem_singleton.mp h
    · simp at h
    · cases List.mem_singleton.mp h
    · cases List.mem_singleton.mp h
    · cases List.mem_singleton.mp h
      exact ⟨rfl, _, _, hat, rfl⟩
    · cases List.mem_singleton.mp h
    · rcases List.mem_cons.mp h with h | h
      · cases h
      · exact absurd (loopObs_returns h) hnot
    · cases h
  · cases List.mem_singleton.mp h
  · cases List.mem_singleton.mp h
  · cases h

theorem resume_invoked {wake : Wake} {out : LocalRunner sha256 × Running}
    (h : s.resume r wake = some out) : s.invoked <+: out.1.invoked := by
  cases resume_wakes h with
  | waits _ _ h => rw [h.untouched.invoked]
  | planned _ _ h | recorded _ _ _ h =>
      rw [h.untouched.invoked]
      exact List.prefix_rfl
  | moves _ h => rw [h.invoked]
  | invoked _ _ _ _ _ h =>
      obtain ⟨inv, hout⟩ := h
      rw [hout]
      exact List.prefix_append _ _

end LocalRunner

namespace System

variable {s s' : System sha256} {m : Runner.Move}

theorem step_invoked (h : s.step m = some s') : s.runner.invoked <+: s'.runner.invoked := by
  cases m with
  | run intent opts taskId runId =>
      cases h
      rw [(s.runner.run_lands intent opts taskId runId).2.1]
  | resume i wake =>
      obtain ⟨r, -, hout⟩ := Option.bind_eq_some_iff.mp h
      obtain ⟨out, hresume, rfl⟩ := Option.map_eq_some_iff.mp hout
      exact LocalRunner.resume_invoked hresume
  | grant grant =>
      unfold step at h
      dsimp only at h
      split at h <;>
        (cases h
         exact List.prefix_rfl)
  | registerExecutor action =>
      unfold step at h
      dsimp only at h
      split_ifs at h <;>
        (cases h
         exact List.prefix_rfl)

/-- What an executor is seen to return has ended the wait of its run. -/
theorem observe_returned {i : Nat} {action : String} {result : Result}
    (h : .returned action (.ok result) ∈ s.observe i m) :
    m = .resume i (.result result) ∧ ∃ r step rest, s.runs[i]? = some r ∧
      r.awaiting = .execute .executing step rest ∧ step.action = action := by
  cases m with
  | run intent opts taskId runId =>
      unfold observe at h
      dsimp only at h
      split_ifs at h
      · cases LocalRunner.runObs_returns h
      · cases h
  | resume j wake =>
      unfold observe at h
      dsimp only at h
      split_ifs at h with hj
      · subst hj
        split at h
        · rename_i r hr
          obtain ⟨rfl, step, rest, hat, haction⟩ := LocalRunner.resumeObs_returned h
          exact ⟨rfl, r, step, rest, hr, hat, haction⟩
        · cases h
      · cases h
  | grant | registerExecutor => cases h

theorem deed_invoked {d : Deed sha256} (h : s.deed d = some s') :
    s.runner.invoked <+: s'.runner.invoked := by
  cases d with
  | move m => exact step_invoked h
  | append | record | immune | policy =>
      cases h
      exact List.prefix_rfl
  | touch =>
      obtain ⟨r, -, hout⟩ := Option.bind_eq_some_iff.mp h
      split_ifs at hout
      cases hout
      exact List.prefix_rfl

theorem observeDeed_returned {d : Deed sha256} {i : Nat} {action : String} {result : Result}
    (h : .returned action (.ok result) ∈ s.observeDeed i d) :
    d = .move (.resume i (.result result)) ∧ ∃ r step rest, s.runs[i]? = some r ∧
      r.awaiting = .execute .executing step rest ∧ step.action = action := by
  cases d with
  | move m =>
      obtain ⟨rfl, hrun⟩ := observe_returned h
      exact ⟨rfl, hrun⟩
  | touch | append | record | immune | policy => cases h

end System

/-! ## 4. The number of a step -/

/-- A step begins. -/
def Obs.begins : Obs → Bool
  | .guarded _ _ => true
  | _ => false

/-- How many steps have begun. -/
def stepsBegun (seen : List Obs) : Nat := seen.countP Obs.begins

/-- Each observation, with the number of steps begun. -/
def numbered (n : Nat) : List Obs → List (Nat × Obs)
  | [] => []
  | o :: seen =>
      let n := if o.begins then n + 1 else n
      (n, o) :: numbered n seen

section Numbered

variable {K : Sharing} {seen seen' : List Obs} {action : String} {v : Value} {n k : Nat} {o : Obs}

theorem stepsBegun_append : stepsBegun (seen ++ seen') = stepsBegun seen + stepsBegun seen' :=
  List.countP_append

theorem numbered_append :
    numbered n (seen ++ seen') = numbered n seen ++ numbered (n + stepsBegun seen) seen' := by
  induction seen generalizing n with
  | nil => rfl
  | cons o seen ih =>
      have hcount : stepsBegun (o :: seen) = (if o.begins then 1 else 0) + stepsBegun seen := by
        unfold stepsBegun
        rw [List.countP_cons, Nat.add_comm]
      have hnext : (if o.begins then n + 1 else n) + stepsBegun seen = n + stepsBegun (o :: seen) := by
        rw [hcount]
        split_ifs <;> omega
      simp only [numbered, List.cons_append]
      rw [ih, hnext]

theorem mem_numbered (h : (k, o) ∈ numbered n seen) :
    o ∈ seen ∧ n ≤ k ∧ k ≤ n + stepsBegun seen := by
  induction seen generalizing n with
  | nil => cases h
  | cons o' seen ih =>
      have hcount : (if o'.begins then n + 1 else n) + stepsBegun seen ≤ n + stepsBegun (o' :: seen) := by
        unfold stepsBegun
        rw [List.countP_cons]
        split_ifs <;> omega
      have hfrom : n ≤ if o'.begins then n + 1 else n := by
        split_ifs <;> omega
      rcases List.mem_cons.mp h with h | h
      · obtain ⟨rfl, rfl⟩ := Prod.mk.inj h
        exact ⟨List.mem_cons_self, hfrom, le_trans (Nat.le_add_right _ _) hcount⟩
      · obtain ⟨ho, hn, hk⟩ := ih h
        exact ⟨List.mem_cons_of_mem _ ho, hfrom.trans hn, hk.trans hcount⟩

/-- While no step begins the number stays. -/
theorem numbered_quiet (h : stepsBegun seen = 0) (ho : o ∈ seen) : (n, o) ∈ numbered n seen := by
  induction seen with
  | nil => cases ho
  | cons o' seen ih =>
      unfold stepsBegun at h
      rw [List.countP_cons] at h
      have hquiet : o'.begins = false := by
        by_contra hne
        rw [if_pos (by simpa using hne)] at h
        omega
      simp only [numbered, hquiet, Bool.false_eq_true, if_false]
      rcases List.mem_cons.mp ho with rfl | ho
      · exact List.mem_cons_self
      · exact List.mem_cons_of_mem _ (ih (by unfold stepsBegun; omega) ho)

theorem begun_of_unmarked (h : seen.any Obs.marksStep = false) : stepsBegun seen = 0 := by
  refine List.countP_eq_zero.mpr fun o ho => ?_
  have hunmarked := not_marked h ho
  cases o <;> simp_all [Obs.marksStep, Obs.begins]

/-- What is seen of a step begins once. -/
theorem Stretch.opens (h : Stretch action seen) :
    ∃ rejected rest, seen = .guarded action rejected :: rest ∧ stepsBegun rest = 0 := by
  cases h with
  | idle h => exact ⟨_, _, rfl, begun_of_unmarked h⟩
  | @executed v asked after h hafter =>
      obtain ⟨⟨hcleared, -, -⟩, -⟩ := h
      have hquiet := begun_of_unmarked hafter
      cases hcleared with
      | atOnce | approved =>
          refine ⟨none, _, rfl, ?_⟩
          unfold stepsBegun at hquiet ⊢
          simp [hquiet, Obs.begins]

theorem Stretch.begun (h : Stretch action seen) : stepsBegun seen = 1 := by
  obtain ⟨rejected, rest, rfl, hrest⟩ := h.opens
  unfold stepsBegun at hrest ⊢
  rw [List.countP_cons, hrest]
  rfl

theorem Stretch.places (h : Stretch action seen) (ho : o ∈ seen) : (n + 1, o) ∈ numbered n seen := by
  obtain ⟨rejected, rest, rfl, hrest⟩ := h.opens
  rcases List.mem_cons.mp ho with rfl | ho
  · exact List.mem_cons_self
  · exact List.mem_cons_of_mem _ (numbered_quiet hrest ho)

theorem Stretch.number (h : Stretch action seen) (ho : (k, o) ∈ numbered n seen) : k = n + 1 := by
  obtain ⟨rejected, rest, rfl, hrest⟩ := h.opens
  rcases List.mem_cons.mp ho with ho | ho
  · exact congrArg Prod.fst ho
  · obtain ⟨-, hfrom, hto⟩ := mem_numbered ho
    simp only [Obs.begins, if_true] at hfrom hto
    omega

theorem Stretches.begun {steps : List RunStep} (h : Stretches steps seen) :
    stepsBegun seen = steps.length := by
  induction h with
  | nil => rfl
  | snoc _ hstep ih =>
      rw [stepsBegun_append, ih, hstep.begun, List.length_append, List.length_singleton]

theorem Stretches.invoked {steps : List RunStep} (h : Stretches steps seen)
    (hinvoked : (k + 1, .invoked action v) ∈ numbered 0 seen) :
    ∃ step, steps[k]? = some step ∧ step.action = action := by
  induction h with
  | nil => cases hinvoked
  | @snoc steps step seen seen' hsteps hstep ih =>
      rw [numbered_append] at hinvoked
      rcases List.mem_append.mp hinvoked with hinvoked | hinvoked
      · obtain ⟨earlier, hearlier, haction⟩ := ih hinvoked
        refine ⟨earlier, ?_, haction⟩
        rwa [List.getElem?_append_left (List.getElem?_eq_some_iff.mp hearlier).1]
      · have hk := hstep.number hinvoked
        rw [hsteps.begun, Nat.zero_add] at hk
        obtain rfl : k = steps.length := by omega
        exact ⟨step, List.getElem?_concat_length, (hstep.behind (mem_numbered hinvoked).1).1⟩

/-- What is started with the number of a step is started for it. -/
theorem InOrder.invoked {steps : List RunStep} (h : InOrder steps seen)
    (hinvoked : (k + 1, .invoked action v) ∈ numbered 0 seen) :
    ∃ step, steps[k]? = some step ∧ step.action = action := by
  obtain ⟨rfl, hbefore, hdone, hafter⟩ := h
  rw [numbered_append, numbered_append] at hinvoked
  rcases List.mem_append.mp hinvoked with hinvoked | hinvoked
  · rcases List.mem_append.mp hinvoked with hinvoked | hinvoked
    · cases not_marked hbefore (mem_numbered hinvoked).1
    · rw [begun_of_unmarked hbefore] at hinvoked
      obtain ⟨step, hstep, haction⟩ := hdone.invoked hinvoked
      refine ⟨step, ?_, haction⟩
      rwa [List.getElem?_append_left (List.getElem?_eq_some_iff.mp hstep).1]
  · cases not_marked hafter (mem_numbered hinvoked).1

theorem Handles.begun {steps : List RunStep} {results : List Result}
    (h : Handles K steps results seen) : stepsBegun seen = steps.length := h.stretches.begun

variable {r : Running} {step : RunStep} {rest : List RunStep} {point : ExecutePoint}

/-- The step at which a run waits is the last one that has begun. -/
theorem Trail.begun (h : Trail K r seen) (hat : r.awaiting = .execute point step rest) :
    stepsBegun seen = r.numberOf rest + 1 := by
  cases h with
  | executing hr hsteps hdone _ hpoint =>
      rw [hr] at hat
      cases hat
      unfold Running.numberOf
      rw [stepsBegun_append, stepsBegun_append, hdone.begun, hpoint.stretch.begun, hsteps,
        List.length_append, List.length_cons, Nat.add_sub_cancel]
      exact congrArg (· + 1) (Nat.zero_add _)
  | planning hr | asking hr | verifying hr | broken hr | unverified hr =>
      rw [hr] at hat
      cases hat
  | concluded hconcluded =>
      unfold Running.Concluded at hconcluded
      rw [hat] at hconcluded
      exact hconcluded.elim

/-- Its executor has not been started before it is asked whether it can execute. -/
theorem Trail.not_started {u : Value} (h : Trail K r seen)
    (hat : r.awaiting = .execute (.asked u) step rest) :
    (r.numberOf rest + 1, .invoked action v) ∉ numbered 0 seen := by
  have hbegun := h.begun hat
  cases h with
  | @executing done _ _ _ pushed seen seen' hr hsteps hdone _ hpoint =>
      rw [hr] at hat
      cases hat
      intro hmem
      rw [numbered_append] at hmem
      rcases List.mem_append.mp hmem with hmem | hmem
      · -- the steps before it have lower numbers
        have hle := (mem_numbered hmem).2.2
        rw [stepsBegun_append, hpoint.stretch.begun] at hbegun
        omega
      · obtain ⟨hinvoked, -⟩ := mem_numbered hmem
        cases hpoint with
        | asked hrequested =>
            rcases List.mem_append.mp hinvoked with hinvoked | hinvoked
            · exact hrequested.no_invocation hinvoked
            · simp at hinvoked
  | planning hr | asking hr | verifying hr | broken hr | unverified hr =>
      rw [hr] at hat
      cases hat
  | concluded hconcluded =>
      unfold Running.Concluded at hconcluded
      rw [hat] at hconcluded
      exact hconcluded.elim

end Numbered

/-! ## 5. The results of a run -/

section Results

variable {K : Sharing} {r : Running} {seen : List Obs} {steps : List RunStep}
  {results : List Result}

theorem Handles.length (h : Handles K steps results seen) : results.length = steps.length := by
  induction h with
  | nil => rfl
  | snoc _ _ ih => rw [List.length_append, List.length_append, ih, List.length_singleton,
      List.length_singleton]

/-- Each result has been seen to come from its step. -/
theorem Handles.result (h : Handles K steps results seen) {k : Nat} {step : RunStep} {result : Result}
    (hstep : steps[k]? = some step) (hresult : results[k]? = some result) :
    ∃ before part after, seen = before ++ part ++ after ∧ stepsBegun before = k ∧
      Handled K step.action result part := by
  induction h with
  | nil => cases hstep
  | @snoc steps step' results result' seen seen' hdone hlast ih =>
      have hlength := hdone.length
      by_cases hk : k < steps.length
      · rw [List.getElem?_append_left hk] at hstep
        rw [List.getElem?_append_left (hlength ▸ hk)] at hresult
        obtain ⟨before, part, after, rfl, hbefore, hpart⟩ := ih hstep hresult
        exact ⟨before, part, after ++ seen', List.append_assoc .., hbefore, hpart⟩
      · have hlt := (List.getElem?_eq_some_iff.mp hstep).1
        rw [List.length_append, List.length_singleton] at hlt
        obtain rfl : k = steps.length := by omega
        rw [List.getElem?_concat_length] at hstep
        rw [← hlength, List.getElem?_concat_length] at hresult
        obtain rfl := Option.some.inj hstep
        obtain rfl := Option.some.inj hresult
        exact ⟨seen, seen', [], (List.append_nil _).symm, hdone.begun, hlast⟩

/-- The results of a run are those of its first steps. -/
theorem Trail.handles (h : Trail .untouched r seen) : ∃ done rest before seen' after,
    r.steps = done ++ rest ∧ Handles .untouched done r.results seen' ∧
      seen = before ++ seen' ++ after ∧ stepsBegun before = 0 := by
  have hleft : ∀ {seen after pushed}, Left .untouched r pushed seen → pushed = r.results →
      ∃ done rest before seen' after', r.steps = done ++ rest ∧
        Handles .untouched done r.results seen' ∧ seen ++ after = before ++ seen' ++ after' ∧
        stepsBegun before = 0 := by
    rintro seen after pushed ⟨hsteps, hdone, -⟩ rfl
    exact ⟨_, _, opening, _, after, hsteps, hdone, rfl, rfl⟩
  cases h with
  | planning _ _ hresults =>
      rw [hresults]
      exact ⟨[], r.steps, [], [], _, rfl, .nil, rfl, rfl⟩
  | asking _ hsteps hdone hkept | executing _ hsteps hdone hkept | broken _ hsteps hdone hkept =>
      obtain rfl := hkept
      exact ⟨_, _, opening, _, _, hsteps, hdone, rfl, rfl⟩
  | verifying _ _ h hkept =>
      have hall := @hleft seen [] _ h hkept
      rwa [List.append_nil] at hall
  | concluded _ h hkept | unverified _ h hkept => exact hleft h hkept

/-- A successful result of a step has been returned by its executor. -/
theorem Trail.success_returned (h : Trail .untouched r seen) {k : Nat} {step : RunStep} {result : Result}
    (hstep : r.steps[k]? = some step) (hresult : r.results[k]? = some result)
    (hsuccess : result.status = .success) :
    (k + 1, .returned step.action (.ok result)) ∈ numbered 0 seen := by
  obtain ⟨done, rest, before, seen', after, hsteps, hdone, rfl, hbefore⟩ := h.handles
  have hlt := (List.getElem?_eq_some_iff.mp hresult).1
  rw [hsteps, List.getElem?_append_left (hdone.length ▸ hlt)] at hstep
  obtain ⟨before', part, after', rfl, rfl, hpart⟩ := hdone.result hstep hresult
  have hstretch := hpart.stretch
  obtain ⟨p, haction, hp, rfl⟩ := hpart.passage Sharing.untouched_honest hsuccess
  have hreturned : .returned step.action (.ok result) ∈ p.seen := by
    unfold Passage.seen
    rw [haction, show p.result = result from hp]
    simp
  rw [numbered_append, numbered_append, numbered_append, numbered_append]
  refine List.mem_append_left _ (List.mem_append_right _ (List.mem_append_left _
    (List.mem_append_right _ ?_)))
  rw [hbefore, Nat.add_zero, Nat.zero_add]
  exact hstretch.places hreturned

end Results

/-! ## 6. Every history -/

/-- The results of the runs are left alone. -/
def Deed.leavesResults : Deed sha256 → Prop
  | .touch _ _ _ => False
  | .move _ | .append _ _ | .record _ | .immune _ | .policy _ => True

theorem System.within_of_leaves {s : System sha256} {d : Deed sha256} (h : d.leavesResults) :
    s.Within .untouched d := by
  cases d with
  | touch => exact h.elim
  | move | append | record | immune | policy => trivial

namespace OnGitHub

variable {platform : GitHub.Platform} {opts : RunnerOptions} {clock : Clock} {ledger : Ledger sha256}
  {ok : Deed sha256 → Prop} {s s' : OnGitHub sha256} {ds : List (Deed sha256)}

/-- What others do is among what is allowed. -/
def Allows (ok : Deed sha256 → Prop) : Move sha256 → Prop
  | .deed d => ok d
  | .start _ | .hear _ _ | .finish _ => True

/-- The exchange is where its answers have led. -/
def Led (platform : GitHub.Platform) (talk : Talking) : Prop :=
  ∃ action, GitHub.GithubAction.ofName talk.inv.action = some action ∧
    Asking.Leads (GitHub.attempt platform action (GitHub.inputOf talk.inv.input)) talk.said talk.rest

/-- It is what the exchange of the step has come to. -/
def Settles (s : OnGitHub sha256) (i k : Nat) (result : Result) : Prop :=
  ∃ talk ∈ s.talks, talk.run = i ∧ talk.step = k ∧
    ∃ r, talk.rest = .done r ∧ result = GitHub.settle r

/-- The runner has moved on its own, every exchange belongs to the execution of one step and is where
    its answers have led, and what an action of GitHub has returned is what it has come to. -/
structure Kept (platform : GitHub.Platform) (opts : RunnerOptions) (clock : Clock)
    (ledger : Ledger sha256) (ok : Deed sha256 → Prop) (ds : List (Deed sha256)) (s : OnGitHub sha256) :
    Prop where
  run : Run System.deed (fun _ d => ok d) (System.createOn opts clock ledger) ds s.system
  led : ∀ talk ∈ s.talks, talk.inv ∈ s.system.runner.invoked ∧ Led platform talk
  placed : ∀ talk ∈ s.talks, (talk.step + 1, .invoked talk.inv.action talk.inv.input) ∈
    numbered 0 (System.deedTrace (System.createOn opts clock ledger) ds talk.run)
  distinct : (s.talks.map fun talk => (talk.run, talk.step)).Nodup
  settles : ∀ i k action result, (GitHub.GithubAction.ofName action).isSome = true →
    (k + 1, .returned action (.ok result)) ∈
      numbered 0 (System.deedTrace (System.createOn opts clock ledger) ds i) → s.Settles i k result

/-- A move of a run, and nothing else. -/
def isMove : Deed sha256 → Bool
  | .move _ => true
  | _ => false

/-- Somebody changes results. -/
def touches : Move sha256 → Bool
  | .deed (.touch _ _ _) => true
  | _ => false

theorem create_kept (hmove : ∀ m, ok (.move m)) : Kept platform opts clock ledger ok
    (GitHub.GithubAction.all.map fun action => .move (.registerExecutor action.name))
    (@create sha256 opts clock ledger) where
  run := by
    refine run_of_exec_check (c := fun _ d => isMove d) (fun s d hd => ?_) rfl
    cases d with
    | move m => exact hmove m
    | touch | append | record | immune | policy => cases hd
  led talk htalk := by cases htalk
  placed talk htalk := by cases htalk
  distinct := List.nodup_nil
  settles i k action result _ h := by cases h

/-- All that is seen of a run, and where it is. -/
theorem Kept.trail (h : Kept platform opts clock ledger ok ds s) {i : Nat} {r : Running}
    (hr : s.system.runs[i]? = some r) :
    Trail .free r (System.deedTrace (System.createOn opts clock ledger) ds i) := by
  have htrail := System.follows_of_deeds (fun _ d _ => System.within_free d) h.run i
  unfold System.Follows at htrail
  rwa [hr] at htrail

theorem Kept.trace_snoc (h : Kept platform opts clock ledger ok ds s) {d : Deed sha256}
    {system : System sha256} (hs : s.system.deed d = some system) (i : Nat) :
    System.deedTrace (System.createOn opts clock ledger) (ds ++ [d]) i =
      System.deedTrace (System.createOn opts clock ledger) ds i ++ s.system.observeDeed i d := by
  unfold System.deedTrace
  exact h.run.collect_snoc hs

/-- A deed keeps it, if what it adds is kept. -/
theorem Kept.next (h : Kept platform opts clock ledger ok ds s) {d : Deed sha256} (hd : ok d)
    (hs : s.system.deed d = some s'.system) {new : List Talking} (htalks : s'.talks = s.talks ++ new)
    (hnew : ∀ talk ∈ new, talk.inv ∈ s'.system.runner.invoked ∧ Led platform talk ∧
      (talk.step + 1, .invoked talk.inv.action talk.inv.input) ∈ numbered 0
        (System.deedTrace (System.createOn opts clock ledger) (ds ++ [d]) talk.run))
    (hdistinct : (s'.talks.map fun talk => (talk.run, talk.step)).Nodup)
    (hsettles : ∀ i k action result, (GitHub.GithubAction.ofName action).isSome = true →
      (k + 1, .returned action (.ok result)) ∈
        numbered (stepsBegun (System.deedTrace (System.createOn opts clock ledger) ds i))
          (s.system.observeDeed i d) → s.Settles i k result) :
    Kept platform opts clock ledger ok (ds ++ [d]) s' where
  run := h.run.next hd hs
  led talk htalk := by
    rw [htalks] at htalk
    rcases List.mem_append.mp htalk with htalk | htalk
    · obtain ⟨hinv, hled⟩ := h.led talk htalk
      exact ⟨(System.deed_invoked hs).subset hinv, hled⟩
    · exact ⟨(hnew talk htalk).1, (hnew talk htalk).2.1⟩
  placed talk htalk := by
    rw [htalks] at htalk
    rcases List.mem_append.mp htalk with htalk | htalk
    · rw [h.trace_snoc hs, numbered_append]
      exact List.mem_append_left _ (h.placed talk htalk)
    · exact (hnew talk htalk).2.2
  distinct := hdistinct
  settles i k action result haction hreturned := by
    rw [h.trace_snoc hs, numbered_append, Nat.zero_add] at hreturned
    obtain ⟨talk, htalk, hrest⟩ : s.Settles i k result := by
      rcases List.mem_append.mp hreturned with hreturned | hreturned
      · exact h.settles i k action result haction hreturned
      · exact hsettles i k action result haction hreturned
    rw [Settles, htalks]
    exact ⟨talk, List.mem_append_left _ htalk, hrest⟩

/-- The start of an executor, as it is seen. -/
theorem start_observed {i : Nat} {r : Running} {input : Value} {step : RunStep} {rest : List RunStep}
    (hr : s.system.runs[i]? = some r) (hat : r.awaiting = .execute (.asked input) step rest) :
    s.system.observeDeed i (.move (.resume i (.answer true))) =
      [.canExecute step.action (.ok true), .invoked step.action input] := by
  unfold System.observeDeed System.observe
  dsimp only
  rw [if_pos rfl, hr]
  dsimp only
  unfold LocalRunner.resumeObs
  rw [hat]
  rfl

/-- And its return. -/
theorem finish_observed {i : Nat} {r : Running} {result : Result} {step : RunStep}
    {rest : List RunStep} (hr : s.system.runs[i]? = some r)
    (hat : r.awaiting = .execute .executing step rest) :
    s.system.observeDeed i (.move (.resume i (.result result))) = [.returned step.action (.ok result)] := by
  unfold System.observeDeed System.observe
  dsimp only
  rw [if_pos rfl, hr]
  dsimp only
  unfold LocalRunner.resumeObs
  rw [hat]
  rfl

/-- What is added to an exchange keeps it. -/
theorem hears_kept (h : Kept platform opts clock ledger ok ds s) {k : Nat} {talk : Talking}
    {q : GitHub.GitHubRequest}
    {next : GitHub.GitHubResponse → GitHub.Talk (GitHub.Output × List LedgerEvidence)}
    {answer : Except GitHub.GitHubError GitHub.GitHubResponse} (htalk : s.talks[k]? = some talk)
    (hrest : talk.rest = .ask q next) (hsystem : s'.system = s.system)
    (htalks : s'.talks = s.talks.set k (heard talk q next answer)) :
    Kept platform opts clock ledger ok ds s' where
  run := by
    rw [hsystem]
    exact h.run
  led talk' htalk' := by
    rw [hsystem]
    rw [htalks] at htalk'
    rcases List.mem_or_eq_of_mem_set htalk' with htalk' | rfl
    · exact h.led talk' htalk'
    · obtain ⟨hinv, action, haction, hleads⟩ := h.led talk (List.mem_of_getElem? htalk)
      rw [hrest] at hleads
      refine ⟨hinv, action, haction, ?_⟩
      cases answer with
      | ok res => exact hleads.told res
      | error err => exact hleads.refused err
  placed talk' htalk' := by
    rw [htalks] at htalk'
    rcases List.mem_or_eq_of_mem_set htalk' with htalk' | rfl
    · exact h.placed talk' htalk'
    · exact h.placed talk (List.mem_of_getElem? htalk)
  distinct := by
    have hsame : (s.talks.map fun talk => (talk.run, talk.step))[k]? =
        some ((heard talk q next answer).run, (heard talk q next answer).step) := by
      rw [List.getElem?_map, htalk]
      rfl
    obtain ⟨hlt, hget⟩ := List.getElem?_eq_some_iff.mp hsame
    rw [htalks, List.map_set, ← hget, List.set_getElem_self]
    exact h.distinct
  settles i n action result haction hreturned := by
    obtain ⟨talk', htalk', hrun, hof, r, hdone, hresult⟩ :=
      h.settles i n action result haction hreturned
    -- what is over does not go on
    obtain ⟨j, hj⟩ := List.mem_iff_getElem?.mp htalk'
    have hne : k ≠ j := by
      rintro rfl
      obtain rfl := Option.some.inj (htalk.symm.trans hj)
      rw [hrest] at hdone
      cases hdone
    refine ⟨talk', ?_, hrun, hof, r, hdone, hresult⟩
    rw [htalks]
    exact List.mem_iff_getElem?.mpr ⟨j, by rw [List.getElem?_set_ne hne, hj]⟩

/-- The start of an exchange keeps it: the step has had none yet. -/
theorem starts_kept (hmove : ∀ m, ok (.move m)) (h : Kept platform opts clock ledger ok ds s) {i : Nat}
    {r : Running} {action : GitHub.GithubAction} {input : Value} {step : RunStep} {rest : List RunStep}
    (hr : s.system.runs[i]? = some r) (hat : r.awaiting = .execute (.asked input) step rest)
    (haction : GitHub.GithubAction.ofName step.action = some action)
    (hstep : s.system.step (.resume i (.answer true)) = some s'.system)
    (htalks : s'.talks = s.talks ++
      [{ run := i, step := r.numberOf rest, inv := ⟨r.runId, step.action, input⟩, said := []
         rest := GitHub.attempt platform action (GitHub.inputOf input) }]) :
    ∃ ds', Kept platform opts clock ledger ok ds' s' := by
  have hdeed : s.system.deed (.move (.resume i (.answer true))) = some s'.system := hstep
  have hbegun := (h.trail hr).begun hat
  refine ⟨_, h.next (hmove _) hdeed htalks (fun talk htalk => ?_) ?_
    fun j k action' result _ hreturned => ?_⟩
  · rw [List.mem_singleton.mp htalk]
    refine ⟨?_, ⟨action, haction, .start⟩, ?_⟩
    · obtain ⟨r', hr', hout⟩ := Option.bind_eq_some_iff.mp hstep
      obtain rfl := Option.some.inj (hr.symm.trans hr')
      obtain ⟨out, hresume, hsystem⟩ := Option.map_eq_some_iff.mp hout
      unfold LocalRunner.resume at hresume
      rw [hat] at hresume
      cases hresume
      rw [← hsystem]
      exact List.mem_append_right _ (List.mem_singleton_self _)
    · rw [h.trace_snoc hdeed, numbered_append, start_observed hr hat, Nat.zero_add, hbegun]
      exact List.mem_append_right _ (.tail _ (.head _))
  · rw [htalks, List.map_append]
    refine List.nodup_append.mpr ⟨h.distinct, List.nodup_singleton _, ?_⟩
    intro p hp q hq hpq
    obtain ⟨talk, htalk, hsame⟩ := List.mem_map.mp hp
    rw [hpq, List.mem_singleton.mp hq] at hsame
    obtain ⟨hrun, hnumber⟩ := Prod.mk.inj hsame
    have hplaced := h.placed talk htalk
    rw [hrun, hnumber] at hplaced
    exact (h.trail hr).not_started hat hplaced
  · obtain ⟨hm, -⟩ := System.observeDeed_returned (mem_numbered hreturned).1
    cases hm

/-- **Every move keeps it.** -/
theorem step_kept (hmove : ∀ m, ok (.move m)) (h : Kept platform opts clock ledger ok ds s)
    {m : Move sha256} (hm : Allows ok m) (hs : s.step platform m = some s') :
    ∃ ds', Kept platform opts clock ledger ok ds' s' := by
  cases step_does hs with
  | deed d hd hstep htalks =>
      rw [← List.append_nil s.talks] at htalks
      refine ⟨_, h.next hm hstep htalks (by simp) ?_ fun i k action result haction hreturned => ?_⟩
      · rw [htalks, List.append_nil]
        exact h.distinct
      · -- the plugin has no part in this move
        obtain ⟨rfl, r, step, rest, hr, hat, rfl⟩ :=
          System.observeDeed_returned (mem_numbered hreturned).1
        unfold isPlugins at hd
        dsimp only at hd
        rw [hr] at hd
        have hwaits : waitsForPlugin r = true := by
          unfold waitsForPlugin
          rw [hat]
          exact haction
        rw [Option.any_some, hwaits] at hd
        cases hd
  | starts i r action input step rest hr hat haction hstep htalks =>
      exact starts_kept hmove h hr hat haction hstep htalks
  | hears k talk q next answer htalk hrest hsystem htalks =>
      exact ⟨ds, hears_kept h htalk hrest hsystem htalks⟩
  | finishes i r step rest talk result hr hat htalk hrun hnumber hrest hstep htalks =>
      have hdeed : s.system.deed (.move (.resume i (.result (GitHub.settle result)))) =
          some s'.system := hstep
      have hbegun := (h.trail hr).begun hat
      rw [← List.append_nil s.talks] at htalks
      refine ⟨_, h.next (hmove _) hdeed htalks (by simp) ?_ fun j k action result' _ hreturned => ?_⟩
      · rw [htalks, List.append_nil]
        exact h.distinct
      · obtain ⟨hm, r', step', rest', hr', hat', rfl⟩ :=
          System.observeDeed_returned (mem_numbered hreturned).1
        cases hm
        obtain rfl := Option.some.inj (hr.symm.trans hr')
        rw [finish_observed hr hat] at hreturned
        have hk : k + 1 = r.numberOf rest + 1 := by
          rw [← hbegun]
          exact congrArg Prod.fst (List.mem_singleton.mp hreturned)
        exact ⟨talk, htalk, hrun, by omega, result, hrest, rfl⟩

theorem run_kept {ms : List (Move sha256)} (hmove : ∀ m, ok (.move m))
    (h : Run (OnGitHub.step platform) (fun _ m => Allows ok m) (@create sha256 opts clock ledger) ms s) :
    ∃ ds, Kept platform opts clock ledger ok ds s :=
  h.invariant (I := fun s => ∃ ds, Kept platform opts clock ledger ok ds s) ⟨_, create_kept hmove⟩
    fun s m s' hkept hm hs => by
      obtain ⟨ds, hkept⟩ := hkept
      exact step_kept hmove hkept hm hs

/-- A runner that may read files. -/
def readOptions : RunnerOptions where
  mode := .local
  grants := [{ id := "g1", principal := "coder", capability := "github.repo.file.read", scope := "*"
               effect := .allow }]
  approvalPolicy := [("github.repo.file.read", .auto)]

/-- A file is read. -/
def readStep (path : String) : RunStep where
  action := "github.repo.file.read"
  input := some (.value (.obj [("owner", .str "o"), ("repo", .str "r"), ("path", .str path)]))

/-- What GitHub answers for a file. -/
def contentOf (content : String) : Except GitHub.GitHubError GitHub.GitHubResponse :=
  .ok { status := 200, json := some (.obj [("content", .str content), ("sha", .str "7f")]) }

/-- Two files are read, one after the other, and the grant is taken back while the second is. -/
def readMoves : List (Move id) :=
  [.deed (.move (.run "read" { plan := some [], steps := some [readStep "note", readStep "todo"] }
      "t1" "r1")),
    .deed (.move (.resume 0 .done)), .start 0, .hear 0 (contentOf "aGk="), .finish 0,
    .deed (.move (.resume 0 .done)), .deed (.move (.resume 0 .done)), .deed (.move (.resume 0 .done)),
    .start 0, .deed (.policy { grants := [], approvalPolicy := [] }), .hear 1 (contentOf "b2s="),
    .finish 0, .deed (.move (.resume 0 .done)), .deed (.move (.resume 0 .done))]

/-- The runner at the end. -/
def afterRead : OnGitHub id :=
  (exec (OnGitHub.step GitHub.plainPlatform) (create readOptions System.someClock (.empty id))
    readMoves).getD (create readOptions System.someClock (.empty id))

/-- **A success of an action of GitHub is what GitHub has said to that step**: the step has had one
    exchange, in which every request has been answered, and output and evidence are what has come of it,
    whatever others do, as long as they leave the results alone. -/
theorem results_exchanged {ms : List (Move sha256)} {i k : Nat} {r : Running} {step : RunStep}
    {result : Result} {action : GitHub.GithubAction}
    (h : Run (OnGitHub.step platform) (fun _ m => Allows Deed.leavesResults m)
      (@create sha256 opts clock ledger) ms s)
    (hr : s.system.runs[i]? = some r) (hstep : r.steps[k]? = some step)
    (haction : step.action = action.name) (hresult : r.results[k]? = some result)
    (hsuccess : result.status = .success) :
    ∃ talk ∈ s.talks, talk.run = i ∧ talk.step = k ∧
      (∀ other ∈ s.talks, other.run = i → other.step = k → other = talk) ∧
      talk.inv.action = step.action ∧ (∀ x ∈ talk.said, ∃ res, x.2 = .ok res) ∧
      ∃ out evidence, Asking.Said (GitHub.attempt platform action (GitHub.inputOf talk.inv.input))
          talk.said (.ok (out, evidence)) ∧
        result = { status := .success, output := GitHub.outputValue out, evidence := evidence } := by
  obtain ⟨ds, hkept⟩ := run_kept (fun _ => trivial) h
  have hname : GitHub.GithubAction.ofName step.action = some action :=
    GitHub.ofName_eq_some.mpr haction.symm
  have htrail := System.follows_of_deeds (K := .untouched)
    (fun _ _ hd => System.within_of_leaves hd) hkept.run i
  unfold System.Follows at htrail
  rw [hr] at htrail
  obtain ⟨talk, htalk, hrun, hnumber, outcome, hdone, rfl⟩ := hkept.settles i k step.action result
    (by rw [hname]; rfl) (htrail.success_returned hstep hresult hsuccess)
  obtain ⟨started, hstarted, hof⟩ := htrail.inOrder.invoked (hrun ▸ hkept.placed talk htalk)
  rw [hnumber, hstep] at hstarted
  obtain rfl := Option.some.inj hstarted
  obtain ⟨-, action', haction', hleads⟩ := hkept.led talk htalk
  rw [← hof, hname] at haction'
  obtain rfl := Option.some.inj haction'
  rw [hdone] at hleads
  have hsaid := hleads.said
  cases outcome with
  | error err => cases hsuccess
  | ok done =>
      obtain ⟨out, evidence⟩ := done
      refine ⟨talk, htalk, hrun, hnumber, fun other hother hrun' hnumber' => ?_, hof.symm,
        hsaid.answered, out, evidence, hsaid, rfl⟩
      exact List.inj_on_of_nodup_map hkept.distinct hother htalk
        (by rw [hrun', hnumber', hrun, hnumber])

theorem results_exchanged_read : ∃ r result, afterRead.system.runs[0]? = some r ∧
    r.results[1]? = some result ∧ ∃ talk ∈ afterRead.talks, talk.run = 0 ∧ talk.step = 1 ∧
      (∀ other ∈ afterRead.talks, other.run = 0 → other.step = 1 → other = talk) ∧
      talk.inv.action = (readStep "todo").action ∧ (∀ x ∈ talk.said, ∃ res, x.2 = .ok res) ∧
      ∃ out evidence,
        Asking.Said (GitHub.attempt GitHub.plainPlatform .fileRead (GitHub.inputOf talk.inv.input))
          talk.said (.ok (out, evidence)) ∧
        result = { status := .success, output := GitHub.outputValue out, evidence := evidence } := by
  have hrun : Run (OnGitHub.step GitHub.plainPlatform) (fun _ m => Allows Deed.leavesResults m)
      (create readOptions System.someClock (.empty id)) readMoves afterRead := by
    refine run_of_exec_check (c := fun _ m => !touches m) (fun _ m hm => ?_) rfl
    cases m with
    | deed d =>
        cases d with
        | touch => cases hm
        | move | append | record | immune | policy => trivial
    | start | hear | finish => trivial
  exact ⟨_, _, rfl, rfl, results_exchanged (i := 0) (k := 1) hrun rfl rfl rfl rfl rfl⟩

end OnGitHub

end Runner

end AgentKernel
