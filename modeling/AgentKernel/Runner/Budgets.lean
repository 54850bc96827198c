/-
  File:      AgentKernel/Runner/Budgets.lean
  Subject:   What the budget bounds when runs share one runner.

  The quota of tool calls is checked before an execution and recorded after it. In between lie the
  waits of `execute`, and what other runs have under way does not count; nor does an execution whose
  executor has thrown, which is never recorded. `committed` counts all three.

  * `resume_wakes`: what one run does between two of its waits to the meter and to the executions;
  * **`tool_calls_within`**: where every step that commits an execution has room for it next to all
    that is committed, the budget of tool calls holds at every moment;
  * `hasRoom_of_alone`: with nothing else committed the runner's own check is what gives the room;
  * **`totals_within_iff`**: no check is made for runs and model calls, so their budgets hold just
    as long as no more of them are asked for.
-/
import AgentKernel.Runner.LocalRunner
import AgentKernel.Lib.Runs
import AgentKernel.Lib.Lists

namespace AgentKernel.Runner

open Lib Events Immune

variable {sha256 : String → String}

/-! ## 1. What leaves meter and executions alone -/

namespace LocalRunner

/-- Neither the meter nor the executions nor the options have changed. -/
structure Untouched (s s' : LocalRunner sha256) : Prop where
  opts : s'.opts = s.opts
  meter : s'.meter = s.meter
  invoked : s'.invoked = s.invoked

section Untouched

variable {s s' s'' : LocalRunner sha256}

theorem Untouched.refl (s : LocalRunner sha256) : Untouched s s := ⟨rfl, rfl, rfl⟩

theorem Untouched.trans (h : Untouched s s') (h' : Untouched s' s'') : Untouched s s'' where
  opts := h'.opts.trans h.opts
  meter := h'.meter.trans h.meter
  invoked := h'.invoked.trans h.invoked

theorem log_untouched (s : LocalRunner sha256) (r : Running) (type : String)
    (payload : List (String × Value)) : Untouched s (s.log r type payload) := ⟨rfl, rfl, rfl⟩

theorem emit_untouched (s : LocalRunner sha256) (r : Running) (type : String)
    (payload : List (String × Value)) : Untouched s (s.emit r type payload) := ⟨rfl, rfl, rfl⟩

theorem immuneGate_untouched (s : LocalRunner sha256) (request : ImmuneRequest) :
    Untouched s (s.immuneGate request).1 := ⟨rfl, rfl, rfl⟩

end Untouched

end LocalRunner

/-! ## 2. What a run has under way -/

namespace Running

/-- 1 for an execution under way, and for one that its executor has thrown away unrecorded. -/
def load (r : Running) : Nat :=
  match r.awaiting with
  | .execute _ _ _ => 1
  | .settled (.error (.executor _)) => 1
  | _ => 0

/-- 1 where the executor may have been started, and its tool call is not recorded. -/
def begun (r : Running) : Nat :=
  match r.awaiting with
  | .execute .executing _ _ | .execute (.completed _) _ _ | .execute (.returned _) _ _ => 1
  | .settled (.error (.executor _)) => 1
  | _ => 0

theorem load_le_one (r : Running) : r.load ≤ 1 := by
  unfold load
  split <;> simp

theorem begun_le_load (r : Running) : r.begun ≤ r.load := by
  unfold begun load
  cases r.awaiting with
  | execute point step rest => cases point <;> simp
  | settled outcome =>
      cases outcome with
      | error error => cases error <;> simp
      | ok outcome => simp
  | plan | approval | verify | billing | flush => simp

end Running

namespace LocalRunner

variable {s : LocalRunner sha256} {r : Running} {step : RunStep} {rest : List RunStep}

/-- The run waits, with nothing begun; an execution under way has passed the quota check. -/
structure Waits (s : LocalRunner sha256) (out : LocalRunner sha256 × Running) : Prop where
  untouched : Untouched s out.1
  begun : out.2.begun = 0
  load_le : out.2.load ≤ 1
  checked : out.2.load = 1 → s.opts.budget.Within .toolCalls (s.meter.total .toolCalls + 1)

theorem Waits.of_untouched {s' : LocalRunner sha256} {out : LocalRunner sha256 × Running}
    (h : Untouched s s') (hw : Waits s' out) : Waits s out where
  untouched := h.trans hw.untouched
  begun := hw.begun
  load_le := hw.load_le
  checked hload := by
    have hc := hw.checked hload
    rwa [h.opts, h.meter] at hc

/-- A wait that is none of `execute`. -/
theorem Waits.of_idle {out : LocalRunner sha256 × Running} (h : Untouched s out.1)
    (hload : out.2.load = 0) : Waits s out where
  untouched := h
  begun := Nat.le_zero.mp (hload ▸ out.2.begun_le_load)
  load_le := hload ▸ Nat.zero_le 1
  checked hone := by
    rw [hload] at hone
    cases hone

/-- What a step of the loop leaves behind, wherever it leads. -/
def FlowsOn (s : LocalRunner sha256) : Flow (LocalRunner sha256 × Running) → Prop
  | .next out | .leave out => Untouched s out.1
  | .halt out => Waits s out

theorem execute_waits {input : Value}
    (h : s.opts.budget.Within .toolCalls (s.meter.total .toolCalls + 1)) :
    Waits s (s.execute r step rest input) := by
  unfold execute
  dsimp only
  split_ifs
  · exact ⟨emit_untouched _ _ _ _, rfl, Nat.le_refl _, fun _ => h⟩
  · exact ⟨emit_untouched _ _ _ _, rfl, Nat.le_refl _, fun _ => h⟩

theorem attempt_flowsOn : FlowsOn s (s.attempt r step rest) := by
  unfold attempt
  dsimp only
  split_ifs with hq
  · exact log_untouched _ _ _ _
  · have hcheck : s.opts.budget.Within .toolCalls (s.meter.total .toolCalls + 1) :=
      BudgetPolicy.allows_iff.mp (by simpa using hq)
    have himmune := s.immuneGate_untouched (requestOf r step)
    rcases hout : s.immuneGate (requestOf r step) with ⟨s', error | decision⟩
    · rw [hout] at himmune
      exact .of_idle himmune rfl
    · rw [hout] at himmune
      dsimp only
      split_ifs
      · exact himmune.trans (log_untouched _ _ _ _)
      · cases resolveInput step r.results with
        | error message => exact .of_idle himmune rfl
        | ok input =>
            refine .of_untouched himmune (execute_waits ?_)
            rw [himmune.opts, himmune.meter]
            exact hcheck

theorem consider_flowsOn : FlowsOn s (s.consider r step rest) := by
  unfold consider
  dsimp only
  split
  · exact log_untouched _ _ _ _
  · split_ifs
    · exact log_untouched _ _ _ _
    · exact .of_idle (log_untouched _ _ _ _) rfl
    · exact attempt_flowsOn

theorem conclude_waits {checks : List VerificationCheck} : Waits s (s.conclude r checks) := by
  refine .of_idle ?_ rfl
  unfold conclude
  dsimp only
  split_ifs
  · exact (log_untouched _ _ _ _).trans (log_untouched _ _ _ _)
  · exact (log_untouched _ _ _ _).trans (log_untouched _ _ _ _)

theorem afterLoop_waits : Waits s (s.afterLoop r) := by
  unfold afterLoop
  split_ifs
  · exact .of_idle (.refl s) rfl
  · exact conclude_waits

/-- **The loop, over any steps**: it spends nothing by itself. -/
theorem loop_waits : ∀ {steps : List RunStep} {s : LocalRunner sha256} {r : Running},
    Waits s (s.loop r steps)
  | [], _, _ => afterLoop_waits
  | step :: rest, s, r => by
      have hflow : FlowsOn s (s.consider r step rest) := consider_flowsOn
      unfold loop
      cases hc : s.consider r step rest with
      | next out =>
          rw [hc] at hflow
          exact .of_untouched hflow loop_waits
      | leave out =>
          rw [hc] at hflow
          exact .of_untouched hflow afterLoop_waits
      | halt out =>
          rw [hc] at hflow
          exact hflow

theorem resumeLoop_waits {flow : Flow (LocalRunner sha256 × Running)} (h : FlowsOn s flow) :
    Waits s (resumeLoop rest flow) := by
  cases flow with
  | next out => exact .of_untouched h loop_waits
  | leave out => exact .of_untouched h afterLoop_waits
  | halt out => exact h

/-! ## 3. What a run spends between two waits -/

@[simp] theorem record_total {resource x : UsageResource} :
    (s.record r resource).meter.total x = s.meter.total x + if x = resource then 1 else 0 := by
  change Function.update s.meter.total resource (s.meter.total resource + 1) x = _
  by_cases hx : x = resource
  · subst hx
    simp
  · simp [hx]

/-- Whether the run waits for its plan. -/
def planning (r : Running) : Bool :=
  match r.awaiting with
  | .plan => true
  | _ => false

/-- What a run can do, from one wait to the next. -/
inductive Wakes (s : LocalRunner sha256) (r : Running) (out : LocalRunner sha256 × Running) :
    Prop where
  /-- Another wait, with nothing begun before. -/
  | waits (hplan : planning r = false) (hbegun : r.begun = 0) (h : Waits s out)
  /-- The plan has come, and the model call is recorded. -/
  | planned (hplan : planning r = true) (hbegun : r.begun = 0)
      (h : Waits (s.record r .modelCalls) out)
  /-- A wait inside `execute` ends in another one, or in a rejection. -/
  | moves (hplan : planning r = false) (h : Untouched s out.1) (hload : out.2.load ≤ r.load)
      (hbegun : r.begun ≤ out.2.begun)
  /-- An executor is started. -/
  | invoked (hplan : planning r = false) (hload : r.load = 1) (hbegun : r.begun = 0)
      (hload' : out.2.load = 1) (hbegun' : out.2.begun = 1)
      (h : ∃ invocation, out.1 = { s with invoked := s.invoked ++ [invocation] })
  /-- A call has returned, and is recorded. -/
  | recorded (hplan : planning r = false) (hload : r.load = 1) (hbegun : r.begun = 1)
      (h : Waits (s.record r .toolCalls) out)

section Wakes

variable {wake : Wake} {out : LocalRunner sha256 × Running}

theorem planned_waits {plan : List String} : Waits (s.record r .modelCalls) (s.planned r plan) := by
  unfold planned
  exact .of_untouched (log_untouched _ _ _ _) loop_waits

theorem executeOn_wakes {point : ExecutePoint} (hr : r.awaiting = .execute point step rest)
    (h : s.executeOn r step rest point wake = some out) : Wakes s r out := by
  have hplan : planning r = false := by rw [planning, hr]
  have hload : r.load = 1 := by rw [Running.load, hr]
  cases point with
  | denied reason =>
      have hbegun : r.begun = 0 := by rw [Running.begun, hr]
      cases wake with
      | done =>
          cases h
          exact .moves hplan (.refl s) (hload ▸ Nat.le_refl 1) (hbegun ▸ Nat.zero_le _)
      | answer | result | checks | thrown => cases h
  | requested input =>
      have hbegun : r.begun = 0 := by rw [Running.begun, hr]
      cases wake with
      | done =>
          unfold executeOn at h
          dsimp only at h
          split_ifs at h
          · cases h
            exact .moves hplan (.refl s) (hload ▸ Nat.le_refl 1) (hbegun ▸ Nat.zero_le _)
          · cases h
            exact .moves hplan (.refl s) (hload ▸ Nat.zero_le 1) (hbegun ▸ Nat.zero_le _)
      | answer | result | checks | thrown => cases h
  | asked input =>
      have hbegun : r.begun = 0 := by rw [Running.begun, hr]
      cases wake with
      | answer yes =>
          cases yes with
          | true =>
              cases h
              exact .invoked hplan hload hbegun rfl rfl ⟨_, rfl⟩
          | false =>
              cases h
              exact .moves hplan (emit_untouched _ _ _ _) (hload ▸ Nat.le_refl 1)
                (hbegun ▸ Nat.zero_le _)
      | thrown message =>
          cases h
          exact .moves hplan (.refl s) (hload ▸ Nat.zero_le 1) (hbegun ▸ Nat.zero_le _)
      | done | result | checks => cases h
  | refused =>
      have hbegun : r.begun = 0 := by rw [Running.begun, hr]
      cases wake with
      | done =>
          cases h
          exact .moves hplan (.refl s) (hload ▸ Nat.le_refl 1) (hbegun ▸ Nat.zero_le _)
      | answer | result | checks | thrown => cases h
  | executing =>
      have hbegun : r.begun = 1 := by rw [Running.begun, hr]
      cases wake with
      | result result =>
          cases h
          exact .moves hplan (emit_untouched _ _ _ _) (hload ▸ Nat.le_refl 1)
            (hbegun ▸ Nat.le_refl 1)
      | thrown message =>
          -- thrown away, and not recorded
          cases h
          exact .moves hplan (.refl s) (hload ▸ Nat.le_refl 1) (hbegun ▸ Nat.le_refl 1)
      | done | answer | checks => cases h
  | completed result =>
      have hbegun : r.begun = 1 := by rw [Running.begun, hr]
      cases wake with
      | done =>
          cases h
          exact .moves hplan (.refl s) (hload ▸ Nat.le_refl 1) (hbegun ▸ Nat.le_refl 1)
      | answer | result | checks | thrown => cases h
  | returned result =>
      have hbegun : r.begun = 1 := by rw [Running.begun, hr]
      cases wake with
      | done =>
          cases h
          exact .recorded hplan hload hbegun loop_waits
      | answer | result | checks | thrown => cases h

/-- **One run, from one wait to the next.** -/
theorem resume_wakes (h : s.resume r wake = some out) : Wakes s r out := by
  unfold resume at h
  cases hr : r.awaiting with
  | execute point step rest =>
      rw [hr] at h
      exact executeOn_wakes hr h
  | plan =>
      have hbegun : r.begun = 0 := by rw [Running.begun, hr]
      rw [hr] at h
      cases wake with
      | done =>
          cases h
          exact .planned (by rw [planning, hr]) hbegun planned_waits
      | answer | result | checks | thrown => cases h
  | approval step rest =>
      have hplan : planning r = false := by rw [planning, hr]
      have hbegun : r.begun = 0 := by rw [Running.begun, hr]
      rw [hr] at h
      cases wake with
      | answer approved =>
          dsimp only at h
          split_ifs at h
          · cases h
            exact .waits hplan hbegun (.of_untouched (log_untouched _ _ _ _)
              (resumeLoop_waits attempt_flowsOn))
          · cases h
            exact .waits hplan hbegun (.of_untouched (log_untouched _ _ _ _) loop_waits)
      | thrown message =>
          dsimp only at h
          split_ifs at h
          cases h
          exact .waits hplan hbegun (.of_idle (.refl s) rfl)
      | done | result | checks => cases h
  | verify =>
      have hplan : planning r = false := by rw [planning, hr]
      have hbegun : r.begun = 0 := by rw [Running.begun, hr]
      rw [hr] at h
      cases wake with
      | checks checks =>
          cases h
          exact .waits hplan hbegun conclude_waits
      | thrown message =>
          cases h
          exact .waits hplan hbegun (.of_idle (.refl s) rfl)
      | done | answer | result => cases h
  | billing verification usage | flush verification usage =>
      have hplan : planning r = false := by rw [planning, hr]
      have hbegun : r.begun = 0 := by rw [Running.begun, hr]
      rw [hr] at h
      cases wake with
      | done =>
          cases h
          exact .waits hplan hbegun (.of_idle (.refl s) rfl)
      | thrown message =>
          cases h
          exact .waits hplan hbegun (.of_idle (.refl s) rfl)
      | answer | result | checks => cases h
  | settled outcome =>
      rw [hr] at h
      cases wake <;> cases h

/-- The first part of a new run, after its `run` is recorded: the plan is awaited, or it was given
    and the model call is recorded. -/
theorem run_wakes {intent : String} {opts : RunTaskOptions} {taskId runId : String} :
    ∃ s' r, s'.opts = s.opts ∧ s'.invoked = s.invoked ∧
      (∀ x, s'.meter.total x = s.meter.total x + if x = .runs then 1 else 0) ∧ r.load = 0 ∧
      (opts.plan = none ∧ s.run intent opts taskId runId = (s', r) ∧ r.begun = 0 ∨
        opts.plan.isSome ∧ r.begun = 0 ∧
          Waits (s'.record r .modelCalls) (s.run intent opts taskId runId)) := by
  let r : Running :=
    { intent := intent, taskId := taskId, runId := runId, opts := opts, results := []
      awaiting := .plan }
  let logged := (s.log r "RunCreated"
    [("intent", .str intent), ("mode", .str s.opts.mode.text)]).log r "TaskCreated"
    [("intent", .str intent)]
  refine ⟨logged.record r .runs, r, rfl, rfl, fun x => record_total, rfl, ?_⟩
  unfold run
  dsimp only
  cases opts.plan with
  | none => exact .inl ⟨rfl, rfl, rfl⟩
  | some plan => exact .inr ⟨rfl, rfl, planned_waits⟩

end Wakes

/-- What is done to what is committed and to what is started. -/
structure Spends (s : LocalRunner sha256) (r : Running) (out : LocalRunner sha256 × Running) :
    Prop where
  opts : out.1.opts = s.opts
  committed : out.1.meter.total .toolCalls + out.2.load ≤ s.meter.total .toolCalls + r.load + 1
  started : out.1.invoked.length + s.meter.total .toolCalls + r.begun ≤
    s.invoked.length + out.1.meter.total .toolCalls + out.2.begun
  checked : s.meter.total .toolCalls + r.load < out.1.meter.total .toolCalls + out.2.load →
    s.opts.budget.Within .toolCalls (out.1.meter.total .toolCalls + 1)

section Spends

variable {s' : LocalRunner sha256} {out : LocalRunner sha256 × Running}

theorem Spends.of_waits (h : Waits s out) (hbegun : r.begun = 0) : Spends s r out := by
  have hload := h.load_le
  have hbegun' := h.begun
  refine ⟨h.untouched.opts, ?_, ?_, fun hmore => ?_⟩
  · rw [h.untouched.meter]
    omega
  · rw [h.untouched.meter, h.untouched.invoked]
    omega
  · rw [h.untouched.meter] at hmore ⊢
    exact h.checked (by omega)

/-- What is done before to other totals does not matter. -/
theorem Spends.of_same (hopts : s'.opts = s.opts)
    (htotal : s'.meter.total .toolCalls = s.meter.total .toolCalls)
    (hinvoked : s'.invoked = s.invoked) (h : Spends s' r out) : Spends s r out where
  opts := h.opts.trans hopts
  committed := htotal ▸ h.committed
  started := by
    have hs := h.started
    rwa [htotal, hinvoked] at hs
  checked hmore := by
    have hc := h.checked (by rwa [htotal])
    rwa [hopts] at hc

theorem Spends.of_planned (hbegun : r.begun = 0) (h : Waits (s.record r .modelCalls) out) :
    Spends s r out := by
  have htotal : (s.record r .modelCalls).meter.total .toolCalls = s.meter.total .toolCalls := by
    rw [record_total]
    rfl
  have hopts : (s.record r .modelCalls).opts = s.opts := rfl
  exact .of_same hopts htotal rfl (.of_waits h hbegun)

theorem Wakes.spends (h : Wakes s r out) : Spends s r out := by
  cases h with
  | waits _ hbegun h => exact .of_waits h hbegun
  | planned _ hbegun h => exact .of_planned hbegun h
  | moves _ h hload hbegun =>
      refine ⟨h.opts, ?_, ?_, fun hmore => ?_⟩
      · rw [h.meter]
        omega
      · rw [h.meter, h.invoked]
        omega
      · rw [h.meter] at hmore
        omega
  | invoked _ hload hbegun hload' hbegun' h =>
      obtain ⟨invocation, hout⟩ := h
      have hmeter : out.1.meter = s.meter := by rw [hout]
      have hstarted : out.1.invoked.length = s.invoked.length + 1 := by
        rw [hout, List.length_append, List.length_singleton]
      refine ⟨by rw [hout], ?_, ?_, fun hmore => ?_⟩
      · rw [hmeter]
        omega
      · rw [hmeter]
        omega
      · rw [hmeter] at hmore
        omega
  | recorded _ hload hbegun h =>
      -- what was under way is now in the meter
      have hmeter : out.1.meter.total .toolCalls = s.meter.total .toolCalls + 1 := by
        rw [h.untouched.meter, record_total]
        rfl
      have hinvoked : out.1.invoked = s.invoked := h.untouched.invoked
      have hload' := h.load_le
      refine ⟨h.untouched.opts, by omega, ?_, fun hmore => ?_⟩
      · rw [hinvoked]
        omega
      · have hwithin := h.checked (by omega)
        rwa [← h.untouched.meter] at hwithin

/-- The first part of a new run. -/
theorem run_spends {intent : String} {opts : RunTaskOptions} {taskId runId : String} :
    ∃ r, r.load = 0 ∧ r.begun = 0 ∧ Spends s r (s.run intent opts taskId runId) := by
  obtain ⟨s', r, hopts, hinvoked, htotal, hload, h⟩ :=
    @run_wakes _ s intent opts taskId runId
  have hsame : s'.meter.total .toolCalls = s.meter.total .toolCalls := htotal .toolCalls
  rcases h with ⟨-, hrun, hbegun⟩ | ⟨-, hbegun, hwaits⟩
  · rw [hrun]
    exact ⟨r, hload, hbegun, .of_same hopts hsame hinvoked
      (.of_waits (.of_idle (.refl s') hload) hbegun)⟩
  · exact ⟨r, hload, hbegun, .of_same hopts hsame hinvoked (.of_planned hbegun hwaits)⟩

end Spends

end LocalRunner

/-! ## 4. Tool calls -/

namespace System

/-- The tool calls that are recorded, those under way, and those started and thrown away. -/
def committed (s : System sha256) : Nat :=
  s.runner.meter.total .toolCalls + (s.runs.map Running.load).sum

/-- If the move commits one more execution, the budget has room for it next to all that is
    committed. -/
def HasRoom (s : System sha256) (m : Move) : Prop :=
  ∀ s', s.step m = some s' → s.committed < s'.committed →
    s.runner.opts.budget.Within .toolCalls (s.committed + 1)

/-- The load of the run that moves. -/
def movingLoad (s : System sha256) : Move → Nat
  | .resume i _ => ((s.runs[i]?).map Running.load).getD 0
  | _ => 0

section Steps

variable {s s' : System sha256} {m : Move}

/-- The moves that are none of a run's. -/
def isOutside : Move → Bool
  | .grant _ | .registerExecutor _ => true
  | _ => false

theorem step_outside (hm : isOutside m = true) (h : s.step m = some s') :
    s.runner.Untouched s'.runner ∧ s'.runs = s.runs := by
  cases m with
  | run | resume => cases hm
  | grant grant =>
      unfold step at h
      dsimp only at h
      cases hadd : s.runner.policy.addGrant grant with
      | ok policy =>
          rw [hadd] at h
          cases h
          exact ⟨⟨rfl, rfl, rfl⟩, rfl⟩
      | error message =>
          rw [hadd] at h
          cases h
          exact ⟨.refl _, rfl⟩
  | registerExecutor action =>
      unfold step at h
      dsimp only at h
      split_ifs at h
      · cases h
        exact ⟨.refl _, rfl⟩
      · cases h
        exact ⟨⟨rfl, rfl, rfl⟩, rfl⟩

/-- **What a move does**: nothing that counts, or what one run spends between two waits. -/
theorem step_spends (h : s.step m = some s') :
    (s.runner.Untouched s'.runner ∧ s'.runs = s.runs) ∨
    ∃ r out, s.runner.Spends r out ∧ s'.runner = out.1 ∧ r.load = s.movingLoad m ∧
      (s'.runs.map Running.load).sum + r.load = (s.runs.map Running.load).sum + out.2.load ∧
      (s'.runs.map Running.begun).sum + r.begun = (s.runs.map Running.begun).sum + out.2.begun := by
  cases m with
  | run intent opts taskId runId =>
      cases h
      obtain ⟨r, hload, hbegun, hspends⟩ :=
        @LocalRunner.run_spends _ s.runner intent opts taskId runId
      refine .inr ⟨r, _, hspends, rfl, hload, ?_, ?_⟩
      · simp [hload]
      · simp [hbegun]
  | resume i wake =>
      obtain ⟨r, hr, hout⟩ := Option.bind_eq_some_iff.mp h
      obtain ⟨out, hresume, rfl⟩ := Option.map_eq_some_iff.mp hout
      have hmoving : r.load = s.movingLoad (.resume i wake) := by
        unfold movingLoad
        dsimp only
        rw [hr]
        rfl
      exact .inr ⟨r, out, (LocalRunner.resume_wakes hresume).spends, rfl, hmoving, sum_map_set _ _ hr,
        sum_map_set _ _ hr⟩
  | grant | registerExecutor => exact .inl (step_outside rfl h)

/-- What a history keeps. -/
structure Sound (opts : RunnerOptions) (s : System sha256) : Prop where
  unchanged : s.runner.opts = opts
  started : s.runner.invoked.length ≤
    s.runner.meter.total .toolCalls + (s.runs.map Running.begun).sum
  within : opts.budget.Within .toolCalls s.committed

theorem Sound.step {opts : RunnerOptions} (h : Sound opts s) (hroom : s.HasRoom m)
    (hs : s.step m = some s') : Sound opts s' := by
  rcases step_spends hs with ⟨hsame, hruns⟩ | ⟨r, out, hspends, hout, -, hload, hbegun⟩
  · refine ⟨hsame.opts.trans h.unchanged, ?_, ?_⟩
    · rw [hsame.invoked, hsame.meter, hruns]
      exact h.started
    · unfold committed
      rw [hsame.meter, hruns]
      exact h.within
  · have hopts : s'.runner.opts = opts := by rw [hout, hspends.opts, h.unchanged]
    have hcommitted : s'.committed ≤ s.committed + 1 := by
      have hc := hspends.committed
      unfold committed
      rw [hout]
      omega
    refine ⟨hopts, ?_, ?_⟩
    · have hst := hspends.started
      have hold := h.started
      rw [hout]
      omega
    · by_cases hmore : s.committed < s'.committed
      · have hw := hroom s' hs hmore
        rw [h.unchanged] at hw
        exact hw.mono hcommitted
      · exact h.within.mono (by omega)

/-- **The budget of tool calls, for any number of runs**: neither the calls recorded nor the
    executors started exceed it, in a history in which every execution has room when it is
    committed. -/
theorem tool_calls_within {opts : RunnerOptions} {clock : Clock} {ms : List Move}
    (hlimit : opts.budget.Within .toolCalls 0)
    (h : Run System.step HasRoom (.create opts clock) ms s) :
    opts.budget.Within .toolCalls (s.runner.meter.total .toolCalls) ∧
    opts.budget.Within .toolCalls s.runner.invoked.length := by
  have hsound : Sound opts s := by
    refine h.invariant ⟨rfl, Nat.zero_le _, ?_⟩ fun s m s' hsound hroom hs => hsound.step hroom hs
    exact hlimit
  have hbegun : (s.runs.map Running.begun).sum ≤ (s.runs.map Running.load).sum :=
    List.sum_le_sum fun r _ => r.begun_le_load
  have hstarted := hsound.started
  refine ⟨hsound.within.mono (Nat.le_add_right _ _), hsound.within.mono ?_⟩
  unfold committed
  omega

/-- A clock that stands still. -/
def someClock : Clock where
  stamps n := { id := toString n, timestamp := "t" }
  millis _ := 0
  uuids := toString
  readings _ :=
    { enteredAt := "t", incidentId := "i", detected := ⟨"t", ⟨"d", "t"⟩⟩
      classified := ⟨"t", ⟨"c", "t"⟩⟩, contained := ⟨"t", ⟨"e", "t"⟩⟩ }

/-- One tool call is all there is, and the agent may read. -/
def oneCall : RunnerOptions where
  mode := .local
  budget := { freeBudget with maxToolCalls := .ofNat 1 }
  grants := [{ id := "g1", principal := "coder", capability := "repo.read", scope := "*"
               effect := .allow }]

/-- A run of one reading. -/
def readOnce (taskId runId : String) : Move := .run "read" { plan := some ["repo.read"] } taskId runId

/-- What an executor returns that has read. -/
def haveRead : Result :=
  { status := .success, output := .null, evidence := [{ evidenceId := "e1", kind := "file" }] }

/-- One run after the other: the second one meets the quota. -/
def oneAfterTheOther : List Move :=
  [.registerExecutor "repo.read", readOnce "t1" "r1", .resume 0 .done, .resume 0 (.answer true),
    .resume 0 (.result haveRead), .resume 0 .done, .resume 0 .done, readOnce "t2" "r2"]

/-- One run to its end. -/
def readToTheEnd : List Move :=
  [.registerExecutor "repo.read", readOnce "t1" "r1", .resume 0 .done, .resume 0 (.answer true),
    .resume 0 (.result haveRead), .resume 0 .done, .resume 0 .done, .resume 0 .done,
    .resume 0 .done]

/-- `HasRoom`, to be computed. -/
def hasRoom (s : System sha256) (m : Move) : Bool :=
  match s.step m with
  | none => true
  | some s' =>
      !decide (s.committed < s'.committed) ||
        s.runner.opts.budget.maxToolCalls.admits (s.committed + 1)

theorem hasRoom_sound (h : s.hasRoom m = true) : s.HasRoom m := by
  intro s' hs hmore limit hlimit
  unfold hasRoom at h
  rw [hs] at h
  have hadmits : s.runner.opts.budget.maxToolCalls.admits (s.committed + 1) = true := by
    simpa [hmore] using h
  rwa [← Option.some.inj hlimit]

/-- The state to which a list of moves leads. -/
def afterMoves (opts : RunnerOptions) (ms : List Move) : System id :=
  (exec System.step (.create opts someClock) ms).getD (.create opts someClock)

theorem tool_calls_within_oneCall :
    oneCall.budget.Within .toolCalls
      ((afterMoves oneCall oneAfterTheOther).runner.meter.total .toolCalls) ∧
    oneCall.budget.Within .toolCalls
      (afterMoves oneCall oneAfterTheOther).runner.invoked.length := by
  have hlimit : oneCall.budget.Within .toolCalls 0 := by
    intro limit hl
    rw [← Option.some.inj hl]
    decide
  have hrun : Run System.step HasRoom (.create oneCall someClock) oneAfterTheOther
      (afterMoves oneCall oneAfterTheOther) :=
    run_of_exec_check (fun _ _ => hasRoom_sound) rfl
  exact tool_calls_within hlimit hrun

/-- Two runs at once: both pass the quota before either has recorded its call. -/
def bothAtOnce : List Move :=
  [.registerExecutor "repo.read", readOnce "t1" "r1", readOnce "t2" "r2",
    .resume 0 .done, .resume 1 .done, .resume 0 (.answer true), .resume 1 (.answer true),
    .resume 0 (.result haveRead), .resume 1 (.result haveRead), .resume 0 .done, .resume 1 .done,
    .resume 0 .done, .resume 1 .done]

/-- **Two concurrent runs spend two tool calls out of one.** -/
theorem concurrent_runs_overspend :
    Run System.step (fun _ _ => True) (.create oneCall someClock) bothAtOnce
      (afterMoves oneCall bothAtOnce) ∧
    (afterMoves oneCall bothAtOnce).runner.meter.total .toolCalls = 2 ∧
    (afterMoves oneCall bothAtOnce).runner.invoked.length = 2 ∧
    ¬ oneCall.budget.Within .toolCalls 2 := by
  refine ⟨run_of_exec (fun _ _ => trivial) rfl, rfl, rfl, fun hwithin => ?_⟩
  have hadmits := hwithin (.ofNat 1) rfl
  revert hadmits
  decide

/-- **With nothing committed by other runs, the check that the runner makes gives the room.** -/
theorem hasRoom_of_alone (halone : (s.runs.map Running.load).sum = s.movingLoad m) :
    s.HasRoom m := by
  intro s' hs hmore
  rcases step_spends hs with ⟨hsame, hruns⟩ | ⟨r, out, hspends, hout, hmoving, hload, -⟩
  · unfold committed at hmore
    rw [hsame.meter, hruns] at hmore
    exact absurd hmore (Nat.lt_irrefl _)
  · unfold committed at hmore ⊢
    rw [hout] at hmore
    have hle := out.2.load_le_one
    have hmore' : s.runner.meter.total .toolCalls + r.load <
        out.1.meter.total .toolCalls + out.2.load := by omega
    exact (hspends.checked hmore').mono (by omega)

end Steps

end System

/-! ## 5. Runs and model calls -/

/-- The move starts a run. -/
def Move.startsRun : Move → Bool
  | .run _ _ _ _ => true
  | _ => false

theorem LocalRunner.Wakes.total {s : LocalRunner sha256} {r : Running}
    {out : LocalRunner sha256 × Running} (h : s.Wakes r out) :
    out.1.meter.total .runs = s.meter.total .runs ∧
    out.1.meter.total .modelCalls = s.meter.total .modelCalls + if planning r then 1 else 0 := by
  cases h with
  | waits hplan _ h => simp [h.untouched.meter, hplan]
  | planned hplan _ h => simp [h.untouched.meter, hplan]
  | moves hplan h => simp [h.meter, hplan]
  | invoked hplan _ _ _ _ h =>
      obtain ⟨invocation, hout⟩ := h
      simp [hout, hplan]
  | recorded hplan _ _ h => simp [h.untouched.meter, hplan]

namespace System

/-- With the move a run gets its plan, for which the runner records a model call. -/
def plans (s : System sha256) : Move → Bool
  | .run _ opts _ _ => opts.plan.isSome
  | .resume i _ => (s.runs[i]?).any LocalRunner.planning
  | _ => false

section Totals

variable {s s' : System sha256} {m : Move}

/-- **Every move records what it starts**, whatever the budget. -/
theorem step_total (h : s.step m = some s') :
    s'.runner.opts = s.runner.opts ∧
    s'.runner.meter.total .runs = s.runner.meter.total .runs + (if m.startsRun then 1 else 0) ∧
    s'.runner.meter.total .modelCalls =
      s.runner.meter.total .modelCalls + (if s.plans m then 1 else 0) := by
  cases m with
  | run intent opts taskId runId =>
      cases h
      obtain ⟨started, r, hopts, -, htotal, -, h⟩ :=
        @LocalRunner.run_wakes _ s.runner intent opts taskId runId
      rcases h with ⟨hplan, hrun, -⟩ | ⟨hplan, -, hwaits⟩
      · simp [Move.startsRun, plans, hplan, hrun, hopts, htotal]
      · have hmeter := hwaits.untouched.meter
        have hopts' : (s.runner.run intent opts taskId runId).1.opts = started.opts :=
          hwaits.untouched.opts
        simp [Move.startsRun, plans, hplan, hmeter, hopts', hopts, htotal]
  | resume i wake =>
      obtain ⟨r, hr, hout⟩ := Option.bind_eq_some_iff.mp h
      obtain ⟨out, hresume, rfl⟩ := Option.map_eq_some_iff.mp hout
      have hwakes := LocalRunner.resume_wakes hresume
      obtain ⟨hruns, hcalls⟩ := hwakes.total
      refine ⟨hwakes.spends.opts, by simpa [Move.startsRun] using hruns, ?_⟩
      simpa [plans, hr] using hcalls
  | grant | registerExecutor =>
      obtain ⟨hsame, -⟩ := step_outside rfl h
      exact ⟨hsame.opts, by rw [hsame.meter]; rfl, by rw [hsame.meter]; rfl⟩

/-- The runs and the model calls are within the budget. -/
def TotalsWithin (s : System sha256) : Prop :=
  s.runner.opts.budget.Within .runs (s.runner.meter.total .runs) ∧
  s.runner.opts.budget.Within .modelCalls (s.runner.meter.total .modelCalls)

variable {opts : RunnerOptions} {clock : Clock} {ms : List Move}

theorem run_totals (h : Run System.step (fun _ _ => True) (@create sha256 opts clock) ms s) :
    s.runner.opts = opts ∧
    s.runner.meter.total .runs = ms.countP Move.startsRun ∧
    s.runner.meter.total .modelCalls =
      occurrences System.step plans (@create sha256 opts clock) ms := by
  have hcalls := h.occurrences_eq (μ := (·.runner.meter.total .modelCalls))
    fun _ _ _ _ hs => (step_total hs).2.2
  suffices hrest : s.runner.opts = opts ∧ s.runner.meter.total .runs = ms.countP Move.startsRun from
    ⟨hrest.1, hrest.2, hcalls.trans (Nat.zero_add _)⟩
  clear hcalls
  induction h with
  | start => exact ⟨rfl, rfl⟩
  | @next ms s s' m h _ hs ih =>
      obtain ⟨hopts, hruns⟩ := ih
      obtain ⟨hopts', hruns', -⟩ := step_total hs
      refine ⟨hopts'.trans hopts, ?_⟩
      rw [hruns', hruns, List.countP_append, List.countP_singleton]

/-- **The budgets of runs and of model calls hold throughout a history just when it asks for no
    more of them than the budgets have.** -/
theorem totals_within_iff
    (h : Run System.step (fun _ _ => True) (@create sha256 opts clock) ms s) :
    Throughout System.step (@create sha256 opts clock) ms TotalsWithin ↔
      opts.budget.Within .runs (ms.countP Move.startsRun) ∧
      opts.budget.Within .modelCalls
        (occurrences System.step plans (@create sha256 opts clock) ms) := by
  constructor
  · intro hall
    obtain ⟨hopts, hruns, hcalls⟩ := run_totals h
    have hend := hall ms s (List.prefix_refl ms) h
    unfold TotalsWithin at hend
    rwa [hopts, hruns, hcalls] at hend
  · rintro ⟨hwithin, hwithin'⟩ ms₁ s₁ ⟨rest, rfl⟩ h₁
    obtain ⟨hopts, hruns, hcalls⟩ := run_totals h₁
    unfold TotalsWithin
    rw [hopts, hruns, hcalls]
    refine ⟨hwithin.mono ?_, hwithin'.mono ?_⟩
    · rw [List.countP_append]
      exact Nat.le_add_right _ _
    · rw [h₁.occurrences_append]
      exact Nat.le_add_right _ _

/-- A budget of one run. -/
def oneRun : RunnerOptions := { oneCall with budget := { freeBudget with maxRuns := some (.ofNat 1) } }

theorem totals_within_iff_oneRun :
    Throughout System.step (@create id oneRun someClock) oneAfterTheOther TotalsWithin ↔
      oneRun.budget.Within .runs (oneAfterTheOther.countP Move.startsRun) ∧
      oneRun.budget.Within .modelCalls
        (occurrences System.step plans (@create id oneRun someClock) oneAfterTheOther) :=
  totals_within_iff (s := afterMoves oneRun oneAfterTheOther) (run_of_exec (fun _ _ => trivial) rfl)

/-- The second run, to the end of its execution. -/
def twoRuns : List Move :=
  oneAfterTheOther ++ [.resume 1 .done, .resume 1 (.answer true), .resume 1 (.result haveRead)]

/-- **A second run is recorded and executed where the budget has one**, and so is its model call. -/
theorem second_run_executes :
    Run System.step (fun _ _ => True) (.create oneRun someClock) twoRuns
      (afterMoves oneRun twoRuns) ∧
    (afterMoves oneRun twoRuns).runner.meter.total .runs = 2 ∧
    (afterMoves oneRun twoRuns).runner.invoked.map (·.runId) = ["r1", "r2"] ∧
    ¬ TotalsWithin (afterMoves oneRun twoRuns) := by
  refine ⟨run_of_exec (fun _ _ => trivial) rfl, rfl, rfl, fun hwithin => ?_⟩
  have hadmits := hwithin.1 (.ofNat 1) rfl
  revert hadmits
  decide

end Totals

end System

end AgentKernel.Runner
