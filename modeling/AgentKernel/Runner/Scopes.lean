/-
  File:      AgentKernel/Runner/Scopes.lean
  Subject:   The runner asks the policy engine without a scope (apps/cli/src/local-runner.ts,
             kernel/policy/src/policy-engine.ts).

  * `execute_requested`: what is executed is what the check without a scope allows;
  * **`unscoped_restrictive_iff`**: for which grants nothing is executed that is denied in some
    scope;
  * `scoped_deny_ignored`: a write below "/etc/" that a grant denies is executed.
-/
import AgentKernel.Policy.Scopes
import AgentKernel.Runner.Budgets

namespace AgentKernel.Runner

open Lib Events

variable {sha256 : String → String}

/-- `execute` goes on to the execution only with an action that is allowed in every scope. -/
def Confined (s : LocalRunner sha256) (r : Running) (step : RunStep) : Prop :=
  ∀ (rest : List RunStep) (input : Value),
    (s.execute r step rest input).2.awaiting = .execute (.requested input) step rest →
    ∀ scope, (s.policy.evaluate r.actorId step.action scope).allowed = true

theorem execute_requested {s : LocalRunner sha256} {r : Running} {step : RunStep}
    {rest : List RunStep} {input : Value} :
    (s.execute r step rest input).2.awaiting = .execute (.requested input) step rest ↔
      (s.policy.evaluate r.actorId step.action "*").allowed = true := by
  unfold LocalRunner.execute
  dsimp only
  cases (s.policy.evaluate r.actorId step.action "*").allowed with
  | false => exact iff_of_false (fun h => by cases h) Bool.false_ne_true
  | true => exact iff_of_true rfl rfl

/-- **A check without a scope is no more permissive**, and the runner executes nothing that is
    denied in some scope, for exactly the grants that `Uniform` describes. -/
theorem unscoped_restrictive_iff (engine : PolicyEngine) (calls : List GrantCall) :
    (∀ principal capability,
      Restrictive (calls.foldl PolicyEngine.change engine) principal capability ↔
        Uniform (calls.foldl PolicyEngine.change engine).grants principal capability) ∧
    ∀ (s : LocalRunner sha256) (r : Running) (step : RunStep),
      Confined s r step ↔ Uniform s.policy.grants r.actorId step.action := by
  refine ⟨fun _ _ => restrictive_iff, fun s r step => ?_⟩
  rw [← restrictive_iff]
  unfold Confined Restrictive
  constructor
  · exact fun h hallowed => h [] .null (execute_requested.mpr hallowed)
  · exact fun h _ _ hrequested => h (execute_requested.mp hrequested)

/-! ## A scoped deny grant -/

/-- The agent may write, but not below "/etc/". -/
def writeGrants : List GrantCall :=
  [.add { id := "a", principal := "coder", capability := "fs.write", scope := "*"
          effect := .allow },
    .add { id := "d", principal := "coder", capability := "fs.write", scope := "/etc/**"
           effect := .deny }]

/-- The engine after these changes. -/
def writeEngine : PolicyEngine := writeGrants.foldl PolicyEngine.change ⟨[], defaultApprovalPolicy⟩

/-- The runner with its grants. -/
def writeOptions : RunnerOptions where
  mode := .local
  grants := writeEngine.grants

/-- A file outside of what is granted. -/
def passwd : Value := .obj [("path", .str "/etc/passwd")]

/-- One run that writes below "/etc/". -/
def writePasswd : List Move :=
  [.registerExecutor "fs.write",
    .run "write" { plan := some [], steps := some [⟨"fs.write", some (.value passwd)⟩] } "t1" "r1",
    .resume 0 .done, .resume 0 (.answer true)]

/-- The check without a scope allows what a scoped deny grant forbids, and it is executed. -/
theorem scoped_deny_ignored :
    (writeEngine.evaluate "coder" "fs.write" "*").allowed = true ∧
    (writeEngine.evaluate "coder" "fs.write" "/etc/passwd").allowed = false ∧
    ∃ s : System id, Run System.step (fun _ _ => True) (.create writeOptions System.someClock)
        writePasswd s ∧
      s.runner.policy = writeEngine ∧ s.runner.invoked = [⟨"r1", "fs.write", passwd⟩] := by
  refine ⟨rfl, rfl, System.afterMoves writeOptions writePasswd, ?_, rfl, rfl⟩
  exact run_of_exec (fun _ _ => trivial) rfl

end AgentKernel.Runner
