/-
  File:      AgentKernel/Economics.lean
  Subject:   Metering and budgets (kernel/economics/src/index.ts, kernel/contracts/src/economics.ts).

  Amounts are natural numbers. A limit is any number but `NaN`: a rational one, or `Infinity`.
-/
import AgentKernel.Contracts.Events

namespace AgentKernel

/-! ## 1. The meter -/

/-- What is metered. -/
inductive UsageResource where
  | executionSeconds | toolCalls | modelCalls | networkRequests | tokens | runs
  deriving DecidableEq

/-- The resource, as events spell it. -/
def UsageResource.text : UsageResource → String
  | .executionSeconds => "execution_seconds"
  | .toolCalls => "tool_calls"
  | .modelCalls => "model_calls"
  | .networkRequests => "network_requests"
  | .tokens => "tokens"
  | .runs => "runs"

/-- The resources in the order in which the meter lists them. -/
def UsageResource.all : List UsageResource :=
  [.executionSeconds, .toolCalls, .modelCalls, .networkRequests, .tokens, .runs]

/-- One reading. -/
structure UsageEvent where
  resource : UsageResource
  amount : Nat
  time : Nat
  actorId : String
  runId : String

/-- The reading as a payload. -/
def UsageEvent.value (e : UsageEvent) : Value :=
  .obj [("resource", .str e.resource.text), ("amount", .num (.ofNat e.amount)),
    ("at", .num (.ofNat e.time)), ("actorId", .str e.actorId), ("runId", .str e.runId)]

/-- How much of everything has been used. -/
abbrev Usage := UsageResource → Nat

/-- The usage as a payload. -/
def Usage.value (usage : Usage) : Value :=
  .obj [("total", .obj (UsageResource.all.map fun r => (r.text, .num (.ofNat (usage r)))))]

/-- `InMemoryUsageMeter`. -/
structure UsageMeter where
  total : Usage
  events : List UsageEvent

/-- Nothing has been used. -/
def UsageMeter.empty : UsageMeter := { total := fun _ => 0, events := [] }

/-- One reading more. -/
def UsageMeter.record (m : UsageMeter) (e : UsageEvent) : UsageMeter where
  total := Function.update m.total e.resource (m.total e.resource + e.amount)
  events := m.events ++ [e]

/-! ## 2. Budgets -/

/-- A number and the text it prints as. -/
structure Limit where
  /-- `none` is `Infinity`. -/
  value : Option ℚ
  text : String

/-- A limit that is a number. -/
def Limit.ofNat (n : Nat) : Limit := { value := some n, text := toString n }

/-- `n` does not exceed the limit. -/
def Limit.admits (l : Limit) (n : Nat) : Bool :=
  match l.value with
  | none => true
  | some x => decide ((n : ℚ) ≤ x)

theorem Limit.admits_mono {l : Limit} {m n : Nat} (hle : m ≤ n) (h : l.admits n = true) :
    l.admits m = true := by
  unfold admits at *
  cases hv : l.value with
  | none => rfl
  | some x =>
      rw [hv] at h
      have hcast : (m : ℚ) ≤ (n : ℚ) := by exact_mod_cast hle
      exact decide_eq_true (hcast.trans (of_decide_eq_true h))

/-- How much of everything may be used. -/
structure BudgetPolicy where
  maxExecutionSeconds : Limit
  maxToolCalls : Limit
  maxModelCalls : Limit
  maxNetworkRequests : Limit
  maxTokens : Option Limit := none
  maxRuns : Option Limit := none

/-- `FREE_BUDGET`. -/
def freeBudget : BudgetPolicy where
  maxExecutionSeconds := .ofNat 300
  maxToolCalls := .ofNat 100
  maxModelCalls := .ofNat 20
  maxNetworkRequests := .ofNat 20
  maxRuns := some (.ofNat 10)

/-- Whether more may be used, and why not. -/
structure QuotaAnswer where
  allowed : Bool
  reason : String

namespace BudgetPolicy

/-- The limit of a resource, if it has one. -/
def limitFor (budget : BudgetPolicy) : UsageResource → Option Limit
  | .executionSeconds => some budget.maxExecutionSeconds
  | .toolCalls => some budget.maxToolCalls
  | .modelCalls => some budget.maxModelCalls
  | .networkRequests => some budget.maxNetworkRequests
  | .tokens => budget.maxTokens
  | .runs => budget.maxRuns

/-- `BudgetQuota.allows`. -/
def allows (budget : BudgetPolicy) (current : Usage) (resource : UsageResource) (amount : Nat) :
    QuotaAnswer :=
  match budget.limitFor resource with
  | none => { allowed := true, reason := "unmetered resource" }
  | some limit =>
      let next := current resource + amount
      if limit.admits next then { allowed := true, reason := "within budget" }
      else
        { allowed := false
          reason := resource.text ++ " quota exceeded (" ++ toString next ++ " > " ++ limit.text ++
            ")" }

/-- A usage that is within the limit of a resource, where there is one. -/
def Within (budget : BudgetPolicy) (resource : UsageResource) (used : Nat) : Prop :=
  ∀ limit ∈ budget.limitFor resource, limit.admits used = true

/-- **The quota allows just the increments after which the usage is within its limit.** -/
theorem allows_iff {budget : BudgetPolicy} {current : Usage} {resource : UsageResource}
    {amount : Nat} : (budget.allows current resource amount).allowed = true ↔
      budget.Within resource (current resource + amount) := by
  unfold allows Within
  cases budget.limitFor resource with
  | none => simp
  | some limit =>
      by_cases h : limit.admits (current resource + amount) = true
      · simp [h]
      · simp [h]

theorem Within.mono {budget : BudgetPolicy} {resource : UsageResource} {m n : Nat} (hle : m ≤ n)
    (h : budget.Within resource n) : budget.Within resource m :=
  fun limit hl => Limit.admits_mono hle (h limit hl)

end BudgetPolicy

end AgentKernel
