/-
  File:      AgentKernel/Economics/Tenants.lean
  Subject:   Plans and the quotas of tenants (kernel/economics/src/index.ts).

  `TenantQuota` keeps one usage for each tenant and asks the budget of a plan. Nothing in it makes a
  caller ask before it records: "callers must check before dispatching external work".

  * **`usage_meter`**: the quota is a meter for each tenant, which hears of no other;
  * **`within_plans_iff`**: asking first is just what keeps every tenant within its plan.
-/
import AgentKernel.Economics

namespace AgentKernel

/-! ## 1. Plans -/

/-- The plans there are. -/
inductive PlanId where
  | free | byok
  deriving DecidableEq

/-- The plan, as errors spell it. -/
def PlanId.text : PlanId → String
  | .free => "free"
  | .byok => "byok"

/-- A plan with its budget. -/
structure UsagePlan where
  id : PlanId
  billingRequired : Bool
  budget : BudgetPolicy

/-- `FREE_PLAN`. -/
def freePlan : UsagePlan where
  id := .free
  billingRequired := false
  budget :=
    { maxExecutionSeconds := .ofNat 300, maxToolCalls := .ofNat 100, maxModelCalls := .ofNat 20
      maxNetworkRequests := .ofNat 20, maxRuns := some (.ofNat 10) }

/-- `BYOK_PLAN`. -/
def byokPlan : UsagePlan where
  id := .byok
  billingRequired := false
  budget :=
    { maxExecutionSeconds := .ofNat 3600, maxToolCalls := .ofNat 1000, maxModelCalls := .ofNat 200
      maxNetworkRequests := .ofNat 200, maxRuns := some (.ofNat 100) }

/-- The plans that can be had. -/
abbrev PlanCatalog := List UsagePlan

namespace PlanCatalog

/-- The plans of a catalog that is given none. -/
def standard : PlanCatalog := [freePlan, byokPlan]

/-- The plan of an id. -/
def get (plans : PlanCatalog) (id : PlanId) : Except String UsagePlan :=
  match plans.find? fun candidate => candidate.id = id with
  | some plan => .ok plan
  | none => .error ("unknown usage plan: " ++ id.text)

end PlanCatalog

/-! ## 2. The quotas -/

/-- Whose usage it is. -/
structure QuotaSubject where
  tenantId : String
  userId : Option String := none

/-- What every tenant has used. -/
structure TenantQuota where
  plans : PlanCatalog
  usageByTenant : String → Option Usage

namespace TenantQuota

/-- Nobody has used anything. -/
def new (plans : PlanCatalog) : TenantQuota where
  plans := plans
  usageByTenant := fun _ => none

variable (q : TenantQuota) (subject : QuotaSubject)

/-- What the tenant of a subject has used. -/
def usage : Usage := (q.usageByTenant subject.tenantId).getD fun _ => 0

/-- Whether its plan lets it use more. -/
def allows (planId : PlanId) (resource : UsageResource) (amount : Nat) : Except String QuotaAnswer :=
  (q.plans.get planId).map fun plan => plan.budget.allows (q.usage subject) resource amount

/-- It has used more. -/
def record (event : UsageEvent) : TenantQuota :=
  let current := q.usage subject
  { q with
    usageByTenant := Function.update q.usageByTenant subject.tenantId
      (some (Function.update current event.resource (current event.resource + event.amount))) }

end TenantQuota

/-! ## 3. A meter for each tenant -/

/-- What has been recorded, and for whom. -/
abbrev UsageRecord := QuotaSubject × UsageEvent

/-- The quota after some records. -/
def TenantQuota.after (plans : PlanCatalog) (cs : List UsageRecord) : TenantQuota :=
  cs.foldl (fun q c => q.record c.1 c.2) (.new plans)

/-- The meter that hears only of one tenant. -/
def meterOf (tenantId : String) (cs : List UsageRecord) : UsageMeter :=
  (cs.filter fun c => c.1.tenantId = tenantId).foldl (fun m c => m.record c.2) .empty

section Meters

variable {plans : PlanCatalog} {cs : List UsageRecord} {c : UsageRecord} {subject : QuotaSubject}

theorem after_concat :
    TenantQuota.after plans (cs ++ [c]) = (TenantQuota.after plans cs).record c.1 c.2 :=
  List.foldl_concat ..

theorem after_plans (cs : List UsageRecord) : (TenantQuota.after plans cs).plans = plans := by
  induction cs using List.reverseRecOn with
  | nil => rfl
  | append_singleton cs c ih =>
      rw [after_concat]
      exact ih

/-- Recording is of one tenant and of one resource. -/
theorem usage_record (q : TenantQuota) (c : UsageRecord) (subject : QuotaSubject) :
    (q.record c.1 c.2).usage subject =
      if subject.tenantId = c.1.tenantId then
        Function.update (q.usage subject) c.2.resource (q.usage subject c.2.resource + c.2.amount)
      else q.usage subject := by
  unfold TenantQuota.record TenantQuota.usage
  dsimp only
  split_ifs with h
  · rw [h, Function.update_self]
    rfl
  · rw [Function.update_of_ne h]

/-- **The quota is a meter for each tenant.** -/
theorem usage_meter (plans : PlanCatalog) (cs : List UsageRecord) (subject : QuotaSubject) :
    (TenantQuota.after plans cs).usage subject = (meterOf subject.tenantId cs).total := by
  induction cs using List.reverseRecOn with
  | nil => rfl
  | append_singleton cs c ih =>
      rw [after_concat, usage_record, ih]
      unfold meterOf
      rw [List.filter_append]
      by_cases h : subject.tenantId = c.1.tenantId
      · rw [if_pos h, List.filter_singleton, decide_eq_true h.symm, cond_true, List.foldl_concat]
        rfl
      · rw [if_neg h, List.filter_singleton, decide_eq_false (Ne.symm h), cond_false, List.append_nil]

end Meters

/-! ## 4. Asking first -/

/-- Each record has been allowed, under the plan of its tenant, before it was made. -/
def AsksFirst (plans : PlanCatalog) (planOf : String → PlanId) (cs : List UsageRecord) : Prop :=
  ∀ pre c, pre ++ [c] <+: cs → ∃ answer,
    (TenantQuota.after plans pre).allows c.1 (planOf c.1.tenantId) c.2.resource c.2.amount = .ok answer ∧
      answer.allowed = true

/-- Each tenant has always been within its plan. -/
def WithinPlans (plans : PlanCatalog) (planOf : String → PlanId) (cs : List UsageRecord) : Prop :=
  ∀ pre, pre <+: cs → ∀ subject plan, plans.get (planOf subject.tenantId) = .ok plan →
    ∀ resource, plan.budget.Within resource ((TenantQuota.after plans pre).usage subject resource)

section Plans

variable {plans : PlanCatalog} {planOf : String → PlanId} {cs pre : List UsageRecord} {c : UsageRecord}

/-- What is allowed stays within the plan. -/
theorem allows_within {plan : UsagePlan} (hplan : plans.get (planOf c.1.tenantId) = .ok plan) :
    (∃ answer, (TenantQuota.after plans pre).allows c.1 (planOf c.1.tenantId) c.2.resource c.2.amount =
      .ok answer ∧ answer.allowed = true) ↔
    plan.budget.Within c.2.resource
      ((TenantQuota.after plans (pre ++ [c])).usage c.1 c.2.resource) := by
  rw [after_concat, usage_record, if_pos rfl, Function.update_self, ← BudgetPolicy.allows_iff]
  unfold TenantQuota.allows
  rw [after_plans, hplan]
  simp [Except.map]

/-- **Asking first is just what keeps every tenant within its plan**, where each has a plan that allows
    it to have used nothing. -/
theorem within_plans_iff (hplans : ∀ tenantId, ∃ plan, plans.get (planOf tenantId) = .ok plan ∧
      ∀ resource, plan.budget.Within resource 0) :
    AsksFirst plans planOf cs ↔ WithinPlans plans planOf cs := by
  constructor
  · intro hasks pre
    induction pre using List.reverseRecOn with
    | nil =>
        intro _ subject plan hplan resource
        obtain ⟨plan', hplan', hzero⟩ := hplans subject.tenantId
        obtain rfl := Except.ok.inj (hplan.symm.trans hplan')
        exact hzero resource
    | append_singleton pre c ih =>
        intro hpre subject plan hplan resource
        have hbefore := ih ((List.prefix_append pre [c]).trans hpre) subject plan hplan resource
        by_cases htenant : subject.tenantId = c.1.tenantId
        · by_cases hresource : resource = c.2.resource
          · subst hresource
            rw [htenant] at hplan
            have hwithin := (allows_within hplan).mp (hasks pre c hpre)
            rw [usage_meter, ← htenant, ← usage_meter plans] at hwithin
            exact hwithin
          · rw [after_concat, usage_record, if_pos htenant, Function.update_of_ne hresource]
            exact hbefore
        · rw [after_concat, usage_record, if_neg htenant]
          exact hbefore
  · intro hwithin pre c hpre
    obtain ⟨plan, hplan, -⟩ := hplans c.1.tenantId
    exact (allows_within hplan).mpr (hwithin (pre ++ [c]) hpre c.1 plan hplan c.2.resource)

/-- Two tenants make ninety-nine calls each, and one of them one more. -/
def ninetyNine : List UsageRecord :=
  [("a", 99), ("b", 99), ("a", 1)].map fun c =>
    ({ tenantId := c.1 },
      { resource := .toolCalls, amount := c.2, time := 0, actorId := "agent", runId := "r1" })

theorem within_plans_iff_free :
    AsksFirst .standard (fun _ => .free) ninetyNine ↔ WithinPlans .standard (fun _ => .free) ninetyNine :=
  within_plans_iff fun _ => ⟨freePlan, rfl, fun resource limit h => by
    cases resource <;> cases h <;> decide +kernel⟩

end Plans

end AgentKernel
