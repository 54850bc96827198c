/-
  File:      AgentKernel/Immune/Gate.lean
  Subject:   The immune gate: from detections to a decision (kernel/immune/src/gate.ts,
             risk-engine.ts, policy-firewall.ts, blast-radius.ts).

  `evaluate` is a cascade of early returns: emergency lock, firewall, dependency, safe mode, level.
  The dependency step returns an allow, in front of the two steps behind it.

  * **`denied_iff`**: exactly when a request is denied;
  * **`dominates_iff`**: when lock and safe mode deny whatever else is observed;
  * **`monotone_iff`**: when more observations leave a denial a denial;
  * **`privileged_denied_iff`**: when a privileged capability is denied to who is not trustworthy.
-/
import AgentKernel.Immune.Detector

namespace AgentKernel.Immune

open Lib Lib.Regex

/-! ## 1. Risk -/

/-- The severity of a score. -/
def severityOf (score : Nat) : RiskSeverity :=
  if score ≥ 90 then .critical
  else if score ≥ 70 then .high
  else if score ≥ 40 then .medium
  else .low

/-- `RiskEngine.evaluate`: the weights add up, to at most 100. -/
def riskOf (detections : List Detection) : RiskScore :=
  let score := min 100 (detections.map (·.weight)).sum
  { score := score
    confidence := if detections.isEmpty then 100 else min 100 (50 + min 50 (15 * detections.length))
    reasons := detections
    severity := severityOf score }

/-- The risk times what lies within its reach. -/
def blastRadiusProduct (risk : RiskScore) (radius : Option BlastRadius) : Nat :=
  risk.score * blastRadiusScore radius

/-- The product has come to the threshold. -/
def requiresApproval (risk : RiskScore) (radius : Option BlastRadius) (threshold : Int) : Bool :=
  decide (blastRadiusScore radius > 0 ∧ (blastRadiusProduct risk radius : Int) ≥ threshold)

/-! ## 2. Firewall -/

/-- What the firewall does, and why. -/
structure FirewallVerdict where
  action : ImmuneAction
  reason : String
  deriving DecidableEq

/-- The cases of the firewall's `switch`. -/
def firewallRule (d : Detection) : Option FirewallVerdict :=
  match d.kind with
  | .promptInjection => some { action := .block, reason := "prompt injection: " ++ d.detail }
  | .memoryPoisoning => some { action := .block, reason := "memory poisoning: " ++ d.detail }
  | .toolPoisoning => some { action := .quarantine, reason := "tool poisoning: " ++ d.detail }
  | .permissionEscalation => some { action := .block, reason := "privilege escalation: " ++ d.detail }
  | .secretAccessAnomaly => some { action := .block, reason := "secret access anomaly: " ++ d.detail }
  | .ledgerTamperingAttempt => some { action := .block, reason := "ledger tampering: " ++ d.detail }
  | .kernelIntegrityFailure =>
      some { action := .kill, reason := "kernel integrity failure: " ++ d.detail }
  | _ => none

/-- `PolicyFirewall.evaluate`: the first detection with a rule decides. -/
def firewall (detections : List Detection) : Option FirewallVerdict :=
  detections.findSome? firewallRule

/-! ## 3. The gate -/

/-- What the gate has been told once and for all. -/
structure ImmuneGateConfig where
  level : Option ImmunityLevel := none
  cascade : Option CascadeConfig := none
  safeMode : Bool := false
  emergencyLock : Bool := false

/-- The level that a score calls for. -/
def levelForScore (score : Nat) : ImmunityLevel :=
  if score ≥ 90 then .black
  else if score ≥ 70 then .red
  else if score ≥ 40 then .orange
  else if score > 0 then .yellow
  else .green

/-- The more alert one. -/
def maxLevel (a b : ImmunityLevel) : ImmunityLevel := if a.order ≥ b.order then a else b

/-- Actions that write or reach outside. -/
def isWriteOrRisky (capability : String) : Bool :=
  startsWith capability "fs.write" || startsWith capability "git.push" ||
  startsWith capability "shell." || startsWith capability "secret." ||
  startsWith capability "deploy" || startsWith capability "deployment." ||
  startsWith capability "network." || includes capability "plugin" ||
  includes capability "db." || capability == "repo.write"

/-- The observation of a request, with its own principal, capability and scope. -/
def ImmuneRequest.observed (request : ImmuneRequest) : Observation :=
  { request.observation.getD {} with
    principal := some request.principal
    capability := some request.capability
    scope := request.scope }

/-- `/known vulnerability|install script/i` -/
def severePattern : Regex := alt (literal "known vulnerability") (literal "install script")

/-- The decision at a level, once nothing has returned before. -/
def decideLevel (level : ImmunityLevel) (risk : RiskScore) (reasons : List String)
    (approvalRequired : Bool) : ImmuneDecision :=
  match level with
  | .green => ⟨true, .allow, level, risk, reasons, false, false⟩
  | .yellow => ⟨true, .monitor, level, risk, reasons, approvalRequired, true⟩
  | .orange => ⟨false, .restrict, level, risk, reasons, approvalRequired, true⟩
  | .red => ⟨false, .quarantine, level, risk, reasons, approvalRequired, true⟩
  | .black => ⟨false, .kill, level, risk, reasons, approvalRequired, true⟩

/-- The answer of the gate. -/
def ImmuneGateConfig.evaluate (config : ImmuneGateConfig) (request : ImmuneRequest) :
    ImmuneDecision :=
  let cascade := config.cascade.getD {}
  if config.emergencyLock then
    ⟨false, .block, .black, riskOf [], ["emergency-lock: all execution stopped"], false, true⟩
  else
    let detections := Detector.detect request.observed
    let risk := riskOf detections
    let reasons := risk.reasons.map (·.detail)
    match firewall detections with
    | some fw =>
        ⟨false, fw.action, levelForScore risk.score, risk, fw.reason :: reasons, false,
          decide (fw.action ≠ .block)⟩
    | none =>
        let depDetections := detections.filter (·.kind = .dependencyAnomaly)
        if depDetections ≠ [] then
          let severe := depDetections.any fun d => severePattern.test d.detail
          let depReasons := joinReasons (depDetections.map (·.detail))
          if severe then
            ⟨false, .block, .red, risk, ["release blocked: " ++ depReasons], false, true⟩
          else ⟨true, .monitor, .yellow, risk, ["dependency drift: " ++ depReasons], false, true⟩
        else if config.safeMode && isWriteOrRisky request.capability then
          ⟨false, .restrict, .orange, risk,
            ["safe-mode: write/network/secret/deploy/plugin actions blocked"], false, true⟩
        else
          let level := maxLevel (config.level.getD .green) (levelForScore risk.score)
          let approvalRequired :=
            requiresApproval risk request.blastRadius cascade.blastRadiusApprovalThreshold
          let reasons :=
            if approvalRequired then
              reasons ++ ["risk × blast radius exceeds threshold — approval required"]
            else reasons
          decideLevel level risk reasons approvalRequired

/-! ## 4. What the checks find -/

section Findings

variable {d : Detection} {obs : Observation}

/-- A check that gives one kind of detection. -/
theorem kind_of_ite {c : Prop} [Decidable c] {kind : RiskReasonKind} {detail : String}
    (h : (if c then some (detection kind detail) else none) = some d) : d.kind = kind := by
  split_ifs at h
  rw [← Option.some.inj h]
  rfl

theorem kind_detectPromptInjection {origin : InputOrigin} {text : String}
    (h : detectPromptInjection origin text = some d) : d.kind = .promptInjection := kind_of_ite h

theorem kind_checkToolResult {result : ToolResult} (h : Detector.checkToolResult result = some d) :
    d.kind = .toolPoisoning := by
  obtain ⟨_, _, rfl⟩ := Option.map_eq_some_iff.mp h
  rfl

theorem kind_checkMemoryWrite {origin : InputOrigin} {content actor : String}
    (h : Detector.checkMemoryWrite origin content actor = some d) : d.kind = .memoryPoisoning := by
  unfold Detector.checkMemoryWrite at h
  split_ifs at h
  · rw [← Option.some.inj h]
    rfl
  · rw [← Option.some.inj h]
    rfl

theorem kind_checkPrivilegeEscalation {principal : Principal} {capability : String}
    (h : Detector.checkPrivilegeEscalation principal capability = some d) :
    d.kind = .permissionEscalation := kind_of_ite h

theorem kind_checkSecretAccess {principal : Principal} {capability : String}
    (h : Detector.checkSecretAccess principal capability = some d) :
    d.kind = .secretAccessAnomaly := kind_of_ite h

theorem kind_checkArtifact {artifact : ArtifactHashes}
    (h : Detector.checkArtifact artifact = some d) : d.kind = .artifactTampering := kind_of_ite h

theorem kind_checkIntegrity {integrity : IntegrityHashes}
    (h : Detector.checkIntegrity integrity = some d) : d.kind = .kernelIntegrityFailure :=
  kind_of_ite h

theorem kind_checkDependency {dep : Dependency} (h : Detector.checkDependency dep = some d) :
    d.kind = .dependencyAnomaly := by
  unfold Detector.checkDependency at h
  dsimp only at h
  split_ifs at h
  · rw [← Option.some.inj h]
  · rw [← Option.some.inj h]
  · split at h
    all_goals
      cases h
      try rfl

theorem kind_checkRunaway {runStats : RunStats} (h : d ∈ Detector.checkRunaway runStats) :
    d.kind = .runawayLoop := by
  simp only [Detector.checkRunaway, List.mem_append, List.mem_ite_nil_right,
    List.mem_singleton] at h
  rcases h with (⟨-, rfl⟩ | ⟨-, rfl⟩) | ⟨-, rfl⟩
  all_goals rfl

theorem kind_checkUsageVelocity {usage : Usage}
    (h : Detector.checkUsageVelocity usage = some d) : d.kind = .usageVelocity := by
  unfold Detector.checkUsageVelocity at h
  dsimp only at h
  split_ifs at h
  · rw [← Option.some.inj h]
    rfl
  · rw [← Option.some.inj h]
    rfl

theorem kind_checkRepeatedFailures {failures : Nat}
    (h : Detector.checkRepeatedFailures failures = some d) : d.kind = .repeatedFailure :=
  kind_of_ite h

theorem kind_checkToolSequence {sequence : List String}
    (h : Detector.checkToolSequence sequence = some d) : d.kind = .unusualToolSequence := by
  unfold Detector.checkToolSequence at h
  cases sequence with
  | nil => cases h
  | cons first rest =>
      dsimp only at h
      split_ifs at h
      · rw [← Option.some.inj h]
        rfl
      · rw [← Option.some.inj h]
        rfl

/-- The finding about the dependency. -/
def depFinding (obs : Observation) : Option Detection := obs.dependency.bind Detector.checkDependency

/-- No check finds what the firewall has a rule for. -/
structure Unsuspicious (obs : Observation) : Prop where
  input : obs.input.bind (fun input => detectPromptInjection input.origin input.text) = none
  toolResult : obs.toolResult.bind Detector.checkToolResult = none
  memoryWrite :
    obs.memoryWrite.bind (fun w => Detector.checkMemoryWrite w.origin w.content w.actor) = none
  privilege :
    (Detector.asks obs).bind (fun a => Detector.checkPrivilegeEscalation a.1 a.2) = none
  secret : (Detector.asks obs).bind (fun a => Detector.checkSecretAccess a.1 a.2) = none
  integrity : obs.integrity.bind Detector.checkIntegrity = none

/-- The kinds with a rule. -/
def RiskReasonKind.hasRule : RiskReasonKind → Bool
  | .promptInjection | .memoryPoisoning | .toolPoisoning | .permissionEscalation
  | .secretAccessAnomaly | .ledgerTamperingAttempt | .kernelIntegrityFailure => true
  | _ => false

theorem firewallRule_none : firewallRule d = none ↔ d.kind.hasRule = false := by
  unfold firewallRule
  cases d.kind <;> simp [RiskReasonKind.hasRule]

theorem kind_bind {α : Type} {x : Option α} {f : α → Option Detection} {kind : RiskReasonKind}
    (hf : ∀ a d, f a = some d → d.kind = kind) : ∀ d ∈ (x.bind f).toList, d.kind = kind := by
  intro d hd
  obtain ⟨a, -, ha⟩ := Option.bind_eq_some_iff.mp (Option.mem_toList.mp hd)
  exact hf a d ha

theorem filter_kind_ne {l : List Detection} {kind : RiskReasonKind} (h : ∀ d ∈ l, d.kind = kind)
    (hk : kind ≠ .dependencyAnomaly) : l.filter (·.kind = .dependencyAnomaly) = [] := by
  refine List.filter_eq_nil_iff.mpr fun d hd => ?_
  rw [h d hd]
  simpa using hk

theorem filter_kind_self {l : List Detection} (h : ∀ d ∈ l, d.kind = .dependencyAnomaly) :
    l.filter (·.kind = .dependencyAnomaly) = l :=
  List.filter_eq_self.mpr fun d hd => decide_eq_true (h d hd)

section Kinds

variable (obs : Observation)

theorem kinds_input : ∀ d ∈ (obs.input.bind fun input =>
    detectPromptInjection input.origin input.text).toList, d.kind = .promptInjection :=
  kind_bind fun _ _ => kind_detectPromptInjection

theorem kinds_toolResult : ∀ d ∈ (obs.toolResult.bind Detector.checkToolResult).toList,
    d.kind = .toolPoisoning :=
  kind_bind fun _ _ => kind_checkToolResult

theorem kinds_memoryWrite : ∀ d ∈ (obs.memoryWrite.bind fun w =>
    Detector.checkMemoryWrite w.origin w.content w.actor).toList, d.kind = .memoryPoisoning :=
  kind_bind fun _ _ => kind_checkMemoryWrite

theorem kinds_privilege : ∀ d ∈ ((Detector.asks obs).bind fun a =>
    Detector.checkPrivilegeEscalation a.1 a.2).toList, d.kind = .permissionEscalation :=
  kind_bind fun _ _ => kind_checkPrivilegeEscalation

theorem kinds_secret : ∀ d ∈ ((Detector.asks obs).bind fun a =>
    Detector.checkSecretAccess a.1 a.2).toList, d.kind = .secretAccessAnomaly :=
  kind_bind fun _ _ => kind_checkSecretAccess

theorem kinds_artifact : ∀ d ∈ (obs.artifact.bind Detector.checkArtifact).toList,
    d.kind = .artifactTampering :=
  kind_bind fun _ _ => kind_checkArtifact

theorem kinds_integrity : ∀ d ∈ (obs.integrity.bind Detector.checkIntegrity).toList,
    d.kind = .kernelIntegrityFailure :=
  kind_bind fun _ _ => kind_checkIntegrity

theorem kinds_dependency : ∀ d ∈ (obs.dependency.bind Detector.checkDependency).toList,
    d.kind = .dependencyAnomaly :=
  kind_bind fun _ _ => kind_checkDependency

theorem kinds_runStats : ∀ d ∈ obs.runStats.elim [] Detector.checkRunaway,
    d.kind = .runawayLoop := by
  intro d hd
  cases hr : obs.runStats with
  | none =>
      rw [hr] at hd
      exact absurd hd List.not_mem_nil
  | some runStats =>
      rw [hr] at hd
      exact kind_checkRunaway hd

theorem kinds_usage : ∀ d ∈ (obs.usage.bind Detector.checkUsageVelocity).toList,
    d.kind = .usageVelocity :=
  kind_bind fun _ _ => kind_checkUsageVelocity

theorem kinds_repeatedFailures : ∀ d ∈ (obs.repeatedFailures.bind
    Detector.checkRepeatedFailures).toList, d.kind = .repeatedFailure :=
  kind_bind fun _ _ => kind_checkRepeatedFailures

theorem kinds_toolSequence : ∀ d ∈ (obs.toolSequence.bind Detector.checkToolSequence).toList,
    d.kind = .unusualToolSequence :=
  kind_bind fun _ _ => kind_checkToolSequence

theorem kinds_unexpectedTransition : ∀ d ∈ (obs.unexpectedTransition.map
    Detector.checkUnexpectedTransition).toList, d.kind = .unexpectedTransition := by
  intro d hd
  obtain ⟨t, -, rfl⟩ := Option.map_eq_some_iff.mp (Option.mem_toList.mp hd)
  rfl

/-- **The dependency detections are the finding about the dependency.** -/
theorem filter_dependency : (Detector.detect obs).filter (·.kind = .dependencyAnomaly) =
    (depFinding obs).toList := by
  have hne : ∀ {kind : RiskReasonKind} {l : List Detection}, (∀ d ∈ l, d.kind = kind) →
      kind ≠ .dependencyAnomaly → l.filter (·.kind = .dependencyAnomaly) = [] := filter_kind_ne
  simp only [Detector.detect, List.filter_append, hne (kinds_input obs) (by decide),
    hne (kinds_toolResult obs) (by decide), hne (kinds_memoryWrite obs) (by decide),
    hne (kinds_privilege obs) (by decide), hne (kinds_secret obs) (by decide),
    hne (kinds_artifact obs) (by decide), hne (kinds_integrity obs) (by decide),
    filter_kind_self (kinds_dependency obs), hne (kinds_runStats obs) (by decide),
    hne (kinds_usage obs) (by decide), hne (kinds_repeatedFailures obs) (by decide),
    hne (kinds_toolSequence obs) (by decide), hne (kinds_unexpectedTransition obs) (by decide),
    List.nil_append, List.append_nil, depFinding]

theorem rules_none_iff {x : Option Detection} {kind : RiskReasonKind}
    (h : ∀ d ∈ x.toList, d.kind = kind) (hk : kind.hasRule = true) :
    (∀ d ∈ x.toList, firewallRule d = none) ↔ x = none := by
  cases x with
  | none => simp
  | some d =>
      have hd : d.kind = kind := h d (by simp)
      simp [firewallRule_none, hd, hk]

theorem rules_none {l : List Detection} {kind : RiskReasonKind} (h : ∀ d ∈ l, d.kind = kind)
    (hk : kind.hasRule = false) : (∀ d ∈ l, firewallRule d = none) ↔ True := by
  refine iff_true_intro fun d hd => ?_
  rw [firewallRule_none, h d hd, hk]

/-- **The firewall is silent just when no check finds what it has a rule for.** -/
theorem firewall_none_iff : firewall (Detector.detect obs) = none ↔ Unsuspicious obs := by
  unfold firewall
  rw [List.findSome?_eq_none_iff]
  simp only [Detector.detect, List.forall_mem_append, rules_none_iff (kinds_input obs) rfl,
    rules_none_iff (kinds_toolResult obs) rfl, rules_none_iff (kinds_memoryWrite obs) rfl,
    rules_none_iff (kinds_privilege obs) rfl, rules_none_iff (kinds_secret obs) rfl,
    rules_none (kinds_artifact obs) rfl, rules_none_iff (kinds_integrity obs) rfl,
    rules_none (kinds_dependency obs) rfl, rules_none (kinds_runStats obs) rfl,
    rules_none (kinds_usage obs) rfl, rules_none (kinds_repeatedFailures obs) rfl,
    rules_none (kinds_toolSequence obs) rfl, rules_none (kinds_unexpectedTransition obs) rfl,
    and_true]
  constructor
  · intro ⟨⟨⟨⟨⟨hi, ht⟩, hm⟩, hp⟩, hs⟩, hg⟩
    exact ⟨hi, ht, hm, hp, hs, hg⟩
  · intro ⟨hi, ht, hm, hp, hs, hg⟩
    exact ⟨⟨⟨⟨⟨hi, ht⟩, hm⟩, hp⟩, hs⟩, hg⟩

end Kinds

end Findings

/-! ## 5. When a request is denied -/

/-- A dependency detection that blocks a release. -/
def Severe (d : Detection) : Prop := severePattern.test d.detail = true

/-- The dependency has drifted, and not severely. -/
def MildDrift (obs : Observation) : Prop := ∃ d, depFinding obs = some d ∧ ¬ Severe d

/-- The level of the configuration or that of the score is one that denies. -/
def HighLevel (config : ImmuneGateConfig) (obs : Observation) : Prop :=
  ImmunityLevel.orange.order ≤ (config.level.getD .green).order ∨
    40 ≤ (riskOf (Detector.detect obs)).score

section Gate

variable (config : ImmuneGateConfig) (request : ImmuneRequest)

theorem decideLevel_allowed (level : ImmunityLevel) (risk : RiskScore) (reasons : List String)
    (approval : Bool) : (decideLevel level risk reasons approval).allowed = false ↔
      ImmunityLevel.orange.order ≤ level.order := by
  cases level <;> simp [decideLevel, ImmunityLevel.order]

theorem order_levelForScore (score : Nat) :
    ImmunityLevel.orange.order ≤ (levelForScore score).order ↔ 40 ≤ score := by
  unfold levelForScore
  split_ifs
  all_goals
    simp only [ImmunityLevel.order]
    omega

theorem le_order_maxLevel (a b : ImmunityLevel) (n : Nat) :
    n ≤ (maxLevel a b).order ↔ n ≤ a.order ∨ n ≤ b.order := by
  unfold maxLevel
  split_ifs <;> omega

/-- **When a request is denied.** -/
theorem denied_iff : (config.evaluate request).allowed = false ↔
    config.emergencyLock = true ∨ ¬ Unsuspicious request.observed ∨
    (∃ d, depFinding request.observed = some d ∧ Severe d) ∨
    (depFinding request.observed = none ∧
      (config.safeMode = true ∧ isWriteOrRisky request.capability = true ∨
        HighLevel config request.observed)) := by
  rw [← firewall_none_iff]
  unfold ImmuneGateConfig.evaluate
  dsimp only
  rw [filter_dependency]
  by_cases hlock : config.emergencyLock = true
  · simp [hlock]
  simp only [hlock, Bool.false_eq_true, if_false, false_or]
  cases hfw : firewall (Detector.detect request.observed) with
  | some fw => simp
  | none =>
      simp only [not_true_eq_false, false_or]
      cases hdep : depFinding request.observed with
      | some d =>
          by_cases hsevere : severePattern.test d.detail = true
          · simp [Severe, hsevere]
          · simp [Severe, hsevere]
      | none =>
          simp only [Option.toList_none, ne_eq, not_true_eq_false, if_false, reduceCtorEq,
            false_and, exists_false, false_or, true_and]
          by_cases hsafe : (config.safeMode && isWriteOrRisky request.capability) = true
          · have hboth : config.safeMode = true ∧ isWriteOrRisky request.capability = true := by
              simpa using hsafe
            rw [if_pos hsafe]
            simp [hboth]
          · have hnot : ¬ (config.safeMode = true ∧
                isWriteOrRisky request.capability = true) := by
              simpa using hsafe
            rw [if_neg hsafe, decideLevel_allowed, le_order_maxLevel, order_levelForScore]
            simp only [hnot, false_or, HighLevel]

/-! ## 6. What dominates -/

/-- The emergency lock denies everything, and safe mode what writes or is risky. -/
def Dominates : Prop :=
  (config.emergencyLock = true → (config.evaluate request).allowed = false) ∧
  (config.safeMode = true → isWriteOrRisky request.capability = true →
    (config.evaluate request).allowed = false)

/-- **Lock and safe mode deny whatever else is observed, but for a mild drift of a dependency**,
    which is allowed in front of the check of safe mode. -/
theorem dominates_iff : Dominates config request ↔
    ¬ (config.safeMode = true ∧ isWriteOrRisky request.capability = true ∧
      config.emergencyLock = false ∧ Unsuspicious request.observed ∧
      MildDrift request.observed) := by
  unfold Dominates MildDrift
  rw [denied_iff]
  constructor
  · intro ⟨_, hsafe⟩ ⟨hmode, hrisky, hlock, hclear, d, hd, hmild⟩
    rcases hsafe hmode hrisky with h | h | ⟨d', hd', h⟩ | ⟨h, -⟩
    · rw [hlock] at h
      cases h
    · exact h hclear
    · rw [hd] at hd'
      exact hmild (Option.some.inj hd' ▸ h)
    · rw [hd] at h
      cases h
  · intro hno
    refine ⟨Or.inl, fun hmode hrisky => ?_⟩
    by_cases hlock : config.emergencyLock = true
    · exact .inl hlock
    by_cases hclear : Unsuspicious request.observed
    · cases hdep : depFinding request.observed with
      | none => exact .inr (.inr (.inr ⟨rfl, .inl ⟨hmode, hrisky⟩⟩))
      | some d =>
          refine .inr (.inr (.inl ⟨d, rfl, ?_⟩))
          by_contra hmild
          exact hno ⟨hmode, hrisky, by simpa using hlock, hclear, d, hdep, hmild⟩
    · exact .inr (.inl hclear)

/-- An agent that writes a file while a dependency has drifted. -/
def driftedWrite : ImmuneRequest :=
  { principal := { id := "a1", type := .agent, trust := .verified }
    capability := "fs.write"
    observation := some { dependency := some { name := "left-pad", drift := some .versionDrift } } }

/-- Safe mode allows the write. -/
theorem drift_opens_safe_mode : isWriteOrRisky driftedWrite.capability = true ∧
    (ImmuneGateConfig.evaluate { safeMode := true } driftedWrite).allowed = true ∧
    (ImmuneGateConfig.evaluate { safeMode := true } { driftedWrite with observation := none }).allowed
      = false := by
  refine ⟨?_, ?_, ?_⟩
  all_goals decide

end Gate

/-! ## 7. More observations -/

/-- A part that is there stays as it is; one that is not may be filled in. -/
def FilledIn {α : Type} (x x' : Option α) : Prop := ∀ a, x = some a → x' = some a

/-- The same dependency, with more said about it. -/
structure Dependency.FilledIn (dep dep' : Dependency) : Prop where
  name : dep'.name = dep.name
  drift : Immune.FilledIn dep.drift dep'.drift
  knownVulnerability : Immune.FilledIn dep.knownVulnerability dep'.knownVulnerability
  hasInstallScript : Immune.FilledIn dep.hasInstallScript dep'.hasInstallScript
  version : Immune.FilledIn dep.version dep'.version

/-- `o'` is `o` with parts filled in that `o` leaves absent. -/
structure Observation.FilledIn (o o' : Observation) : Prop where
  input : Immune.FilledIn o.input o'.input
  toolResult : Immune.FilledIn o.toolResult o'.toolResult
  memoryWrite : Immune.FilledIn o.memoryWrite o'.memoryWrite
  artifact : Immune.FilledIn o.artifact o'.artifact
  dependency : ∀ dep, o.dependency = some dep → ∃ dep', o'.dependency = some dep' ∧
    dep.FilledIn dep'
  usage : Immune.FilledIn o.usage o'.usage
  runStats : Immune.FilledIn o.runStats o'.runStats
  integrity : Immune.FilledIn o.integrity o'.integrity
  repeatedFailures : Immune.FilledIn o.repeatedFailures o'.repeatedFailures
  toolSequence : Immune.FilledIn o.toolSequence o'.toolSequence
  unexpectedTransition : Immune.FilledIn o.unexpectedTransition o'.unexpectedTransition

section Monotone

variable {o o' : Observation}

theorem FilledIn.bind_none {α β : Type} {x x' : Option α} {f : α → Option β} (h : FilledIn x x')
    (hnone : x'.bind f = none) : x.bind f = none := by
  cases hx : x with
  | none => rfl
  | some a =>
      rw [h a hx] at hnone
      exact hnone

theorem FilledIn.bind_sublist {α β : Type} {x x' : Option α} {f : α → Option β}
    (h : FilledIn x x') : (x.bind f).toList.Sublist (x'.bind f).toList := by
  cases hx : x with
  | none => exact List.nil_sublist _
  | some a => rw [h a hx]

/-- **A firewall finding stays.** -/
theorem Unsuspicious.of_filledIn (h : o.FilledIn o') (hasks : Detector.asks o = Detector.asks o')
    (hclear : Unsuspicious o') : Unsuspicious o where
  input := h.input.bind_none hclear.input
  toolResult := h.toolResult.bind_none hclear.toolResult
  memoryWrite := h.memoryWrite.bind_none hclear.memoryWrite
  privilege := hasks ▸ hclear.privilege
  secret := hasks ▸ hclear.secret
  integrity := h.integrity.bind_none hclear.integrity

/-- A text of a known vulnerability is severe whatever the name of the dependency. -/
theorem severe_known (name : String) :
    Severe { kind := .dependencyAnomaly, weight := 95
             detail := "dependency '" ++ name ++ "' has a known vulnerability" } := by
  have hfound : (literal "known vulnerability").test
      ("dependency '" ++ name ++ "' has a known vulnerability") = true := by
    refine test_literal (a := "dependency '".toList ++ name.toList ++ "' has a ".toList) (b := []) ?_
    simp only [String.toList_append, List.append_assoc, List.append_nil]
    rfl
  unfold Severe severePattern
  rw [test_alt, hfound]
  rfl

theorem severe_script (name : String) :
    Severe { kind := .dependencyAnomaly, weight := 90
             detail := "dependency '" ++ name ++ "' declares an install script" } := by
  have hfound : (literal "install script").test
      ("dependency '" ++ name ++ "' declares an install script") = true := by
    refine test_literal (a := "dependency '".toList ++ name.toList ++ "' declares an ".toList)
      (b := []) ?_
    simp only [String.toList_append, List.append_assoc, List.append_nil]
    rfl
  unfold Severe severePattern
  rw [test_alt, hfound, Bool.or_true]

/-- A severe dependency stays severe. -/
theorem severe_of_filledIn {dep dep' : Dependency} {d : Detection} (h : dep.FilledIn dep')
    (hd : Detector.checkDependency dep = some d) (hsevere : Severe d) :
    ∃ d', Detector.checkDependency dep' = some d' ∧ Severe d' := by
  by_cases hknown' : dep'.knownVulnerability = some true ∨ dep'.drift = some .knownVulnerability
  · refine ⟨_, ?_, severe_known dep'.name⟩
    unfold Detector.checkDependency
    simp only [hknown', if_true]
  by_cases hscript' : dep'.hasInstallScript = some true ∨ dep'.drift = some .installScript
  · refine ⟨_, ?_, severe_script dep'.name⟩
    unfold Detector.checkDependency
    simp only [hknown', hscript', if_true, if_false]
  -- then nothing severe is said of `dep` either, and both texts are that of the same drift
  have hknown : ¬ (dep.knownVulnerability = some true ∨ dep.drift = some .knownVulnerability) :=
    fun hor => hknown' (hor.imp (h.knownVulnerability _) (h.drift _))
  have hscript : ¬ (dep.hasInstallScript = some true ∨ dep.drift = some .installScript) :=
    fun hor => hscript' (hor.imp (h.hasInstallScript _) (h.drift _))
  refine ⟨d, ?_, hsevere⟩
  rw [← hd]
  unfold Detector.checkDependency
  simp only [hknown, hknown', hscript, hscript', if_false, h.name]
  cases hdrift : dep.drift with
  | none =>
      unfold Detector.checkDependency at hd
      dsimp only at hd
      rw [if_neg hknown, if_neg hscript, hdrift] at hd
      cases hd
  | some drift => rw [h.drift drift hdrift]

/-- Without findings about dependencies nothing that is found gets lost. -/
theorem detect_sublist (h : o.FilledIn o') (hasks : Detector.asks o = Detector.asks o')
    (hdep : depFinding o = none) : (Detector.detect o).Sublist (Detector.detect o') := by
  have hruns : (o.runStats.elim [] Detector.checkRunaway).Sublist
      (o'.runStats.elim [] Detector.checkRunaway) := by
    cases hr : o.runStats with
    | none => exact List.nil_sublist _
    | some runStats =>
        rw [h.runStats runStats hr]
  have htransition : (o.unexpectedTransition.map Detector.checkUnexpectedTransition).toList.Sublist
      (o'.unexpectedTransition.map Detector.checkUnexpectedTransition).toList := by
    cases ht : o.unexpectedTransition with
    | none => exact List.nil_sublist _
    | some t =>
        rw [h.unexpectedTransition t ht]
  unfold Detector.detect
  rw [show o.dependency.bind Detector.checkDependency = none from hdep, hasks]
  refine List.Sublist.append (List.Sublist.append (List.Sublist.append (List.Sublist.append
    (List.Sublist.append (List.Sublist.append (List.Sublist.append (List.Sublist.append
    (List.Sublist.append (List.Sublist.append (List.Sublist.append (List.Sublist.append
    ?_ ?_) ?_) ?_) ?_) ?_) ?_) ?_) ?_) ?_) ?_) ?_) ?_
  · exact h.input.bind_sublist
  · exact h.toolResult.bind_sublist
  · exact h.memoryWrite.bind_sublist
  · exact List.Sublist.refl _
  · exact List.Sublist.refl _
  · exact h.artifact.bind_sublist
  · exact h.integrity.bind_sublist
  · exact List.nil_sublist _
  · exact hruns
  · exact h.usage.bind_sublist
  · exact h.repeatedFailures.bind_sublist
  · exact h.toolSequence.bind_sublist
  · exact htransition

theorem score_le_of_sublist {ds ds' : List Detection} (h : ds.Sublist ds') :
    (riskOf ds).score ≤ (riskOf ds').score := by
  have hsum : (ds.map (·.weight)).sum ≤ (ds'.map (·.weight)).sum :=
    List.Sublist.sum_le_sum (h.map _) fun _ _ => Nat.zero_le _
  exact min_le_min_left 100 hsum

/-- The request with another observation. -/
def ImmuneRequest.observing (request : ImmuneRequest) (o : Observation) : ImmuneRequest :=
  { request with observation := some o }

theorem observed_filledIn {request : ImmuneRequest}
    (h : (request.observation.getD {}).FilledIn o') :
    request.observed.FilledIn (request.observing o').observed where
  input := h.input
  toolResult := h.toolResult
  memoryWrite := h.memoryWrite
  artifact := h.artifact
  dependency := h.dependency
  usage := h.usage
  runStats := h.runStats
  integrity := h.integrity
  repeatedFailures := h.repeatedFailures
  toolSequence := h.toolSequence
  unexpectedTransition := h.unexpectedTransition

/-- A denial of what a dependency has nothing to do with, opened by a mild drift. -/
def OpenedByDrift (config : ImmuneGateConfig) (request : ImmuneRequest) (o' : Observation) : Prop :=
  config.emergencyLock = false ∧ Unsuspicious (request.observing o').observed ∧
  MildDrift (request.observing o').observed ∧ depFinding request.observed = none ∧
  (config.safeMode = true ∧ isWriteOrRisky request.capability = true ∨
    HighLevel config request.observed)

/-- **More observations leave a denial a denial, but for a mild drift of a dependency** that is
    filled in where the denial came from safe mode or from the level. -/
theorem monotone_iff (config : ImmuneGateConfig) {request : ImmuneRequest}
    (h : (request.observation.getD {}).FilledIn o') :
    ((config.evaluate request).allowed = false →
      (config.evaluate (request.observing o')).allowed = false) ↔
    ¬ OpenedByDrift config request o' := by
  have hfilled := observed_filledIn h
  have hasks : Detector.asks request.observed = Detector.asks (request.observing o').observed := rfl
  have hclear := Unsuspicious.of_filledIn hfilled hasks
  rw [denied_iff, denied_iff]
  constructor
  · intro hmono ⟨hlock, hclear', ⟨d, hd, hmild⟩, hnone, hdeny⟩
    rcases hmono (.inr (.inr (.inr ⟨hnone, hdeny⟩))) with h | h | ⟨d', hd', h⟩ | ⟨h, -⟩
    · rw [hlock] at h
      cases h
    · exact h hclear'
    · rw [hd] at hd'
      exact hmild (Option.some.inj hd' ▸ h)
    · rw [hd] at h
      cases h
  · intro hno hdenied
    by_cases hlock : config.emergencyLock = true
    · exact .inl hlock
    by_cases hclear' : Unsuspicious (request.observing o').observed
    · refine .inr (.inr ?_)
      rcases hdenied with hl | hs | ⟨d, hd, hsevere⟩ | ⟨hnone, hdeny⟩
      · exact absurd hl hlock
      · exact absurd (hclear hclear') hs
      · -- a severe dependency stays one
        obtain ⟨dep, hdep, hcheck⟩ := Option.bind_eq_some_iff.mp hd
        obtain ⟨dep', hdep', hmore⟩ := hfilled.dependency dep hdep
        obtain ⟨d', hcheck', hsevere'⟩ := severe_of_filledIn hmore hcheck hsevere
        exact .inl ⟨d', Option.bind_eq_some_iff.mpr ⟨dep', hdep', hcheck'⟩, hsevere'⟩
      · cases hd' : depFinding (request.observing o').observed with
        | some d' =>
            refine .inl ⟨d', rfl, ?_⟩
            by_contra hmild
            exact hno ⟨by simpa using hlock, hclear', ⟨d', hd', hmild⟩, hnone, hdeny⟩
        | none =>
            refine .inr ⟨rfl, hdeny.imp_right fun hlevel => hlevel.imp_right fun hscore => ?_⟩
            exact hscore.trans (score_le_of_sublist (detect_sublist hfilled hasks hnone))
    · exact .inr (.inl hclear')

/-- An agent that has started eleven others. -/
def fanningOut : ImmuneRequest :=
  { principal := { id := "a1", type := .agent, trust := .verified }
    capability := "repo.read"
    observation := some { runStats := some { depth := 1, children := 11, retries := 0 } } }

/-- The same, and a dependency has drifted. -/
def fanningOutDrifted : Observation :=
  { runStats := some { depth := 1, children := 11, retries := 0 }
    dependency := some { name := "left-pad", drift := some .versionDrift } }

theorem fanningOut_filledIn : (fanningOut.observation.getD {}).FilledIn fanningOutDrifted where
  input _ h := nomatch h
  toolResult _ h := nomatch h
  memoryWrite _ h := nomatch h
  artifact _ h := nomatch h
  dependency _ h := nomatch h
  usage _ h := nomatch h
  runStats _ h := h
  integrity _ h := nomatch h
  repeatedFailures _ h := nomatch h
  toolSequence _ h := nomatch h
  unexpectedTransition _ h := nomatch h

theorem monotone_iff_fanningOut :
    ((ImmuneGateConfig.evaluate {} fanningOut).allowed = false →
      (ImmuneGateConfig.evaluate {} (fanningOut.observing fanningOutDrifted)).allowed = false) ↔
    ¬ OpenedByDrift {} fanningOut fanningOutDrifted :=
  monotone_iff {} fanningOut_filledIn

/-- The runaway agent is killed, and allowed once a dependency has drifted too. -/
theorem drift_opens_denial :
    (fanningOut.observation.getD {}).FilledIn fanningOutDrifted ∧
    (ImmuneGateConfig.evaluate {} fanningOut).allowed = false ∧
    (ImmuneGateConfig.evaluate {} fanningOut).action = .kill ∧
    (ImmuneGateConfig.evaluate {} (fanningOut.observing fanningOutDrifted)).allowed = true := by
  refine ⟨fanningOut_filledIn, ?_, ?_, ?_⟩
  all_goals decide

end Monotone

/-! ## 8. Privileged requests -/

/-- Who may get a privileged capability. -/
def TrustState.trustworthy (trust : TrustState) : Prop := trust = .verified ∨ trust = .trusted

/-- A finding with a rule that has nothing to do with who asks. -/
def SuspectInput (obs : Observation) : Prop :=
  ¬ (obs.input.bind (fun input => detectPromptInjection input.origin input.text) = none ∧
    obs.toolResult.bind Detector.checkToolResult = none ∧
    obs.memoryWrite.bind (fun w => Detector.checkMemoryWrite w.origin w.content w.actor) = none ∧
    obs.integrity.bind Detector.checkIntegrity = none)

/-- What denies a request of anybody. -/
def DeniedToAll (config : ImmuneGateConfig) (request : ImmuneRequest) : Prop :=
  config.emergencyLock = true ∨ SuspectInput request.observed ∨
  (∃ d, depFinding request.observed = some d ∧ Severe d) ∨
  depFinding request.observed = none ∧
    (config.safeMode = true ∧ isWriteOrRisky request.capability = true ∨
      HighLevel config request.observed)

section Privileged

variable {config : ImmuneGateConfig} {request : ImmuneRequest}

theorem asks_of_privileged (h : isPrivileged request.capability = true) :
    Detector.asks request.observed = some (request.principal, request.capability) := by
  have hne : request.capability ≠ "" := by
    intro hempty
    rw [hempty] at h
    revert h
    decide
  exact if_pos hne

/-- **A privileged request of somebody who is not trustworthy is found, unless it comes out of
    quarantine.** -/
theorem escalation_iff (h : isPrivileged request.capability = true)
    (hu : ¬ request.principal.trust.trustworthy) :
    (Detector.checkPrivilegeEscalation request.principal request.capability = none ∧
      Detector.checkSecretAccess request.principal request.capability = none) ↔
    request.principal.trust = .quarantined ∧ request.capability ≠ "secret.read" := by
  unfold Detector.checkPrivilegeEscalation Detector.checkSecretAccess
  unfold TrustState.trustworthy at hu
  rw [h]
  cases htrust : request.principal.trust with
  | verified => exact absurd (.inl htrust) hu
  | trusted => exact absurd (.inr htrust) hu
  | quarantined => simp
  | unknown | suspicious | revoked => simp

theorem unsuspicious_iff (h : isPrivileged request.capability = true)
    (hu : ¬ request.principal.trust.trustworthy) : Unsuspicious request.observed ↔
      ¬ SuspectInput request.observed ∧ request.principal.trust = .quarantined ∧
        request.capability ≠ "secret.read" := by
  rw [← escalation_iff h hu, SuspectInput, not_not]
  have hasks := asks_of_privileged h
  constructor
  · intro hclear
    have hp := hclear.privilege
    have hs := hclear.secret
    rw [hasks] at hp hs
    exact ⟨⟨hclear.input, hclear.toolResult, hclear.memoryWrite, hclear.integrity⟩, hp, hs⟩
  · intro ⟨⟨hi, ht, hm, hg⟩, hp, hs⟩
    exact ⟨hi, ht, hm, by rw [hasks]; exact hp, by rw [hasks]; exact hs, hg⟩

/-- **Who is denied a privileged capability**: everybody who is neither verified nor trusted, but
    for the quarantined, who are denied reading secrets and what is denied to all. -/
theorem privileged_denied_iff (h : isPrivileged request.capability = true)
    (hu : ¬ request.principal.trust.trustworthy) : (config.evaluate request).allowed = false ↔
      request.principal.trust ≠ .quarantined ∨ request.capability = "secret.read" ∨
        DeniedToAll config request := by
  rw [denied_iff, unsuspicious_iff h hu]
  constructor
  · rintro (hlock | hfound | hrest)
    · exact .inr (.inr (.inl hlock))
    · by_cases hquarantined : request.principal.trust = .quarantined
      · by_cases hsecret : request.capability = "secret.read"
        · exact .inr (.inl hsecret)
        · refine .inr (.inr (.inr (.inl ?_)))
          by_contra hclear
          exact hfound ⟨hclear, hquarantined, hsecret⟩
      · exact .inl hquarantined
    · exact .inr (.inr (.inr (.inr hrest)))
  · rintro (htrust | hsecret | hlock | hsuspect | hrest)
    · exact .inr (.inl fun hclear => htrust hclear.2.1)
    · exact .inr (.inl fun hclear => hclear.2.2 hsecret)
    · exact .inl hlock
    · exact .inr (.inl fun hclear => hclear.1 hsuspect)
    · exact .inr (.inr hrest)

end Privileged

/-- An agent in quarantine that wants a shell. -/
def quarantinedShell : ImmuneRequest where
  principal := { id := "a1", type := .agent, trust := .quarantined }
  capability := "shell.execute"

theorem privileged_denied_iff_quarantinedShell :
    (ImmuneGateConfig.evaluate {} quarantinedShell).allowed = false ↔
      quarantinedShell.principal.trust ≠ .quarantined ∨
        quarantinedShell.capability = "secret.read" ∨ DeniedToAll {} quarantinedShell :=
  privileged_denied_iff (by decide) (by unfold TrustState.trustworthy; decide)

/-- **The quarantined agent gets its shell.** -/
theorem quarantined_gets_shell : isPrivileged quarantinedShell.capability = true ∧
    quarantinedShell.principal.trust = .quarantined ∧
    (ImmuneGateConfig.evaluate {} quarantinedShell).allowed = true := by
  refine ⟨?_, ?_, ?_⟩
  all_goals decide

end AgentKernel.Immune
