/-
  File:      AgentKernel/Immune/Persistence.lean
  Subject:   Whether isolation lasts: what the gate answers to whom the runtime has isolated.

  A `Watched` runtime remembers who has been quarantined or killed and not recovered since. The
  gate does not: it decides from its configuration and the request at hand. The restrictions of a
  quarantine (no network, no credentials, no processes) are stored and read by nobody.

  * `spent_of_isolated`: who is isolated is beyond containment, so a decision that isolates throws;
  * **`persists_iff`**: in a history every request of somebody isolated is answered by a refusal
    just when every such request is one that the gate refuses mildly, whoever asks.
-/
import AgentKernel.Immune.Containment

namespace AgentKernel.Immune

open Lib Events

variable {sha256 : String → String}

/-! ## 1. Who is isolated -/

/-- The runtime, and who has been quarantined or killed by it and not recovered since. -/
structure Watched (sha256 : String → String) where
  runtime : ImmuneRuntime sha256
  isolated : List String

/-- Whom a call quarantines or kills. A kill counts once the kill switch has applied it, also where
    the quarantine throws then. -/
def isolates (s : ImmuneRuntime sha256) : Call → Option String
  | .evaluateAndApply request now =>
      match (s.evaluateAndApply request now).2 with
      | .ok d => if Isolates d then some request.principal.id else none
      | .error _ => none
  | .kill targetType targetId reason _ =>
      if (killOutcome none ⟨targetType, targetId, reason, "immune"⟩).applied then some targetId
      else none
  | .requestKill policy requester targetType targetId reason _ =>
      if (killOutcome policy ⟨targetType, targetId, reason, requester⟩).applied then some targetId
      else none
  | _ => none

/-- Whom a call recovers. -/
def releases (s : ImmuneRuntime sha256) : Call → Option String
  | .recover entityId note =>
      match s.quarantine.recover entityId note with
      | .ok _ => some entityId
      | .error _ => none
  | _ => none

namespace Watched

/-- A new runtime, which has isolated nobody. -/
def create (config : ImmuneGateConfig) (ledger : Option (Ledger sha256)) : Watched sha256 where
  runtime := .create config ledger
  isolated := []

/-- One call, and who is isolated behind it. -/
def step (w : Watched sha256) (c : Call) : Option (Watched sha256) :=
  some {
    runtime := (w.runtime.call c).1
    isolated := (w.isolated ++ (isolates w.runtime c).toList).filter
      fun id => releases w.runtime c ≠ some id }

/-- Who is isolated and asks is refused: the call returns, and with `allowed = false`. -/
def Persists (w : Watched sha256) : Call → Prop
  | .evaluateAndApply request now =>
      request.principal.id ∈ w.isolated →
        ∃ d, (w.runtime.evaluateAndApply request now).2 = .ok d ∧ d.allowed = false
  | _ => True

end Watched

/-! ## 2. Mild refusals -/

/-- What the gate refuses without isolating: a block by the firewall at a score below 70, safe mode,
    or the level `ORANGE`. -/
def RefusedMildly (config : ImmuneGateConfig) (request : ImmuneRequest) : Prop :=
  let score := (riskOf (Detector.detect request.observed)).score
  config.emergencyLock = false ∧
  ((∃ fw, firewall (Detector.detect request.observed) = some fw ∧ fw.action = .block ∧
      score < 70) ∨
    Unsuspicious request.observed ∧ depFinding request.observed = none ∧
      (config.safeMode = true ∧ isWriteOrRisky request.capability = true ∨
        maxLevel (config.level.getD .green) (levelForScore score) = .orange))

section Mild

variable (config : ImmuneGateConfig) (request : ImmuneRequest)

/-- What the firewall decides. -/
theorem action_of_firewall {ds : List Detection} {fw : FirewallVerdict}
    (h : firewall ds = some fw) :
    fw.action = .block ∨ fw.action = .quarantine ∨ fw.action = .kill := by
  obtain ⟨d, -, hd⟩ := List.exists_of_findSome?_eq_some h
  unfold firewallRule at hd
  cases hkind : d.kind <;> rw [hkind] at hd <;> cases hd
  all_goals simp

theorem levelForScore_severe (score : Nat) :
    (levelForScore score = .red ∨ levelForScore score = .black) ↔ 70 ≤ score := by
  unfold levelForScore
  split_ifs
  all_goals
    simp
    omega

theorem decideLevel_mild (level : ImmunityLevel) (risk : RiskScore) (reasons : List String)
    (approval : Bool) : (decideLevel level risk reasons approval).allowed = false ∧
      ¬ Isolates (decideLevel level risk reasons approval) ↔ level = .orange := by
  cases level <;> simp [decideLevel, Isolates]

/-- **The mild refusals are the decisions that neither allow nor isolate.** -/
theorem refusedMildly_iff : RefusedMildly config request ↔
    (config.evaluate request).allowed = false ∧ ¬ Isolates (config.evaluate request) := by
  unfold RefusedMildly
  rw [← firewall_none_iff]
  unfold ImmuneGateConfig.evaluate
  dsimp only
  rw [filter_dependency]
  by_cases hlock : config.emergencyLock = true
  · simp [hlock, Isolates]
  simp only [hlock, Bool.false_eq_true, if_false, true_and]
  cases hfw : firewall (Detector.detect request.observed) with
  | some fw =>
      have hlevel := levelForScore_severe (riskOf (Detector.detect request.observed)).score
      rcases action_of_firewall hfw with haction | haction | haction
      · simp [Isolates, haction, hlevel]
      · simp [Isolates, haction]
      · simp [Isolates, haction]
  | none =>
      simp only [reduceCtorEq, false_and, exists_false, false_or, true_and]
      cases hdep : depFinding request.observed with
      | some d =>
          by_cases hsevere : severePattern.test d.detail = true
          · simp [hsevere, Isolates]
          · simp [hsevere]
      | none =>
          simp only [Option.toList_none, ne_eq, not_true_eq_false, if_false, true_and]
          by_cases hsafe : (config.safeMode && isWriteOrRisky request.capability) = true
          · have hboth : config.safeMode = true ∧ isWriteOrRisky request.capability = true := by
              simpa using hsafe
            rw [if_pos hsafe]
            simp [hboth, Isolates]
          · have hnot : ¬ (config.safeMode = true ∧
                isWriteOrRisky request.capability = true) := by
              simpa using hsafe
            rw [if_neg hsafe, decideLevel_mild]
            simp only [hnot, false_or]

end Mild

/-! ## 3. Isolation along a history -/

section History

variable {config : ImmuneGateConfig} {ledger : Option (Ledger sha256)} {ls : List Call}
  {w w' : Watched sha256} {c : Call} {id : String}

/-- Whom a call quarantines or kills, it contains or has tried to. -/
theorem event_of_isolates {s : ImmuneRuntime sha256} (h : isolates s c = some id) :
    c.event s.config = some (id, .quarantine) := by
  cases c with
  | evaluateAndApply request now =>
      unfold isolates at h
      dsimp only at h
      cases hout : (s.evaluateAndApply request now).2 with
      | error error =>
          rw [hout] at h
          cases h
      | ok d =>
          rw [hout] at h
          dsimp only at h
          split_ifs at h with hisolates
          cases h
          -- the answer is the gate's decision
          obtain ⟨done, -, rfl⟩ : ∃ done,
              (s.apply (s.config.evaluate request) request now).2 = .ok done ∧
              s.config.evaluate request = d := by
            unfold ImmuneRuntime.evaluateAndApply at hout
            dsimp only at hout
            cases happly : (s.apply (s.config.evaluate request) request now).2 with
            | error error =>
                rw [happly] at hout
                cases hout
            | ok done =>
                rw [happly] at hout
                cases hout
                exact ⟨done, rfl, rfl⟩
          rw [Call.event, if_pos hisolates]
  | kill targetType targetId reason enteredAt =>
      unfold isolates at h
      dsimp only at h
      split_ifs at h
      cases h
      rfl
  | requestKill policy requester targetType targetId reason enteredAt =>
      unfold isolates at h
      dsimp only at h
      split_ifs at h with happlied
      cases h
      rw [Call.event, if_pos happlied]
  | flag | analyze | recover | revoke => cases h

namespace Watched

/-- What every history keeps. -/
structure Sound (config : ImmuneGateConfig) (w : Watched sha256) : Prop where
  unchanged : w.runtime.config = config
  proper : ∀ id, Proper (w.runtime.quarantine.lives id)
  spent_of_isolated : ∀ id ∈ w.isolated, Spent (w.runtime.quarantine.lives id)

theorem Sound.create (config : ImmuneGateConfig) (ledger : Option (Ledger sha256)) :
    Sound config (create config ledger) where
  unchanged := rfl
  proper _ := nofun
  spent_of_isolated _ h := nomatch h

theorem Sound.step (h : Sound config w) (hs : w.step c = some w') : Sound config w' := by
  cases hs
  obtain ⟨hconfig, hobeys⟩ := w.runtime.call_obeys c
  refine ⟨hconfig.trans h.unchanged, fun id => ?_, fun id hid => ?_⟩
  · cases hevent : c.event w.runtime.config with
    | none =>
        rw [hevent] at hobeys
        dsimp only
        rw [hobeys.2]
        exact h.proper id
    | some e =>
        rw [hevent] at hobeys
        dsimp only
        rw [hobeys.2]
        exact Lives.proper_after (h.proper id)
  · have hmem : id ∈ w.isolated ∨ isolates w.runtime c = some id := by
      have hall := (List.mem_filter.mp hid).1
      rwa [List.mem_append, Option.mem_toList] at hall
    dsimp only
    rcases hmem with hold | hnew
    · cases hevent : c.event w.runtime.config with
      | none =>
          rw [hevent] at hobeys
          rw [hobeys.2]
          exact h.spent_of_isolated id hold
      | some e =>
          rw [hevent] at hobeys
          rw [hobeys.2, Lives.spent_after (h.proper id)]
          exact .inl (h.spent_of_isolated id hold)
    · rw [event_of_isolates hnew] at hobeys
      rw [hobeys.2, Lives.spent_after (h.proper id)]
      exact .inr ⟨rfl, rfl⟩

/-- **Who is isolated and asks**: the call returns a refusal just when the gate refuses mildly. -/
theorem Sound.refuses_iff (h : Sound config w) (request : ImmuneRequest) (now : Readings)
    (hid : request.principal.id ∈ w.isolated) :
    (∃ d, (w.runtime.evaluateAndApply request now).2 = .ok d ∧ d.allowed = false) ↔
      RefusedMildly config request := by
  have hspent := h.spent_of_isolated _ hid
  obtain ⟨-, hobeys⟩ := w.runtime.apply_obeys (config.evaluate request) request now
  rw [refusedMildly_iff]
  unfold ImmuneRuntime.evaluateAndApply
  dsimp only
  rw [h.unchanged]
  by_cases hisolates : Isolates (config.evaluate request)
  · -- isolating somebody spent throws
    rw [if_pos hisolates] at hobeys
    have hnext := (nextState_quarantine (h.proper request.principal.id)).1 hspent
    refine iff_of_false ?_ fun hmild => hmild.2 hisolates
    intro ⟨d, hd, _⟩
    obtain ⟨next, hok⟩ := hobeys.1.mp (ImmuneRuntime.returns_map.mp ⟨d, hd⟩)
    rw [hnext] at hok
    cases hok
  · rw [if_neg hisolates] at hobeys
    obtain ⟨done, hdone⟩ := hobeys.1
    rw [hdone]
    constructor
    · intro ⟨d, hd, hdenied⟩
      cases hd
      exact ⟨hdenied, hisolates⟩
    · intro ⟨hdenied, _⟩
      exact ⟨_, rfl, hdenied⟩

/-- Who is isolated asks only for what the gate refuses mildly. -/
def AsksMildly (config : ImmuneGateConfig) (w : Watched sha256) : Call → Prop
  | .evaluateAndApply request _ =>
      request.principal.id ∈ w.isolated → RefusedMildly config request
  | _ => True

/-- **Isolation lasts just in the histories in which the isolated ask for nothing but what the gate
    refuses mildly.** -/
theorem persists_iff :
    Run Watched.step Persists (create config ledger) ls w ↔
      Run Watched.step (AsksMildly config) (create config ledger) ls w := by
  have hguard : ∀ (w : Watched sha256) (c : Call), Sound config w →
      (Persists w c ↔ AsksMildly config w c) := by
    intro w c hsound
    cases c with
    | evaluateAndApply request now =>
        constructor
        · intro hp hid
          exact (hsound.refuses_iff request now hid).mp (hp hid)
        · intro hm hid
          exact (hsound.refuses_iff request now hid).mpr (hm hid)
    | kill | requestKill | flag | analyze | recover | revoke => exact Iff.rfl
  have hstart := Sound.create config ledger
  have hstep : ∀ (w : Watched sha256) (c : Call) (w' : Watched sha256), Sound config w →
      w.step c = some w' → Sound config w' := fun _ _ _ h hs => h.step hs
  constructor
  · exact Run.mono_of_invariant hstart hstep fun w c h => (hguard w c h).mp
  · exact Run.mono_of_invariant hstart hstep fun w c h => (hguard w c h).mpr

end Watched

end History

/-- The runtime once it has killed an agent. -/
def killedAgent : Watched id where
  runtime := ((@ImmuneRuntime.create id {} none).kill .agent "a1" "stop" "t1").1
  isolated := ["a1"]

/-- The agent asks to read, and nothing is observed. -/
def reading : ImmuneRequest :=
  { principal := { id := "a1", type := .agent, trust := .verified }, capability := "repo.read" }

/-- **A killed and quarantined agent is allowed to go on.** -/
theorem killed_agent_allowed :
    Run Watched.step Watched.Persists (.create {} none) [.kill .agent "a1" "stop" "t1"] killedAgent ∧
    killedAgent.runtime.killSwitch.isKilled .agent "a1" = true ∧
    killedAgent.runtime.quarantine.isQuarantined "a1" = true ∧
    (∃ d, (killedAgent.runtime.evaluateAndApply reading someReadings).2 = .ok d ∧
      d.allowed = true) ∧
    ¬ killedAgent.Persists (.evaluateAndApply reading someReadings) := by
  have hallowed : ∃ d, (killedAgent.runtime.evaluateAndApply reading someReadings).2 = .ok d ∧
      d.allowed = true := ⟨_, rfl, by decide⟩
  refine ⟨.next .start trivial rfl, by decide, by decide, hallowed, fun hpersists => ?_⟩
  obtain ⟨d, hd, hdenied⟩ := hpersists (by decide)
  obtain ⟨d', hd', hd'allowed⟩ := hallowed
  rw [hd] at hd'
  cases hd'
  rw [hdenied] at hd'allowed
  cases hd'allowed

end AgentKernel.Immune
