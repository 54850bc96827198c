/-
  File:      AgentKernel/Runner/Records.lean
  Subject:   What a stretch of a run writes into the ledger (apps/cli/src/local-runner.ts,
             kernel/immune/src/incident.ts).

  * `IncidentEngine.Adds`: what the incident engine records is whole;
  * `Writes`: policy, options and gate stay as they are, and the new events are whole, except for
    the input that an `execution.requested` carries;
  * `log_writes`, `record_writes`, `immuneGate_writes`: the three ways to write.
-/
import AgentKernel.Runner.Outside
import AgentKernel.Contracts.Whole

namespace AgentKernel

open Events

variable {sha256 : String → String}

/-! ## 1. The incident engine -/

namespace Immune

namespace IncidentEngine

/-- A ledger that is there gets whole payloads. -/
def Adds (engine engine' : IncidentEngine sha256) : Prop :=
  ∀ l, engine.ledger = some l → ∃ l', engine'.ledger = some l' ∧
    ∃ new, l'.events = l.events ++ new ∧ ∀ e ∈ new, e.payload.Whole

variable {engine engine' engine'' : IncidentEngine sha256} {incident r : IncidentRecord}
  {id note phase : String} {now : PhaseStamp} {payload : List (String × Value)}

theorem Adds.trans (h : Adds engine engine') (h' : Adds engine' engine'') :
    Adds engine engine'' := by
  intro l hl
  obtain ⟨l', hl', new, hnew, hwhole⟩ := h l hl
  obtain ⟨l'', hl'', new', hnew', hwhole'⟩ := h' l' hl'
  refine ⟨l'', hl'', new ++ new', by rw [hnew', hnew, List.append_assoc], fun e he => ?_⟩
  exact (List.mem_append.mp he).elim (hwhole e) (hwhole' e)

theorem record_adds {stamp : Stamp} (hkeys : ("incidentId" :: "phase" :: payload.map Prod.fst).Nodup)
    (h : ∀ f ∈ payload, f.2.Whole) : Adds engine (engine.record incident phase payload stamp).1 := by
  intro l hl
  unfold record
  rw [hl]
  refine ⟨_, rfl, [l.event (draft incident phase payload) stamp], rfl, fun e he => ?_⟩
  rw [List.mem_singleton.mp he]
  refine whole_obj hkeys fun f hf => ?_
  rcases List.mem_append.mp hf with hf | hf
  · simp only [List.mem_cons, List.not_mem_nil, or_false] at hf
    rcases hf with rfl | rfl <;> trivial
  · exact h f hf

theorem step_adds {event : IncidentEvent} (h : engine.step id event note now = .ok (engine', r)) :
    Adds engine engine' := by
  unfold step at h
  cases hcurrent : engine.incidents id with
  | none =>
      rw [hcurrent] at h
      cases h
  | some current =>
      rw [hcurrent] at h
      dsimp only at h
      cases hnext : incidentMachine.transition current.state event with
      | error error =>
          rw [hnext] at h
          cases h
      | ok state =>
          rw [hnext] at h
          dsimp only at h
          rw [← (Prod.mk.inj (Except.ok.inj h)).1]
          refine record_adds (by simp) fun f hf => ?_
          rw [List.mem_singleton.mp hf]
          trivial

theorem classify_adds {severity : RiskSeverity}
    (h : engine.classify id severity now = .ok (engine', r)) : Adds engine engine' := by
  unfold classify at h
  cases hstep : engine.step id .classify ("classified as " ++ severity.text) now with
  | error error =>
      rw [hstep] at h
      cases h
  | ok out =>
      obtain ⟨stepped, next⟩ := out
      rw [hstep] at h
      have hadds : Adds engine stepped := step_adds hstep
      rw [← (Prod.mk.inj (Except.ok.inj h)).1]
      exact hadds

theorem detect_adds {title : String} {severity : RiskSeverity} {detections : List String} :
    Adds engine (engine.detect id title severity detections now).1 := by
  refine record_adds (by simp) fun f hf => ?_
  simp only [List.mem_cons, List.not_mem_nil, or_false] at hf
  rcases hf with rfl | rfl | rfl
  · trivial
  · trivial
  · exact whole_texts _

end IncidentEngine

namespace ImmuneRuntime

variable {decision : ImmuneDecision} {request : ImmuneRequest} {now : Readings}

theorem openIncident_adds (s : ImmuneRuntime sha256) {entityId detail : String} :
    IncidentEngine.Adds s.incidents (s.openIncident decision entityId detail now).1.incidents := by
  have hdetect : IncidentEngine.Adds s.incidents (s.incidents.detect now.incidentId
      ("immune " ++ decision.action.text ++ " on '" ++ entityId ++ "'") decision.risk.severity
      (decision.risk.reasons.map (·.detail)) now.detected).1 := IncidentEngine.detect_adds
  unfold openIncident
  generalize s.incidents.detect now.incidentId
    ("immune " ++ decision.action.text ++ " on '" ++ entityId ++ "'") decision.risk.severity
    (decision.risk.reasons.map (·.detail)) now.detected = detected at hdetect ⊢
  dsimp only
  cases hclassify : detected.1.classify detected.2.id decision.risk.severity now.classified with
  | error error => exact hdetect
  | ok classified =>
      have hclassified := hdetect.trans (IncidentEngine.classify_adds hclassify)
      dsimp only
      cases hcontain : classified.1.contain detected.2.id detail now.contained with
      | error error => exact hclassified
      | ok contained => exact hclassified.trans (IncidentEngine.step_adds hcontain)

theorem apply_adds (s : ImmuneRuntime sha256) :
    IncidentEngine.Adds s.incidents (s.apply decision request now).1.incidents := by
  have hnothing : IncidentEngine.Adds s.incidents s.incidents := fun l hl =>
    ⟨l, hl, [], (List.append_nil _).symm, by simp⟩
  have happlies := s.apply_applies decision request now
  generalize s.apply decision request now = out at happlies ⊢
  cases happlies with
  | mild | thrown => exact hnothing
  | @opened q r k =>
      exact openIncident_adds { s with quarantine := q, killSwitch := k }

theorem apply_config (s : ImmuneRuntime sha256) :
    (s.apply decision request now).1.config = s.config := by
  have happlies := s.apply_applies decision request now
  generalize s.apply decision request now = out at happlies ⊢
  cases happlies with
  | mild | thrown => rfl
  | @opened q r k =>
      exact (openIncident_ok { s with quarantine := q, killSwitch := k } _ _ _ _).2.2.2

end ImmuneRuntime

end Immune

namespace Runner

open Lib Immune

/-! ## 2. What a stretch of a run writes -/

/-- The payload of an event that announces an execution. -/
def announced (action : String) (input : Value) : Value :=
  .obj [("action", .str action), ("input", input)]

/-- The payload is whole, or announces an execution. -/
def Recordable (e : LedgerEvent) : Prop :=
  e.payload.Whole ∨ e.type = "execution.requested" ∧ ∃ action v, e.payload = announced action v

namespace LocalRunner

/-- The ledger grows by what a runner records; options, policy and gate stay as they are. -/
structure Writes (s s' : LocalRunner sha256) : Prop where
  opts : s'.opts = s.opts
  policy : s'.policy = s.policy
  gate : s'.immune.config = s.immune.config
  events : ∃ new, s'.ledger.events = s.ledger.events ++ new ∧ ∀ e ∈ new, Recordable e

variable {s s' s'' : LocalRunner sha256} {r : Running} {step : RunStep} {rest : List RunStep}

theorem Writes.refl (s : LocalRunner sha256) : Writes s s :=
  ⟨rfl, rfl, rfl, [], (List.append_nil _).symm, by simp⟩

theorem Writes.trans (h : Writes s s') (h' : Writes s' s'') : Writes s s'' := by
  obtain ⟨new, hnew, hrec⟩ := h.events
  obtain ⟨new', hnew', hrec'⟩ := h'.events
  refine ⟨h'.opts.trans h.opts, h'.policy.trans h.policy, h'.gate.trans h.gate, new ++ new',
    by rw [hnew', hnew, List.append_assoc], fun e he => ?_⟩
  exact (List.mem_append.mp he).elim (hrec e) (hrec' e)

theorem Writes.keeps {e : LedgerEvent} (h : Writes s s') (he : e ∈ s.ledger.events) :
    e ∈ s'.ledger.events := by
  obtain ⟨new, hnew, -⟩ := h.events
  rw [hnew]
  exact List.mem_append_left _ he

theorem append_writes {actor : Actor} {type taskId runId : String} {payload : Value}
    (h : payload.Whole ∨
      type = "execution.requested" ∧ ∃ action v, payload = announced action v) :
    Writes s (s.append actor type taskId runId payload) := by
  refine ⟨rfl, rfl, rfl, [s.ledger.event _ _], rfl, fun e he => ?_⟩
  rw [List.mem_singleton.mp he]
  exact h

section Log

variable {type : String} {payload : List (String × Value)}

theorem log_writes (hkeys : (payload.map Prod.fst).Nodup) (h : ∀ f ∈ payload, f.2.Whole) :
    Writes s (s.log r type payload) := append_writes (.inl (whole_obj hkeys h))

theorem emit_writes (hkeys : (payload.map Prod.fst).Nodup) (h : ∀ f ∈ payload, f.2.Whole) :
    Writes s (s.emit r type payload) := append_writes (.inl (whole_obj hkeys h))

end Log

theorem usage_whole (usage : Usage) : usage.value.Whole := by
  refine whole_obj (by simp) fun f hf => ?_
  rw [List.mem_singleton.mp hf]
  refine whole_obj ?_ fun f hf => ?_
  · have hnodup : (UsageResource.all.map UsageResource.text).Nodup := by decide
    rw [List.map_map]
    exact hnodup
  · obtain ⟨resource, -, rfl⟩ := List.mem_map.mp hf
    trivial

theorem usageEvent_whole (e : UsageEvent) : e.value.Whole := by
  refine whole_obj (by simp) fun f hf => ?_
  simp only [List.mem_cons, List.not_mem_nil, or_false] at hf
  rcases hf with rfl | rfl | rfl | rfl | rfl <;> trivial

theorem evidence_whole (evidence : List LedgerEvidence) : (evidenceValue evidence).Whole := by
  refine whole_arr fun v hv => ?_
  obtain ⟨e, -, rfl⟩ := List.mem_map.mp hv
  refine whole_obj (by simp) fun f hf => ?_
  simp only [List.mem_cons, List.not_mem_nil, or_false] at hf
  rcases hf with rfl | rfl <;> trivial

theorem meters_writes {event : UsageEvent} : Writes s (s.meters event) := by
  have happend : Writes s (s.append systemActor "UsageRecorded" event.runId event.runId
      (.obj [("event", event.value), ("usage", (s.meter.record event).total.value)])) := by
    refine append_writes (.inl (whole_obj (by simp) fun f hf => ?_))
    simp only [List.mem_cons, List.not_mem_nil, or_false] at hf
    rcases hf with rfl | rfl
    · exact usageEvent_whole _
    · exact usage_whole _
  exact ⟨rfl, rfl, rfl, happend.events⟩

theorem record_writes {resource : UsageResource} : Writes s (s.record r resource) := meters_writes

theorem immuneGate_writes {request : ImmuneRequest} : Writes s (s.immuneGate request).1 := by
  refine ⟨rfl, rfl, ImmuneRuntime.apply_config _, ?_⟩
  have hadds : IncidentEngine.Adds _ (s.immuneGate request).1.immune.incidents :=
    ImmuneRuntime.apply_adds
      { s.immune with incidents := { s.immune.incidents with ledger := some s.ledger } }
  obtain ⟨l', hl', new, hnew, hwhole⟩ := hadds s.ledger rfl
  have hledger : (s.immuneGate request).1.ledger =
      (s.immuneGate request).1.immune.incidents.ledger.getD s.ledger := rfl
  refine ⟨new, ?_, fun e he => .inl (hwhole e he)⟩
  rw [hledger, hl']
  exact hnew

end LocalRunner

end Runner

end AgentKernel
