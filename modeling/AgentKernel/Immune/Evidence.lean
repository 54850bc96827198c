/-
  File:      AgentKernel/Immune/Evidence.lean
  Subject:   Which denials leave evidence in the ledger (kernel/immune/src/runtime.ts, incident.ts).

  The runtime opens an incident for the denials that isolate somebody, and the incident engine
  records each of its phases. The other denials are a restriction, or a block below the level `RED`.

  * `openIncident_appends`: an opened incident is three events;
  * **`denial_leaves_evidence`**: a denial that isolates appends them, and a milder block, whose
    decision asks for no evidence, appends nothing.
-/
import AgentKernel.Immune.Containment

namespace AgentKernel.Immune

open Lib Events

variable {sha256 : String → String}

/-! ## 1. Denials -/

/-- A block below the level `RED`. -/
def MildBlock (d : ImmuneDecision) : Prop := d.action = .block ∧ d.level ≠ .red ∧ d.level ≠ .black

variable {config : ImmuneGateConfig} {request : ImmuneRequest}

theorem firewall_action {detections : List Detection} {fw : FirewallVerdict}
    (h : firewall detections = some fw) :
    fw.action = .block ∨ fw.action = .quarantine ∨ fw.action = .kill := by
  obtain ⟨d, -, hrule⟩ := List.exists_of_findSome?_eq_some h
  unfold firewallRule at hrule
  split at hrule
  all_goals
    cases hrule
    try simp

/-- **The three ways to deny**: the gate asks for no evidence of a block below the level `RED`. -/
theorem denied_action (h : (config.evaluate request).allowed = false) :
    (config.evaluate request).action = .restrict ∨ Isolates (config.evaluate request) ∨
      (MildBlock (config.evaluate request) ∧
        (config.evaluate request).evidenceRequired = false) := by
  have hblock : ∀ d : ImmuneDecision, d.action = .block → d.evidenceRequired = false →
      Isolates d ∨ (MildBlock d ∧ d.evidenceRequired = false) := by
    intro d hact hnone
    by_cases hlevel : d.level = .red ∨ d.level = .black
    · exact .inl (.inr (.inr ⟨hact, hlevel⟩))
    · exact .inr ⟨⟨hact, fun hr => hlevel (.inl hr), fun hb => hlevel (.inr hb)⟩, hnone⟩
  revert h
  unfold ImmuneGateConfig.evaluate
  dsimp only
  by_cases hlock : config.emergencyLock = true
  · rw [if_pos hlock]
    exact fun _ => .inr (.inl (.inr (.inr ⟨rfl, .inr rfl⟩)))
  rw [if_neg hlock]
  cases hfw : firewall (Detector.detect request.observed) with
  | some fw =>
      intro _
      rcases firewall_action hfw with hact | hact | hact
      · -- the only blocks that can be mild
        have hnone : decide (fw.action ≠ .block) = false := decide_eq_false (not_not.mpr hact)
        exact .inr (hblock _ hact hnone)
      · exact .inr (.inl (.inl hact))
      · exact .inr (.inl (.inr (.inl hact)))
  | none =>
      dsimp only
      split_ifs
      · exact fun _ => .inr (.inl (.inr (.inr ⟨rfl, .inl rfl⟩)))
      · exact nofun
      · exact fun _ => .inl rfl
      all_goals
        unfold decideLevel
        split
        · exact nofun
        · exact nofun
        · exact fun _ => .inl rfl
        · exact fun _ => .inr (.inl (.inl rfl))
        · exact fun _ => .inr (.inl (.inr (.inl rfl)))

/-! ## 2. What the incident engine records -/

/-- The events of an incident that are behind the events of `l` in `l'`, by their phases. -/
def Phases (id : String) (phases : List String) (l l' : Ledger sha256) : Prop :=
  ∃ new, l'.events = l.events ++ new ∧
    new.map (·.type) = phases.map ("immune.incident." ++ ·) ∧ ∀ e ∈ new, e.runId = id

namespace IncidentEngine

/-- A ledger that is there gets the events of these phases. -/
def Appends (id : String) (phases : List String) (engine engine' : IncidentEngine sha256) : Prop :=
  ∀ l, engine.ledger = some l → ∃ l', engine'.ledger = some l' ∧ Phases id phases l l'

variable {engine engine' engine'' : IncidentEngine sha256} {incident r : IncidentRecord}
  {id : String}

theorem Appends.trans {phases phases' : List String} (h : Appends id phases engine engine')
    (h' : Appends id phases' engine' engine'') :
    Appends id (phases ++ phases') engine engine'' := by
  intro l hl
  obtain ⟨l', hl', new, hnew, htypes, hid⟩ := h l hl
  obtain ⟨l'', hl'', new', hnew', htypes', hid'⟩ := h' l' hl'
  refine ⟨l'', hl'', new ++ new', ?_, ?_, fun e he => ?_⟩
  · rw [hnew', hnew, List.append_assoc]
  · rw [List.map_append, List.map_append, htypes, htypes']
  · exact (List.mem_append.mp he).elim (hid e) (hid' e)

theorem record_appends {phase : String} {payload : List (String × Value)} {stamp : Stamp} :
    Appends incident.id [phase] engine (engine.record incident phase payload stamp).1 := by
  intro l hl
  unfold record
  rw [hl]
  refine ⟨_, rfl, [l.event (draft incident phase payload) stamp], rfl, rfl, fun e he => ?_⟩
  rw [List.mem_singleton.mp he]
  rfl

theorem step_appends {event : IncidentEvent} {note : String} {now : PhaseStamp}
    (hid : ∀ current, engine.incidents id = some current → current.id = id)
    (h : engine.step id event note now = .ok (engine', r)) :
    Appends id [event.text] engine engine' := by
  unfold step at h
  cases hcurrent : engine.incidents id with
  | none =>
      rw [hcurrent] at h
      cases h
  | some current =>
      rw [hcurrent] at h
      dsimp only at h
      cases hnext : incidentMachine.transition current.state event with
      | error error =>
          rw [hnext] at h
          cases h
      | ok state =>
          rw [hnext] at h
          dsimp only at h
          rw [← (Prod.mk.inj (Except.ok.inj h)).1]
          have happends := @record_appends sha256 engine
            { current with
              state := state
              timeline := current.timeline ++ [⟨now.time, note⟩] }
            event.text [("note", .str note)] now.event
          exact hid current hcurrent ▸ happends

theorem classify_appends {severity : RiskSeverity} {now : PhaseStamp}
    (hid : ∀ current, engine.incidents id = some current → current.id = id)
    (h : engine.classify id severity now = .ok (engine', r)) :
    Appends id ["classify"] engine engine' := by
  unfold classify at h
  cases hstep : engine.step id .classify ("classified as " ++ severity.text) now with
  | error error =>
      rw [hstep] at h
      cases h
  | ok out =>
      obtain ⟨stepped, next⟩ := out
      rw [hstep] at h
      have happends : Appends id ["classify"] engine stepped := step_appends hid hstep
      rw [← (Prod.mk.inj (Except.ok.inj h)).1]
      exact happends

end IncidentEngine

namespace ImmuneRuntime

variable {s : ImmuneRuntime sha256} {decision : ImmuneDecision} {now : Readings}

/-- **An opened incident leaves three events.** -/
theorem openIncident_appends (s : ImmuneRuntime sha256) {entityId detail : String} :
    IncidentEngine.Appends now.incidentId ["detected", "classify", "contain"] s.incidents
      (s.openIncident decision entityId detail now).1.incidents := by
  let title := "immune " ++ decision.action.text ++ " on '" ++ entityId ++ "'"
  let detections := decision.risk.reasons.map (·.detail)
  let severity := decision.risk.severity
  let incident : IncidentRecord :=
    { id := now.incidentId, state := .detected, severity := severity, title := title
      detections := detections, evidenceHashes := []
      timeline := [⟨now.detected.time, "detected: " ++ title⟩] }
  let payload : List (String × Value) :=
    [("title", .str title), ("severity", .str severity.text),
      ("detections", .arr (detections.map .str))]
  obtain ⟨hashes, hr, hstored⟩ :=
    s.incidents.record_stored incident "detected" payload now.detected.event
  have hdetect : IncidentEngine.Appends now.incidentId ["detected"] s.incidents
      (s.incidents.record incident "detected" payload now.detected.event).1 :=
    IncidentEngine.record_appends
  obtain ⟨engine, r, hclassify, hid, hstate, hclassified⟩ :=
    IncidentEngine.classify_ok hstored rfl rfl severity now.classified
  have hnext : incidentMachine.transitions r.state .contain = some .contained := by
    rw [hstate]
    rfl
  obtain ⟨engine', r', hcontain, -⟩ :=
    IncidentEngine.step_ok hclassified hid hnext detail now.contained
  have hsecond : IncidentEngine.Appends now.incidentId ["classify"] _ engine :=
    IncidentEngine.classify_appends
      (fun current hc => by rw [← Option.some.inj (hstored.symm.trans hc)]) hclassify
  have hthird : IncidentEngine.Appends now.incidentId ["contain"] engine engine' :=
    IncidentEngine.step_appends
      (fun current hc => by rw [← Option.some.inj (hclassified.symm.trans hc), hid]) hcontain
  have hall := (hdetect.trans hsecond).trans hthird
  unfold openIncident IncidentEngine.detect
  dsimp only
  rw [hr]
  dsimp only
  rw [hclassify]
  dsimp only
  unfold IncidentEngine.contain
  rw [hcontain]
  exact hall

/-! ## 3. What a denial records -/

/-- What `apply` records, where it does not throw. -/
theorem apply_records (h : (s.apply decision request now).2 = .ok ()) :
    (Isolates decision → IncidentEngine.Appends now.incidentId ["detected", "classify", "contain"]
      s.incidents (s.apply decision request now).1.incidents) ∧
    (¬ Isolates decision → (s.apply decision request now).1 = s) := by
  have happlies := s.apply_applies decision request now
  generalize s.apply decision request now = out at happlies h ⊢
  cases happlies with
  | mild hno => exact ⟨fun hisolates => absurd hisolates hno, fun _ => rfl⟩
  | thrown => cases h
  | @opened q r k hisolates =>
      exact ⟨fun _ => openIncident_appends { s with quarantine := q, killSwitch := k },
        fun hno => absurd hisolates hno⟩

/-- Whatever `apply` comes to, it records an incident or nothing. -/
theorem apply_phases (s : ImmuneRuntime sha256) (decision : ImmuneDecision)
    (request : ImmuneRequest) (now : Readings) {l : Ledger sha256}
    (hl : s.incidents.ledger = some l) :
    ∃ l' phases, (s.apply decision request now).1.incidents.ledger = some l' ∧
      phases ⊆ ["detected", "classify", "contain"] ∧ Phases now.incidentId phases l l' := by
  have hnothing : Phases now.incidentId [] l l := ⟨[], (List.append_nil _).symm, rfl, nofun⟩
  have happlies := s.apply_applies decision request now
  generalize s.apply decision request now = out at happlies ⊢
  cases happlies with
  | mild | thrown => exact ⟨l, [], hl, List.nil_subset _, hnothing⟩
  | @opened q r k =>
      obtain ⟨l', hl', hphases⟩ := openIncident_appends
        { s with quarantine := q, killSwitch := k } l hl
      exact ⟨l', _, hl', List.Subset.refl _, hphases⟩

/-- **The evidence of a denial**: one that isolates leaves the three events of an incident; a block
    below the level `RED` is decided to need none, and leaves none. -/
theorem denial_leaves_evidence {ledger : Ledger sha256} {d : ImmuneDecision}
    (hl : s.incidents.ledger = some ledger)
    (h : (s.evaluateAndApply request now).2 = .ok d) (hd : d.allowed = false) :
    d.action = .restrict ∨
    (Isolates d ∧ ∃ ledger', (s.evaluateAndApply request now).1.incidents.ledger = some ledger' ∧
      Phases now.incidentId ["detected", "classify", "contain"] ledger ledger') ∨
    (MildBlock d ∧ d.evidenceRequired = false ∧
      (s.evaluateAndApply request now).1.incidents.ledger = some ledger) := by
  unfold evaluateAndApply at h ⊢
  dsimp only at h ⊢
  cases hresult : (s.apply (s.config.evaluate request) request now).2 with
  | error error =>
      rw [hresult] at h
      cases h
  | ok done =>
      rw [hresult] at h
      obtain rfl : s.config.evaluate request = d := Except.ok.inj h
      obtain ⟨hrecords, hnothing⟩ := apply_records hresult
      rcases denied_action hd with hact | hisolates | ⟨hmild, hno_evidence⟩
      · exact .inl hact
      · exact .inr (.inl ⟨hisolates, hrecords hisolates ledger hl⟩)
      · have hno : ¬ Isolates (s.config.evaluate request) := by
          rintro (hact | hact | ⟨-, hlevel⟩)
          · exact absurd (hact.symm.trans hmild.1) nofun
          · exact absurd (hact.symm.trans hmild.1) nofun
          · exact hlevel.elim hmild.2.1 hmild.2.2
        refine .inr (.inr ⟨hmild, hno_evidence, ?_⟩)
        rw [hnothing hno]
        exact hl

end ImmuneRuntime

/-- The times of a day on which nothing happens. -/
def quietDay : Readings :=
  { enteredAt := "t", incidentId := "i1", detected := ⟨"t", ⟨"e1", "t"⟩⟩
    classified := ⟨"t", ⟨"e2", "t"⟩⟩, contained := ⟨"t", ⟨"e3", "t"⟩⟩ }

/-- A runtime in an emergency. -/
def lockedRuntime : ImmuneRuntime id := .create { emergencyLock := true } (some (.empty id))

/-- An agent that nobody knows wants a shell. -/
def unknownShell : ImmuneRequest where
  principal := { id := "a1", type := .agent, trust := .unknown }
  capability := "shell.execute"

theorem denial_leaves_evidence_locked : ∃ d,
    (lockedRuntime.evaluateAndApply unknownShell quietDay).2 = .ok d ∧ d.allowed = false ∧
    (d.action = .restrict ∨
      (Isolates d ∧ ∃ ledger',
        (lockedRuntime.evaluateAndApply unknownShell quietDay).1.incidents.ledger = some ledger' ∧
        Phases "i1" ["detected", "classify", "contain"] (.empty id) ledger') ∨
      (MildBlock d ∧ d.evidenceRequired = false ∧
        (lockedRuntime.evaluateAndApply unknownShell quietDay).1.incidents.ledger =
          some (.empty id))) :=
  ⟨_, rfl, rfl, ImmuneRuntime.denial_leaves_evidence rfl rfl rfl⟩

/-- **The unknown agent is blocked at the level `ORANGE`, and the ledger stays empty.** -/
theorem block_leaves_no_evidence : ∃ d,
    ((ImmuneRuntime.create {} (some (.empty id))).evaluateAndApply unknownShell quietDay).2 = .ok d ∧
    d.allowed = false ∧ d.action = .block ∧ d.level = .orange ∧
    ((ImmuneRuntime.create {} (some (.empty id))).evaluateAndApply
      unknownShell quietDay).1.incidents.ledger = some (.empty id) :=
  ⟨_, rfl, rfl, rfl, rfl, rfl⟩

end AgentKernel.Immune
