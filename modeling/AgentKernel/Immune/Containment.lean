/-
  File:      AgentKernel/Immune/Containment.lean
  Subject:   What the runtime does to whom it isolates, over whole histories of calls.

  The calls are read as events of one life per entity: nothing known, suspected, contained, and the
  way through analysis to recovery or revocation. An entity is contained once in its life; a second
  attempt throws.

  * `call_spec`: every call, as an event of one life or of none;
  * `spent_iff`: an entity is beyond its containment just when some call has contained it;
  * **`contains_iff`**: containment works and nothing throws as long as no entity is contained twice.
-/
import AgentKernel.Immune.Runtime
import AgentKernel.Lib.Runs

namespace AgentKernel.Immune

open Lib Lib.Regex Events

/-! ## 1. Lives -/

/-- Where everybody stands; nothing is known of most. -/
abbrev Lives := String → Option QuarantineState

/-- The state an event leads to. Without a record, only two events make one. -/
def nextState : Option QuarantineState → QuarantineEvent → Option QuarantineState
  | none, .quarantine => some .quarantined
  | none, .flag => some .suspicious
  | none, _ => none
  | some state, event => quarantineMachine.transitions state event

/-- What an event makes of the lives; an illegal one makes nothing of them. -/
def Lives.after (lives : Lives) (id : String) (event : QuarantineEvent) : Lives :=
  match nextState (lives id) event with
  | some next => Function.update lives id (some next)
  | none => lives

/-- A life that containment has begun, wherever it has led since. -/
def Spent (state : Option QuarantineState) : Prop :=
  state = some .quarantined ∨ state = some .analysis ∨ state = some .recovered ∨
    state = some .revoked

/-- A life as the calls leave it: no record is in the state `ACTIVE`. -/
def Proper (state : Option QuarantineState) : Prop := state ≠ some .active

section Lives

variable {state next : Option QuarantineState} {event : QuarantineEvent}

theorem Proper.nextState {new : QuarantineState} (h : nextState state event = some new) :
    Proper (some new) := by
  rcases state with _ | state
  · cases event <;> cases h
    all_goals exact nofun
  · cases state <;> cases event <;> cases h
    all_goals exact nofun

/-- **Who is spent is never contained again**, and nobody else throws when contained. -/
theorem nextState_quarantine (h : Proper state) :
    (Spent state → Immune.nextState state .quarantine = none) ∧
    (¬ Spent state → Immune.nextState state .quarantine = some .quarantined) := by
  unfold Spent
  rcases state with _ | state
  · exact ⟨by simp, fun _ => rfl⟩
  · cases state with
    | active => exact absurd rfl h
    | suspicious => exact ⟨by simp, fun _ => rfl⟩
    | quarantined => exact ⟨fun _ => rfl, by simp⟩
    | analysis => exact ⟨fun _ => rfl, by simp⟩
    | recovered => exact ⟨fun _ => rfl, by simp⟩
    | revoked => exact ⟨fun _ => rfl, by simp⟩

/-- Containment makes a life spent; no other event does, and none takes it back. -/
theorem spent_nextState {new : QuarantineState} (h : Immune.nextState state event = some new) :
    Spent (some new) ↔ Spent state ∨ event = .quarantine := by
  unfold Spent
  rcases state with _ | state
  · cases event <;> cases h
    all_goals simp
  · cases state <;> cases event <;> cases h
    all_goals simp

theorem Lives.after_of_ne {lives : Lives} {id other : String} (h : other ≠ id) :
    lives.after id event other = lives other := by
  unfold Lives.after
  cases Immune.nextState (lives id) event with
  | none => rfl
  | some next => exact Function.update_of_ne h _ _

theorem Lives.after_self {lives : Lives} {id : String} :
    lives.after id event id = (Immune.nextState (lives id) event).or (lives id) := by
  unfold Lives.after
  cases Immune.nextState (lives id) event with
  | none => rfl
  | some next => exact Function.update_self _ _ _

theorem Lives.proper_after {lives : Lives} {id other : String} (h : Proper (lives other)) :
    Proper (lives.after id event other) := by
  by_cases hid : other = id
  · subst hid
    rw [Lives.after_self]
    cases hnext : Immune.nextState (lives other) event with
    | none => exact h
    | some new => exact Proper.nextState hnext
  · rw [Lives.after_of_ne hid]
    exact h

theorem Lives.spent_after {lives : Lives} {id other : String} (hproper : Proper (lives other)) :
    Spent (lives.after id event other) ↔
      Spent (lives other) ∨ event = .quarantine ∧ other = id := by
  by_cases hid : other = id
  · subst hid
    rw [Lives.after_self]
    cases hnext : Immune.nextState (lives other) event with
    | none =>
        -- an attempt that throws is one on somebody spent
        have hspent : event = .quarantine → Spent (lives other) := by
          rintro rfl
          by_contra hno
          rw [(nextState_quarantine hproper).2 hno] at hnext
          cases hnext
        simpa using hspent
    | some new =>
        rw [Option.some_or, spent_nextState hnext]
        simp
  · rw [Lives.after_of_ne hid]
    simp [hid]

end Lives

/-! ## 2. The quarantine as lives -/

/-- The states of the records. -/
def Quarantine.lives (q : Quarantine) : Lives := fun id => (q.records id).map (·.state)

/-- The result is the one the event has in the life of the entity. -/
def Follows (q : Quarantine) (id : String) (event : QuarantineEvent)
    (result : Except ImmuneError (Quarantine × QuarantineRecord)) : Prop :=
  match nextState (q.lives id) event with
  | some next => ∃ q' r, result = .ok (q', r) ∧
      q'.lives = Function.update q.lives id (some next)
  | none => ∃ error, result = .error error

namespace Quarantine

variable {q : Quarantine} {id : String} {r : QuarantineRecord}

theorem lives_set : (q.set r).lives = Function.update q.lives r.entityId (some r.state) := by
  funext other
  unfold lives set
  by_cases hid : other = r.entityId
  · subst hid
    simp
  · simp [Function.update_of_ne hid]

theorem transition_follows {event : QuarantineEvent} {reason : String} {evidence : List String}
    (h : q.records id = some r) : Follows q id event (q.transition r event reason evidence) := by
  unfold Follows transition
  have hstate : q.lives id = some r.state := by simp [lives, h]
  rw [hstate]
  unfold nextState StateMachine.transition
  dsimp only
  cases hnext : quarantineMachine.transitions r.state event with
  | none => exact ⟨_, rfl⟩
  | some next =>
      refine ⟨_, _, rfl, ?_⟩
      rw [lives_set, q.keyed id r h]

theorem quarantine_follows (q : Quarantine) (id reason : String) (evidence : List String)
    (enteredAt : String) : Follows q id .quarantine (q.quarantine id reason evidence enteredAt) := by
  unfold quarantine
  cases h : q.records id with
  | some existing => exact transition_follows h
  | none =>
      unfold Follows
      have hstate : q.lives id = none := by simp [lives, h]
      rw [hstate]
      exact ⟨_, _, rfl, lives_set⟩

theorem flag_follows (q : Quarantine) (id reason enteredAt : String) :
    Follows q id .flag (q.flag id reason enteredAt) := by
  unfold flag
  cases h : q.records id with
  | some existing => exact transition_follows h
  | none =>
      unfold Follows
      have hstate : q.lives id = none := by simp [lives, h]
      rw [hstate]
      exact ⟨_, _, rfl, lives_set⟩

/-- The events that need a record. -/
theorem must_follows (q : Quarantine) (id : String) {event : QuarantineEvent}
    (hevent : nextState none event = none) : Follows q id event (q.must id event) := by
  unfold must
  cases h : q.records id with
  | some existing => exact transition_follows h
  | none =>
      unfold Follows
      have hstate : q.lives id = none := by simp [lives, h]
      rw [hstate, hevent]
      exact ⟨_, rfl⟩

/-- The record that `must` gives back is the one it has stored. -/
theorem must_eq {event : QuarantineEvent} {q' : Quarantine} (h : q.must id event = .ok (q', r)) :
    r.entityId = id ∧ q'.lives = Function.update q.lives id (some r.state) := by
  unfold must at h
  cases hr : q.records id with
  | none =>
      rw [hr] at h
      cases h
  | some existing =>
      rw [hr] at h
      unfold transition at h
      dsimp only at h
      cases hnext : quarantineMachine.transition existing.state event with
      | error error =>
          rw [hnext] at h
          cases h
      | ok next =>
          rw [hnext] at h
          cases h
          have hid := q.keyed id existing hr
          refine ⟨hid, ?_⟩
          rw [lives_set]
          dsimp only
          rw [hid]

/-- What is stored once more after a `must` has the state that `must` has stored. -/
theorem Follows.map {event : QuarantineEvent}
    {f : Quarantine × QuarantineRecord → Quarantine × QuarantineRecord}
    (hf : ∀ q' r, r.entityId = id → q'.lives id = some r.state → (f (q', r)).1.lives = q'.lives)
    (h : Follows q id event (q.must id event)) : Follows q id event ((q.must id event).map f) := by
  unfold Follows at *
  cases hnext : nextState (q.lives id) event with
  | none =>
      rw [hnext] at h
      obtain ⟨error, he⟩ := h
      rw [he]
      exact ⟨error, rfl⟩
  | some next =>
      rw [hnext] at h
      obtain ⟨q', r, hok, hlives⟩ := h
      obtain ⟨hid, hstored⟩ := must_eq hok
      rw [hok]
      refine ⟨(f (q', r)).1, (f (q', r)).2, rfl, ?_⟩
      rw [hf q' r hid (by rw [hstored, Function.update_self]), hlives]

theorem lives_set_same {r : QuarantineRecord} (h : q.lives r.entityId = some r.state) :
    (q.set r).lives = q.lives := by
  rw [lives_set, ← h, Function.update_eq_self]

theorem recover_follows (q : Quarantine) (id : String) (note : Option String) :
    Follows q id .recover (q.recover id note) := by
  refine Follows.map (fun q' r hid hstate => ?_) (must_follows q id rfl)
  rw [← hid] at hstate
  cases note with
  | none => exact lives_set_same hstate
  | some note =>
      dsimp only
      split_ifs
      · exact lives_set_same hstate
      · exact lives_set_same hstate

theorem revoke_follows (q : Quarantine) (id reason : String) :
    Follows q id .revoke (q.revoke id reason) := by
  refine Follows.map (fun q' r hid hstate => ?_) (must_follows q id rfl)
  rw [← hid] at hstate
  exact lives_set_same hstate

end Quarantine

/-! ## 3. Incidents never throw -/

variable {sha256 : String → String}

namespace IncidentEngine

variable (engine : IncidentEngine sha256) (incident : IncidentRecord) (phase : String)
  (payload : List (String × Value)) (stamp : Stamp)

theorem record_stored : ∃ hashes, (engine.record incident phase payload stamp).2 =
      { incident with evidenceHashes := hashes } ∧
    (engine.record incident phase payload stamp).1.incidents incident.id =
      some { incident with evidenceHashes := hashes } := by
  unfold record
  cases engine.ledger with
  | none => exact ⟨incident.evidenceHashes, rfl, Function.update_self _ _ _⟩
  | some ledger => exact ⟨_, rfl, Function.update_self _ _ _⟩

variable {engine : IncidentEngine sha256} {id : String} {current : IncidentRecord}
  {event : IncidentEvent} {next : IncidentState}

/-- A step that the table has, on an incident stored under its id. -/
theorem step_ok (h : engine.incidents id = some current) (hid : current.id = id)
    (hnext : incidentMachine.transitions current.state event = some next) (note : String)
    (now : PhaseStamp) : ∃ engine' r, engine.step id event note now = .ok (engine', r) ∧
      r.id = id ∧ r.state = next ∧ engine'.incidents id = some r := by
  let record : IncidentRecord := { current with
    state := next
    timeline := current.timeline ++ [⟨now.time, note⟩] }
  have hstep : engine.step id event note now =
      .ok (engine.record record event.text [("note", .str note)] now.event) := by
    unfold step
    rw [h]
    dsimp only
    rw [(StateMachine.transition_eq_ok _).mpr hnext]
  obtain ⟨hashes, hr, hstored⟩ :=
    engine.record_stored record event.text [("note", .str note)] now.event
  refine ⟨_, { record with evidenceHashes := hashes }, hstep.trans (by rw [← hr]), hid, rfl, ?_⟩
  rw [← hid]
  exact hstored

theorem classify_ok (h : engine.incidents id = some current) (hid : current.id = id)
    (hstate : current.state = .detected) (severity : RiskSeverity) (now : PhaseStamp) :
    ∃ engine' r, engine.classify id severity now = .ok (engine', r) ∧ r.id = id ∧
      r.state = .classified ∧ engine'.incidents id = some r := by
  have hnext : incidentMachine.transitions current.state .classify = some .classified := by
    rw [hstate]
    rfl
  obtain ⟨engine', r, hstep, hr, hclassified, -⟩ :=
    step_ok h hid hnext ("classified as " ++ severity.text) now
  unfold classify
  rw [hstep]
  exact ⟨_, _, rfl, hr, hclassified, Function.update_self _ _ _⟩

end IncidentEngine

/-- **An incident is opened without an error**, and changes neither isolation nor configuration. -/
theorem ImmuneRuntime.openIncident_ok (s : ImmuneRuntime sha256) (decision : ImmuneDecision)
    (entityId detail : String) (now : Readings) :
    (s.openIncident decision entityId detail now).2 = .ok () ∧
    (s.openIncident decision entityId detail now).1.quarantine = s.quarantine ∧
    (s.openIncident decision entityId detail now).1.killSwitch = s.killSwitch ∧
    (s.openIncident decision entityId detail now).1.config = s.config := by
  let title := "immune " ++ decision.action.text ++ " on '" ++ entityId ++ "'"
  let detections := decision.risk.reasons.map (·.detail)
  let severity := decision.risk.severity
  obtain ⟨hashes, hr, hstored⟩ := s.incidents.record_stored
    { id := now.incidentId, state := .detected, severity := severity, title := title
      detections := detections, evidenceHashes := []
      timeline := [⟨now.detected.time, "detected: " ++ title⟩] }
    "detected"
    [("title", .str title), ("severity", .str severity.text),
      ("detections", .arr (detections.map .str))] now.detected.event
  obtain ⟨engine, r, hclassify, hid, hstate, hclassified⟩ :=
    IncidentEngine.classify_ok hstored rfl rfl severity now.classified
  have hnext : incidentMachine.transitions r.state .contain = some .contained := by
    rw [hstate]
    rfl
  obtain ⟨engine', r', hcontain, -⟩ :=
    IncidentEngine.step_ok hclassified hid hnext detail now.contained
  unfold openIncident IncidentEngine.detect
  dsimp only
  rw [hr]
  dsimp only
  rw [hclassify]
  dsimp only
  unfold IncidentEngine.contain
  rw [hcontain]
  exact ⟨rfl, rfl, rfl, rfl⟩

/-! ## 4. Calls as events -/

/-- The decisions that isolate: quarantine, kill, and a block at level `RED` or `BLACK`. -/
def Isolates (d : ImmuneDecision) : Prop :=
  d.action = .quarantine ∨ d.action = .kill ∨
    d.action = .block ∧ (d.level = .red ∨ d.level = .black)

instance (d : ImmuneDecision) : Decidable (Isolates d) := inferInstanceAs (Decidable (_ ∨ _ ∨ _))

/-- The event that a call is, and in whose life. -/
def Call.event (config : ImmuneGateConfig) : Call → Option (String × QuarantineEvent)
  | .evaluateAndApply request _ =>
      if Isolates (config.evaluate request) then some (request.principal.id, .quarantine) else none
  | .kill _ targetId _ _ => some (targetId, .quarantine)
  | .requestKill policy requester targetType targetId reason _ =>
      if (killOutcome policy ⟨targetType, targetId, reason, requester⟩).applied then
        some (targetId, .quarantine)
      else none
  | .flag entityId _ _ => some (entityId, .flag)
  | .analyze entityId => some (entityId, .analyze)
  | .recover entityId _ => some (entityId, .recover)
  | .revoke entityId _ => some (entityId, .revoke)

namespace ImmuneRuntime

/-- What a call gives back: it throws just when its event is illegal, and the lives are those after
    the event. -/
def Obeys {α : Type} (s : ImmuneRuntime sha256) (event : Option (String × QuarantineEvent))
    (result : ImmuneRuntime sha256 × Except ImmuneError α) : Prop :=
  result.1.config = s.config ∧
  match event with
  | none => (∃ a, result.2 = .ok a) ∧ result.1.quarantine.lives = s.quarantine.lives
  | some (id, event) =>
      ((∃ a, result.2 = .ok a) ↔ ∃ next, nextState (s.quarantine.lives id) event = some next) ∧
      result.1.quarantine.lives = s.quarantine.lives.after id event

section Obeys

variable {α β : Type} {s : ImmuneRuntime sha256} {event : Option (String × QuarantineEvent)}
  {id : String} {e : QuarantineEvent}

theorem returns_map {f : α → β} {result : Except ImmuneError α} :
    (∃ b, result.map f = .ok b) ↔ ∃ a, result = .ok a := by
  cases result with
  | error error => exact ⟨nofun, nofun⟩
  | ok a => exact iff_of_true ⟨f a, rfl⟩ ⟨a, rfl⟩

theorem Obeys.map {f : α → β} {result : ImmuneRuntime sha256 × Except ImmuneError α}
    (h : s.Obeys event result) : s.Obeys event (result.1, result.2.map f) := by
  unfold Obeys at *
  dsimp only
  rw [returns_map]
  exact h

/-- An attempt on the quarantine, and what is done where it succeeds. -/
theorem Obeys.of_follows {result : Except ImmuneError (Quarantine × QuarantineRecord)}
    (h : Follows s.quarantine id e result)
    {after : ImmuneRuntime sha256 × Except ImmuneError α}
    (hthrow : ∀ error, result = .error error → after.1.config = s.config ∧
      after.1.quarantine = s.quarantine ∧ ∃ error, after.2 = .error error)
    (hdone : ∀ q r, result = .ok (q, r) → after.1.config = s.config ∧
      after.1.quarantine = q ∧ ∃ a, after.2 = .ok a) :
    s.Obeys (some (id, e)) after := by
  unfold Obeys Lives.after
  unfold Follows at h
  dsimp only
  cases hnext : nextState (s.quarantine.lives id) e with
  | none =>
      rw [hnext] at h
      obtain ⟨error, he⟩ := h
      obtain ⟨hconfig, hq, error', ha⟩ := hthrow error he
      rw [hq, ha]
      exact ⟨hconfig, iff_of_false nofun nofun, rfl⟩
  | some next =>
      rw [hnext] at h
      obtain ⟨q, r, hok, hlives⟩ := h
      obtain ⟨hconfig, hq, a, ha⟩ := hdone q r hok
      rw [hq, ha]
      exact ⟨hconfig, iff_of_true ⟨a, rfl⟩ ⟨next, rfl⟩, hlives⟩

theorem onQuarantine_obeys {result : Except ImmuneError (Quarantine × QuarantineRecord)}
    (h : Follows s.quarantine id e result) : s.Obeys (some (id, e)) (s.onQuarantine result) := by
  refine .of_follows h (fun error he => ?_) (fun q r hok => ?_)
  · rw [he]
    exact ⟨rfl, rfl, error, rfl⟩
  · rw [hok]
    exact ⟨rfl, rfl, r, rfl⟩

end Obeys

variable (s : ImmuneRuntime sha256)

/-- What `apply` does: nothing, or it throws with nothing done, or the entity is put in quarantine and
    an incident is opened. -/
inductive Applies (decision : ImmuneDecision) (request : ImmuneRequest) (now : Readings) :
    ImmuneRuntime sha256 × Except ImmuneError Unit → Prop where
  | mild (h : ¬ Isolates decision) : Applies decision request now (s, .ok ())
  | thrown {error : ImmuneError} (h : Isolates decision)
      (hq : s.quarantine.quarantine request.principal.id (detailOf decision)
        (decision.risk.reasons.map (·.detail)) now.enteredAt = .error error) :
      Applies decision request now (s, .error error)
  | opened {q : Quarantine} {r : QuarantineRecord} {k : KillSwitch} (h : Isolates decision)
      (hq : s.quarantine.quarantine request.principal.id (detailOf decision)
        (decision.risk.reasons.map (·.detail)) now.enteredAt = .ok (q, r))
      (hkill : decision.action = .kill → k = (s.killSwitch.request none
        ⟨killTargetFor request.principal.type, request.principal.id, detailOf decision,
          "immune"⟩).1) :
      Applies decision request now
        (openIncident { s with quarantine := q, killSwitch := k } decision request.principal.id
          (detailOf decision) now)

theorem apply_applies (decision : ImmuneDecision) (request : ImmuneRequest) (now : Readings) :
    s.Applies decision request now (s.apply decision request now) := by
  unfold apply
  dsimp only
  by_cases hmild : decision.action = .allow ∨ decision.action = .monitor ∨
      decision.action = .approvalRequired ∨ decision.action = .restrict
  · -- the actions without a consequence
    have hno : ¬ Isolates decision := by
      unfold Isolates
      rcases hmild with h | h | h | h <;> rw [h] <;> simp
    rcases hmild with h | h | h | h <;> rw [h] <;> exact .mild hno
  · have hrest : ¬ (decision.action = .allow ∨ decision.action = .monitor ∨
        decision.action = .approvalRequired) ∧ decision.action ≠ .restrict := by tauto
    have hiff : Isolates decision ↔ decision.action = .quarantine ∨ decision.action = .kill ∨
        decision.level = .red ∨ decision.level = .black := by
      unfold Isolates
      cases hact : decision.action <;> simp_all
    rw [if_neg hrest.1, if_neg hrest.2]
    by_cases hisolates : Isolates decision
    · rw [if_pos (hiff.mp hisolates)]
      cases hq : s.quarantine.quarantine request.principal.id (detailOf decision)
          (decision.risk.reasons.map (·.detail)) now.enteredAt with
      | error error => exact .thrown hisolates hq
      | ok out => exact .opened hisolates hq fun hkill => if_pos hkill
    · rw [if_neg fun h => hisolates (hiff.mpr h)]
      exact .mild hisolates

theorem apply_obeys (decision : ImmuneDecision) (request : ImmuneRequest) (now : Readings) :
    s.Obeys (if Isolates decision then some (request.principal.id, .quarantine) else none)
      (s.apply decision request now) := by
  have happlies := s.apply_applies decision request now
  have hfollows := Quarantine.quarantine_follows s.quarantine request.principal.id
    (detailOf decision) (decision.risk.reasons.map (·.detail)) now.enteredAt
  generalize s.apply decision request now = out at happlies ⊢
  cases happlies with
  | mild hno =>
      rw [if_neg hno]
      exact ⟨rfl, ⟨(), rfl⟩, rfl⟩
  | @thrown error hisolates hq =>
      rw [if_pos hisolates]
      refine .of_follows hfollows (fun _ _ => ⟨rfl, rfl, error, rfl⟩) fun q r hok => ?_
      rw [hq] at hok
      cases hok
  | @opened q r k hisolates hq =>
      rw [if_pos hisolates]
      refine .of_follows hfollows (fun error he => ?_) fun q' r' hok => ?_
      · rw [hq] at he
        cases he
      · obtain rfl : q = q' := (Prod.mk.inj (Except.ok.inj (hq.symm.trans hok))).1
        obtain ⟨hdone, hsame, -, hconfig⟩ := openIncident_ok
          { s with quarantine := q, killSwitch := k } decision request.principal.id
          (detailOf decision) now
        exact ⟨hconfig, hsame, (), hdone⟩

theorem killBy_obeys (policy : Option PolicyView) (req : KillRequest) (enteredAt : String) :
    s.Obeys (if (killOutcome policy req).applied then some (req.targetId, .quarantine) else none)
      (s.killBy policy req enteredAt) := by
  unfold killBy KillSwitch.request
  dsimp only
  by_cases happlied : (killOutcome policy req).applied = true
  · rw [if_pos happlied, if_pos happlied]
    refine .of_follows
      (Quarantine.quarantine_follows s.quarantine req.targetId req.reason [] enteredAt)
      (fun error he => ?_) (fun q r hok => ?_)
    · rw [he]
      exact ⟨rfl, rfl, error, rfl⟩
    · rw [hok]
      exact ⟨rfl, rfl, _, rfl⟩
  · rw [if_neg happlied, if_neg happlied]
    exact ⟨rfl, ⟨_, rfl⟩, rfl⟩

/-- The immune system kills without asking. -/
theorem kill_applied (targetType : KillTargetType) (targetId reason : String) :
    (killOutcome none ⟨targetType, targetId, reason, "immune"⟩).applied = true := by
  have hnone : (startsWith "immune" "agent:" || startsWith "immune" "tool:") = false := by decide
  unfold killOutcome
  dsimp only
  rw [hnone, if_neg Bool.false_ne_true, if_pos (Or.inr rfl)]

/-- **Every call is its event.** -/
theorem call_obeys (c : Call) : s.Obeys (c.event s.config) (s.call c) := by
  cases c with
  | evaluateAndApply request now => exact (s.apply_obeys _ request now).map.map
  | kill targetType targetId reason enteredAt =>
      have h := s.killBy_obeys none ⟨targetType, targetId, reason, "immune"⟩ enteredAt
      rw [if_pos (kill_applied targetType targetId reason)] at h
      exact h.map
  | requestKill policy requester targetType targetId reason enteredAt =>
      exact (s.killBy_obeys policy ⟨targetType, targetId, reason, requester⟩ enteredAt).map
  | flag entityId reason enteredAt =>
      exact (onQuarantine_obeys (Quarantine.flag_follows _ _ reason enteredAt)).map
  | analyze entityId =>
      exact (onQuarantine_obeys (Quarantine.must_follows _ _ rfl)).map
  | recover entityId note =>
      exact (onQuarantine_obeys (Quarantine.recover_follows _ _ note)).map
  | revoke entityId reason =>
      exact (onQuarantine_obeys (Quarantine.revoke_follows _ _ reason)).map

end ImmuneRuntime

/-! ## 5. Whom the calls contain -/

/-- Whom a call contains, or tries to. -/
def contained (config : ImmuneGateConfig) (c : Call) : Option String :=
  match c.event config with
  | some (id, .quarantine) => some id
  | _ => none

section Contained

variable {config : ImmuneGateConfig} {c : Call} {id : String} {ls : List Call}
  {s s' : ImmuneRuntime sha256} {ledger : Option (Ledger sha256)}
  {ok : ImmuneRuntime sha256 → Call → Prop}

theorem contained_iff : contained config c = some id ↔ c.event config = some (id, .quarantine) := by
  unfold contained
  rcases c.event config with _ | ⟨id', event⟩
  · simp
  · cases event <;> simp

/-- What a history of calls leaves in the lives: those are spent whom a call has contained. -/
structure Kept (config : ImmuneGateConfig) (ls : List Call) (s : ImmuneRuntime sha256) : Prop where
  unchanged : s.config = config
  proper : ∀ id, Proper (s.quarantine.lives id)
  spent : ∀ id, Spent (s.quarantine.lives id) ↔ id ∈ ls.filterMap (contained config)

theorem Kept.create (config : ImmuneGateConfig) (ledger : Option (Ledger sha256)) :
    Kept config [] (ImmuneRuntime.create config ledger) where
  unchanged := rfl
  proper _ := nofun
  spent id := by simp [Spent, ImmuneRuntime.create, Quarantine.lives, Quarantine.empty]

theorem Kept.call (h : Kept config ls s) (c : Call) : Kept config (ls ++ [c]) (s.call c).1 := by
  obtain ⟨hconfig, hobeys⟩ := s.call_obeys c
  rw [h.unchanged] at hobeys
  refine ⟨hconfig.trans h.unchanged, fun id => ?_, fun id => ?_⟩
  · cases hevent : c.event config with
    | none =>
        rw [hevent] at hobeys
        rw [hobeys.2]
        exact h.proper id
    | some e =>
        rw [hevent] at hobeys
        rw [hobeys.2]
        exact Lives.proper_after (h.proper id)
  · have hmem : id ∈ (ls ++ [c]).filterMap (contained config) ↔
        Spent (s.quarantine.lives id) ∨ c.event config = some (id, .quarantine) := by
      rw [List.filterMap_append, List.mem_append, ← h.spent id, ← contained_iff]
      simp
    rw [hmem]
    cases hevent : c.event config with
    | none =>
        rw [hevent] at hobeys
        rw [hobeys.2]
        simp
    | some e =>
        rw [hevent] at hobeys
        rw [hobeys.2, Lives.spent_after (h.proper id)]
        rcases e with ⟨id', event⟩
        simp [and_comm, eq_comm]

theorem kept_of_run (h : Run ImmuneRuntime.step ok (.create config ledger) ls s) :
    Kept config ls s := by
  induction h with
  | start => exact .create config ledger
  | next _ _ hs ih =>
      cases hs
      exact ih.call _

/-- **Whom a call has contained before, no call contains again: it throws.** -/
theorem Kept.returns_iff (h : Kept config ls s) (hc : contained config c = some id) :
    (∃ a, (s.call c).2 = .ok a) ↔ id ∉ ls.filterMap (contained config) := by
  obtain ⟨-, hobeys⟩ := s.call_obeys c
  rw [h.unchanged, contained_iff.mp hc] at hobeys
  obtain ⟨hspent, hfresh⟩ := nextState_quarantine (h.proper id)
  rw [hobeys.1, ← h.spent id]
  constructor
  · intro ⟨next, hnext⟩ hs
    rw [hspent hs] at hnext
    cases hnext
  · intro hno
    exact ⟨_, hfresh hno⟩

theorem Kept.returns (h : Kept config ls s) (hc : c.event config = none) :
    ∃ a, (s.call c).2 = .ok a := by
  obtain ⟨-, hobeys⟩ := s.call_obeys c
  rw [h.unchanged, hc] at hobeys
  exact hobeys.1

theorem Kept.lives_contained (h : Kept config ls s) (hc : contained config c = some id)
    (hfresh : id ∉ ls.filterMap (contained config)) :
    (s.call c).1.quarantine.lives id = some .quarantined := by
  obtain ⟨-, hobeys⟩ := s.call_obeys c
  rw [h.unchanged, contained_iff.mp hc] at hobeys
  have hnext := (nextState_quarantine (h.proper id)).2 (mt (h.spent id).mp hfresh)
  rw [hobeys.2, Lives.after_self, hnext, Option.some_or]

end Contained

/-! ## 6. The kill switch -/

section Kills

variable (k : KillSwitch) {policy : Option PolicyView} {req : KillRequest}

theorem KillSwitch.isKilled_apply : (k.apply req).isKilled req.targetType req.targetId = true := by
  unfold apply
  split_ifs with h
  · exact h
  · unfold isKilled
    simp

theorem KillSwitch.isKilled_request (h : (killOutcome policy req).applied = true) :
    (k.request policy req).1.isKilled req.targetType req.targetId = true := by
  unfold request
  dsimp only
  rw [if_pos h]
  exact k.isKilled_apply

variable (s : ImmuneRuntime sha256)

/-- Whatever the quarantine does then. -/
theorem ImmuneRuntime.isKilled_killBy (enteredAt : String)
    (h : (killOutcome policy req).applied = true) :
    (s.killBy policy req enteredAt).1.killSwitch.isKilled req.targetType req.targetId = true := by
  have hswitch : (s.killBy policy req enteredAt).1.killSwitch =
      (s.killSwitch.request policy req).1 := by
    unfold killBy
    dsimp only
    split_ifs
    · cases s.quarantine.quarantine req.targetId req.reason [] enteredAt <;> rfl
    · rfl
  rw [hswitch]
  exact s.killSwitch.isKilled_request h

theorem ImmuneRuntime.isKilled_apply {decision : ImmuneDecision} {request : ImmuneRequest}
    {now : Readings} (hkill : decision.action = .kill)
    (hdone : (s.apply decision request now).2 = .ok ()) :
    (s.apply decision request now).1.killSwitch.isKilled (killTargetFor request.principal.type)
      request.principal.id = true := by
  have happlies := s.apply_applies decision request now
  generalize s.apply decision request now = out at happlies hdone ⊢
  cases happlies with
  | mild hno => exact absurd (.inr (.inl hkill)) hno
  | thrown => cases hdone
  | opened _ _ hk =>
      rw [(openIncident_ok _ _ _ _ _).2.2.1, hk hkill]
      exact s.killSwitch.isKilled_request (kill_applied _ _ _)

end Kills

/-! ## 7. When containment works -/

/-- The calls on the quarantine itself return. -/
def Legal (s : ImmuneRuntime sha256) : Call → Prop
  | .flag entityId reason enteredAt => ∃ r, s.quarantine.flag entityId reason enteredAt = .ok r
  | .analyze entityId => ∃ r, s.quarantine.analyze entityId = .ok r
  | .recover entityId note => ∃ r, s.quarantine.recover entityId note = .ok r
  | .revoke entityId reason => ∃ r, s.quarantine.revoke entityId reason = .ok r
  | _ => True

/-- The record of the entity says `QUARANTINED`, `ANALYSIS` or `REVOKED`. -/
def Isolated (s : ImmuneRuntime sha256) (id : String) : Prop :=
  ∃ r, s.quarantine.records id = some r ∧
    (r.state = .quarantined ∨ r.state = .analysis ∨ r.state = .revoked)

/-- The call does not throw, whom it decides to isolate is isolated, and whom it kills is in the
    kill switch. -/
def Contains (s : ImmuneRuntime sha256) : Call → Prop
  | .evaluateAndApply request now =>
      let out := s.evaluateAndApply request now
      let decision := s.config.evaluate request
      (∃ d, out.2 = .ok d) ∧ (Isolates decision → Isolated out.1 request.principal.id) ∧
      (decision.action = .kill →
        out.1.killSwitch.isKilled (killTargetFor request.principal.type) request.principal.id = true)
  | .kill targetType targetId reason enteredAt =>
      let out := s.kill targetType targetId reason enteredAt
      (∃ outcome, out.2 = .ok outcome) ∧ Isolated out.1 targetId ∧
      out.1.killSwitch.isKilled targetType targetId = true
  | .requestKill policy requester targetType targetId reason enteredAt =>
      let out := s.requestKill policy requester targetType targetId reason enteredAt
      ∃ outcome, out.2 = .ok outcome ∧ (outcome.applied = true →
        Isolated out.1 targetId ∧ out.1.killSwitch.isKilled targetType targetId = true)
  | _ => True

section Works

variable {config : ImmuneGateConfig} {ledger : Option (Ledger sha256)} {ls : List Call}
  {s : ImmuneRuntime sha256} {c : Call}

theorem isolated_of_lives {id : String} (h : s.quarantine.lives id = some .quarantined) :
    Isolated s id := by
  obtain ⟨r, hr, hstate⟩ := Option.map_eq_some_iff.mp h
  exact ⟨r, hr, .inl hstate⟩

theorem evaluateAndApply_returns {request : ImmuneRequest} {now : Readings} :
    (∃ d, (s.evaluateAndApply request now).2 = .ok d) ↔
      (s.apply (s.config.evaluate request) request now).2 = .ok () :=
  ImmuneRuntime.returns_map.trans ⟨fun ⟨_, h⟩ => h, fun h => ⟨(), h⟩⟩

/-- A call that can only contain returns just when whom it contains has not been contained. -/
theorem Kept.returns_of_containing (h : Kept config ls s)
    (honly : ∀ id event, c.event config = some (id, event) → event = .quarantine) :
    (∃ a, (s.call c).2 = .ok a) ↔
      ∀ id ∈ contained config c, id ∉ ls.filterMap (contained config) := by
  constructor
  · intro hret id hid
    exact (h.returns_iff hid).mp hret
  · intro hfresh
    cases hevent : c.event config with
    | none => exact h.returns hevent
    | some e =>
        obtain ⟨id, event⟩ := e
        obtain rfl := honly id event hevent
        have hid := contained_iff.mpr hevent
        exact (h.returns_iff hid).mpr (hfresh id hid)

/-- What `kill` and `requestKill` have to do for a call to contain. -/
theorem killBy_contains {policy : Option PolicyView} {req : KillRequest} {enteredAt : String}
    (hreturns : ∃ outcome, (s.killBy policy req enteredAt).2 = .ok outcome)
    (hlives : (killOutcome policy req).applied = true →
      (s.killBy policy req enteredAt).1.quarantine.lives req.targetId = some .quarantined) :
    ∃ outcome, (s.killBy policy req enteredAt).2 = .ok outcome ∧
      (outcome.applied = true → Isolated (s.killBy policy req enteredAt).1 req.targetId ∧
        (s.killBy policy req enteredAt).1.killSwitch.isKilled req.targetType req.targetId = true) := by
  obtain ⟨outcome, hok⟩ := hreturns
  refine ⟨outcome, hok, fun happlied => ?_⟩
  have hsame : outcome = killOutcome policy req := by
    unfold ImmuneRuntime.killBy KillSwitch.request at hok
    dsimp only at hok
    split_ifs at hok
    · cases hq : s.quarantine.quarantine req.targetId req.reason [] enteredAt <;>
        rw [hq] at hok <;> cases hok
      rfl
    · cases hok
      rfl
  rw [hsame] at happlied
  exact ⟨isolated_of_lives (hlives happlied), s.isKilled_killBy enteredAt happlied⟩

/-- **One call**: it contains unless it tries to contain somebody for a second time. -/
theorem Kept.contains_call_iff (h : Kept config ls s) (c : Call) :
    Contains s c ↔ ∀ id ∈ contained config c, id ∉ ls.filterMap (contained config) := by
  cases c with
  | evaluateAndApply request now =>
      have hreturns := h.returns_of_containing (c := .evaluateAndApply request now)
        fun id event he => by
          rw [Call.event] at he
          split_ifs at he
          cases he
          rfl
      rw [← hreturns]
      change _ ↔ ∃ a, (s.evaluateAndApply request now).2.map Answer.decision = .ok a
      rw [ImmuneRuntime.returns_map]
      unfold Contains
      dsimp only
      refine ⟨And.left, fun hret => ⟨hret, fun hisolates => ?_, fun hkill => ?_⟩⟩
      · have hc : contained config (.evaluateAndApply request now) = some request.principal.id := by
          rw [contained_iff, Call.event, ← h.unchanged, if_pos hisolates]
        have hfresh := hreturns.mp (ImmuneRuntime.returns_map.mpr hret) _ hc
        exact isolated_of_lives (h.lives_contained hc hfresh)
      · exact s.isKilled_apply hkill (evaluateAndApply_returns.mp hret)
  | kill targetType targetId reason enteredAt =>
      have hreturns := h.returns_of_containing (c := .kill targetType targetId reason enteredAt)
        fun id event he => by
          cases he
          rfl
      rw [← hreturns]
      change _ ↔ ∃ a, (s.kill targetType targetId reason enteredAt).2.map Answer.outcome = .ok a
      rw [ImmuneRuntime.returns_map]
      unfold Contains
      dsimp only
      refine ⟨And.left, fun hret => ?_⟩
      have hc : contained config (.kill targetType targetId reason enteredAt) = some targetId := rfl
      have hfresh := hreturns.mp (ImmuneRuntime.returns_map.mpr hret) targetId hc
      exact ⟨hret, isolated_of_lives (h.lives_contained hc hfresh),
        s.isKilled_killBy enteredAt (ImmuneRuntime.kill_applied targetType targetId reason)⟩
  | requestKill policy requester targetType targetId reason enteredAt =>
      have hreturns := h.returns_of_containing
        (c := .requestKill policy requester targetType targetId reason enteredAt)
        fun id event he => by
          rw [Call.event] at he
          split_ifs at he
          cases he
          rfl
      rw [← hreturns]
      change _ ↔ ∃ a, (s.requestKill policy requester targetType targetId reason enteredAt).2.map
        Answer.outcome = .ok a
      rw [ImmuneRuntime.returns_map]
      unfold Contains
      dsimp only
      refine ⟨fun ⟨outcome, hok, _⟩ => ⟨outcome, hok⟩, fun hret => ?_⟩
      refine killBy_contains hret fun happlied => ?_
      have hc : contained config (.requestKill policy requester targetType targetId reason
          enteredAt) = some targetId := by
        rw [contained_iff, Call.event, if_pos happlied]
      exact h.lives_contained hc (hreturns.mp (ImmuneRuntime.returns_map.mpr hret) targetId hc)
  | flag entityId reason enteredAt => exact iff_of_true trivial (fun id hid => nomatch hid)
  | analyze entityId => exact iff_of_true trivial (fun id hid => nomatch hid)
  | recover entityId note => exact iff_of_true trivial (fun id hid => nomatch hid)
  | revoke entityId reason => exact iff_of_true trivial (fun id hid => nomatch hid)

/-- **Containment neither throws nor fails just as long as nobody is contained twice**, over every
    history in which the calls on the quarantine itself are legal. -/
theorem contains_iff (h : Run ImmuneRuntime.step Legal (.create config ledger) ls s) :
    Run ImmuneRuntime.step (fun s c => Legal s c ∧ Contains s c) (.create config ledger) ls s ↔
      (ls.filterMap (contained config)).Nodup := by
  refine h.and_iff (P := fun ls => (ls.filterMap (contained config)).Nodup)
    List.nodup_nil fun ls c s s' hr _ _ => ?_
  rw [(kept_of_run hr).contains_call_iff c, List.filterMap_append]
  cases hc : contained config c with
  | none => simp [hc]
  | some id =>
      have hlast : [c].filterMap (contained config) = [id] := by simp [hc]
      rw [hlast, List.nodup_append_comm, List.singleton_append, List.nodup_cons, and_comm]
      simp

/-- What the runtime reads from outside, once. -/
def someReadings : Readings where
  enteredAt := "t1"
  incidentId := "i1"
  detected := ⟨"t1", ⟨"e1", "t1"⟩⟩
  classified := ⟨"t1", ⟨"e2", "t1"⟩⟩
  contained := ⟨"t1", ⟨"e3", "t1"⟩⟩

/-- The request of a runaway agent, which the gate kills. -/
def runaway : Call :=
  .evaluateAndApply
    { principal := { id := "a1", type := .agent, trust := .verified }
      capability := "repo.read"
      observation := some { runStats := some { depth := 1, children := 11, retries := 0 } } }
    someReadings

/-- The runtime once it has killed the agent. -/
def afterRunaway : ImmuneRuntime id := ((ImmuneRuntime.create {} none).call runaway).1

theorem contains_iff_runaway :
    Run ImmuneRuntime.step (fun s c => Legal s c ∧ Contains s c)
      (@ImmuneRuntime.create id {} none) [runaway, runaway] (afterRunaway.call runaway).1 ↔
      ([runaway, runaway].filterMap (contained {})).Nodup :=
  contains_iff (.next (.next .start trivial rfl) trivial rfl)

/-- **The second severe request of the same agent throws.** -/
theorem second_containment_throws :
    Run ImmuneRuntime.step Legal (.create {} none) [runaway] afterRunaway ∧
    afterRunaway.quarantine.isQuarantined "a1" = true ∧
    ¬ Contains afterRunaway runaway ∧
    (match (afterRunaway.call runaway).2 with
      | .error error => error.message
      | .ok _ => "") =
      "Illegal state transition: event 'quarantine' is not allowed from state 'QUARANTINED'" := by
  refine ⟨.next .start trivial rfl, by decide, ?_, by decide⟩
  intro ⟨⟨d, hd⟩, _, _⟩
  cases hd

end Works

end AgentKernel.Immune
