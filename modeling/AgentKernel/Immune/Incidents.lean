/-
  File:      AgentKernel/Immune/Incidents.lean
  Subject:   Incident records and their evidence in the ledger (kernel/immune/src/incident.ts).

  An incident is told three times: by its record, by the timeline in it and by the events of its
  id in the ledger. The engine writes them in three places, and any number of incidents share the
  one ledger.

  * `reached` reads the events of an incident as a run of `INCIDENT_MACHINE`;
  * `call_cases`: a call throws and leaves all as it was, or records one phase of one incident;
  * **`incidents_in_step`**: after every history of calls the three tell the same story.

  The ids of new incidents are random: no event of the ledger is of such an id before.
-/
import AgentKernel.Immune.Runtime
import AgentKernel.Lib.Runs

namespace AgentKernel.Immune

open Lib Events

variable {sha256 : String → String}

/-! ## 1. The events of an incident -/

/-- The events of one incident, in the order of the ledger. -/
def evidence (ledger : Ledger sha256) (id : String) : List LedgerEvent :=
  ledger.events.filter (·.runId = id)

/-- The step of the machine that an event records, by its type. -/
def phaseOf (type : String) : Option IncidentEvent :=
  [IncidentEvent.classify, .contain, .recover, .verify, .close].find? fun event =>
    type = "immune.incident." ++ event.text

/-- The state of the machine after one more event. -/
def advance (state : IncidentState) (e : LedgerEvent) : Option IncidentState := do
  let event ← phaseOf e.type
  incidentMachine.transitions state event

/-- The state that the events of an incident lead to. -/
def reached : List LedgerEvent → Option IncidentState
  | [] => none
  | first :: rest =>
      if first.type = "immune.incident.detected" then rest.foldlM advance .detected else none

/-- A record that tells what the events tell. -/
structure Recounts (record : IncidentRecord) (events : List LedgerEvent) : Prop where
  hashes : record.evidenceHashes = events.map (·.hash)
  timeline : record.timeline.length = events.length
  state : reached events = some record.state

theorem phaseOf_text (event : IncidentEvent) :
    phaseOf ("immune.incident." ++ event.text) = some event := by
  cases event <;> decide

section Events

variable {ledger : Ledger sha256} {id : String} {events : List LedgerEvent} {e : LedgerEvent}
  {state next : IncidentState} {event : IncidentEvent}

theorem evidence_append (draft : LedgerEventDraft) (stamp : Stamp) (id : String) :
    evidence (ledger.append draft stamp) id =
      evidence ledger id ++ if draft.runId = id then [ledger.event draft stamp] else [] := by
  unfold evidence Ledger.append
  rw [List.filter_append]
  congr 1
  by_cases hid : draft.runId = id
  · rw [if_pos hid]
    exact List.filter_cons_of_pos (decide_eq_true hid)
  · rw [if_neg hid]
    exact List.filter_cons_of_neg fun heq => hid (of_decide_eq_true heq)

theorem reached_cons (first : LedgerEvent) (rest : List LedgerEvent) :
    reached (first :: rest) =
      if first.type = "immune.incident.detected" then rest.foldlM advance .detected else none :=
  rfl

theorem reached_first (htype : e.type = "immune.incident.detected") :
    reached [e] = some .detected := by
  rw [reached_cons, if_pos htype]
  rfl

/-- One more event takes the machine one step on. -/
theorem reached_snoc (h : reached events = some state)
    (htype : e.type = "immune.incident." ++ event.text)
    (hnext : incidentMachine.transitions state event = some next) :
    reached (events ++ [e]) = some next := by
  cases events with
  | nil => cases h
  | cons first rest =>
      rw [reached_cons] at h
      split_ifs at h with hfirst
      have hlast : advance state e = some next := by
        unfold advance
        rw [htype, phaseOf_text]
        exact hnext
      rw [List.cons_append, reached_cons, if_pos hfirst, List.foldlM_append, h]
      simpa using hlast

end Events

/-! ## 2. Calls -/

/-- The calls of the engine. -/
inductive IncidentCall where
  | detect (id title : String) (severity : RiskSeverity) (detections : List String)
      (now : PhaseStamp)
  | classify (id : String) (severity : RiskSeverity) (now : PhaseStamp)
  | contain (id note : String) (now : PhaseStamp)
  | recover (id note : String) (now : PhaseStamp)
  | verify (id note : String) (now : PhaseStamp)
  | close (id note : String) (now : PhaseStamp)

namespace IncidentEngine

/-- What a call leaves behind and answers; one that throws has not touched the engine. -/
def settle (engine : IncidentEngine sha256)
    (result : Except ImmuneError (IncidentEngine sha256 × IncidentRecord)) :
    IncidentEngine sha256 × Except ImmuneError IncidentRecord :=
  match result with
  | .ok (engine, record) => (engine, .ok record)
  | .error error => (engine, .error error)

/-- One call; what throws leaves everything as it was. -/
def call (engine : IncidentEngine sha256) :
    IncidentCall → IncidentEngine sha256 × Except ImmuneError IncidentRecord
  | .detect id title severity detections now =>
      engine.settle (.ok (engine.detect id title severity detections now))
  | .classify id severity now => engine.settle (engine.classify id severity now)
  | .contain id note now => engine.settle (engine.contain id note now)
  | .recover id note now => engine.settle (engine.recover id note now)
  | .verify id note now => engine.settle (engine.verify id note now)
  | .close id note now => engine.settle (engine.close id note now)

/-- Every call leads to an engine, also one that throws. -/
def next (engine : IncidentEngine sha256) (c : IncidentCall) : Option (IncidentEngine sha256) :=
  some (engine.call c).1

/-- A new engine over a ledger. -/
def new (ledger : Ledger sha256) : IncidentEngine sha256 where
  incidents _ := none
  ledger := some ledger

/-- A call that throws leaves every incident and the ledger as they were. -/
theorem settle_error {engine : IncidentEngine sha256}
    {result : Except ImmuneError (IncidentEngine sha256 × IncidentRecord)} {error : ImmuneError}
    (h : (engine.settle result).2 = .error error) : (engine.settle result).1 = engine := by
  cases result with
  | ok result => cases h
  | error error => rfl

end IncidentEngine

/-- The id that `detect` draws is not the id of any event so far. -/
def Fresh (engine : IncidentEngine sha256) : IncidentCall → Prop
  | .detect id _ _ _ _ => ∀ ledger, engine.ledger = some ledger → evidence ledger id = []
  | _ => True

/-! ## 3. The records and the ledger in step -/

/-- Every record stands under its id and tells what the events of its id tell. -/
structure InStep (engine : IncidentEngine sha256) (ledger : Ledger sha256) : Prop where
  writes : engine.ledger = some ledger
  keyed : ∀ id record, engine.incidents id = some record → record.id = id
  recounts : ∀ id record, engine.incidents id = some record → Recounts record (evidence ledger id)

/-- The engine with one incident told anew, and one more event of that incident. -/
structure Tells (engine engine' : IncidentEngine sha256) (ledger : Ledger sha256)
    (record : IncidentRecord) (draft : LedgerEventDraft) (stamp : Stamp) : Prop where
  writes : engine'.ledger = some (ledger.append draft stamp)
  incidents : engine'.incidents = Function.update engine.incidents record.id (some record)
  runId : draft.runId = record.id

namespace InStep

variable {engine engine' : IncidentEngine sha256} {ledger : Ledger sha256}
  {record : IncidentRecord} {draft : LedgerEventDraft} {stamp : Stamp}

theorem new (ledger : Ledger sha256) : InStep (IncidentEngine.new ledger) ledger :=
  ⟨rfl, nofun, nofun⟩

/-- **The three stay in step** when an incident and its events go on together. -/
theorem tells (h : InStep engine ledger) (ht : Tells engine engine' ledger record draft stamp)
    (hrecord : Recounts record (evidence ledger record.id ++ [ledger.event draft stamp])) :
    InStep engine' (ledger.append draft stamp) := by
  refine ⟨ht.writes, ?_, ?_⟩
  · intro id other hother
    rw [ht.incidents] at hother
    by_cases hid : id = record.id
    · subst hid
      rw [Function.update_self] at hother
      rw [← Option.some.inj hother]
    · rw [Function.update_of_ne hid] at hother
      exact h.keyed id other hother
  · intro id other hother
    rw [ht.incidents] at hother
    rw [evidence_append, ht.runId]
    by_cases hid : id = record.id
    · subst hid
      rw [Function.update_self] at hother
      rw [if_pos rfl, ← Option.some.inj hother]
      exact hrecord
    · -- the event is of another incident
      rw [Function.update_of_ne hid] at hother
      rw [if_neg (Ne.symm hid), List.append_nil]
      exact h.recounts id other hother

theorem detect (h : InStep engine ledger) {id : String} (hfresh : evidence ledger id = [])
    (title : String) (severity : RiskSeverity) (detections : List String) (now : PhaseStamp) :
    ∃ ledger', InStep (engine.detect id title severity detections now).1 ledger' := by
  unfold IncidentEngine.detect IncidentEngine.record
  rw [h.writes]
  refine ⟨_, h.tells ⟨rfl, rfl, rfl⟩ ⟨?_, ?_, ?_⟩⟩
  · rw [hfresh]
    rfl
  · rw [hfresh]
    rfl
  · rw [hfresh]
    exact reached_first rfl

theorem step (h : InStep engine ledger) {id note : String} {event : IncidentEvent}
    {now : PhaseStamp} (hstep : engine.step id event note now = .ok (engine', record)) :
    (∃ ledger', InStep engine' ledger') ∧ engine'.incidents id = some record := by
  unfold IncidentEngine.step at hstep
  split at hstep
  · cases hstep
  · rename_i current hcurrent
    split at hstep
    · cases hstep
    · rename_i next htrans
      have hnext := (StateMachine.transition_eq_ok _).mp htrans
      obtain rfl := h.keyed id current hcurrent
      obtain ⟨hhashes, htimeline, hstate⟩ := h.recounts current.id current hcurrent
      unfold IncidentEngine.record at hstep
      rw [h.writes] at hstep
      cases hstep
      refine ⟨⟨_, h.tells ⟨rfl, rfl, rfl⟩ ⟨?_, ?_, ?_⟩⟩, Function.update_self _ _ _⟩
      · rw [List.map_append, List.map_singleton, ← hhashes]
        rfl
      · rw [List.length_append, List.length_append, htimeline]
        rfl
      · exact reached_snoc hstate rfl hnext

/-- The severity is not told by any event. -/
theorem severity (h : InStep engine ledger) {id : String}
    (hrecord : engine.incidents id = some record) (severity : RiskSeverity) : InStep
      { engine with
        incidents := Function.update engine.incidents id
          (some { record with severity := severity }) } ledger := by
  refine ⟨h.writes, ?_, ?_⟩
  · intro id' other hother
    dsimp only at hother
    by_cases hid : id' = id
    · subst hid
      rw [Function.update_self] at hother
      rw [← Option.some.inj hother]
      exact h.keyed id' record hrecord
    · rw [Function.update_of_ne hid] at hother
      exact h.keyed id' other hother
  · intro id' other hother
    dsimp only at hother
    by_cases hid : id' = id
    · subst hid
      rw [Function.update_self] at hother
      obtain ⟨hhashes, htimeline, hstate⟩ := h.recounts id' record hrecord
      rw [← Option.some.inj hother]
      exact ⟨hhashes, htimeline, hstate⟩
    · rw [Function.update_of_ne hid] at hother
      exact h.recounts id' other hother

/-- Whatever a step leaves behind, thrown or not. -/
theorem settle_step (h : InStep engine ledger) (id note : String) (event : IncidentEvent)
    (now : PhaseStamp) :
    ∃ ledger', InStep (engine.settle (engine.step id event note now)).1 ledger' := by
  cases hstep : engine.step id event note now with
  | error error => exact ⟨ledger, h⟩
  | ok result => exact (h.step hstep).1

theorem classify (h : InStep engine ledger) (id : String) (severity : RiskSeverity)
    (now : PhaseStamp) :
    ∃ ledger', InStep (engine.settle (engine.classify id severity now)).1 ledger' := by
  unfold IncidentEngine.classify
  cases hstep : engine.step id .classify ("classified as " ++ severity.text) now with
  | error error => exact ⟨ledger, h⟩
  | ok result =>
      obtain ⟨⟨ledger', h'⟩, hrecord⟩ := h.step hstep
      exact ⟨ledger', h'.severity hrecord severity⟩

/-- **The step lemma**: one call, of whatever kind and outcome. -/
theorem call (h : InStep engine ledger) {c : IncidentCall} (hfresh : Fresh engine c) :
    ∃ ledger', InStep (engine.call c).1 ledger' := by
  cases c with
  | detect id title severity detections now =>
      exact h.detect (hfresh ledger h.writes) title severity detections now
  | classify id severity now => exact h.classify id severity now
  | contain id note now => exact h.settle_step id note .contain now
  | recover id note now => exact h.settle_step id note .recover now
  | verify id note now => exact h.settle_step id note .verify now
  | close id note now => exact h.settle_step id note .close now

end InStep

/-! ## 4. Histories of calls -/

/-- A call that throws leaves every incident and the ledger as they were. -/
theorem call_error {engine : IncidentEngine sha256} {c : IncidentCall} {error : ImmuneError}
    (h : (engine.call c).2 = .error error) : (engine.call c).1 = engine := by
  cases c <;> exact IncidentEngine.settle_error h

/-- **Records, timelines and ledger in step**, after every history of legal and illegal calls. -/
theorem incidents_in_step {ledger : Ledger sha256} {calls : List IncidentCall}
    {engine : IncidentEngine sha256}
    (h : Run IncidentEngine.next Fresh (IncidentEngine.new ledger) calls engine) :
    (∃ ledger', engine.ledger = some ledger' ∧ ∀ id record, engine.incidents id = some record →
      record.evidenceHashes = (evidence ledger' id).map (·.hash) ∧
      record.timeline.length = (evidence ledger' id).length ∧
      reached (evidence ledger' id) = some record.state) ∧
    ∀ c error, (engine.call c).2 = .error error → (engine.call c).1 = engine := by
  have hinv : ∃ ledger', InStep engine ledger' := by
    refine Run.invariant (I := fun engine => ∃ ledger', InStep engine ledger')
      ⟨ledger, InStep.new ledger⟩ ?_ h
    rintro engine c engine' ⟨ledger', hstep⟩ hfresh hnext
    obtain rfl := Option.some.inj hnext
    exact hstep.call hfresh
  obtain ⟨ledger', hstep⟩ := hinv
  refine ⟨⟨ledger', hstep.writes, fun id record hrecord => ?_⟩, fun c error => call_error⟩
  obtain ⟨hhashes, htimeline, hstate⟩ := hstep.recounts id record hrecord
  exact ⟨hhashes, htimeline, hstate⟩

/-- One moment for everything. -/
def noon : PhaseStamp := ⟨"2026-01-01T12:00:00.000Z", ⟨"e", "2026-01-01T12:00:00.000Z"⟩⟩

/-- Two incidents, a legal step, an illegal one and one on an incident nobody knows. -/
def drill : List IncidentCall :=
  [.detect "i1" "leak" .high [] noon, .detect "i2" "loop" .medium ["runaway"] noon,
    .classify "i1" .critical noon, .recover "i2" "too early" noon, .close "i3" "unknown" noon]

theorem drill_in_step : ∃ engine : IncidentEngine id,
    Run IncidentEngine.next Fresh (IncidentEngine.new (Ledger.empty id)) drill engine ∧
    (∃ ledger', engine.ledger = some ledger' ∧ ∀ id record, engine.incidents id = some record →
      record.evidenceHashes = (evidence ledger' id).map (·.hash) ∧
      record.timeline.length = (evidence ledger' id).length ∧
      reached (evidence ledger' id) = some record.state) ∧
    ∀ c error, (engine.call c).2 = .error error → (engine.call c).1 = engine := by
  have hfirst : Fresh (IncidentEngine.new (Ledger.empty id))
      (.detect "i1" "leak" .high [] noon) := by
    rintro ledger ⟨⟩
    rfl
  have hsecond : Fresh ((IncidentEngine.new (Ledger.empty id)).call
      (.detect "i1" "leak" .high [] noon)).1 (.detect "i2" "loop" .medium ["runaway"] noon) := by
    rintro ledger ⟨⟩
    rfl
  have hclassify (engine : IncidentEngine id) : Fresh engine (.classify "i1" .critical noon) :=
    trivial
  have hrecover (engine : IncidentEngine id) : Fresh engine (.recover "i2" "too early" noon) :=
    trivial
  have hclose (engine : IncidentEngine id) : Fresh engine (.close "i3" "unknown" noon) := trivial
  have hnext (engine : IncidentEngine id) (c : IncidentCall) :
      engine.next c = some (engine.call c).1 := rfl
  have hdetected := (Run.start.next hfirst (hnext _ _)).next hsecond (hnext _ _)
  have hrun := ((hdetected.next (hclassify _) (hnext _ _)).next (hrecover _) (hnext _ _)).next
    (hclose _) (hnext _ _)
  exact ⟨_, hrun, incidents_in_step hrun⟩

end AgentKernel.Immune
