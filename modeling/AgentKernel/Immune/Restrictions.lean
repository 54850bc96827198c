/-
  File:      AgentKernel/Immune/Restrictions.lean
  Subject:   Which restrictions a record of the quarantine carries (kernel/immune/src/quarantine.ts).

  A record is given its restrictions when it is made, and normal ones when it recovers; every other
  transition carries on those it finds. So a suspect that is put into quarantine keeps the normal
  restrictions of its suspicion.

  * `call_spec`: every call that does not throw, as one record made or moved;
  * **`restricted_throughout_iff`**: restrictions match the state throughout a history just when
    nobody is put into quarantine out of a suspicion.
-/
import AgentKernel.Immune.Runtime
import AgentKernel.Lib.Runs

namespace AgentKernel.Immune

open Lib

/-! ## 1. Calls -/

/-- The calls of the quarantine. -/
inductive QuarantineCall where
  | flag (entityId reason enteredAt : String)
  | quarantine (entityId reason : String) (evidence : List String) (enteredAt : String)
  | analyze (entityId : String)
  | recover (entityId : String) (note : Option String)
  | revoke (entityId reason : String)

namespace QuarantineCall

/-- Whom a call is about. -/
def entityId : QuarantineCall → String
  | flag id _ _ | quarantine id _ _ _ | analyze id | recover id _ | revoke id _ => id

/-- The event a call stands for. -/
def event : QuarantineCall → QuarantineEvent
  | flag .. => .flag
  | quarantine .. => .quarantine
  | analyze .. => .analyze
  | recover .. => .recover
  | revoke .. => .revoke

end QuarantineCall

namespace Quarantine

/-- One call. -/
def call (q : Quarantine) : QuarantineCall → Except ImmuneError (Quarantine × QuarantineRecord)
  | .flag entityId reason enteredAt => q.flag entityId reason enteredAt
  | .quarantine entityId reason evidence enteredAt =>
      q.quarantine entityId reason evidence enteredAt
  | .analyze entityId => q.analyze entityId
  | .recover entityId note => q.recover entityId note
  | .revoke entityId reason => q.revoke entityId reason

/-- A call that throws is skipped. -/
def step (q : Quarantine) (c : QuarantineCall) : Option Quarantine :=
  match q.call c with
  | .ok (q', _) => some q'
  | .error _ => some q

/-! ## 2. What a call stores -/

/-- The record that a call makes, or that it makes of the one it finds. -/
def Stores (found : Option QuarantineRecord) (event : QuarantineEvent)
    (new : QuarantineRecord) : Prop :=
  match found with
  | none =>
      event = .flag ∧ new.state = .suspicious ∧ new.restrictions = normalRestrictions ∨
      event = .quarantine ∧ new.state = .quarantined ∧ new.restrictions = fullQuarantine
  | some r =>
      quarantineMachine.transitions r.state event = some new.state ∧
      new.restrictions = if new.state = .recovered then normalRestrictions else r.restrictions

variable {q q' : Quarantine} {c : QuarantineCall} {r : QuarantineRecord}

theorem transition_stores {current : QuarantineRecord} {event : QuarantineEvent} {reason : String}
    {evidence : List String} (h : q.transition current event reason evidence = .ok (q', r)) :
    q'.records = Function.update q.records current.entityId (some r) ∧
      r.entityId = current.entityId ∧ Stores (some current) event r := by
  unfold transition at h
  cases hnext : quarantineMachine.transition current.state event with
  | error error =>
      rw [hnext] at h
      cases h
  | ok next =>
      rw [hnext] at h
      cases h
      exact ⟨rfl, rfl, (StateMachine.transition_eq_ok _).mp hnext, rfl⟩

theorem must_stores {id : String} {event : QuarantineEvent} (h : q.must id event = .ok (q', r)) :
    ∃ current, q.records id = some current ∧
      q'.records = Function.update q.records id (some r) ∧ r.entityId = id ∧
      Stores (some current) event r := by
  unfold must at h
  cases hcurrent : q.records id with
  | none =>
      rw [hcurrent] at h
      cases h
  | some current =>
      rw [hcurrent] at h
      have hid := q.keyed id current hcurrent
      obtain ⟨hrecords, hr, hstores⟩ := transition_stores h
      rw [hid] at hrecords hr
      exact ⟨current, rfl, hrecords, hr, hstores⟩

/-- A call that goes through the table and then stores the record once more. -/
theorem must_set_stores {id : String} {event : QuarantineEvent}
    (stored answer : QuarantineRecord → QuarantineRecord)
    (hid : ∀ new, (stored new).entityId = new.entityId)
    (hstored : ∀ new, Stores (q.records id) event new → Stores (q.records id) event (stored new))
    (h : ((q.must id event).map fun out => (out.1.set (stored out.2), answer out.2)) =
      .ok (q', r)) :
    ∃ new, q'.records = Function.update q.records id (some new) ∧
      Stores (q.records id) event new := by
  cases hmust : q.must id event with
  | error error =>
      rw [hmust] at h
      cases h
  | ok out =>
      obtain ⟨q₁, new⟩ := out
      rw [hmust] at h
      obtain ⟨current, hfound, hrecords, hnew, hstores⟩ := must_stores hmust
      rw [← hfound] at hstores
      refine ⟨stored new, ?_, hstored new hstores⟩
      rw [← (Prod.mk.inj (Except.ok.inj h)).1]
      change Function.update q₁.records (stored new).entityId _ = _
      rw [hrecords, hid, hnew, Function.update_idem]

theorem recover_leads {state next : QuarantineState}
    (h : quarantineMachine.transitions state .recover = some next) : next = .recovered := by
  cases state <;> cases h
  rfl

/-- A recovery, whatever it notes. -/
theorem recover_stores {id : String} (noted : QuarantineRecord → QuarantineRecord)
    (hnoted : ∀ r, (noted r).entityId = r.entityId ∧ (noted r).state = r.state)
    (h : ((q.must id .recover).map fun out =>
      (out.1.set { noted out.2 with restrictions := normalRestrictions }, noted out.2)) =
      .ok (q', r)) :
    ∃ new, q'.records = Function.update q.records id (some new) ∧
      Stores (q.records id) .recover new := by
  refine must_set_stores (fun r => { noted r with restrictions := normalRestrictions }) noted
    (fun r => (hnoted r).1) (fun r hr => ?_) h
  cases hfound : q.records id with
  | none =>
      rw [hfound] at hr
      rcases hr with ⟨hevent, -⟩ | ⟨hevent, -⟩ <;> cases hevent
  | some current =>
      rw [hfound] at hr
      have hrecovered : r.state = .recovered := recover_leads hr.1
      have hstate : (noted r).state = .recovered := (hnoted r).2.trans hrecovered
      refine ⟨?_, ?_⟩
      · dsimp only
        rw [hstate, ← hrecovered]
        exact hr.1
      · dsimp only
        rw [if_pos hstate]

/-- **Every call that does not throw** stores one record, by the table. -/
theorem call_spec (h : q.call c = .ok (q', r)) : ∃ new,
    q'.records = Function.update q.records c.entityId (some new) ∧
      Stores (q.records c.entityId) c.event new := by
  cases c with
  | flag id reason enteredAt =>
      change q.flag id reason enteredAt = _ at h
      unfold flag at h
      cases hfound : q.records id with
      | none =>
          rw [hfound] at h
          cases h
          exact ⟨_, rfl, by rw [QuarantineCall.entityId, hfound]; exact .inl ⟨rfl, rfl, rfl⟩⟩
      | some existing =>
          rw [hfound] at h
          obtain ⟨hrecords, -, hstores⟩ := transition_stores h
          rw [q.keyed id existing hfound] at hrecords
          exact ⟨r, hrecords, by rw [QuarantineCall.entityId, hfound]; exact hstores⟩
  | quarantine id reason evidence enteredAt =>
      change q.quarantine id reason evidence enteredAt = _ at h
      unfold quarantine at h
      cases hfound : q.records id with
      | none =>
          rw [hfound] at h
          cases h
          exact ⟨_, rfl, by rw [QuarantineCall.entityId, hfound]; exact .inr ⟨rfl, rfl, rfl⟩⟩
      | some existing =>
          rw [hfound] at h
          obtain ⟨hrecords, -, hstores⟩ := transition_stores h
          rw [q.keyed id existing hfound] at hrecords
          exact ⟨r, hrecords, by rw [QuarantineCall.entityId, hfound]; exact hstores⟩
  | analyze id =>
      obtain ⟨current, hfound, hrecords, -, hstores⟩ := must_stores h
      exact ⟨r, hrecords, by rw [QuarantineCall.entityId, hfound]; exact hstores⟩
  | recover id note =>
      change q.recover id note = _ at h
      unfold recover at h
      cases note with
      | none => exact recover_stores (fun r => r) (fun _ => ⟨rfl, rfl⟩) h
      | some note =>
          refine recover_stores (fun r =>
            if note = "" then r else { r with reason := r.reason ++ " — recovered: " ++ note })
            (fun r => ?_) h
          split_ifs
          · exact ⟨rfl, rfl⟩
          · exact ⟨rfl, rfl⟩
  | revoke id reason =>
      refine must_set_stores (fun r => { r with reason := reason })
        (fun r => { r with reason := reason }) (fun _ => rfl) (fun new hnew => ?_) h
      change Stores (q.records id) .revoke new at hnew
      change Stores (q.records id) .revoke _
      cases hfound : q.records id with
      | none =>
          rw [hfound] at hnew
          exact hnew
      | some current =>
          rw [hfound] at hnew
          exact hnew

end Quarantine

/-! ## 3. Restrictions over a history -/

/-- The restrictions that a state calls for; none are said of `ACTIVE`. -/
def QuarantineRecord.Restricted (r : QuarantineRecord) : Prop :=
  match r.state with
  | .quarantined | .analysis | .revoked => r.restrictions = fullQuarantine
  | .suspicious | .recovered => r.restrictions = normalRestrictions
  | .active => True

namespace Quarantine

/-- Every record has the restrictions of its state. -/
def Restricted (q : Quarantine) : Prop := ∀ id r, q.records id = some r → r.Restricted

/-- The call puts no suspect into quarantine. -/
def SparesSuspects (q : Quarantine) (c : QuarantineCall) : Prop :=
  c.event = .quarantine → ∀ r, q.records c.entityId = some r → r.state ≠ .suspicious

/-- What the records keep: no record is in the state `ACTIVE`. -/
def Known (q : Quarantine) : Prop := ∀ id r, q.records id = some r → r.state ≠ .active

theorem Stores.ne_active {found : Option QuarantineRecord} {event : QuarantineEvent}
    {new : QuarantineRecord} (h : Stores found event new) : new.state ≠ .active := by
  cases found with
  | none =>
      rcases h with ⟨-, hstate, -⟩ | ⟨-, hstate, -⟩
      · rw [hstate]
        exact nofun
      · rw [hstate]
        exact nofun
  | some r =>
      intro hactive
      have hnext := h.1
      rw [hactive] at hnext
      cases hstate : r.state <;> cases hevent : event <;> rw [hstate, hevent] at hnext <;>
        cases hnext

/-- **The restrictions of what is stored**, in the cases of the table. -/
theorem Stores.restricted {found : Option QuarantineRecord} {event : QuarantineEvent}
    {new : QuarantineRecord} (h : Stores found event new)
    (hfound : ∀ r, found = some r → r.Restricted ∧ r.state ≠ .active)
    (hspares : event = .quarantine → ∀ r, found = some r → r.state ≠ .suspicious) :
    new.Restricted := by
  unfold QuarantineRecord.Restricted
  cases found with
  | none =>
      rcases h with ⟨-, hstate, hnew⟩ | ⟨-, hstate, hnew⟩
      · rw [hstate]
        exact hnew
      · rw [hstate]
        exact hnew
  | some r =>
      obtain ⟨hnext, hnew⟩ := h
      obtain ⟨hr, hactive⟩ := hfound r rfl
      unfold QuarantineRecord.Restricted at hr
      cases hstate : r.state with
      | active => exact absurd hstate hactive
      | suspicious =>
          cases event with
          | quarantine => exact absurd hstate (hspares rfl r rfl)
          | flag | analyze | recover | revoke =>
              rw [hstate] at hnext
              cases hnext
      | quarantined =>
          rw [hstate] at hnext hr
          cases event with
          | analyze =>
              rw [← Option.some.inj hnext] at hnew ⊢
              exact hnew.trans hr
          | flag | quarantine | recover | revoke => cases hnext
      | analysis =>
          rw [hstate] at hnext hr
          cases event with
          | recover =>
              rw [← Option.some.inj hnext] at hnew ⊢
              exact hnew
          | revoke =>
              rw [← Option.some.inj hnext] at hnew ⊢
              exact hnew.trans hr
          | flag | quarantine | analyze => cases hnext
      | recovered | revoked =>
          rw [hstate] at hnext
          cases event <;> cases hnext

/-- The events that put a suspect into quarantine. -/
theorem Stores.of_suspect {r new : QuarantineRecord} (h : Stores (some r) .quarantine new)
    (hr : r.Restricted) (hstate : r.state = .suspicious) :
    new.state = .quarantined ∧ new.restrictions = normalRestrictions := by
  obtain ⟨hnext, hnew⟩ := h
  unfold QuarantineRecord.Restricted at hr
  rw [hstate] at hnext hr
  have hquarantined : new.state = .quarantined := (Option.some.inj hnext).symm
  refine ⟨hquarantined, ?_⟩
  rw [hnew, hquarantined]
  exact hr

section Steps

variable {q q' : Quarantine} {c : QuarantineCall}

theorem step_cases (h : q.step c = some q') : q' = q ∨ ∃ new,
    q'.records = Function.update q.records c.entityId (some new) ∧
      Stores (q.records c.entityId) c.event new := by
  unfold step at h
  cases hcall : q.call c with
  | error error =>
      rw [hcall] at h
      exact .inl (Option.some.inj h).symm
  | ok out =>
      rw [hcall] at h
      exact .inr (Option.some.inj h ▸ call_spec hcall)

/-- The invariant of the histories that spare the suspects. -/
theorem step_restricted (hq : q.Restricted ∧ q.Known) (hspares : q.SparesSuspects c)
    (h : q.step c = some q') : q'.Restricted ∧ q'.Known := by
  rcases step_cases h with rfl | ⟨new, hrecords, hstores⟩
  · exact hq
  · have hnew : new.Restricted :=
      hstores.restricted (fun r hr => ⟨hq.1 _ r hr, hq.2 _ r hr⟩) hspares
    refine ⟨fun id r hr => ?_, fun id r hr => ?_⟩
    all_goals
      rw [hrecords] at hr
      by_cases hid : id = c.entityId
      · rw [hid, Function.update_self] at hr
        rw [← Option.some.inj hr]
        first | exact hnew | exact hstores.ne_active
      · rw [Function.update_of_ne hid] at hr
        first | exact hq.1 id r hr | exact hq.2 id r hr

/-- **A suspect in quarantine has the restrictions of a suspect.** -/
theorem step_of_suspect (hq : q.Restricted) (hno : ¬ q.SparesSuspects c)
    (h : q.step c = some q') : ¬ q'.Restricted := by
  unfold SparesSuspects at hno
  push Not at hno
  obtain ⟨hevent, r, hr, hstate⟩ := hno
  intro hq'
  have hcall : ∃ out, q.call c = .ok out := by
    cases c with
    | flag | analyze | recover | revoke => cases hevent
    | quarantine id reason evidence enteredAt =>
        change q.records id = some r at hr
        change ∃ out, q.quarantine id reason evidence enteredAt = .ok out
        unfold quarantine transition StateMachine.transition
        rw [hr]
        dsimp only
        rw [hstate]
        exact ⟨_, rfl⟩
  obtain ⟨out, hout⟩ := hcall
  unfold step at h
  rw [hout] at h
  obtain ⟨new, hrecords, hstores⟩ := call_spec hout
  rw [hr, hevent] at hstores
  obtain ⟨hquarantined, hnormal⟩ := hstores.of_suspect (hq _ r hr) hstate
  obtain rfl : out.1 = q' := Option.some.inj h
  have hnew : new.Restricted := hq' c.entityId new (by rw [hrecords, Function.update_self])
  unfold QuarantineRecord.Restricted at hnew
  rw [hquarantined] at hnew
  exact absurd (hnormal.symm.trans hnew) (by decide)

end Steps

theorem exists_step (q : Quarantine) (c : QuarantineCall) : ∃ q', q.step c = some q' := by
  unfold step
  cases q.call c with
  | ok out => exact ⟨_, rfl⟩
  | error error => exact ⟨q, rfl⟩

/-- **The restrictions match the states throughout a history of calls just when none of them puts
    a suspect into quarantine.** -/
theorem restricted_throughout_iff (calls : List QuarantineCall) :
    Throughout step .empty calls Restricted ↔ ∃ q, Run step SparesSuspects .empty calls q := by
  obtain ⟨q, hq⟩ := exists_run exists_step .empty calls
  have hstart : Restricted .empty ∧ Known .empty :=
    ⟨fun _ _ h => (nomatch h), fun _ _ h => nomatch h⟩
  have hgood : ∀ ls s, Run step SparesSuspects .empty ls s → s.Restricted ∧ s.Known :=
    fun ls s h => h.invariant (I := fun q => q.Restricted ∧ q.Known) hstart
      fun _ _ _ hI hok hs => step_restricted hI hok hs
  have hiff := hq.throughout_iff (fun ls s h => (hgood ls s h).1)
    fun ls s c s' h hno hs => step_of_suspect (hgood ls s h).1 hno hs
  refine hiff.trans ⟨fun h => ⟨q, h⟩, fun ⟨q', h⟩ => ?_⟩
  have hsame : q' = q := h.functional hq
  exact hsame ▸ h

/-- Flagged first, then put into quarantine. -/
def flaggedThenQuarantined : List QuarantineCall :=
  [.flag "agent-a" "unusual sequence" "t", .quarantine "agent-a" "escalation" [] "t"]

/-- **The agent is in quarantine, and nothing is blocked for it.** -/
theorem suspect_stays_unrestricted : ∃ q r,
    Run step (fun _ _ => True) .empty flaggedThenQuarantined q ∧ q.records "agent-a" = some r ∧
    r.state = .quarantined ∧ r.restrictions = normalRestrictions ∧ ¬ q.Restricted := by
  obtain ⟨q, hq, hr⟩ := Option.map_eq_some_iff.mp (show (exec step .empty flaggedThenQuarantined).map
    (fun q => (q.records "agent-a").map fun r => (r.state, r.restrictions)) =
      some (some (.quarantined, normalRestrictions)) by rfl)
  obtain ⟨r, hfound, hstate⟩ := Option.map_eq_some_iff.mp hr
  obtain ⟨hquarantined, hnormal⟩ := Prod.mk.inj hstate
  refine ⟨q, r, run_of_exec (fun _ _ => trivial) hq, hfound, hquarantined, hnormal, fun hall => ?_⟩
  have hrestricted := hall "agent-a" r hfound
  unfold QuarantineRecord.Restricted at hrestricted
  rw [hquarantined] at hrestricted
  exact absurd (hnormal.symm.trans hrestricted) (by decide)

end Quarantine

end AgentKernel.Immune
