/-
  File:      AgentKernel/Orchestrator/Effects.lean
  Subject:   What one stretch of the executor's code can do to the shared state, said once.

  A stretch writes at most one node record of its own and appends observations: `Core.put`. The
  relations below list the possible results under the status the node has, and every invariant is
  proved by cases on them; no later proof unfolds a function of Executor.lean for it.

  * `HeadRow`: `failNode` up to its first await; `FailRow`: from there on;
  * `Row`: `executeWithRetry` from one await to the next, for a node whose status agrees with the
    place the code awaits at (`Agrees`).

  What is done to a node by the code of another one (skip, prepare, cancel) is in Spread.lean.
-/
import AgentKernel.Orchestrator.Machine

namespace AgentKernel.Orchestrator

/-! ## 1. Writing one node -/

namespace Core

/-- Replace one node record and extend the trace. -/
def put (s : Core) (id : NodeId) (nd : InternalNode) (obs : List Obs) : Core :=
  { s with nodes := fun x => if x = id then nd else s.nodes x, trace := s.trace ++ obs }

section Put

variable (s : Core) (id x : NodeId) (nd nd' : InternalNode) (obs : List Obs) (o : Obs)

theorem status_eq : s.status id = (s.nodes id).status := rfl

theorem put_self : s.put id (s.nodes id) [] = s := by
  have h : (fun x => if x = id then s.nodes id else s.nodes x) = s.nodes := by
    funext x
    split_ifs with hx
    · rw [hx]
    · rfl
  simp [put, h]

theorem observe_eq_put : s.observe o = s.put id (s.nodes id) [o] := by
  conv_lhs => rw [← put_self s id]
  simp [put, observe]

theorem setNode_eq_put : s.setNode id nd = s.put id nd [] := by
  simp [put, setNode]

@[simp] theorem put_put (obs' : List Obs) :
    (s.put id nd obs).put id nd' obs' = s.put id nd' (obs ++ obs') := by
  have h : (fun x => if x = id then nd' else (s.put id nd obs).nodes x) =
      fun x => if x = id then nd' else s.nodes x := by
    funext x
    by_cases hx : x = id <;> simp [put, hx]
  simpa [put] using h

@[simp] theorem put_setNode : (s.put id nd obs).setNode id nd' = s.put id nd' obs := by
  rw [setNode_eq_put, put_put, List.append_nil]

@[simp] theorem put_observe : (s.put id nd obs).observe o = s.put id nd (obs ++ [o]) := by
  simp [put, observe]

@[simp] theorem put_nodes_self : (s.put id nd obs).nodes id = nd := by simp [put]

theorem put_nodes : (s.put id nd obs).nodes x = if x = id then nd else s.nodes x := rfl

theorem put_status : (s.put id nd obs).status x = if x = id then nd.status else s.status x := by
  unfold status
  rw [put_nodes]
  split_ifs <;> rfl

@[simp] theorem put_status_self : (s.put id nd obs).status id = nd.status := by simp [put_status]

@[simp] theorem put_trace : (s.put id nd obs).trace = s.trace ++ obs := rfl
@[simp] theorem put_results : (s.put id nd obs).results = s.results := rfl
@[simp] theorem put_store : (s.put id nd obs).store = s.store := rfl
@[simp] theorem put_late : (s.put id nd obs).late = s.late := rfl
@[simp] theorem put_world : (s.put id nd obs).world = s.world := rfl
@[simp] theorem put_compensated : (s.put id nd obs).compensated = s.compensated := rfl
@[simp] theorem put_completionOrder : (s.put id nd obs).completionOrder = s.completionOrder := rfl

end Put

section Observe

variable (s : Core) (o : Obs) (id : NodeId) (nd : InternalNode)

@[simp] theorem observe_nodes : (s.observe o).nodes = s.nodes := rfl
@[simp] theorem observe_status : (s.observe o).status id = s.status id := rfl
@[simp] theorem observe_trace : (s.observe o).trace = s.trace ++ [o] := rfl
@[simp] theorem observe_results : (s.observe o).results = s.results := rfl
@[simp] theorem observe_store : (s.observe o).store = s.store := rfl
@[simp] theorem observe_late : (s.observe o).late = s.late := rfl
@[simp] theorem observe_world : (s.observe o).world = s.world := rfl
@[simp] theorem observe_compensated : (s.observe o).compensated = s.compensated := rfl
@[simp] theorem observe_completionOrder :
    (s.observe o).completionOrder = s.completionOrder := rfl

@[simp] theorem setFlight_nodes (key : String) (f : Flight) : (s.setFlight key f).nodes = s.nodes :=
  rfl
@[simp] theorem setFlight_status (key : String) (f : Flight) :
    (s.setFlight key f).status id = s.status id := rfl
@[simp] theorem setFlight_trace (key : String) (f : Flight) :
    (s.setFlight key f).trace = s.trace := rfl
@[simp] theorem setFlight_results (key : String) (f : Flight) :
    (s.setFlight key f).results = s.results := rfl
@[simp] theorem setFlight_late (key : String) (f : Flight) : (s.setFlight key f).late = s.late :=
  rfl
@[simp] theorem setFlight_world (key : String) (f : Flight) :
    (s.setFlight key f).world = s.world := rfl
@[simp] theorem setFlight_compensated (key : String) (f : Flight) :
    (s.setFlight key f).compensated = s.compensated := rfl
@[simp] theorem setFlight_completionOrder (key : String) (f : Flight) :
    (s.setFlight key f).completionOrder = s.completionOrder := rfl
@[simp] theorem setFlight_completed (key : String) (f : Flight) :
    (s.setFlight key f).store.completed = s.store.completed := rfl

theorem setFlight_inFlight (key k : String) (f : Flight) :
    (s.setFlight key f).store.inFlight k = if k = key then some f else s.store.inFlight k := rfl

theorem setFlight_self (key : String) (f : Flight) :
    (s.setFlight key f).store.inFlight key = some f := by
  rw [setFlight_inFlight, if_pos rfl]

/-- A legal transition writes the status. -/
theorem fire_ok (st : NodeStatus) {e : NodeEvent}
    (h : nodeStateMachine.transitions (s.status id) e = some st) :
    s.fire id e = .ok (s.put id { s.nodes id with status := st } []) := by
  unfold fire
  rw [(StateMachine.transition_eq_ok _).mpr h]
  exact congrArg _ (setNode_eq_put ..)

/-- An illegal one is observed and thrown. -/
theorem fire_error {e : NodeEvent} (h : nodeStateMachine.transitions (s.status id) e = none) :
    s.fire id e = .error ⟨s.put id (s.nodes id) [.illegal id (s.status id) e],
      illegalTransitionMessage ⟨s.status id, e⟩⟩ := by
  have hc : nodeStateMachine.canTransition (s.status id) e = false := by
    simp [StateMachine.canTransition, h]
  unfold fire
  rw [(StateMachine.transition_eq_error _).mpr ⟨hc, rfl⟩]
  simp [← observe_eq_put]

end Observe

end Core

/-- Code of the node `id` ran: no other node is written, the store is left to the caller, and
    observations are only added. -/
structure Own (id : NodeId) (s s' : Core) : Prop where
  nodes : ∀ x, x ≠ id → s'.nodes x = s.nodes x
  store : s'.store = s.store
  results : s'.results = s.results
  completionOrder : s'.completionOrder = s.completionOrder
  world : s'.world = s.world
  trace : ∃ obs, s'.trace = s.trace ++ obs

section Own

variable {s s' s'' : Core} {id : NodeId}

theorem Own.refl (id : NodeId) (s : Core) : Own id s s :=
  ⟨fun _ _ => rfl, rfl, rfl, rfl, rfl, [], by simp⟩

theorem Own.trans (h : Own id s s') (h' : Own id s' s'') : Own id s s'' := by
  obtain ⟨o, ho⟩ := h.trace
  obtain ⟨o', ho'⟩ := h'.trace
  exact ⟨fun x hx => (h'.nodes x hx).trans (h.nodes x hx), h'.store.trans h.store,
    h'.results.trans h.results, h'.completionOrder.trans h.completionOrder,
    h'.world.trans h.world, o ++ o', by rw [ho', ho, List.append_assoc]⟩

theorem Own.put (s : Core) (id : NodeId) (nd : InternalNode) (obs : List Obs) :
    Own id s (s.put id nd obs) :=
  ⟨fun x hx => by rw [Core.put_nodes, if_neg hx], rfl, rfl, rfl, rfl, obs, rfl⟩

theorem Own.observe (id : NodeId) (s : Core) (o : Obs) : Own id s (s.observe o) :=
  ⟨fun _ _ => rfl, rfl, rfl, rfl, rfl, [o], rfl⟩

theorem Own.status (h : Own id s s') {x : NodeId} (hx : x ≠ id) : s'.status x = s.status x := by
  rw [Core.status_eq, h.nodes x hx, Core.status_eq]

end Own

/-! ## 2. The head of `failNode` -/

/-- The status `failNode` brings a node to before it chooses how the node ends. -/
def headStatus : NodeStatus → NodeStatus
  | .running | .verifying | .ready => .failed
  | st => st

/-- What `failNode` up to its first await leaves: a new core, and where it awaits; no place when
    it has thrown. -/
inductive HeadRow (c : Context) (s : Core) (n : WorkflowNode) (error : String) :
    Bool → Core → Option FailPc → Prop where
  | failed (hw : s.status n.id ≠ .waiting) (ha : c.compensations.actionFor n = none) :
      HeadRow c s n error false
        (s.put n.id
          { s.nodes n.id with status := headStatus (s.status n.id), error := some error }
          [.event (.nodeFailed n.id error (c.compensations.isIrreversible n))])
        (some .persisting)
  | compensates {spec : CompensationAction} (hs : headStatus (s.status n.id) = .failed)
      (ha : c.compensations.actionFor n = some spec) :
      HeadRow c s n error false
        (s.put n.id { s.nodes n.id with status := .compensating, error := some error }
          [.event (.nodeCompensating n.id spec.action)])
        (some (.compensating spec))
  | quarantines (hs : headStatus (s.status n.id) = .failed) :
      HeadRow c s n error true
        (s.put n.id { s.nodes n.id with status := .quarantined, error := some error }
          [.event (.nodeQuarantined n.id error)])
        (some .persisting)
  | waits {q : Bool} (hw : s.status n.id = .waiting) :
      HeadRow c s n error q (s.put n.id (s.nodes n.id) [.illegal n.id .waiting .fail]) none
  | refused {q : Bool} {e : NodeEvent} (hw : s.status n.id ≠ .waiting)
      (hs : headStatus (s.status n.id) ≠ .failed)
      (hq : q = true ∨ (c.compensations.actionFor n).isSome) :
      HeadRow c s n error q
        (s.put n.id { s.nodes n.id with error := some error } [.illegal n.id (s.status n.id) e])
        none

section Head

variable {c : Context} {s : Core} {n : WorkflowNode} {error : String}

theorem headStatus_eq_failed {st : NodeStatus} :
    headStatus st = .failed ↔ st = .running ∨ st = .verifying ∨ st = .ready ∨ st = .failed := by
  cases st <;> simp [headStatus]

theorem headStatus_of_ne {st : NodeStatus} (h : headStatus st ≠ .failed) : headStatus st = st := by
  cases st <;> simp_all [headStatus]

theorem failTransition_ok (hw : s.status n.id ≠ .waiting) :
    failTransition s n = .ok (s.put n.id { s.nodes n.id with status := headStatus (s.status n.id) } []) := by
  have hkeep : ∀ st, s.status n.id = st → headStatus st = st →
      s = s.put n.id { s.nodes n.id with status := headStatus (s.status n.id) } [] := by
    intro st hst hh
    have : { s.nodes n.id with status := headStatus (s.status n.id) } = s.nodes n.id := by
      rw [hst, hh, ← hst]
      rfl
    rw [this, Core.put_self]
  unfold failTransition
  cases hst : s.status n.id with
  | running => exact Core.fire_ok s n.id _ (by rw [hst]; rfl)
  | verifying => exact Core.fire_ok s n.id _ (by rw [hst]; rfl)
  | waiting => exact absurd hst hw
  | ready =>
      show (s.fire n.id .start).bind (fun s => s.fire n.id .fail) = _
      rw [Core.fire_ok s n.id .running (by rw [hst]; rfl)]
      show Core.fire _ _ _ = _
      rw [Core.fire_ok _ n.id .failed (by rw [Core.put_status_self]; rfl)]
      simp [headStatus]
  | _ => exact congrArg _ ((hst ▸ hkeep _ hst rfl :))

/-- The last transition of the head, once the error is written: legal from FAILED only. -/
theorem endFire {e : NodeEvent} {st : NodeStatus} {m : Core}
    (hm : m = s.put n.id
      { s.nodes n.id with status := headStatus (s.status n.id), error := some error } [])
    (hok : nodeStateMachine.transitions .failed e = some st)
    (hno : ∀ x, headStatus x = x → x ≠ .failed → x ≠ .waiting → nodeStateMachine.transitions x e = none)
    (hw : s.status n.id ≠ .waiting) :
    (headStatus (s.status n.id) = .failed ∧
      m.fire n.id e = .ok (s.put n.id { s.nodes n.id with status := st, error := some error } [])) ∨
    (headStatus (s.status n.id) ≠ .failed ∧ ∃ msg, m.fire n.id e = .error ⟨s.put n.id
      { s.nodes n.id with error := some error } [.illegal n.id (s.status n.id) e], msg⟩) := by
  by_cases hs : headStatus (s.status n.id) = .failed
  · refine .inl ⟨hs, ?_⟩
    rw [Core.fire_ok m n.id _ (by rw [hm, Core.put_status_self]; exact hs ▸ hok), hm]
    simp
  · have hk := headStatus_of_ne hs
    refine .inr ⟨hs, illegalTransitionMessage ⟨s.status n.id, e⟩, ?_⟩
    have hsame : { s.nodes n.id with status := headStatus (s.status n.id), error := some error } =
        { s.nodes n.id with error := some error } := by
      rw [hk]
      rfl
    have hst : m.status n.id = s.status n.id := by rw [hm, Core.put_status_self, hk]
    rw [Core.fire_error m n.id (by rw [hst]; exact hno _ hk (hk ▸ hs) hw), hst, hm, hsame]
    simp

/-- **The head of `failNode`.** -/
theorem failNode_row (error : String) (q : Bool) :
    match failNode c s n error q with
    | .ok (s', pc) => HeadRow c s n error q s' (some pc)
    | .error t => HeadRow c s n error q t.core none := by
  by_cases hw : s.status n.id = .waiting
  · have hf : failNode c s n error q = .error ⟨s.put n.id (s.nodes n.id) [.illegal n.id .waiting .fail],
        illegalTransitionMessage ⟨.waiting, .fail⟩⟩ := by
      have ht : failTransition s n = s.fire n.id .fail := by
        unfold failTransition
        rw [hw]
      unfold failNode
      rw [ht, Core.fire_error s n.id (by rw [hw]; rfl), hw]
      rfl
    rw [hf]
    exact .waits hw
  · obtain ⟨m, hm⟩ : ∃ m, m = s.put n.id
        { s.nodes n.id with status := headStatus (s.status n.id), error := some error } [] := ⟨_, rfl⟩
    have hset : (s.put n.id { s.nodes n.id with status := headStatus (s.status n.id) } []).setError
        n.id error = m := by
      rw [hm]
      simp [Core.setError]
    have hf : failNode c s n error q =
        (if q then (m.fire n.id .quarantine).bind fun s =>
          .ok (s.emit (.nodeQuarantined n.id error), .persisting)
        else
          (c.compensations.actionFor n).elim
            (.ok (m.emit (.nodeFailed n.id error (c.compensations.isIrreversible n)), .persisting))
            fun spec => (m.fire n.id .compensate).bind fun s =>
              .ok (s.emit (.nodeCompensating n.id spec.action), .compensating spec)) := by
      unfold failNode
      rw [failTransition_ok hw, ← hset]
      cases q <;> cases c.compensations.actionFor n <;> rfl
    rw [hf]
    cases q with
    | true =>
        rcases endFire hm (e := .quarantine) rfl (by intro x; cases x <;> simp [nodeStateMachine]) hw with
          ⟨hs, h⟩ | ⟨hs, _, h⟩
        · simp only [h, if_true, Except.bind, Core.emit, Core.put_observe, List.nil_append]
          exact .quarantines hs
        · simp only [h, if_true, Except.bind]
          exact .refused hw hs (.inl rfl)
    | false =>
        cases ha : c.compensations.actionFor n with
        | none =>
            simp only [Bool.false_eq_true, if_false, Option.elim_none, hm, Core.emit,
              Core.put_observe, List.nil_append]
            exact .failed hw ha
        | some spec =>
            rcases endFire hm (e := .compensate) rfl (by intro x; cases x <;> simp [nodeStateMachine])
              hw with ⟨hs, h⟩ | ⟨hs, _, h⟩
            · simp only [h, Bool.false_eq_true, if_false, Option.elim_some, Except.bind, Core.emit,
                Core.put_observe, List.nil_append]
              exact .compensates hs ha
            · simp only [h, Bool.false_eq_true, if_false, Option.elim_some, Except.bind]
              exact .refused hw hs (.inr (by simp [ha]))

theorem HeadRow.own {q : Bool} {s' : Core} {pc : Option FailPc}
    (h : HeadRow c s n error q s' pc) : Own n.id s s' := by
  cases h <;> exact Own.put ..

end Head

/-! ## 3. The rest of `failNode` -/

/-- What `failNode` leaves at its next await. -/
inductive FailRow (c : Context) (s : Core) (n : WorkflowNode) (error : String) :
    FailPc → Answer → Core → FailPc → Prop where
  | undoes {spec : CompensationAction} :
      FailRow c s n error (.compensating spec) .tick
        (s.invoke n.id .compensation spec.action (some (orEmpty spec.input)))
        (.undoing spec s.trace.length)
  | rollsBack {spec : CompensationAction} {call : Nat} {o : RunOutcome} {s' : Core} {pc : FailPc}
      (hs : s.status n.id = .compensating)
      (hsweep : sweepNext c (s.put n.id { s.nodes n.id with status := .rolledBack }
        [.settled call n.id .compensation o, .event (.nodeRolledBack n.id error)]) n.id
        s.completionOrder.reverse = (s', pc)) :
      FailRow c s n error (.undoing spec call) (.run o) s' pc
  | swept {id : NodeId} {spec : CompensationAction} {call : Nat} {rest : List NodeId}
      {o : RunOutcome} {s' : Core} {pc : FailPc}
      (hsweep : sweepNext c ({ s.observe (.settled call id .upstream o) with
        compensated := s.compensated ++ [id] }.emit (.nodeCompensated id spec.action)) n.id rest =
        (s', pc)) :
      FailRow c s n error (.sweeping id spec call rest) (.run o) s' pc

section Fail

variable {c : Context} {s s' : Core} {n : WorkflowNode} {error : String} {pc pc' : FailPc}
  {a : Answer} {failed : NodeId}

/-- **The next call of a sweep**: none is left, or it is a call for a completed node with a
    compensation action. -/
theorem sweepNext_cases : ∀ {l : List NodeId}, sweepNext c s failed l = (s', pc) →
    (s' = s ∧ pc = .persisting) ∨
    ∃ id spec rest m, s' = s.invoke id .upstream spec.action (some (orEmpty spec.input)) ∧
      pc = .sweeping id spec s.trace.length rest ∧ id ∈ l ∧ rest ⊆ l ∧ id ≠ failed ∧
      s.status id = .completed ∧ nodeById c.graph id = some m ∧
      c.compensations.actionFor m = some spec
  | [], h => by
      cases h
      exact .inl ⟨rfl, rfl⟩
  | id :: rest, h => by
      unfold sweepNext at h
      split at h
      · rename_i spec hspec
        cases h
        split_ifs at hspec with hskip
        obtain ⟨m, hm, ha⟩ := Option.bind_eq_some_iff.mp hspec
        simp only [not_or, not_not] at hskip
        exact .inr ⟨id, spec, rest, m, rfl, rfl, List.mem_cons_self,
          List.subset_cons_self _ _, hskip.1, hskip.2, hm, ha⟩
      · rcases sweepNext_cases h with h | ⟨id', spec, rest', m, hs', hpc, hmem, hsub, hrest⟩
        · exact .inl h
        · exact .inr ⟨id', spec, rest', m, hs', hpc, List.mem_cons_of_mem _ hmem,
            fun x hx => List.mem_cons_of_mem _ (hsub hx), hrest⟩

/-- **The rest of `failNode`.** -/
theorem failStep_row {r : FailStep} (h : failStep c s n error pc a = some r) :
    match r with
    | .more s' pc' => FailRow c s n error pc a s' pc'
    | .done s' => pc = .persisting ∧ a = .tick ∧ s' = s
    | .threw t => ∃ spec call o, pc = .undoing spec call ∧ a = .run o ∧
        s.status n.id ≠ .compensating ∧ t.core = s.put n.id (s.nodes n.id)
          [.settled call n.id .compensation o, .illegal n.id (s.status n.id) .rollback] := by
  unfold failStep at h
  split at h
  · cases h
    exact .undoes
  · rename_i spec call o
    dsimp only at h
    by_cases hs : s.status n.id = .compensating
    · rw [Core.observe_eq_put s n.id,
        Core.fire_ok _ n.id .rolledBack (by rw [Core.put_status_self, ← Core.status_eq, hs]; rfl)] at h
      cases h
      refine .rollsBack hs ?_
      simp [Core.emit]
    · have hno : nodeStateMachine.transitions (s.status n.id) .rollback = none := by
        revert hs
        cases s.status n.id <;> simp [nodeStateMachine]
      rw [Core.observe_eq_put s n.id,
        Core.fire_error _ n.id (by rw [Core.put_status_self]; exact hno)] at h
      cases h
      exact ⟨spec, call, o, rfl, rfl, hs, by simp [Core.status]⟩
  · cases h
    exact .swept rfl
  · cases h
    exact ⟨rfl, rfl, rfl⟩
  · cases h

theorem sweepNext_own {l : List NodeId} (h : sweepNext c s failed l = (s', pc)) (id : NodeId) :
    Own id s s' := by
  rcases sweepNext_cases h with ⟨rfl, -⟩ | ⟨_, _, _, _, rfl, _⟩
  · exact .refl id _
  · exact .observe id s _

theorem FailRow.own (h : FailRow c s n error pc a s' pc') : Own n.id s s' := by
  cases h with
  | undoes => exact .observe _ _ _
  | rollsBack hs hsweep => exact (Own.put ..).trans (sweepNext_own hsweep n.id)
  | swept hsweep =>
      refine Own.trans ?_ (sweepNext_own hsweep n.id)
      exact Own.trans (⟨fun _ _ => rfl, rfl, rfl, rfl, rfl, _, rfl⟩ :
        Own n.id s { s.observe _ with compensated := _ }) (.observe _ _ _)

end Fail

/-! ## 4. The attempts of a node -/

/-- The status a node has while its execution awaits at a place. -/
def Agrees : FlightPc → NodeStatus → Prop
  | .ran, st | .answered _ true, st | .calling .., st | .judged _, st => st = .running
  | .waiting _, st => st = .waiting
  | .answered _ false, st => st = .failed
  | .threw _, st => st = .running ∨ st = .waiting ∨ st = .failed
  | .verified _, st => st = .verifying
  | .retrying, st => st = .retrying
  | .failing _ _ (.compensating _), st | .failing _ _ (.undoing ..), st => st = .compensating
  | .failing _ _ (.sweeping ..), st => st = .rolledBack
  | .failing _ _ .persisting, st => st = .failed ∨ st = .quarantined ∨ st = .rolledBack
  | .rejected _, _ => True

/-- What `executeWithRetry` leaves at its next await, for a node whose status agrees with the
    place the code was at. After `concludes` the skipping of the other branch follows. -/
inductive Row (c : Context) (s : Core) (f : Flight) : FlightPc → Answer → Core → FlightPc → Prop where
  | throws {pc : FlightPc} {a : Answer} {e : String}
      (hpc : pc = .ran ∨ (∃ req, pc = .waiting req) ∨ ∃ req granted, pc = .answered req granted)
      (h : flightNext c s f pc a = some (s, .threw e)) : Row c s f pc a s (.threw e)
  | calls {pc : FlightPc} {action : String} {input : Option Json}
      (hgate : (pc = .ran ∧ (f.node.kind = .conditional ∨ s.world.requiresApproval action = false)) ∨
        ∃ req, pc = .answered req true ∧ req.action = action)
      (h : flightNext c s f pc .tick = some (s.invoke f.node.id .forward action input,
        .calling action input s.trace.length)) :
      Row c s f pc .tick (s.invoke f.node.id .forward action input)
        (.calling action input s.trace.length)
  | concludes {pc pc' : FlightPc} {a : Answer} {obs : List Obs} {cond : ConditionSpec}
      {source : NodeResult}
      (hkind : f.node.kind = .conditional) (hcond : f.node.condition = some cond)
      (hsrc : (pc = .ran ∧ a = .tick ∧ obs = [] ∧ truthy f.node.action = none ∧
          s.results cond.condition.nodeId = some source) ∨
        ∃ action input call, pc = .calling action input call ∧ a = .run (.resolved source) ∧
          obs = [.settled call f.node.id .forward (.resolved source)])
      (hpc : pc' = .judged (conditionResult f.node cond source) ∨ ∃ e, pc' = .threw e) :
      Row c s f pc a (s.put f.node.id (s.nodes f.node.id) obs) pc'
  | asks {action : String} (hs : s.status f.node.id = .running)
      (haction : (f.node.kind = .approval ∧ action = approvalAction f.node) ∨
        (f.node.kind = .action ∧ action = f.node.action.getD "" ∧
          s.world.requiresApproval action = true)) :
      Row c s f .ran .tick
        (s.put f.node.id { s.nodes f.node.id with status := .waiting }
          [.event (.approvalRequired (approvalRequest f.node action))])
        (.waiting (approvalRequest f.node action))
  | answers {req : ApprovalRequest} {granted : Bool} (hs : s.status f.node.id = .waiting) :
      Row c s f (.waiting req) (.approval granted)
        (s.put f.node.id
          { s.nodes f.node.id with status := if granted then .running else .failed }
          [.approval f.node.id req.action granted,
            .event (if granted then .approvalGranted req else .approvalDenied req)])
        (.answered req granted)
  | approved {req : ApprovalRequest} (hkind : f.node.kind = .approval) :
      Row c s f (.answered req true) .tick s (.judged (approvalResult f.node req.action))
  | settles {action : String} {input : Option Json} {call : Nat} {o : RunOutcome} {pc' : FlightPc}
      (hpc : (∃ r, o = .resolved r ∧ r.status = .success ∧ pc' = .judged r ∧
          (f.node.kind ≠ .conditional ∨ f.node.condition = none)) ∨
        (∃ r, o = .resolved r ∧ r.status = .failure ∧ pc' = .threw (failureError r) ∧
          (f.node.kind ≠ .conditional ∨ f.node.condition = none)) ∨
        ∃ e, o = .rejected e ∧ pc' = .threw e) :
      Row c s f (.calling action input call) (.run o)
        (s.put f.node.id (s.nodes f.node.id) [.settled call f.node.id .forward o]) pc'
  | timesOut {action : String} {input : Option Json} {call ms : Nat}
      (hms : f.node.timeoutMs = some (ms + 1)) :
      Row c s f (.calling action input call) .timeout
        { s with late := s.late ++ [(call, f.node.id)] }
        (.threw ("timeout after " ++ toString (ms + 1) ++ "ms"))
  | verifies {r : NodeResult} (hs : s.status f.node.id = .running) :
      Row c s f (.judged r) .tick
        (s.put f.node.id { s.nodes f.node.id with status := .verifying }
          [.event (.nodeVerified f.node.id r.status r.evidence)])
        (.verified r)
  | retries {e : String} (hagain : willRetry s f.node f.job.attempt e = true)
      (hs : s.status f.node.id = .running) :
      Row c s f (.threw e) .tick
        (s.put f.node.id
          { s.nodes f.node.id with
            status := .retrying, failureCount := (s.nodes f.node.id).failureCount + 1 }
          [.event (.nodeRetrying f.node.id f.job.attempt (f.job.attempt + 1) e)])
        .retrying
  | retryRefused {e message : String} (hagain : willRetry s f.node f.job.attempt e = true)
      (hs : s.status f.node.id ≠ .running) :
      Row c s f (.threw e) .tick
        (s.put f.node.id
          { s.nodes f.node.id with failureCount := (s.nodes f.node.id).failureCount + 1 }
          [.illegal f.node.id (s.status f.node.id) .fail])
        (.rejected message)
  | fails {e reported : String} {q : Bool} {s' : Core} {pc' : FailPc}
      (hagain : willRetry s f.node f.job.attempt e = false)
      (hq : q = ((s.world.assess f.node.id ((s.nodes f.node.id).failureCount + 1) e).map
        (·.quarantine)).getD false)
      (hhead : HeadRow c (s.countFailure f.node.id) f.node reported q s' (some pc')) :
      Row c s f (.threw e) .tick s' (.failing e reported pc')
  | failRefused {e reported message : String} {q : Bool} {s' : Core}
      (hagain : willRetry s f.node f.job.attempt e = false)
      (hhead : HeadRow c (s.countFailure f.node.id) f.node reported q s' none) :
      Row c s f (.threw e) .tick s' (.rejected message)
  | resumes (hs : s.status f.node.id = .retrying) :
      Row c s f .retrying .tick
        (s.put f.node.id
          { s.nodes f.node.id with status := .running, attempt := f.job.attempt + 1 }
          [.event (.nodeRunning f.node.id f.job.id (f.job.attempt + 1) f.job.operationId)])
        .ran
  | ending {thrown error : String} {pc pc' : FailPc} {a : Answer} {s' : Core}
      (h : FailRow c s f.node error pc a s' pc') :
      Row c s f (.failing thrown error pc) a s' (.failing thrown error pc')
  | ended {thrown error : String} :
      Row c s f (.failing thrown error .persisting) .tick s (.rejected thrown)

section Attempts

variable {c : Context} {s s' : Core} {f : Flight} {pc' : FlightPc} {a : Answer}

theorem beginAttempt_ok {n : WorkflowNode} {job : WorkflowJob}
    (h : s.status n.id = .ready ∨ s.status n.id = .retrying) :
    beginAttempt s n job = (s.put n.id
      { s.nodes n.id with status := .running, attempt := job.attempt }
      [.event (.nodeRunning n.id job.id job.attempt job.operationId)], .ran) := by
  have hst : (s.setAttempt n.id job.attempt).status n.id = s.status n.id := by
    simp [Core.setAttempt, Core.setNode, Core.status]
  unfold beginAttempt
  dsimp only
  rcases h with h | h
  · rw [hst, h, if_neg (by decide),
      Core.fire_ok _ n.id .running (by rw [hst, h]; rfl)]
    simp [Core.setAttempt, Core.setNode_eq_put, Core.emit]
  · rw [hst, h, if_pos rfl, Core.fire_ok _ n.id .running (by rw [hst, h]; rfl)]
    simp [Core.setAttempt, Core.setNode_eq_put, Core.emit]

theorem beginAttempt_refused {n : WorkflowNode} (job : WorkflowJob)
    (h : s.status n.id ≠ .ready) (h' : s.status n.id ≠ .retrying) :
    ∃ message, beginAttempt s n job = (s.put n.id { s.nodes n.id with attempt := job.attempt }
      [.illegal n.id (s.status n.id) .start], .rejected message) := by
  have hst : (s.setAttempt n.id job.attempt).status n.id = s.status n.id := by
    simp [Core.setAttempt, Core.setNode, Core.status]
  have hno : nodeStateMachine.transitions (s.status n.id) .start = none := by
    revert h
    cases s.status n.id <;> simp [nodeStateMachine]
  refine ⟨illegalTransitionMessage ⟨s.status n.id, .start⟩, ?_⟩
  unfold beginAttempt
  dsimp only
  rw [hst, if_neg h', Core.fire_error _ n.id (by rw [hst]; exact hno), hst]
  simp [Core.setAttempt, Core.setNode_eq_put]

/-- The result a conditional reads its verdict off in a stretch that comes to one. -/
def verdictSource (s : Core) (f : Flight) (cond : ConditionSpec) : FlightPc → Answer →
    Option NodeResult
  | .ran, .tick =>
      match truthy f.node.action with
      | some _ => none
      | none => s.results cond.condition.nodeId
  | .calling .., .run (.resolved r) => some r
  | _, _ => none

/-- The rows a stretch ends in, and the skipping that follows a conclusion. -/
def Ends (c : Context) (s : Core) (f : Flight) (pc : FlightPc) (a : Answer) (s' : Core)
    (pc' : FlightPc) : Prop :=
  ∃ s₁, Row c s f pc a s₁ pc' ∧
    (s₁ = s' ∨ ∃ cond source, f.node.kind = .conditional ∧ f.node.condition = some cond ∧
      verdictSource s f cond pc a = some source ∧ conclude c s₁ f.node cond source = (s', pc'))

theorem Row.ends {pc : FlightPc} (h : Row c s f pc a s' pc') : Ends c s f pc a s' pc' :=
  ⟨s', h, .inl rfl⟩

theorem conclude_pc {n : WorkflowNode} {cond : ConditionSpec} {source : NodeResult}
    (h : conclude c s n cond source = (s', pc')) :
    pc' = .judged (conditionResult n cond source) ∨ ∃ e, pc' = .threw e := by
  unfold conclude at h
  dsimp only at h
  split at h
  · cases h
    exact .inl rfl
  · cases h
    exact .inr ⟨_, rfl⟩

theorem callForward_ends {pc : FlightPc} (action : String)
    (hpc : pc = .ran ∨ (∃ req, pc = .waiting req) ∨ ∃ req granted, pc = .answered req granted)
    (hgate : (pc = .ran ∧ (f.node.kind = .conditional ∨ s.world.requiresApproval action = false)) ∨
      ∃ req, pc = .answered req true ∧ req.action = action)
    (heq : flightNext c s f pc .tick = some (callForward s f.node action))
    (h : flightNext c s f pc .tick = some (s', pc')) : Ends c s f pc .tick s' pc' := by
  have hc : callForward s f.node action = (s', pc') := by
    rw [heq] at h
    exact Option.some.inj h
  unfold callForward at hc
  split at hc
  · cases hc
    exact (Row.throws hpc h).ends
  · cases hc
    exact (Row.calls hgate h).ends

theorem requestApproval_ends {action : String} (hs : s.status f.node.id = .running)
    (haction : (f.node.kind = .approval ∧ action = approvalAction f.node) ∨
      (f.node.kind = .action ∧ action = f.node.action.getD "" ∧
        s.world.requiresApproval action = true))
    (h : requestApproval s f.node action = (s', pc')) : Ends c s f .ran .tick s' pc' := by
  unfold requestApproval at h
  rw [Core.fire_ok s f.node.id .waiting (by rw [hs]; rfl)] at h
  cases h
  rw [Core.emit, Core.put_observe]
  exact (Row.asks hs haction).ends

theorem runNodeAction_ends (hs : s.status f.node.id = .running)
    (h : flightNext c s f .ran .tick = some (s', pc')) : Ends c s f .ran .tick s' pc' := by
  have hr : runNodeAction c s f.node = (s', pc') := Option.some.inj h
  unfold runNodeAction at hr
  split at hr
  · rename_i hkind
    split at hr
    · cases hr
      exact (Row.throws (.inl rfl) h).ends
    · rename_i cond hcond
      split at hr
      · rename_i action haction
        exact callForward_ends _ (.inl rfl) (.inl ⟨rfl, .inl hkind⟩)
          (by rw [h, hr]) h
      · rename_i haction
        split at hr
        · rename_i source hsource
          have hrow : Row c s f .ran .tick _ pc' := Row.concludes hkind hcond
            (.inl ⟨rfl, rfl, rfl, haction, hsource⟩) (conclude_pc hr)
          rw [Core.put_self] at hrow
          refine ⟨s, hrow, .inr ⟨cond, source, hkind, hcond, ?_, hr⟩⟩
          simp only [verdictSource, haction]
          exact hsource
        · cases hr
          exact (Row.throws (.inl rfl) h).ends
  · rename_i hkind
    exact requestApproval_ends hs (.inl ⟨hkind, rfl⟩) hr
  · rename_i hkind
    split_ifs at hr with hreq
    · exact requestApproval_ends hs (.inr ⟨hkind, rfl, hreq⟩) hr
    · exact callForward_ends _ (.inl rfl) (.inl ⟨rfl, .inr (by simpa using hreq)⟩) (by rw [h, hr]) h

theorem afterRun_ends {action : String} {input : Option Json} {call : Nat} {o : RunOutcome}
    (h : flightNext c s f (.calling action input call) (.run o) = some (s', pc')) :
    Ends c s f (.calling action input call) (.run o) s' pc' := by
  have hr : afterRun c (s.observe (.settled call f.node.id .forward o)) f.node o = (s', pc') :=
    Option.some.inj h
  rw [Core.observe_eq_put s f.node.id] at hr
  unfold afterRun at hr
  split at hr
  · cases hr
    exact (Row.settles (.inr (.inr ⟨_, rfl, rfl⟩))).ends
  · rename_i r
    split at hr
    · rename_i cond hkind hcond
      exact ⟨_, Row.concludes hkind hcond (.inr ⟨action, input, call, rfl, rfl, rfl⟩)
        (conclude_pc hr), .inr ⟨cond, r, hkind, hcond, rfl, hr⟩⟩
    · rename_i hno
      have hcond : f.node.kind ≠ .conditional ∨ f.node.condition = none := by
        refine or_iff_not_imp_left.mpr fun hk => ?_
        cases hc : f.node.condition with
        | none => rfl
        | some cond => exact absurd hc (hno cond (not_not.mp hk))
      split at hr
      · rename_i hst
        cases hr
        exact (Row.settles (.inr (.inl ⟨r, rfl, hst, rfl, hcond⟩))).ends
      · rename_i hst
        cases hr
        exact (Row.settles (.inl ⟨r, rfl, hst, rfl, hcond⟩)).ends

theorem catchAttempt_ends {e : String}
    (hs : s.status f.node.id = .running ∨ s.status f.node.id = .waiting ∨
      s.status f.node.id = .failed)
    (h : catchAttempt c s f.node f.job.attempt e = (s', pc')) :
    Ends c s f (.threw e) .tick s' pc' := by
  have hcount : s.countFailure f.node.id = s.put f.node.id { s.nodes f.node.id with
      failureCount := (s.nodes f.node.id).failureCount + 1 } [] := Core.setNode_eq_put ..
  unfold catchAttempt at h
  dsimp only at h
  split at h
  · rename_i hagain
    have hbind : (do
        let s ← (s.countFailure f.node.id).fire f.node.id .fail
        s.fire f.node.id .retry : Except Thrown Core) =
        ((s.countFailure f.node.id).fire f.node.id .fail).bind fun s => s.fire f.node.id .retry := rfl
    rw [hbind, hcount] at h
    by_cases hrun : s.status f.node.id = .running
    · rw [Core.fire_ok _ f.node.id .failed
        (by rw [Core.put_status_self, ← Core.status_eq, hrun]; rfl), Except.bind,
        Core.fire_ok _ f.node.id .retrying (by rw [Core.put_status_self]; rfl)] at h
      cases h
      simp only [Core.emit, Core.put_put, Core.put_observe, Core.put_nodes_self, List.nil_append]
      exact (Row.retries hagain hrun).ends
    · have hno : nodeStateMachine.transitions (s.status f.node.id) .fail = none := by
        rcases hs with hs | hs | hs
        · exact absurd hs hrun
        · rw [hs]
          rfl
        · rw [hs]
          rfl
      rw [Core.fire_error _ f.node.id (by rw [Core.put_status_self]; exact hno), Except.bind] at h
      cases h
      simp only [Core.put_put, Core.put_nodes_self, Core.put_status_self, List.nil_append]
      exact (Row.retryRefused hagain hrun).ends
  · rename_i hagain
    simp only [Bool.not_eq_true] at hagain
    have hrow := failNode_row (c := c) (s := s.countFailure f.node.id) (n := f.node)
      (if (((s.world.assess f.node.id ((s.nodes f.node.id).failureCount + 1) e).map
          (·.stop)).getD false) = true
        then ((s.world.assess f.node.id ((s.nodes f.node.id).failureCount + 1) e).bind
          (·.reason)).getD e else e)
      (((s.world.assess f.node.id ((s.nodes f.node.id).failureCount + 1) e).map
        (·.quarantine)).getD false)
    have hw : ((s.countFailure f.node.id).nodes f.node.id).failureCount =
        (s.nodes f.node.id).failureCount + 1 := by rw [hcount, Core.put_nodes_self]
    have hworld : (s.countFailure f.node.id).world = s.world := rfl
    rw [hw, hworld] at h
    split at h
    · rename_i t ht
      cases h
      rw [ht] at hrow
      exact (Row.failRefused hagain hrow).ends
    · rename_i s₁ pc₁ ht
      cases h
      rw [ht] at hrow
      exact (Row.fails hagain rfl hrow).ends

/-- **What a stretch of `executeWithRetry` does.** -/
theorem flightNext_ends {pc : FlightPc} (hag : Agrees pc (s.status f.node.id))
    (h : flightNext c s f pc a = some (s', pc')) : Ends c s f pc a s' pc' := by
  have h₀ := h
  unfold flightNext at h
  split at h
  · exact runNodeAction_ends hag h₀
  · cases h
    exact (Row.throws (.inl rfl) h₀).ends
  · rename_i req granted
    have hs : s.status f.node.id = .waiting := hag
    have hfire : (s.observe (.approval f.node.id req.action granted)).fire f.node.id
        (if granted then .approve else .deny) =
        .ok (s.put f.node.id
          { s.nodes f.node.id with status := if granted then .running else .failed }
          [.approval f.node.id req.action granted]) := by
      rw [Core.fire_ok _ f.node.id (if granted then .running else .failed)
        (by rw [Core.observe_status, hs]; cases granted <;> rfl), Core.observe_eq_put s f.node.id,
        Core.put_put, Core.put_nodes_self, List.append_nil]
    unfold recordApproval at h
    dsimp only at h
    rw [hfire] at h
    cases h
    rw [Core.emit, Core.put_observe]
    exact (Row.answers hs).ends
  · cases h
    exact (Row.throws (.inr (.inl ⟨_, rfl⟩)) h₀).ends
  · rename_i req granted
    unfold afterApproval at h
    split_ifs at h with hg
    · subst hg
      split at h
      · rename_i hkind
        cases h
        exact (Row.approved hkind).ends
      · rename_i hkind
        refine callForward_ends req.action (.inr (.inr ⟨req, true, rfl⟩))
          (.inr ⟨req, rfl, rfl⟩) ?_ h₀
        rw [h₀]
        exact h.symm
    · cases h
      exact (Row.throws (.inr (.inr ⟨req, granted, rfl⟩)) h₀).ends
  · exact afterRun_ends h₀
  · split at h
    · rename_i hms
      cases h
      exact (Row.timesOut hms).ends
    · cases h
  · rename_i r
    have hs : s.status f.node.id = .running := hag
    unfold verifyNode at h
    rw [Core.fire_ok s f.node.id .verifying (by rw [hs]; rfl)] at h
    cases h
    rw [Core.emit, Core.put_observe]
    exact (Row.verifies hs).ends
  · exact catchAttempt_ends hag (Option.some.inj h)
  · have hs : s.status f.node.id = .retrying := hag
    rw [beginAttempt_ok (.inr hs)] at h
    cases h
    exact (Row.resumes hs).ends
  · rename_i thrown error pc a
    split at h
    · rename_i hf
      cases h
      exact (Row.ending (failStep_row hf)).ends
    · rename_i hf
      cases h
      obtain ⟨rfl, rfl, rfl⟩ := failStep_row hf
      exact (Row.ended).ends
    · rename_i hf
      obtain ⟨spec, call, o, rfl, rfl, hne, -⟩ := failStep_row hf
      exact absurd hag hne
    · cases h
  · cases h

theorem Row.own {pc : FlightPc} (h : Row c s f pc a s' pc') : Own f.node.id s s' := by
  have hcount : Own f.node.id s (s.countFailure f.node.id) := by
    rw [Core.countFailure, Core.setNode_eq_put]
    exact .put ..
  cases h with
  | throws | approved | ended => exact .refl _ _
  | calls => exact .observe _ _ _
  | timesOut => exact ⟨fun _ _ => rfl, rfl, rfl, rfl, rfl, [], by simp⟩
  | fails _ _ hhead => exact hcount.trans hhead.own
  | failRefused _ hhead => exact hcount.trans hhead.own
  | ending h => exact h.own
  | _ => exact Own.put ..

theorem beginAttempt_own {n : WorkflowNode} {job : WorkflowJob} :
    Own n.id s (beginAttempt s n job).1 := by
  by_cases h : s.status n.id = .ready ∨ s.status n.id = .retrying
  · rw [beginAttempt_ok h]
    exact .put ..
  · simp only [not_or] at h
    obtain ⟨m, he⟩ := beginAttempt_refused job h.1 h.2
    rw [he]
    exact .put ..

end Attempts

end AgentKernel.Orchestrator
