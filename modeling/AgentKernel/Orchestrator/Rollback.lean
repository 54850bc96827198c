/-
  File:      AgentKernel/Orchestrator/Rollback.lean
  Subject:   No fake rollback: what `outcome.rolledBack` lists, against what the compensation calls
             answered.

  Both compensation paths swallow the rejection of their call and do not look at the status of
  its result; the node is listed as rolled back either way. So the list is honest at every moment
  of a run if and only if every compensation call that settles succeeds, or is for a node that
  has been compensated successfully before (**`honest_iff`**).
-/
import AgentKernel.Orchestrator.Failing

namespace AgentKernel.Orchestrator

open Lib

/-! ## 1. The property and its condition -/

/-- A call of the compensation action of the node `id` has resolved with status 'success'. -/
def Backed (c : Context) (past : List Obs) (id : NodeId) : Prop :=
  ∃ n ∈ c.graph, n.id = id ∧ ∃ spec, c.compensations.actionFor n = some spec ∧
    ∃ call purpose input gate r, purpose ≠ .forward ∧
      .called call id purpose spec.action input gate ∈ past ∧
      .settled call id purpose (.resolved r) ∈ past ∧ r.status = .success

/-- Whatever the outcome lists as rolled back has been compensated. -/
def Honest (c : Context) (s : State) : Prop :=
  ∀ id ∈ (outcome c s).rolledBack, Backed c s.core.trace id

/-- The compensation call that an answer settles inside `failNode`: for the node itself, as long
    as it is COMPENSATING, or for the node the sweep is at. -/
def undoPc (s : Core) (n : WorkflowNode) : FailPc → Answer → Option (NodeId × RunOutcome)
  | .undoing .., .run o => if s.status n.id = .compensating then some (n.id, o) else none
  | .sweeping id .., .run o => some (id, o)
  | _, _ => none

/-- The compensation call that a step settles. -/
def settlesUndo (s : State) : Label → Option (NodeId × RunOutcome)
  | .flight key a =>
      match s.core.store.inFlight key with
      | some ⟨n, _, .failing _ _ pc⟩ => undoPc s.core n pc a
      | _ => none
  | .worker i a =>
      match s.workers[i]? with
      | some (.failing _ n _ pc) => undoPc s.core n pc a
      | _ => none
  | _ => none

/-- The call has succeeded. -/
def RunOutcome.succeeds : RunOutcome → Prop
  | .resolved r => r.status = .success
  | .rejected _ => False

/-- A compensation call that settles succeeds, unless the node has been compensated before. -/
def UndoSucceeds (c : Context) (s : State) (l : Label) : Prop :=
  ∀ id o, settlesUndo s l = some (id, o) → o.succeeds ∨ Backed c s.core.trace id

/-! ## 2. Compensation calls under way -/

/-- What the code of `failNode` knows of the call it awaits. -/
def UndoCall (c : Context) (x : Core) (n : WorkflowNode) : FailPc → Prop
  | .compensating spec => c.compensations.actionFor n = some spec
  | .undoing spec call => c.compensations.actionFor n = some spec ∧
      ∃ input gate, .called call n.id .compensation spec.action input gate ∈ x.trace
  | .sweeping id spec call _ =>
      (∃ m ∈ c.graph, m.id = id ∧ c.compensations.actionFor m = some spec) ∧
        ∃ input gate, .called call id .upstream spec.action input gate ∈ x.trace
  | .persisting => True

section Calls

variable {c : Context} {s s' : State} {x y : Core} {n : WorkflowNode} {l : Label}

theorem UndoCall.later {pc : FailPc} (hl : Later x y) (h : UndoCall c x n pc) :
    UndoCall c y n pc := by
  cases pc with
  | compensating spec => exact h
  | undoing spec call =>
      obtain ⟨ha, input, gate, hm⟩ := h
      exact ⟨ha, input, gate, hl.mem hm⟩
  | sweeping id spec call rest =>
      obtain ⟨ha, input, gate, hm⟩ := h
      exact ⟨ha, input, gate, hl.mem hm⟩
  | persisting => trivial

theorem HeadRow.undoCall {error : String} {q : Bool} {pc : FailPc}
    (h : HeadRow c x n error q y (some pc)) : UndoCall c y n pc := by
  cases h with
  | failed | quarantines => trivial
  | compensates _ ha => exact ha

theorem sweepNext_undoCall {failed : NodeId} {ids : List NodeId} {pc : FailPc}
    (h : sweepNext c x failed ids = (y, pc)) : UndoCall c y n pc := by
  rcases sweepNext_cases h with ⟨-, rfl⟩ | ⟨id, spec, rest, m, rfl, rfl, -, -, -, -, hm, ha⟩
  · trivial
  · obtain ⟨hmem, hid⟩ := mem_of_nodeById hm
    exact ⟨⟨m, hmem, hid, ha⟩, _, _, List.mem_append_right _ List.mem_cons_self⟩

theorem FailRow.undoCall {error : String} {pc pc' : FailPc} {a : Answer} (hc : UndoCall c x n pc)
    (h : FailRow c x n error pc a y pc') : UndoCall c y n pc' := by
  cases h with
  | undoes => exact ⟨hc, _, _, List.mem_append_right _ List.mem_cons_self⟩
  | rollsBack hs hx => exact sweepNext_undoCall hx
  | swept hx => exact sweepNext_undoCall hx

theorem undoCalls_step (hnd : (c.graph.map (·.id)).Nodup) (hS : State.Sound c s)
    (h : Failing (UndoCall c) s) (hs : step c s l = some s') : Failing (UndoCall c) s' :=
  h.step hnd hS (fun hl hc => hc.later hl) (fun _ hrow => hrow.undoCall)
    (fun _ hc hrow => hrow.undoCall hc) hs

end Calls

/-! ## 3. What one step adds to the list -/

/-- The compensation call an observation settles. -/
def Obs.undo : Obs → Option (NodeId × RunOutcome)
  | .settled _ id .compensation o | .settled _ id .upstream o => some (id, o)
  | _ => none

/-- Listed as rolled back. -/
def Claimed (s : Core) (id : NodeId) : Prop := s.status id = .rolledBack ∨ id ∈ s.compensated

/-- Every successful settlement is one of a compensation call. -/
def Earned (c : Context) (past : List Obs) : Prop :=
  ∀ p ∈ past, ∀ id o, p.undo = some (id, o) → o.succeeds → Backed c past id

/-- The claims a step adds are those of `u`, and if there is one, so are the settlements. -/
structure Tally (c : Context) (u : Option (NodeId × RunOutcome)) (x y : Core) : Prop where
  trace : ∃ obs, y.trace = x.trace ++ obs ∧
    ∀ p ∈ obs, ∀ v v', p.undo = some v → u = some v' → v = v'
  claims : ∀ id, Claimed y id → Claimed x id ∨
    ∃ o, u = some (id, o) ∧ ∃ p ∈ y.trace, p.undo = some (id, o)
  earned : Earned c x.trace → Earned c y.trace

section Tally

variable {c : Context} {s s' : State} {x y z : Core} {n : WorkflowNode} {l : Label}
  {u : Option (NodeId × RunOutcome)} {obs : List Obs} {id : NodeId}

theorem Backed.append {past : List Obs} (h : Backed c past id) (obs : List Obs) :
    Backed c (past ++ obs) id := by
  obtain ⟨n, hn, hid, spec, ha, call, purpose, input, gate, r, hp, hc, hs, hr⟩ := h
  exact ⟨n, hn, hid, spec, ha, call, purpose, input, gate, r, hp, List.mem_append_left _ hc,
    List.mem_append_left _ hs, hr⟩

theorem Backed.later (h : Backed c x.trace id) (hl : Later x y) : Backed c y.trace id := by
  obtain ⟨obs, hobs⟩ := hl.trace
  rw [hobs]
  exact h.append obs

/-- A step that settles no compensation call and rolls nothing back. -/
theorem Tally.quiet (htrace : y.trace = x.trace ++ obs) (hobs : ∀ p ∈ obs, p.undo = none)
    (hst : ∀ id, y.status id = .rolledBack → x.status id = .rolledBack)
    (hcomp : y.compensated = x.compensated) : Tally c u x y := by
  refine ⟨⟨obs, htrace, fun p hp v _ hv => ?_⟩, fun id hc => .inl ?_, fun he p hp id o hu hs => ?_⟩
  · rw [hobs p hp] at hv
    cases hv
  · rcases hc with hc | hc
    · exact .inl (hst id hc)
    · exact .inr (hcomp ▸ hc)
  · rw [htrace] at hp ⊢
    rcases List.mem_append.mp hp with hp | hp
    · exact (he p hp id o hu hs).append obs
    · rw [hobs p hp] at hu
      cases hu

/-- A step that observes nothing. -/
theorem Tally.silent (htrace : y.trace = x.trace)
    (hst : ∀ id, y.status id = .rolledBack → x.status id = .rolledBack)
    (hcomp : y.compensated = x.compensated) : Tally c u x y :=
  .quiet (htrace.trans (List.append_nil _).symm) (fun _ h => absurd h List.not_mem_nil) hst hcomp

theorem Tally.refl (x : Core) : Tally c u x x := .silent rfl (fun _ h => h) rfl

theorem Tally.trans (h : Tally c u x y) (h' : Tally c u y z) : Tally c u x z := by
  obtain ⟨o, ho, hu⟩ := h.trace
  obtain ⟨o', ho', hu'⟩ := h'.trace
  refine ⟨⟨o ++ o', by rw [ho', ho, List.append_assoc], fun p hp v v' hv hv' => ?_⟩,
    fun id hc => ?_, fun he => h'.earned (h.earned he)⟩
  · rcases List.mem_append.mp hp with hp | hp
    · exact hu p hp v v' hv hv'
    · exact hu' p hp v v' hv hv'
  · rcases h'.claims id hc with hc | hc
    · rcases h.claims id hc with hc | ⟨o, he, p, hp, hpu⟩
      · exact .inl hc
      · refine .inr ⟨o, he, p, ?_, hpu⟩
        rw [ho']
        exact List.mem_append_left _ hp
    · exact .inr hc

/-- One settlement of a compensation call whose node and action are known. -/
theorem Tally.settles {call : Nat} {purpose : Purpose} {spec : CompensationAction} {o : RunOutcome}
    {m : WorkflowNode} {p : Obs} (hp : purpose ≠ .forward) (hpu : p.undo = none)
    (hm : m ∈ c.graph) (hid : m.id = id) (ha : c.compensations.actionFor m = some spec)
    (hcall : ∃ input gate, .called call id purpose spec.action input gate ∈ x.trace)
    (htrace : y.trace = x.trace ++ [.settled call id purpose o, p])
    (hu : ∀ v, u = some v → v = (id, o))
    (hclaims : ∀ k, Claimed y k → Claimed x k ∨ k = id ∧ u = some (id, o)) : Tally c u x y := by
  have hundo : (Obs.settled call id purpose o).undo = some (id, o) := by
    cases purpose with
    | forward => exact absurd rfl hp
    | compensation | upstream => rfl
  have hmem : Obs.settled call id purpose o ∈ y.trace := by
    rw [htrace]
    exact List.mem_append_right _ List.mem_cons_self
  have hnew : ∀ p' ∈ [Obs.settled call id purpose o, p], ∀ v, p'.undo = some v → v = (id, o) := by
    intro p' hp' v hv
    rcases List.mem_cons.mp hp' with rfl | hp'
    · rw [hundo] at hv
      exact (Option.some.inj hv).symm
    · cases List.mem_singleton.mp hp'
      rw [hpu] at hv
      cases hv
  refine ⟨⟨_, htrace, fun p' hp' v v' hv hv' => ?_⟩, fun k hc => ?_, fun he p' hp' k o' hu' hs => ?_⟩
  · rw [hnew p' hp' v hv, hu v' hv']
  · rcases hclaims k hc with hc | ⟨rfl, hu⟩
    · exact .inl hc
    · exact .inr ⟨o, hu, _, hmem, hundo⟩
  · rw [htrace] at hp' ⊢
    rcases List.mem_append.mp hp' with hp' | hp'
    · exact (he p' hp' k o' hu' hs).append _
    · obtain ⟨rfl, rfl⟩ := Prod.mk.inj (hnew p' hp' _ hu')
      obtain ⟨input, gate, hcall⟩ := hcall
      cases o' with
      | rejected e => exact hs.elim
      | resolved r =>
          exact ⟨m, hm, hid, spec, ha, call, purpose, input, gate, r, ‹_›,
            List.mem_append_left _ hcall, List.mem_append_right _ List.mem_cons_self, hs⟩

theorem own_ne_forward : Purpose.compensation ≠ .forward := by decide

theorem upstream_ne_forward : Purpose.upstream ≠ .forward := by decide

theorem headStatus_rolledBack {st : NodeStatus} (h : headStatus st = .rolledBack) :
    st = .rolledBack := by
  cases st <;> simp_all [headStatus]

/-- A write to one node that does not roll it back. -/
theorem Tally.put {nd : InternalNode} (hobs : ∀ p ∈ obs, p.undo = none)
    (hst : nd.status = .rolledBack → x.status id = .rolledBack) :
    Tally c u x (x.put id nd obs) := by
  refine .quiet rfl hobs (fun k hk => ?_) rfl
  rw [Core.put_status] at hk
  split_ifs at hk with hx
  · rw [hx]
    exact hst hk
  · exact hk

theorem HeadRow.tally {error : String} {q : Bool} {pc : Option FailPc}
    (h : HeadRow c x n error q y pc) : Tally c u x y := by
  cases h with
  | failed => exact .put (by simp [Obs.undo]) headStatus_rolledBack
  | compensates | quarantines => exact .put (by simp [Obs.undo]) fun h => by cases h
  | waits | refused => exact .put (by simp [Obs.undo]) id

theorem sweepNext_tally {failed : NodeId} {ids : List NodeId} {pc : FailPc}
    (h : sweepNext c x failed ids = (y, pc)) : Tally c u x y := by
  rcases sweepNext_cases h with ⟨rfl, -⟩ | ⟨_, _, _, _, rfl, _⟩
  · exact .refl _
  · exact .quiet rfl (by simp [Obs.undo]) (fun _ h => h) rfl

/-- **The rest of `failNode` claims what it settles.** -/
theorem FailRow.tally {error : String} {pc pc' : FailPc} {a : Answer} (hn : n ∈ c.graph)
    (hc : UndoCall c x n pc) (h : FailRow c x n error pc a y pc') :
    Tally c (undoPc x n pc a) x y := by
  cases h with
  | undoes => exact .quiet rfl (by simp [Obs.undo]) (fun _ h => h) rfl
  | @rollsBack spec call o s' pc hs hx =>
      rw [undoPc, if_pos hs]
      refine Tally.trans ?_ (sweepNext_tally hx)
      refine .settles (p := .event (.nodeRolledBack n.id error)) own_ne_forward rfl hn rfl hc.1
        hc.2 rfl (fun v hv => (Option.some.inj hv).symm) fun k hk => ?_
      rcases hk with hk | hk
      · rw [Core.put_status] at hk
        split_ifs at hk with hid
        · exact .inr ⟨hid, rfl⟩
        · exact .inl (.inl hk)
      · exact .inl (.inr hk)
  | @swept id spec call rest o s' pc hx =>
      obtain ⟨⟨m, hm, hid, ha⟩, hcall⟩ := hc
      refine Tally.trans ?_ (sweepNext_tally hx)
      refine .settles (p := .event (.nodeCompensated id spec.action)) upstream_ne_forward rfl hm hid
        ha hcall (by simp [Core.emit]) (fun v hv => (Option.some.inj hv).symm) fun k hk => ?_
      rcases hk with hk | hk
      · exact .inl (.inl hk)
      · rcases List.mem_append.mp hk with hk | hk
        · exact .inl (.inr hk)
        · exact .inr ⟨List.mem_singleton.mp hk, rfl⟩

theorem Row.tally {f : Flight} {pc pc' : FlightPc} {a : Answer} (hn : f.node ∈ c.graph)
    (hc : ∀ thrown error p, pc = .failing thrown error p → UndoCall c x f.node p)
    (hu : ∀ thrown error p, pc = .failing thrown error p → u = undoPc x f.node p a)
    (h : Row c x f pc a y pc') : Tally c u x y := by
  cases h with
  | throws | approved | ended => exact .refl _
  | timesOut => exact .silent rfl (fun _ h => h) rfl
  | calls => exact .quiet rfl (by simp [Obs.undo]) (fun _ h => h) rfl
  | concludes hkind hcond hsrc =>
      refine .put (fun p hp => ?_) fun h => h
      rcases hsrc with ⟨-, -, rfl, -⟩ | ⟨_, _, _, -, -, rfl⟩
      · cases hp
      · cases List.mem_singleton.mp hp
        rfl
  | @answers req granted =>
      refine .put (fun p hp => ?_) fun h => ?_
      · rcases List.mem_cons.mp hp with rfl | hp
        · rfl
        · cases List.mem_singleton.mp hp
          rfl
      · cases granted <;> cases h
  | settles | retryRefused => exact .put (by simp [Obs.undo]) fun h => h
  | asks | verifies | retries | resumes => exact .put (by simp [Obs.undo]) fun h => by cases h
  | fails _ _ hhead | failRefused _ hhead =>
      refine Tally.trans ?_ hhead.tally
      rw [Core.countFailure, Core.setNode_eq_put]
      exact .put (fun _ h => absurd h List.not_mem_nil) fun h => h
  | @ending thrown error p p' a y hrow =>
      rw [hu thrown error p rfl]
      exact hrow.tally hn (hc thrown error p rfl)

theorem beginAttempt_tally {job : WorkflowJob} : Tally c u x (beginAttempt x n job).1 := by
  by_cases hs : x.status n.id = .ready ∨ x.status n.id = .retrying
  · rw [beginAttempt_ok hs]
    exact .put (by simp [Obs.undo]) fun h => by cases h
  · simp only [not_or] at hs
    obtain ⟨_, he⟩ := beginAttempt_refused job hs.1 hs.2
    rw [he]
    exact .put (by simp [Obs.undo]) id

theorem Act.tally (hS : Core.Sound c s.core) (hc : Failing (UndoCall c) s) (ha : Act c s l y) : Tally c (settlesUndo s l) s.core y := by
  cases ha with
  | idle => exact .refl _
  | settles | world => exact .silent rfl (fun _ h => h) rfl
  | @flight key f a z pc hf hrow =>
      refine Tally.trans (y := z) (hrow.tally (hS.flight key f hf).1 (fun thrown error p hp =>
        hc.flight key f thrown error p hf hp) fun thrown error p hp => ?_) ?_
      · obtain ⟨n, job, pc⟩ := f
        subst hp
        rw [settlesUndo, hf]
      · exact .silent rfl (fun _ h => h) rfl
  | begins =>
      exact beginAttempt_tally.trans (.silent rfl (fun _ h => h) rfl)
  | @completes i n r =>
      refine .quiet (show _ = s.core.trace ++
        [.event (.nodeCompleted n.id r (operationId c n) (keyOf c n))] from rfl)
        (by simp [Obs.undo]) (fun k hk => ?_) rfl
      rw [doneCore_status] at hk
      split_ifs at hk
      exact hk
  | givesUp hw hn hend ht hcore hcaught hrow =>
      refine Tally.trans ?_ hrow.tally
      rcases hcore with rfl | rfl
      · exact .refl _
      · exact .quiet rfl (by simp [Obs.undo]) (fun _ h => h) rfl
  | @ending i job n error a z pc pc' hw hn hend hrow =>
      have hu : settlesUndo s (.worker i a) = undoPc s.core n pc a := by rw [settlesUndo, hw]
      rw [hu]
      exact hrow.tally hn (hc.worker job n error pc (List.mem_of_getElem? hw))
  | @endRefused i job n error spec call o hw hn hs =>
      have hu : settlesUndo s (.worker i (.run o)) = none := by
        rw [settlesUndo, hw]
        exact if_neg hs
      obtain ⟨ha, hcall⟩ := hc.worker job n error _ (List.mem_of_getElem? hw)
      rw [hu]
      refine .settles (p := .illegal n.id (s.status n.id) .rollback)
        own_ne_forward rfl hn rfl ha hcall rfl (fun v hv => by cases hv) fun k hk => .inl ?_
      rcases hk with hk | hk
      · rw [Core.put_status] at hk
        split_ifs at hk with hid
        · exact .inl (hid ▸ hk)
        · exact .inl hk
      · exact .inr hk
  | late => exact .quiet rfl (by simp [Obs.undo]) (fun _ h => h) rfl

theorem Touch.tally {T : List NodeId} {q : Prop} (h : Touch c T q x y) : Tally c u x y := by
  obtain ⟨e, he⟩ := h.trace
  refine .quiet he (fun p hp => ?_) (fun k hk => ?_) h.sameRest.compensated
  · cases List.mem_singleton.mp hp
    rfl
  · rcases h.status k with hst | ⟨-, hst | hst⟩ | ⟨-, hst, -⟩
    · exact hst ▸ hk
    · rw [hst] at hk
      cases hk
    · rw [hst] at hk
      cases hk
    · rw [hst] at hk
      cases hk

/-- **What a step rolls back, it has settled.** -/
theorem step_tally (hnd : (c.graph.map (·.id)).Nodup) (hS : State.Sound c s)
    (hc : Failing (UndoCall c) s) (hs : step c s l = some s') :
    Tally c (settlesUndo s l) s.core s'.core :=
  (step_core hS hnd hs).keeps (I := fun z => Tally c (settlesUndo s l) s.core z) hnd hS.core
    (fun _ ha => ha.tally hS.core hc) (fun _ _ _ _ _ _ hz ht => hz.trans ht.tally)
    fun _ _ _ _ hz => hz.trans (.quiet rfl (by simp [Obs.undo]) (fun _ h => h) rfl)

end Tally

/-! ## 4. Runs -/

section Runs

variable {c : Context} {s s' : State} {l : Label} {id : NodeId} {o : RunOutcome}

theorem mem_rolledBack : id ∈ (outcome c s).rolledBack ↔
    (s.core.status id = .rolledBack ∧ ∃ n ∈ c.graph, n.id = id) ∨ id ∈ s.core.compensated := by
  simp only [outcome, List.mem_append, List.mem_map, List.mem_filter, decide_eq_true_eq]
  constructor
  · rintro (⟨_, ⟨⟨n, hn, rfl⟩, hst⟩, rfl⟩ | h)
    · exact .inl ⟨hst, n, hn, rfl⟩
    · exact .inr h
  · rintro (⟨hst, n, hn, rfl⟩ | h)
    · exact .inl ⟨_, ⟨⟨n, hn, rfl⟩, hst⟩, rfl⟩
    · exact .inr h

/-- The compensation calls of a run, and the claims made on them. -/
structure Rolls (c : Context) (s : State) : Prop where
  sound : State.Sound c s
  calls : Failing (UndoCall c) s
  earned : Earned c s.core.trace

theorem Rolls.initial (hnd : (c.graph.map (·.id)).Nodup) (w : World) :
    Rolls c (.initial c w) := by
  refine ⟨initial_sound w, .start hnd (.inl ⟨w, rfl⟩), fun p hp id o hu => ?_⟩
  cases List.mem_singleton.mp hp
  cases hu

theorem Rolls.step (hnd : (c.graph.map (·.id)).Nodup) (h : Rolls c s)
    (hs : step c s l = some s') : Rolls c s' :=
  ⟨h.sound.step hnd hs, undoCalls_step hnd h.sound h.calls hs,
    (step_tally hnd h.sound h.calls hs).earned h.earned⟩

/-- The claims stay backed as long as calls succeed. -/
theorem claims_step (hnd : (c.graph.map (·.id)).Nodup) (h : Rolls c s)
    (hb : ∀ id, Claimed s.core id → Backed c s.core.trace id) (hok : UndoSucceeds c s l)
    (hs : step c s l = some s') : ∀ id, Claimed s'.core id → Backed c s'.core.trace id := by
  have htally := step_tally hnd h.sound h.calls hs
  have hlater := step_later hnd h.sound hs
  intro id hc
  rcases htally.claims id hc with hc | ⟨o, hu, p, hp, hpu⟩
  · exact (hb id hc).later hlater
  · rcases hok id o hu with hsucc | hback
    · exact htally.earned h.earned p hp id o hpu hsucc
    · exact hback.later hlater

theorem undoPc_claimed {x : Core} {n : WorkflowNode} {error : String} {pc : FailPc} {a : Answer}
    {r : FailStep} (hn : n ∈ c.graph) (hcalls : UndoCall c x n pc)
    (hu : undoPc x n pc a = some (id, o)) (hr : failStep c x n error pc a = some r) :
    ∃ y pc', r = .more y pc' ∧ Claimed y id ∧ ∃ m ∈ c.graph, m.id = id := by
  unfold undoPc at hu
  split at hu
  · split_ifs at hu with hst
    cases hu
    have hrow := failStep_row hr
    cases r with
    | more y pc' =>
        refine ⟨y, pc', rfl, .inl ?_, n, hn, rfl⟩
        cases hrow with
        | rollsBack hs hx =>
            rw [sweepNext_status hx]
            exact Core.put_status_self ..
    | done y => cases hrow.1
    | threw t =>
        obtain ⟨_, _, _, -, -, hne, -⟩ := hrow
        exact absurd hst hne
  · cases hu
    have hrow := failStep_row hr
    cases r with
    | more y pc' =>
        refine ⟨y, pc', rfl, .inr ?_, hcalls.1.imp fun m hm => ⟨hm.1, hm.2.1⟩⟩
        cases hrow with
        | swept hx =>
            rcases sweepNext_cases hx with ⟨rfl, -⟩ | ⟨_, _, _, _, rfl, _⟩
            · exact List.mem_append_right _ List.mem_cons_self
            · exact List.mem_append_right _ List.mem_cons_self
    | done y => cases hrow.1
    | threw t =>
        obtain ⟨_, _, _, hpc, -⟩ := hrow
        cases hpc
  · cases hu

/-- A settled compensation call puts its node on the list, whatever it answered. -/
theorem settlesUndo_claimed (h : Rolls c s) (hu : settlesUndo s l = some (id, o))
    (hs : step c s l = some s') : id ∈ (outcome c s').rolledBack := by
  rw [mem_rolledBack]
  suffices hsuff : Claimed s'.core id ∧ ∃ m ∈ c.graph, m.id = id by
    obtain ⟨hc | hc, hm⟩ := hsuff
    · exact .inl ⟨hc, hm⟩
    · exact .inr hc
  unfold settlesUndo at hu
  split at hu
  · rename_i key a
    split at hu
    · rename_i n job thrown error pc hf
      obtain ⟨y, hy, rfl⟩ := Option.map_eq_some_iff.mp hs
      unfold flightStep at hy
      rw [hf] at hy
      obtain ⟨next, hnext, rfl⟩ := Option.map_eq_some_iff.mp hy
      have hn := (h.sound.core.flight key _ hf).1
      have hcalls := h.calls.flight key _ thrown error pc hf rfl
      simp only [flightNext] at hnext
      split at hnext
      · rename_i hr
        cases hnext
        obtain ⟨_, _, he, hcl⟩ := undoPc_claimed hn hcalls hu hr
        cases he
        exact hcl
      · rename_i hr
        obtain ⟨_, _, he, -⟩ := undoPc_claimed hn hcalls hu hr
        cases he
      · rename_i hr
        obtain ⟨_, _, he, -⟩ := undoPc_claimed hn hcalls hu hr
        cases he
      · cases hnext
    · cases hu
  · rename_i i a
    split at hu
    · rename_i job n error pc hw
      have hn := (h.sound.workers _ (List.mem_of_getElem? hw)).1.1
      have hcalls := h.calls.worker job n error pc (List.mem_of_getElem? hw)
      have hstep : workerStep c s i a = some s' := hs
      unfold workerStep at hstep
      rw [hw] at hstep
      dsimp only at hstep
      split at hstep
      · rename_i hr
        cases hstep
        obtain ⟨_, _, he, hcl⟩ := undoPc_claimed hn hcalls hu hr
        cases he
        exact hcl
      · rename_i hr
        obtain ⟨_, _, he, -⟩ := undoPc_claimed hn hcalls hu hr
        cases he
      · rename_i hr
        obtain ⟨_, _, he, -⟩ := undoPc_claimed hn hcalls hu hr
        cases he
      · cases hstep
    · cases hu
  · cases hu

end Runs

/-! ## 5. Honest runs -/

section Honest

variable {c : Context} {w : World} {ls : List Label} {s s' : State} {l : Label}

theorem run_rolls {ok : State → Label → Prop} (hnd : (c.graph.map (·.id)).Nodup)
    (h : Run (step c) ok (.initial c w) ls s) : Rolls c s :=
  Run.invariant (.initial hnd w) (fun _ _ _ hI _ hs => hI.step hnd hs) h

theorem run_honest (hnd : (c.graph.map (·.id)).Nodup)
    (h : Run (step c) (UndoSucceeds c) (.initial c w) ls s) : Honest c s := by
  have hclaims : ∀ id, Claimed s.core id → Backed c s.core.trace id := by
    refine (Run.invariant (I := fun s => Rolls c s ∧
      ∀ id, Claimed s.core id → Backed c s.core.trace id) ⟨.initial hnd w, ?_⟩ ?_ h).2
    · rintro id (hc | hc) <;> cases hc
    · exact fun s l s' hI hok hs => ⟨hI.1.step hnd hs, claims_step hnd hI.1 hI.2 hok hs⟩
  intro id hid
  rcases mem_rolledBack.mp hid with ⟨hst, -⟩ | hc
  · exact hclaims id (.inl hst)
  · exact hclaims id (.inr hc)

/-- A compensation call that fails puts a node on the list that has not been compensated. -/
theorem not_honest (hnd : (c.graph.map (·.id)).Nodup) (h : Rolls c s)
    (hbad : ¬ UndoSucceeds c s l) (hs : step c s l = some s') : ¬ Honest c s' := by
  unfold UndoSucceeds at hbad
  push Not at hbad
  obtain ⟨id, o, hu, hfail, hnone⟩ := hbad
  intro hhonest
  obtain ⟨n, hn, hid, spec, ha, call, purpose, input, gate, r, hp, hcall, hset, hr⟩ :=
    hhonest id (settlesUndo_claimed h hu hs)
  have hundo : (Obs.settled call id purpose (.resolved r)).undo = some (id, .resolved r) := by
    cases purpose with
    | forward => exact absurd rfl hp
    | compensation | upstream => rfl
  -- the success it rests on is in the past, or is the settlement of this step
  obtain ⟨obs, hobs, hnew⟩ := (step_tally hnd h.sound h.calls hs).trace
  rw [hobs] at hset
  rcases List.mem_append.mp hset with hset | hset
  · exact hnone (h.earned _ hset id _ hundo hr)
  · cases hnew _ hset _ _ hundo hu
    exact hfail hr

/-- **The list of rolled back nodes is honest at every moment of a run if and only if every
    compensation call that settles succeeds, or one for its node has succeeded before.** -/
theorem honest_iff (hv : validateGraph c.graph = .ok ())
    (h : Run (step c) (fun _ _ => True) (.initial c w) ls s) :
    Throughout (step c) (.initial c w) ls (Honest c) ↔
      Run (step c) (UndoSucceeds c) (.initial c w) ls s := by
  have hnd := validateGraph_nodup hv
  exact h.throughout_iff (fun _ _ hr => run_honest hnd hr)
    fun _ _ _ _ hr hbad hs =>
      not_honest hnd (run_rolls hnd (hr.mono fun _ _ _ => trivial)) hbad hs

end Honest

/-- One node with a compensation of its own. -/
def releaseNode : WorkflowNode :=
  { id := "release", kind := .action, action := some "release.app", deps := []
    compensation := some (.action "release.withdraw" none) }

/-- A graph of one node. -/
def releaseContext : Context :=
  { limits := defaultBulkhead, compensations := .empty, sha256 := fun s => s
    runId := "run", taskId := "task", graph := [releaseNode] }

/-- Nothing needs approval, and no guard stops anything. -/
def openWorld : World := ⟨fun _ => false, fun _ _ _ => none⟩

/-- The release fails, its compensation answers `o`, and the run comes to its end. -/
def releaseRun (o : RunOutcome) : List Label :=
  [.drive, .drive, .drive, .worker 0 .tick] ++
    [.tick, .run (.rejected "release failed"), .tick, .tick, .run o, .tick].map
      (.flight (keyOf releaseContext releaseNode)) ++
    [.worker 0 .tick] ++ (List.range 8).map (.worker · .tick) ++ [.drive, .drive]

theorem honest_iff_release : ∃ s, Run (step releaseContext) (fun _ _ => True)
      (.initial releaseContext openWorld) (releaseRun (.rejected "withdrawal failed")) s ∧
    (Throughout (step releaseContext) (.initial releaseContext openWorld)
        (releaseRun (.rejected "withdrawal failed")) (Honest releaseContext) ↔
      Run (step releaseContext) (UndoSucceeds releaseContext) (.initial releaseContext openWorld)
        (releaseRun (.rejected "withdrawal failed")) s) := by
  obtain ⟨s, hs⟩ := Option.isSome_iff_exists.mp (show (exec (step releaseContext)
    (.initial releaseContext openWorld) (releaseRun (.rejected "withdrawal failed"))).isSome = true
      by decide)
  have hrun : Run (step releaseContext) (fun _ _ => True) _ _ s := run_of_exec (fun _ _ => trivial) hs
  exact ⟨s, hrun, honest_iff (by rfl) hrun⟩

/-- Whether the outcome lists a node of which no compensation call has succeeded. -/
def listsUnbacked (c : Context) (s : State) : Bool :=
  (outcome c s).rolledBack.any fun id => s.core.trace.all fun
    | .settled _ id' purpose (.resolved r) =>
        id' ≠ id || purpose = .forward || r.status ≠ .success
    | _ => true

theorem not_honest_of_listsUnbacked {c : Context} {s : State} (h : listsUnbacked c s = true) :
    ¬ Honest c s := by
  intro hh
  obtain ⟨id, hid, hall⟩ := List.any_eq_true.mp h
  obtain ⟨n, -, -, spec, -, call, purpose, input, gate, r, hp, -, hset, hr⟩ := hh id hid
  have hno := List.all_eq_true.mp hall _ hset
  simp [hp, hr] at hno

/-- The withdrawal is rejected, and the node is listed as rolled back. -/
theorem rejected_rollback_listed : ∃ c w ls s, validateGraph c.graph = .ok () ∧
    Run (step c) (fun _ _ => True) (.initial c w) ls s ∧ s.drive = .resolved ∧ ¬ Honest c s := by
  obtain ⟨s, hs, hend⟩ := Option.map_eq_some_iff.mp (show (exec (step releaseContext)
    (.initial releaseContext openWorld) (releaseRun (.rejected "withdrawal failed"))).map
      (fun s => (s.drive, listsUnbacked releaseContext s)) = some (.resolved, true) by rfl)
  obtain ⟨hd, hlists⟩ := Prod.mk.inj hend
  exact ⟨releaseContext, openWorld, _, s, rfl, run_of_exec (fun _ _ => trivial) hs, hd,
    not_honest_of_listsUnbacked hlists⟩

end AgentKernel.Orchestrator
