/-
  File:      AgentKernel/Orchestrator/Approval.lean
  Subject:   The approval gate. A call that needs approval is to be preceded by a granted request
             for its node and action.

  The gate stands before the forward action of an ACTION node, and an APPROVAL node is nothing
  but the gate. Three places call the handler past it: the verdict action of a conditional, a
  node's own compensation, and the compensations of a sweep. `ungatedCall` names the call such a
  place is about to make; **`gated_iff`** says that exactly the runs in which these calls need no
  approval, or have it, keep the gate.
-/
import AgentKernel.Orchestrator.Start

namespace AgentKernel.Orchestrator

open Lib

/-- A call that needs approval comes after a granted request for its node and action. -/
def Gated (past : List Obs) : Obs → Prop
  | .called _ node _ action _ true => .approval node action true ∈ past
  | _ => True

/-! ## 1. The calls past the gate -/

/-- The verdict action a conditional is about to call. -/
def verdictCall (s : Core) (n : WorkflowNode) : Option String :=
  match n.kind, n.condition, truthy n.action, resolveInput s.results n with
  | .conditional, some _, some action, .ok _ => some action
  | _, _, _, _ => none

variable (c : Context)

/-- The node whose compensation a sweep calls next, and the compensation. -/
def nextUndo (s : Core) (failed : NodeId) (ids : List NodeId) : Option (NodeId × String) :=
  ids.findSome? fun id =>
    (if id = failed ∨ s.status id ≠ .completed then none
      else (nodeById c.graph id).bind c.compensations.actionFor).map fun spec => (id, spec.action)

/-- The call `failNode` is about to make. -/
def failCall (s : Core) (n : WorkflowNode) : FailPc → Answer → Option (NodeId × String)
  | .compensating spec, .tick => some (n.id, spec.action)
  | .undoing .., .run _ =>
      if s.status n.id = .compensating then nextUndo c s n.id s.completionOrder.reverse else none
  | .sweeping _ _ _ rest, .run _ => nextUndo c s n.id rest
  | _, _ => none

/-- The call past the gate that a stretch of `executeWithRetry` is about to make. -/
def flightCall (s : Core) (n : WorkflowNode) : FlightPc → Answer → Option (NodeId × String)
  | .ran, .tick => (verdictCall s n).map fun action => (n.id, action)
  | .failing _ _ pc, a => failCall c s n pc a
  | _, _ => none

/-- The call past the gate that a step is about to make. -/
def ungatedCall (s : State) : Label → Option (NodeId × String)
  | .flight key a => (s.core.store.inFlight key).bind fun f => flightCall c s.core f.node f.pc a
  | .worker i a =>
      match s.workers[i]? with
      | some (.failing _ n _ pc) => failCall c s.core n pc a
      | _ => none
  | _ => none

/-- The call a step makes past the gate needs no approval now, or was approved for its node. -/
def Cleared (s : State) (l : Label) : Prop :=
  ∀ node action, ungatedCall c s l = some (node, action) →
    s.core.world.requiresApproval action = false ∨ .approval node action true ∈ s.core.trace

/-! ## 2. Sweeps call what `nextUndo` names -/

section Undo

variable {c} {s s' : Core} {failed : NodeId} {pc : FailPc}

theorem nextUndo_congr {s₁ : Core} (h : ∀ x, x ≠ failed → s₁.status x = s.status x)
    (ids : List NodeId) : nextUndo c s₁ failed ids = nextUndo c s failed ids := by
  unfold nextUndo
  congr 1
  funext id
  by_cases hid : id = failed
  · simp [hid]
  · rw [h id hid]

/-- The next call of a sweep, with the observation it leaves. -/
theorem sweepNext_undo : ∀ {ids : List NodeId}, sweepNext c s failed ids = (s', pc) →
    (s' = s ∧ nextUndo c s failed ids = none) ∨
    ∃ id action input, nextUndo c s failed ids = some (id, action) ∧
      s' = s.invoke id .upstream action input
  | [], h => by
      cases h
      exact .inl ⟨rfl, rfl⟩
  | id :: rest, h => by
      unfold sweepNext at h
      unfold nextUndo
      split at h
      · rename_i spec hspec
        cases h
        refine .inr ⟨id, spec.action, _, ?_, rfl⟩
        rw [List.findSome?_cons, hspec]
        rfl
      · rename_i hnone
        rw [List.findSome?_cons, hnone]
        exact sweepNext_undo h

end Undo

/-! ## 3. A cleared run keeps the gate -/

/-- The gate has been kept, and an execution past its gate was let through by a grant. -/
structure KeepsGate (s : Core) : Prop where
  gated : Justified Gated s.trace
  granted : ∀ key f req, s.store.inFlight key = some f → f.pc = .answered req true →
    .approval f.node.id req.action true ∈ s.trace

section Gate

variable {c} {s : State} {l : Label}

theorem gated_invoke {x : Core} {id : NodeId} {purpose : Purpose} {action : String}
    {input : Option Json} (h : Justified Gated x.trace)
    (hc : x.world.requiresApproval action = false ∨ .approval id action true ∈ x.trace) :
    Justified Gated (x.invoke id purpose action input).trace := by
  refine justified_snoc.mpr ⟨h, ?_⟩
  rcases hc with hc | hc
  · rw [hc]
    trivial
  · cases x.world.requiresApproval action
    · trivial
    · exact hc

/-- What a call past the gate needs. -/
def Allowed (x : Core) (call : Option (NodeId × String)) : Prop :=
  ∀ node action, call = some (node, action) →
    x.world.requiresApproval action = false ∨ .approval node action true ∈ x.trace

theorem sweep_gated {x y y' : Core} {failed : NodeId} {ids : List NodeId} {pc : FailPc}
    {obs : List Obs} (hsweep : sweepNext c y failed ids = (y', pc))
    (h : Justified Gated x.trace) (hy : y.trace = x.trace ++ obs)
    (hobs : ∀ o ∈ obs, ∀ past, Gated past o) (hw : y.world = x.world)
    (hst : ∀ z, z ≠ failed → y.status z = x.status z)
    (hc : Allowed x (nextUndo c x failed ids)) : Justified Gated y'.trace := by
  have hjy : Justified Gated y.trace := by
    rw [hy]
    exact h.append hobs
  rcases sweepNext_undo hsweep with ⟨rfl, -⟩ | ⟨id, action, input, hn, rfl⟩
  · exact hjy
  · refine gated_invoke hjy ?_
    rw [nextUndo_congr hst] at hn
    rw [hw, hy]
    exact (hc id action hn).imp_right (List.mem_append_left _)

theorem failRow_gated {x y : Core} {n : WorkflowNode} {error : String} {pc pc' : FailPc} {a : Answer}
    (hr : FailRow c x n error pc a y pc') (h : Justified Gated x.trace)
    (hc : Allowed x (failCall c x n pc a)) : Justified Gated y.trace := by
  cases hr with
  | undoes => exact gated_invoke h (hc _ _ rfl)
  | rollsBack hs hsweep =>
      have hc' : Allowed x (nextUndo c x n.id x.completionOrder.reverse) := by
        simpa only [failCall, hs, if_true] using hc
      exact sweep_gated hsweep h rfl (by simp [Gated]) rfl
        (fun z hz => by rw [Core.put_status, if_neg hz]) hc'
  | swept hsweep =>
      exact sweep_gated hsweep h (List.append_assoc ..) (by simp [Gated]) rfl (fun _ _ => rfl) hc

theorem headRow_gated {x y : Core} {n : WorkflowNode} {error : String} {q : Bool}
    {pc : Option FailPc} (hr : HeadRow c x n error q y pc) (h : Justified Gated x.trace) :
    Justified Gated y.trace := by
  cases hr <;> exact h.append (by simp [Gated])

/-- The forward call of a conditional is the one `verdictCall` names. -/
theorem verdictCall_eq {x y : Core} {n : WorkflowNode} {action : String} {input : Option Json}
    {call : Nat} (hk : n.kind = .conditional)
    (h : runNodeAction c x n = (y, .calling action input call)) : verdictCall x n = some action := by
  unfold runNodeAction at h
  rw [hk] at h
  dsimp only at h
  split at h
  · cases h
  · rename_i cond hcond
    split at h
    · rename_i action' haction
      unfold callForward at h
      split at h
      · cases h
      · rename_i input' hinput
        cases h
        simp [verdictCall, hk, hcond, haction, hinput]
    · split at h
      · rcases conclude_pc h with he | ⟨e, he⟩ <;> cases he
      · cases h

theorem row_gated {x y : Core} {f : Flight} {pc pc' : FlightPc} {a : Answer}
    (hr : Row c x f pc a y pc') (h : Justified Gated x.trace)
    (hg : ∀ req, pc = .answered req true → .approval f.node.id req.action true ∈ x.trace)
    (hc : Allowed x (flightCall c x f.node pc a)) :
    Justified Gated y.trace ∧
      ∀ req, pc' = .answered req true → .approval f.node.id req.action true ∈ y.trace := by
  have hcount : ∀ {z : Core}, Justified Gated (z.countFailure f.node.id).trace ↔
      Justified Gated z.trace := Iff.rfl
  cases hr with
  | throws | approved | ended | timesOut => exact ⟨h, by simp⟩
  | @calls _ action input hgate hnext =>
      refine ⟨gated_invoke h ?_, by simp⟩
      rcases hgate with ⟨rfl, hk | hno⟩ | ⟨req, rfl, rfl⟩
      · have hv := verdictCall_eq hk (Option.some.inj hnext)
        exact hc _ _ (by simp [flightCall, hv])
      · exact .inl hno
      · exact .inr (hg req rfl)
  | concludes hkind hcond hsrc hpc =>
      refine ⟨h.append ?_, ?_⟩
      · rcases hsrc with ⟨-, -, rfl, -⟩ | ⟨_, _, _, -, -, rfl⟩ <;> simp [Gated]
      · rcases hpc with rfl | ⟨e, rfl⟩ <;> simp
  | asks | verifies | retries | resumes | retryRefused =>
      exact ⟨h.append (by simp [Gated]), by simp⟩
  | @answers req granted hs =>
      refine ⟨h.append (by simp [Gated]), ?_⟩
      intro req' he
      cases he
      exact List.mem_append_right _ List.mem_cons_self
  | settles hpc =>
      refine ⟨h.append (by simp [Gated]), ?_⟩
      rcases hpc with ⟨r, -, -, rfl, -⟩ | ⟨r, -, -, rfl, -⟩ | ⟨e, -, rfl⟩ <;> simp
  | fails _ _ hhead => exact ⟨headRow_gated hhead (hcount.mpr h), by simp⟩
  | failRefused _ hhead => exact ⟨headRow_gated hhead (hcount.mpr h), by simp⟩
  | ending hfail => exact ⟨failRow_gated hfail h hc, by simp⟩

theorem beginAttempt_gated {x : Core} {n : WorkflowNode} {job : WorkflowJob}
    (h : Justified Gated x.trace) : Justified Gated (beginAttempt x n job).1.trace ∧
      ∀ req granted, (beginAttempt x n job).2 ≠ .answered req granted := by
  by_cases hs : x.status n.id = .ready ∨ x.status n.id = .retrying
  · rw [beginAttempt_ok hs]
    exact ⟨h.append (by simp [Gated]), by simp⟩
  · simp only [not_or] at hs
    obtain ⟨m, he⟩ := beginAttempt_refused job hs.1 hs.2
    rw [he]
    exact ⟨h.append (by simp [Gated]), by simp⟩

theorem KeepsGate.act {y : Core} (h : KeepsGate s.core) (hc : Cleared c s l) (ha : Act c s l y) :
    KeepsGate y := by
  obtain ⟨obs, hobs⟩ := ha.trace
  have hkeep : ∀ key f req, s.core.store.inFlight key = some f → f.pc = .answered req true →
      .approval f.node.id req.action true ∈ y.trace := fun key f req hf hpc => by
    rw [hobs]
    exact List.mem_append_left _ (h.granted key f req hf hpc)
  cases ha with
  | idle => exact h
  | @flight key f a z pc hf hrow =>
      have hallow : Allowed s.core (flightCall c s.core f.node f.pc a) := fun id action he =>
        hc id action (by rw [ungatedCall, hf]; exact he)
      obtain ⟨hg, hnew⟩ := row_gated hrow h.gated (fun req hpc => h.granted key f req hf hpc) hallow
      refine ⟨hg, fun k g req hk hpc => ?_⟩
      rw [Core.setFlight_inFlight] at hk
      split_ifs at hk with heq
      · cases hk
        exact hnew req hpc
      · exact hkeep k g req (hrow.own.store ▸ hk) hpc
  | settles hf hpc =>
      refine ⟨h.gated, fun k g req hk => ?_⟩
      simp only [IdempotencyStore.settle] at hk
      split_ifs at hk
      exact h.granted k g req hk
  | begins hh hn hid hkey hcomp hf =>
      obtain ⟨hg, hno⟩ := beginAttempt_gated h.gated
      refine ⟨hg, fun k g req hk hpc => ?_⟩
      rw [Core.setFlight_inFlight] at hk
      split_ifs at hk with heq
      · cases hk
        exact absurd hpc (hno _ _)
      · exact hkeep k g req (beginAttempt_own.store ▸ hk) hpc
  | completes hn hr hs => exact ⟨h.gated.append (by simp [Gated]), hkeep⟩
  | givesUp hw hn hend ht hcore hcaught hrow =>
      have hg : Justified Gated _ := headRow_gated hrow (by
        rcases hcore with rfl | rfl
        · exact h.gated
        · exact h.gated.append (by simp [Gated]))
      refine ⟨hg, fun k g req hk => hkeep k g req ?_⟩
      rw [hrow.own.store] at hk
      rcases hcore with rfl | rfl <;> exact hk
  | @ending i job n error a z pc pc' hw hn hend hrow =>
      have hallow : Allowed s.core (failCall c s.core n pc a) := fun id action he =>
        hc id action (by rw [ungatedCall, hw]; exact he)
      exact ⟨failRow_gated hrow h.gated hallow,
        fun k g req hk => hkeep k g req (hrow.own.store ▸ hk)⟩
  | endRefused => exact ⟨h.gated.append (by simp [Gated]), hkeep⟩
  | late => exact ⟨h.gated.append (by simp [Gated]), hkeep⟩
  | world => exact ⟨h.gated, h.granted⟩

theorem KeepsGate.start {s₀ : State} (hnd : (c.graph.map (·.id)).Nodup) (hb : Begins c s₀) :
    KeepsGate s₀.core := by
  refine ⟨?_, fun key f req hf => ?_⟩
  · intro A o B hsplit
    obtain ⟨e, rfl⟩ := hb.events o (by rw [hsplit]; simp)
    trivial
  · rw [hb.still hnd key] at hf
    cases hf

theorem KeepsGate.run {s₀ : State} {ls : List Label} (hnd : (c.graph.map (·.id)).Nodup)
    (hb : Begins c s₀) (h : Run (step c) (Cleared c) s₀ ls s) : Justified Gated s.core.trace := by
  refine (run_keeps hnd (hb.sound hnd) (KeepsGate.start hnd hb)
    (fun s l z _ hI hc ha => hI.act hc ha) (fun z z' T q _ _ hz ht => ?_)
    (fun z id st _ hz => ?_) h).2.gated
  · obtain ⟨e, he⟩ := ht.trace
    refine ⟨?_, fun key f req hf hpc => ?_⟩
    · rw [he]
      exact hz.gated.append (by simp [Gated])
    · rw [he]
      exact List.mem_append_left _ (hz.granted key f req (ht.sameRest.store ▸ hf) hpc)
  · exact ⟨hz.gated.append (by simp [Gated]),
      fun key f req hf hpc => List.mem_append_left _ (hz.granted key f req hf hpc)⟩

end Gate

/-! ## 4. An uncleared step breaks the gate -/

/-- A call of `action` for `id` has been made, and no answer to a request was recorded before it. -/
def Made (x : Core) (id : NodeId) (action : String) (y : Core) : Prop :=
  ∃ pre call purpose input, y.trace = x.trace ++ pre ++
      [.called call id purpose action input (x.world.requiresApproval action)] ∧
    ∀ n a granted, .approval n a granted ∉ pre

section Break

variable {c} {s s' : State} {l : Label} {id : NodeId} {action : String}

theorem made_invoke (x : Core) (id : NodeId) (purpose : Purpose) (action : String)
    (input : Option Json) : Made x id action (x.invoke id purpose action input) :=
  ⟨[], x.trace.length, purpose, input, by rw [List.append_nil]; rfl, by simp⟩

theorem sweep_made {x y y' : Core} {failed : NodeId} {ids : List NodeId} {pc : FailPc}
    {obs : List Obs} (hsweep : sweepNext c y failed ids = (y', pc))
    (hy : y.trace = x.trace ++ obs) (hobs : ∀ n a granted, .approval n a granted ∉ obs)
    (hw : y.world = x.world) (hst : ∀ z, z ≠ failed → y.status z = x.status z)
    (hn : nextUndo c x failed ids = some (id, action)) : Made x id action y' := by
  rcases sweepNext_undo hsweep with ⟨-, hnone⟩ | ⟨id', action', input, hn', rfl⟩
  · rw [nextUndo_congr hst, hn] at hnone
    cases hnone
  · rw [nextUndo_congr hst, hn] at hn'
    cases hn'
    refine ⟨obs, y.trace.length, .upstream, input, ?_, hobs⟩
    rw [Core.invoke, Core.observe_trace, hw, hy]

theorem failRow_made {x y : Core} {n : WorkflowNode} {error : String} {pc pc' : FailPc} {a : Answer}
    (hr : FailRow c x n error pc a y pc') (hc : failCall c x n pc a = some (id, action)) :
    Made x id action y := by
  cases hr with
  | undoes =>
      cases hc
      exact made_invoke ..
  | rollsBack hs hsweep =>
      have hn : nextUndo c x n.id x.completionOrder.reverse = some (id, action) := by
        simpa only [failCall, hs, if_true] using hc
      exact sweep_made hsweep rfl (by simp) rfl (fun z hz => by rw [Core.put_status, if_neg hz]) hn
  | swept hsweep =>
      exact sweep_made hsweep (List.append_assoc ..) (by simp) rfl (fun _ _ => rfl) hc

theorem verdictCall_run {x : Core} {n : WorkflowNode} (h : verdictCall x n = some action) :
    n.kind = .conditional ∧ truthy n.action = some action ∧
      ∃ input, runNodeAction c x n = (x.invoke n.id .forward action input,
        .calling action input x.trace.length) := by
  unfold verdictCall at h
  split at h
  · rename_i input hk hcond haction hinput
    cases h
    refine ⟨hk, haction, input, ?_⟩
    simp only [runNodeAction, hk, hcond, haction, callForward, hinput]
  · cases h

theorem row_made {x y : Core} {f : Flight} {pc pc' : FlightPc} {a : Answer}
    (hr : Row c x f pc a y pc') (hc : flightCall c x f.node pc a = some (id, action)) :
    Made x id action y := by
  -- from `ran` the verdict action is called, whatever the row
  have hran : pc = .ran → a = .tick → ∃ input, verdictCall x f.node = some action ∧
      id = f.node.id ∧ flightNext c x f pc a = some (x.invoke f.node.id .forward action input,
        .calling action input x.trace.length) := by
    rintro rfl rfl
    obtain ⟨action', hv, he⟩ := Option.map_eq_some_iff.mp hc
    cases he
    obtain ⟨-, -, input, hrun⟩ := verdictCall_run (c := c) hv
    exact ⟨input, hv, rfl, congrArg some hrun⟩
  cases hr with
  | throws hpc hnext =>
      rcases hpc with rfl | ⟨req, rfl⟩ | ⟨req, granted, rfl⟩
      · cases a with
        | tick =>
            obtain ⟨input, -, -, hcall⟩ := hran rfl rfl
            cases congrArg Prod.snd (Option.some.inj (hcall.symm.trans hnext))
        | _ => cases hc
      · cases hc
      · cases hc
  | calls hgate hnext =>
      rcases hgate with ⟨rfl, -⟩ | ⟨req, rfl, -⟩
      · obtain ⟨input, -, rfl, hcall⟩ := hran rfl rfl
        cases congrArg Prod.snd (Option.some.inj (hcall.symm.trans hnext))
        exact made_invoke ..
      · cases hc
  | concludes hkind hcond hsrc hpc =>
      rcases hsrc with ⟨rfl, rfl, -, hno, -⟩ | ⟨_, _, _, rfl, rfl, -⟩
      · obtain ⟨input, hv, -, -⟩ := hran rfl rfl
        rw [(verdictCall_run (c := c) hv).2.1] at hno
        cases hno
      · cases hc
  | asks hs haction =>
      obtain ⟨input, hv, -, -⟩ := hran rfl rfl
      have hk := (verdictCall_run (c := c) hv).1
      rcases haction with ⟨hk', -⟩ | ⟨hk', -⟩ <;> (rw [hk] at hk'; cases hk')
  | ending hfail => exact failRow_made hfail hc
  | ended => cases hc
  | answers | approved | settles | timesOut | verifies | retries | retryRefused | fails |
    failRefused | resumes => cases hc

/-- **The call a step was about to make is made.** -/
theorem ungatedCall_made (hS : State.Sound c s) (h : step c s l = some s')
    (hu : ungatedCall c s l = some (id, action)) :
    ∃ y more, Made s.core id action y ∧ s'.core.trace = y.trace ++ more := by
  cases l with
  | flight key a =>
      obtain ⟨y, hy, rfl⟩ := Option.map_eq_some_iff.mp h
      obtain ⟨f, hf, hcall⟩ := Option.bind_eq_some_iff.mp hu
      unfold flightStep at hy
      rw [hf] at hy
      dsimp only at hy
      split at hy
      · rename_i hpc
        rw [hpc] at hcall
        cases hcall
      · obtain ⟨⟨z, pc⟩, hnext, rfl⟩ := Option.map_eq_some_iff.mp hy
        obtain ⟨z₁, hrow, hend⟩ := flightNext_ends (hS.core.flight key f hf).2.2 hnext
        refine ⟨z₁, ?_⟩
        rcases hend with rfl | ⟨cond, source, -, -, -, hconc⟩
        · exact ⟨[], row_made hrow hcall, (List.append_nil _).symm⟩
        · rcases conclude_spread (q := False) hconc with ⟨-, hsp⟩ | ⟨-, -, z₂, -, -, hsp, -, -, -, rfl⟩
          · obtain ⟨es, hes⟩ := hsp.trace
            exact ⟨_, row_made hrow hcall, hes⟩
          · obtain ⟨es, hes⟩ := hsp.trace
            exact ⟨es.map .event ++ _, row_made hrow hcall, by
              show z₂.trace ++ _ = _
              rw [hes, List.append_assoc]⟩
  | worker i a =>
      have hm := workerStep_move h
      simp only [ungatedCall] at hu
      split at hu
      · rename_i job n error pc hw
        have hbusy : ∀ {w : Worker}, s.workers[i]? = some w → w = .failing job n error pc :=
          fun h' => Option.some.inj (h'.symm.trans hw)
        have hhand : ∀ {job' n' s₀}, ¬ InHand c s i job' n' s₀ := by
          intro job' n' s₀ hh
          cases hh with
          | dequeued hw' => cases hbusy hw'
          | seated hw' => cases hbusy hw'
        cases hm with
        | stops hw' | drops hw' | passes hw' | completes hw' | leaves hw' | givesUp hw' | dies hw' =>
            cases hbusy hw'
        | waits hh | joins hh | begins hh => exact absurd hh hhand
        | ending hw' hrow =>
            cases hbusy hw'
            exact ⟨_, [], failRow_made hrow hu, (List.append_nil _).symm⟩
        | ended hw' =>
            cases hbusy hw'
            cases hu
        | endRefused hw' hs =>
            cases hbusy hw'
            have hs' : s.core.status n.id ≠ .compensating := hs
            rw [failCall, if_neg hs'] at hu
            cases hu
      · cases hu
  | _ => cases hu

theorem uncleared_not_gated (hS : State.Sound c s) (h : step c s l = some s')
    (hc : ¬ Cleared c s l) {more : List Obs} (hg : Justified Gated (s'.core.trace ++ more)) : False := by
  unfold Cleared at hc
  push Not at hc
  obtain ⟨id, action, hu, hreq, hno⟩ := hc
  obtain ⟨y, rest, ⟨pre, call, purpose, input, hy, hpre⟩, hs'⟩ := ungatedCall_made hS h hu
  have hflag : s.core.world.requiresApproval action = true := by simpa using hreq
  have hmem := hg (s.core.trace ++ pre) (.called call id purpose action input true) (rest ++ more) (by
    rw [hs', hy, hflag]
    simp)
  rcases List.mem_append.mp hmem with hmem | hmem
  · exact hno hmem
  · exact hpre _ _ _ hmem

end Break

/-! ## 5. The gate -/

/-- **The gate is kept by exactly the runs whose calls past it are cleared.** -/
theorem gated_iff {s₀ s : State} {ls : List Label} (hv : validateGraph c.graph = .ok ())
    (hb : Begins c s₀) (h : Run (step c) (fun _ _ => True) s₀ ls s) :
    Justified Gated s.core.trace ↔ Run (step c) (Cleared c) s₀ ls s := by
  have hnd := validateGraph_nodup hv
  constructor
  · intro hg
    rcases h.and_or_bad (Cleared c) with hall | ⟨ls₁, l, ls₂, s₁, s₂, -, hr, -, hbad, hs, hrest⟩
    · exact hall.mono fun _ _ => And.right
    · exfalso
      have hS₁ := run_sound hnd (hb.sound hnd) hr
      obtain ⟨more, hmore⟩ := run_trace hnd (hS₁.step hnd hs) hrest
      rw [hmore] at hg
      exact uncleared_not_gated hS₁ hs hbad hg
  · exact KeepsGate.run hnd hb

/-- A conditional whose verdict action is a capability that needs approval. -/
def verdictNode : WorkflowNode :=
  { id := "check", kind := .conditional, action := some "deploy", deps := []
    condition := some ⟨.verdict "check" .success, [], none⟩ }

/-- A graph of one node. -/
def verdictContext : Context :=
  { limits := defaultBulkhead, compensations := .empty, sha256 := id
    runId := "run", taskId := "task", graph := [verdictNode] }

/-- Enqueue, dispatch, dequeue, and the stretch that calls the verdict action. -/
def verdictRun : List Label :=
  [.drive, .drive, .drive, .worker 0 .tick, .flight (keyOf verdictContext verdictNode) .tick]

/-- Everything needs approval. -/
def strictWorld : World := ⟨fun _ => true, fun _ _ _ => none⟩

theorem gated_iff_verdict : ∃ s, exec (step verdictContext) (.initial verdictContext strictWorld)
    verdictRun = some s ∧ (Justified Gated s.core.trace ↔
      Run (step verdictContext) (Cleared verdictContext) (.initial verdictContext strictWorld)
        verdictRun s) := by
  obtain ⟨s, hs⟩ := Option.isSome_iff_exists.mp (show (exec (step verdictContext)
    (.initial verdictContext strictWorld) verdictRun).isSome = true by decide)
  exact ⟨s, hs, gated_iff verdictContext (by rfl) (.inl ⟨_, rfl⟩) (run_of_exec (fun _ _ => trivial) hs)⟩

/-- Whether a trace has a call that needed approval, and whether it has an answer to a request. -/
def callsUnasked (trace : List Obs) : Bool :=
  (trace.any fun | .called _ _ _ _ _ true => true | _ => false) &&
    trace.all fun | .approval .. => false | _ => true

theorem not_gated_of_callsUnasked {trace : List Obs} (h : callsUnasked trace = true) :
    ¬ Justified Gated trace := by
  intro hg
  obtain ⟨hcall, hnone⟩ := Bool.and_eq_true_iff.mp h
  obtain ⟨o, ho, hflag⟩ := List.any_eq_true.mp hcall
  obtain ⟨A, B, hsplit⟩ := List.append_of_mem ho
  have hj := hg A o B hsplit
  split at hflag
  · have hno := List.all_eq_true.mp hnone (.approval _ _ true) (by
      rw [hsplit]
      exact List.mem_append_left _ hj)
    cases hno
  · cases hflag

/-- The verdict action of a conditional is called although it needs approval and nobody was
    asked. -/
theorem verdict_bypasses_gate : ∃ c s ls w, validateGraph c.graph = .ok () ∧
    Run (step c) (fun _ _ => True) (.initial c w) ls s ∧ ¬ Justified Gated s.core.trace := by
  obtain ⟨s, hs, hcalls⟩ := Option.map_eq_some_iff.mp (show (exec (step verdictContext)
    (.initial verdictContext strictWorld) verdictRun).map (fun s => callsUnasked s.core.trace) =
      some true by decide)
  exact ⟨verdictContext, s, verdictRun, strictWorld, rfl, run_of_exec (fun _ _ => trivial) hs,
    not_gated_of_callsUnasked hcalls⟩

end AgentKernel.Orchestrator
