/-
  File:      AgentKernel/Orchestrator/Failing.lean
  Subject:   The places inside `failNode`.

  `failNode` runs inside an execution (the catch of an attempt) and inside a worker (the catch of
  `runJob`). What its code knows at each await, a property of the shared state that outlives every
  step, is proved here for both at once (`Failing.step`).
-/
import AgentKernel.Orchestrator.Start

namespace AgentKernel.Orchestrator

open Lib

/-! ## 1. What outlives every step -/

/-- The trace has only grown, and what was completed still is. -/
structure Later (x y : Core) : Prop where
  trace : ∃ obs, y.trace = x.trace ++ obs
  completed : ∀ id, x.status id = .completed → y.status id = .completed

section Later

variable {c : Context} {s s' : State} {x y z : Core} {l : Label}

theorem Later.mem (h : Later x y) {o : Obs} (ho : o ∈ x.trace) : o ∈ y.trace := by
  obtain ⟨obs, hobs⟩ := h.trace
  rw [hobs]
  exact List.mem_append_left _ ho

theorem Act.later (hS : Core.Sound c s.core) (h : Act c s l y) : Later s.core y :=
  ⟨h.trace, fun _ hc => h.completed hS hc⟩

theorem Touch.later {T : List NodeId} {q : Prop} (h : Touch c T q x y) : Later x y := by
  obtain ⟨e, he⟩ := h.trace
  exact ⟨⟨[.event e], he⟩, fun id hc => (h.terminal (by rw [hc]; rfl)).trans hc⟩

theorem step_later (hnd : (c.graph.map (·.id)).Nodup) (hS : State.Sound c s)
    (hs : step c s l = some s') : Later s.core s'.core :=
  ⟨step_trace hnd hS hs, fun _ hc => step_completed hnd hS hs hc⟩

end Later

/-! ## 2. What the code of `failNode` knows -/

/-- Every `failNode` under way, in an execution or in a worker, is at a place of which `P` holds. -/
structure Failing (P : Core → WorkflowNode → FailPc → Prop) (s : State) : Prop where
  flight : ∀ key f thrown error pc, s.core.store.inFlight key = some f →
    f.pc = .failing thrown error pc → P s.core f.node pc
  worker : ∀ job n error pc, .failing job n error pc ∈ s.workers → P s.core n pc

section Failing

variable {c : Context} {s s' : State} {l : Label} {P : Core → WorkflowNode → FailPc → Prop}

/-- The part about the executions, as a property of the shared state. -/
def FlightFailing (P : Core → WorkflowNode → FailPc → Prop) (x : Core) : Prop :=
  ∀ key f thrown error pc, x.store.inFlight key = some f → f.pc = .failing thrown error pc →
    P x f.node pc

theorem FlightFailing.act {y : Core} (hS : Core.Sound c s.core) (h : FlightFailing P s.core)
    (hmono : ∀ {x y n pc}, Later x y → P x n pc → P y n pc)
    (hhead : ∀ {x y n error q pc}, n ∈ c.graph → HeadRow c x n error q y (some pc) → P y n pc)
    (hrest : ∀ {x y n error pc a pc'}, n ∈ c.graph → P x n pc → FailRow c x n error pc a y pc' →
      P y n pc')
    (ha : Act c s l y) : FlightFailing P y := by
  have hlater := ha.later hS
  intro key f thrown error pc hf hpc
  cases ha with
  | idle | completes | endRefused | late | world => exact hmono hlater (h key f thrown error pc hf hpc)
  | @flight k g a z pc' hg hrow =>
      have hgn := (hS.flight k g hg).1
      rw [Core.setFlight_inFlight] at hf
      split_ifs at hf with hk
      · cases hf
        dsimp only at hpc
        subst hpc
        refine hmono (x := z) ⟨⟨[], (List.append_nil _).symm⟩, fun _ hc => hc⟩ ?_
        generalize hgpc : g.pc = pc₀ at hrow
        cases hrow with
        | concludes _ _ _ hpc => rcases hpc with hpc | ⟨_, hpc⟩ <;> cases hpc
        | settles hpc => rcases hpc with ⟨_, -, -, hpc, -⟩ | ⟨_, -, -, hpc, -⟩ | ⟨_, -, hpc⟩ <;> cases hpc
        | fails _ _ hrow => exact hhead hgn hrow
        | ending hrow => exact hrest hgn (h k g _ _ _ hg hgpc) hrow
      · rw [hrow.own.store] at hf
        exact hmono hlater (h key f thrown error pc hf hpc)
  | settles hg hpc' =>
      simp only [IdempotencyStore.settle] at hf
      split_ifs at hf
      exact hmono hlater (h key f thrown error pc hf hpc)
  | @begins i n job s₀ hh hn =>
      rw [Core.setFlight_inFlight] at hf
      split_ifs at hf with hk
      · cases hf
        rcases beginAttempt_row (s := s.core) (n := n) job with ⟨-, -, hran⟩ | ⟨-, e, hrej⟩
        · cases hran.symm.trans hpc
        · cases hrej.symm.trans hpc
      · rw [beginAttempt_own.store] at hf
        exact hmono hlater (h key f thrown error pc hf hpc)
  | @givesUp i job n d stored err core z pc' hw hn hend ht hcore hcaught hrow =>
      rw [hrow.own.store] at hf
      refine hmono hlater (h key f thrown error pc ?_ hpc)
      rcases hcore with rfl | rfl <;> exact hf
  | ending hw hn hend hrow =>
      rw [hrow.own.store] at hf
      exact hmono hlater (h key f thrown error pc hf hpc)

/-- **What holds at the places of `failNode`**: the head establishes it, the rest carries it on,
    and it outlives whatever else happens. -/
theorem Failing.step (hnd : (c.graph.map (·.id)).Nodup) (hS : State.Sound c s) (h : Failing P s)
    (hmono : ∀ {x y n pc}, Later x y → P x n pc → P y n pc)
    (hhead : ∀ {x y n error q pc}, n ∈ c.graph → HeadRow c x n error q y (some pc) → P y n pc)
    (hrest : ∀ {x y n error pc a pc'}, n ∈ c.graph → P x n pc → FailRow c x n error pc a y pc' →
      P y n pc')
    (hs : step c s l = some s') : Failing P s' := by
  refine ⟨?_, fun job n error pc hm => ?_⟩
  · refine (step_core hS hnd hs).keeps (I := FlightFailing P) hnd hS.core
      (fun z ha => FlightFailing.act hS.core h.flight hmono hhead hrest ha)
      (fun z z' T q _ _ hz ht => ?_) fun z id st _ hz key f thrown error pc hf hpc => ?_
    · intro key f thrown error pc hf hpc
      rw [ht.sameRest.store] at hf
      exact hmono ht.later (hz key f thrown error pc hf hpc)
    · exact hmono ⟨⟨_, rfl⟩, fun _ hc => hc⟩ (hz key f thrown error pc hf hpc)
  · -- the entry was there, or its worker has just moved to it
    have hold : .failing job n error pc ∈ s.workers → P s'.core n pc := fun hw =>
      hmono (step_later hnd hS hs) (h.worker job n error pc hw)
    cases l with
    | drive =>
        rcases (hS.orderly.drive (driveStep_move hs)).2 with hws | ⟨-, hidle⟩
        · exact hold (hws ▸ hm)
        · cases hidle _ hm
    | worker i a =>
        rcases (workerStep_move hs).failing hm with hw | ⟨pc₀, hw, hrow⟩ | ⟨_, _, _, hw, -, -, hrow⟩
        · exact hold hw
        · have hw := List.mem_of_getElem? hw
          exact hrest (hS.workers _ hw).1.1 (h.worker job n error pc₀ hw) hrow
        · exact hhead (hS.workers _ (List.mem_of_getElem? hw)).1.1 hrow
    | flight key a =>
        obtain ⟨y, -, rfl⟩ := Option.map_eq_some_iff.mp hs
        exact hold hm
    | late call o =>
        obtain ⟨y, -, rfl⟩ := Option.map_eq_some_iff.mp hs
        exact hold hm
    | redeliver j at_ =>
        obtain ⟨y, -, rfl⟩ := Option.map_eq_some_iff.mp hs
        exact hold hm
    | cancel reason =>
        cases hs
        exact hold hm
    | world w =>
        cases hs
        exact hold hm

/-- An executor that begins is inside no `failNode`. -/
theorem Failing.start (hnd : (c.graph.map (·.id)).Nodup) (hb : Begins c s) : Failing P s := by
  refine ⟨fun key f _ _ _ hf => ?_, fun _ _ _ _ hm => ?_⟩
  · rw [hb.still hnd key] at hf
    cases hf
  · rw [hb.workers] at hm
    cases hm

end Failing

end AgentKernel.Orchestrator
