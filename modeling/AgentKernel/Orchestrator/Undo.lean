/-
  File:      AgentKernel/Orchestrator/Undo.lean
  Subject:   What a compensated node counts as. After `WorkflowNodeCompensated` of a node nothing
             that depends on it is to start, and the outcome is not to list it as completed.

  A sweep calls the compensation of a completed node and records it, but the node keeps its
  status: readiness and the outcome still take it for done. So the property holds of exactly the
  runs in which no compensation of a sweep comes to its end (**`undone_iff`**).
-/
import AgentKernel.Orchestrator.Failing

namespace AgentKernel.Orchestrator

open Lib

/-! ## 1. The property and its condition -/

/-- A start of a node comes after no compensation of a node it depends on. -/
def StartsOnDone (c : Context) (past : List Obs) : Obs → Prop
  | .event (.nodeRunning id ..) | .called _ id .forward .. =>
      ∀ m action, .event (.nodeCompensated m action) ∈ past → ¬ DependsOn c.graph id m
  | _ => True

/-- A compensated node is not treated as done: nothing that depends on it starts, and the outcome
    does not list it. -/
def Undone (c : Context) (s : State) : Prop :=
  Justified (StartsOnDone c) s.core.trace ∧
  ∀ m action, .event (.nodeCompensated m action) ∈ s.core.trace → m ∉ (outcome c s).completed

/-- The step settles no compensation call of a sweep. -/
def SettlesNoSweep (s : State) : Label → Prop
  | .flight key (.run _) => ∀ f thrown error id spec call rest,
      s.core.store.inFlight key = some f → f.pc ≠ .failing thrown error (.sweeping id spec call rest)
  | .worker i (.run _) => ∀ job n error id spec call rest,
      s.workers[i]? ≠ some (.failing job n error (.sweeping id spec call rest))
  | _ => True

/-! ## 2. A sweep visits completed nodes -/

/-- The node is completed, and the graph has it. -/
def IsDone (c : Context) (s : Core) (id : NodeId) : Prop :=
  s.status id = .completed ∧ ∃ m ∈ c.graph, m.id = id

/-- Only nodes that are done are swept. -/
structure Sweeps (c : Context) (s : State) : Prop where
  flight : ∀ key f thrown error id spec call rest, s.core.store.inFlight key = some f →
    f.pc = .failing thrown error (.sweeping id spec call rest) → IsDone c s.core id
  worker : ∀ job n error id spec call rest,
    .failing job n error (.sweeping id spec call rest) ∈ s.workers → IsDone c s.core id

section Sweeps

variable {c : Context} {s s' : State} {l : Label}

theorem sweepNext_done {x y : Core} {failed id : NodeId} {ids rest : List NodeId}
    {spec : CompensationAction} {call : Nat}
    (h : sweepNext c x failed ids = (y, .sweeping id spec call rest)) : IsDone c x id := by
  rcases sweepNext_cases h with ⟨-, hpc⟩ | ⟨id', _, _, m, -, hpc, -, -, -, hst, hm, -⟩
  · cases hpc
  · cases hpc
    obtain ⟨hmem, hid⟩ := mem_of_nodeById hm
    exact ⟨hst, m, hmem, hid⟩

theorem failRow_done {x y : Core} {n : WorkflowNode} {error : String} {pc : FailPc} {a : Answer}
    {id : NodeId} {spec : CompensationAction} {call : Nat} {rest : List NodeId}
    (h : FailRow c x n error pc a y (.sweeping id spec call rest)) : IsDone c y id := by
  cases h with
  | rollsBack hs hx =>
      obtain ⟨hst, hm⟩ := sweepNext_done hx
      exact ⟨(sweepNext_status hx).trans hst, hm⟩
  | swept hx =>
      obtain ⟨hst, hm⟩ := sweepNext_done hx
      exact ⟨(sweepNext_status hx).trans hst, hm⟩

theorem headRow_pc {x y : Core} {n : WorkflowNode} {error : String} {q : Bool} {pc : FailPc}
    (h : HeadRow c x n error q y (some pc)) : pc = .persisting ∨ ∃ spec, pc = .compensating spec := by
  cases h with
  | failed | quarantines => exact .inl rfl
  | compensates => exact .inr ⟨_, rfl⟩

theorem IsDone.mono {x y : Core} {id : NodeId} (h : IsDone c x id)
    (hst : x.status id = .completed → y.status id = .completed) : IsDone c y id :=
  ⟨hst h.1, h.2⟩

/-- A sweep awaits the compensation of a done node. -/
def SweepsDone (c : Context) (x : Core) (_ : WorkflowNode) (pc : FailPc) : Prop :=
  ∀ id spec call rest, pc = .sweeping id spec call rest → IsDone c x id

theorem sweeps_iff : Sweeps c s ↔ Failing (SweepsDone c) s := by
  constructor
  · intro ⟨hf, hw⟩
    refine ⟨fun key f thrown error pc hk hpc id spec call rest he => ?_,
      fun job n error pc hm id spec call rest he => ?_⟩
    · exact hf key f thrown error id spec call rest hk (he ▸ hpc)
    · exact hw job n error id spec call rest (he ▸ hm)
  · intro ⟨hf, hw⟩
    exact ⟨fun key f thrown error id spec call rest hk hpc =>
        hf key f thrown error _ hk hpc id spec call rest rfl,
      fun job n error id spec call rest hm => hw job n error _ hm id spec call rest rfl⟩

theorem Sweeps.start {s₀ : State} (hnd : (c.graph.map (·.id)).Nodup) (hb : Begins c s₀) :
    Sweeps c s₀ :=
  sweeps_iff.mpr (.start hnd hb)

theorem Sweeps.step (hnd : (c.graph.map (·.id)).Nodup) (hS : State.Sound c s) (h : Sweeps c s)
    (hs : step c s l = some s') : Sweeps c s' := by
  refine sweeps_iff.mpr ((sweeps_iff.mp h).step hnd hS ?_ ?_ ?_ hs)
  · exact fun hlater hp id spec call rest he =>
      (hp id spec call rest he).mono (hlater.completed id)
  · intro x y n error q pc _ hrow id spec call rest he
    rcases headRow_pc hrow with hpc | ⟨_, hpc⟩ <;> cases hpc.symm.trans he
  · rintro x y n error pc a pc' _ - hrow id spec call rest rfl
    exact failRow_done hrow

theorem sweeps_run {ok : State → Label → Prop} {s₀ : State} {ls : List Label}
    (hnd : (c.graph.map (·.id)).Nodup) (hb : Begins c s₀) (h : Run (step c) ok s₀ ls s) :
    Sweeps c s := by
  refine (Run.invariant (I := fun s => State.Sound c s ∧ Sweeps c s)
    ⟨hb.sound hnd, .start hnd hb⟩ ?_ h).2
  exact fun s l s' hI _ hs => ⟨hI.1.step hnd hs, hI.2.step hnd hI.1 hs⟩

theorem IsDone.run {ok : State → Label → Prop} {s₀ : State} {ls : List Label} {id : NodeId}
    (hnd : (c.graph.map (·.id)).Nodup) (hS : State.Sound c s₀) (hd : IsDone c s₀.core id)
    (h : Run (step c) ok s₀ ls s) : IsDone c s.core id := by
  refine (Run.invariant (I := fun s => State.Sound c s ∧ IsDone c s.core id) ⟨hS, hd⟩ ?_ h).2
  exact fun s l s' hI _ hs =>
    ⟨hI.1.step hnd hs, hI.2.mono fun hc => step_completed hnd hI.1 hs hc⟩

end Sweeps

/-! ## 3. Compensations that come to their end -/

/-- `m` has been compensated in the trace. -/
def Compensated (trace : List Obs) (m : NodeId) : Prop :=
  ∃ action, .event (.nodeCompensated m action) ∈ trace

section Settling

variable {c : Context} {s s' : State} {l : Label}

theorem failRow_compensated {x y : Core} {n : WorkflowNode} {error : String} {pc pc' : FailPc}
    {a : Answer} {m : NodeId} (h : FailRow c x n error pc a y pc') (hm : Compensated y.trace m) :
    Compensated x.trace m ∨
      ∃ id spec call rest o, pc = .sweeping id spec call rest ∧ a = .run o := by
  obtain ⟨action, hm⟩ := hm
  cases h with
  | undoes => exact .inl ⟨action, by simpa [Core.invoke] using hm⟩
  | rollsBack hs hx =>
      rcases sweepNext_cases hx with ⟨rfl, -⟩ | ⟨_, _, _, _, rfl, _⟩
      · exact .inl ⟨action, by simpa using hm⟩
      · exact .inl ⟨action, by simpa [Core.invoke] using hm⟩
  | swept hx => exact .inr ⟨_, _, _, _, _, rfl, rfl⟩

theorem headRow_compensated {x y : Core} {n : WorkflowNode} {error : String} {q : Bool}
    {pc : Option FailPc} {m : NodeId} (h : HeadRow c x n error q y pc) (hm : Compensated y.trace m) :
    Compensated x.trace m := by
  obtain ⟨action, hm⟩ := hm
  refine ⟨action, ?_⟩
  cases h <;> simpa using hm

theorem row_compensated {x y : Core} {f : Flight} {pc pc' : FlightPc} {a : Answer} {m : NodeId}
    (h : Row c x f pc a y pc') (hm : Compensated y.trace m) : Compensated x.trace m ∨
      ∃ thrown error id spec call rest o,
        pc = .failing thrown error (.sweeping id spec call rest) ∧ a = .run o := by
  have hm' := hm
  obtain ⟨action, hmem⟩ := hm
  cases h with
  | throws | approved | timesOut | ended => exact .inl hm'
  | calls => exact .inl ⟨action, by simpa [Core.invoke] using hmem⟩
  | concludes hkind hcond hsrc =>
      rcases hsrc with ⟨-, -, rfl, -⟩ | ⟨_, _, _, -, -, rfl⟩
      · exact .inl ⟨action, by simpa using hmem⟩
      · exact .inl ⟨action, by simpa using hmem⟩
  | @answers req granted =>
      refine .inl ⟨action, ?_⟩
      cases granted <;> simpa using hmem
  | asks | settles | verifies | retries | retryRefused | resumes =>
      exact .inl ⟨action, by simpa using hmem⟩
  | fails _ _ hhead | failRefused _ hhead =>
      have hx : Compensated (x.countFailure f.node.id).trace m := headRow_compensated hhead hm'
      exact .inl hx
  | ending hfail =>
      rcases failRow_compensated hfail hm' with h | ⟨id, spec, call, rest, o, rfl, rfl⟩
      · exact .inl h
      · exact .inr ⟨_, _, id, spec, call, rest, o, rfl, rfl⟩

/-- A compensation of a sweep is recorded by the step that settles its call, and by no other. -/
theorem act_compensated {y : Core} {m : NodeId} (ha : Act c s l y) (hok : SettlesNoSweep s l)
    (hm : Compensated y.trace m) : Compensated s.core.trace m := by
  cases ha with
  | idle | settles | world => exact hm
  | @flight key f a z pc hf hrow =>
      generalize hpc : f.pc = pc₀ at hrow
      rcases row_compensated hrow hm with h | ⟨thrown, error, id, spec, call, rest, o, rfl, rfl⟩
      · exact h
      · exact absurd hpc (hok f thrown error id spec call rest hf)
  | @begins i n job s₀ hh =>
      obtain ⟨action, hm⟩ := hm
      rw [Core.setFlight_trace] at hm
      by_cases hs : s.core.status n.id = .ready ∨ s.core.status n.id = .retrying
      · rw [beginAttempt_ok hs] at hm
        exact ⟨action, by simpa using hm⟩
      · simp only [not_or] at hs
        obtain ⟨_, he⟩ := beginAttempt_refused job hs.1 hs.2
        rw [he] at hm
        exact ⟨action, by simpa using hm⟩
  | completes | endRefused | late =>
      obtain ⟨action, hm⟩ := hm
      exact ⟨action, by simpa [doneCore] using hm⟩
  | givesUp hw hn hend ht hcore hcaught hrow =>
      obtain ⟨action, hm⟩ := headRow_compensated hrow hm
      rcases hcore with rfl | rfl
      · exact ⟨action, hm⟩
      · exact ⟨action, by simpa using hm⟩
  | @ending i job n error a z pc pc' hw hn hend hrow =>
      rcases failRow_compensated hrow hm with h | ⟨id, spec, call, rest, o, rfl, rfl⟩
      · exact h
      · exact absurd hw (hok job n error id spec call rest)

/-- The step that settles a sweep's call records the compensation of a done node. -/
theorem settles_compensated (hnd : (c.graph.map (·.id)).Nodup) (hS : State.Sound c s)
    (hsw : Sweeps c s) (hs : step c s l = some s') (hbad : ¬ SettlesNoSweep s l) :
    ∃ m, Compensated s'.core.trace m ∧ IsDone c s'.core m := by
  have hfail : ∀ {x : Core} {n error id spec call rest o r}, failStep c x n error
      (.sweeping id spec call rest) (.run o) = some r → ∃ y pc, r = .more y pc ∧ Compensated y.trace id := by
    intro x n error id spec call rest o r hr
    unfold failStep at hr
    cases hr
    refine ⟨_, _, rfl, spec.action, ?_⟩
    obtain ⟨obs, hobs⟩ := (sweepNext_own rfl n.id : Own n.id _ (sweepNext c _ n.id rest).1).trace
    rw [hobs]
    exact List.mem_append_left _ (List.mem_append_right _ List.mem_cons_self)
  unfold SettlesNoSweep at hbad
  split at hbad
  · rename_i key o
    push Not at hbad
    obtain ⟨f, thrown, error, id, spec, call, rest, hf, hpc⟩ := hbad
    have hd := hsw.flight key f thrown error id spec call rest hf hpc
    refine ⟨id, ?_, hd.mono fun hc => step_completed hnd hS hs hc⟩
    obtain ⟨y, hy, rfl⟩ := Option.map_eq_some_iff.mp hs
    unfold flightStep at hy
    rw [hf] at hy
    dsimp only at hy
    rw [hpc] at hy
    obtain ⟨next, hnext, rfl⟩ := Option.map_eq_some_iff.mp hy
    simp only [flightNext] at hnext
    split at hnext
    · rename_i z pc' hr
      cases hnext
      obtain ⟨_, _, he, hcomp⟩ := hfail hr
      cases he
      exact hcomp
    · rename_i hr
      obtain ⟨_, _, he, -⟩ := hfail hr
      cases he
    · rename_i hr
      obtain ⟨_, _, he, -⟩ := hfail hr
      cases he
    · cases hnext
  · rename_i i o
    push Not at hbad
    obtain ⟨job, n, error, id, spec, call, rest, hw⟩ := hbad
    have hd := hsw.worker job n error id spec call rest (List.mem_of_getElem? hw)
    refine ⟨id, ?_, hd.mono fun hc => step_completed hnd hS hs hc⟩
    have hstep : workerStep c s i (.run o) = some s' := hs
    unfold workerStep at hstep
    rw [hw] at hstep
    dsimp only at hstep
    split at hstep
    · rename_i z pc' hr
      cases hstep
      obtain ⟨_, _, he, hcomp⟩ := hfail hr
      cases he
      exact hcomp
    · rename_i hr
      obtain ⟨_, _, he, -⟩ := hfail hr
      cases he
    · rename_i hr
      obtain ⟨_, _, he, -⟩ := hfail hr
      cases he
    · cases hstep
  · exact absurd trivial hbad

theorem run_uncompensated {s₀ : State} {ls : List Label} (hnd : (c.graph.map (·.id)).Nodup)
    (hS : State.Sound c s₀) (hno : ∀ m, ¬ Compensated s₀.core.trace m)
    (h : Run (step c) SettlesNoSweep s₀ ls s) (m : NodeId) : ¬ Compensated s.core.trace m := by
  refine (run_keeps (I := fun z => ¬ Compensated z.trace m) hnd hS (hno m)
    (fun s l z _ hz hok ha hm => hz (act_compensated ha hok hm)) (fun z z' T q _ _ hz ht => ?_)
    (fun z id st _ hz => ?_) h).2
  · intro ⟨action, hm⟩
    refine hz ⟨action, ?_⟩
    cases ht with
    | skip | prepare | cancel => simpa using hm
    | note he =>
        rcases List.mem_append.mp hm with hm | hm
        · exact hm
        · cases List.mem_singleton.mp hm
          cases he
  · intro ⟨action, hm⟩
    exact hz ⟨action, by simpa using hm⟩

end Settling

/-! ## 4. Undone nodes -/

theorem mem_completed {c : Context} {s : State} {id : NodeId} (h : IsDone c s.core id) :
    id ∈ (outcome c s).completed := by
  obtain ⟨hst, n, hn, rfl⟩ := h
  simp only [outcome, List.mem_map, List.mem_filter, decide_eq_true_eq]
  exact ⟨_, ⟨⟨n, hn, rfl⟩, hst⟩, rfl⟩

/-- **Compensated nodes count as undone in exactly the runs that settle no sweep.** -/
theorem undone_iff {c : Context} {s₀ s : State} {ls : List Label}
    (hv : validateGraph c.graph = .ok ()) (hb : Begins c s₀)
    (hno : ∀ m, ¬ Compensated s₀.core.trace m) (h : Run (step c) (fun _ _ => True) s₀ ls s) :
    Undone c s ↔ Run (step c) SettlesNoSweep s₀ ls s := by
  have hnd := validateGraph_nodup hv
  constructor
  · intro ⟨_, hout⟩
    rcases h.and_or_bad SettlesNoSweep with hall | ⟨ls₁, l, ls₂, s₁, s₂, -, hr, -, hbad, hs, hrest⟩
    · exact hall.mono fun _ _ => And.right
    · exfalso
      -- the first such step leaves a compensated node done, and so does every step behind it
      have hS₁ := run_sound hnd (hb.sound hnd) hr
      obtain ⟨m, ⟨action, hm⟩, hd⟩ := settles_compensated hnd hS₁ (sweeps_run hnd hb hr) hs hbad
      obtain ⟨more, hmore⟩ := run_trace hnd (hS₁.step hnd hs) hrest
      refine hout m action ?_ (mem_completed (hd.run hnd (hS₁.step hnd hs) hrest))
      rw [hmore]
      exact List.mem_append_left _ hm
  · intro hr
    have hnone := run_uncompensated hnd (hb.sound hnd) hno hr
    refine ⟨fun A e B hsplit => ?_, fun m action hm => absurd ⟨action, hm⟩ (hnone m)⟩
    have hpast : ∀ m action, .event (.nodeCompensated m action) ∉ A := fun m action hm =>
      hnone m ⟨action, by
        rw [hsplit]
        exact List.mem_append_left _ hm⟩
    unfold StartsOnDone
    split
    · exact fun m action hm => absurd hm (hpast m action)
    · exact fun m action hm => absurd hm (hpast m action)
    · trivial

/-- A resource that is created and, when the deployment beside it fails, deleted again. -/
def createNode : WorkflowNode :=
  { id := "create", kind := .action, action := some "create.resource", deps := []
    compensation := some (.action "delete.resource" none) }

/-- The deployment beside it. -/
def deployNode : WorkflowNode :=
  { id := "deploy", kind := .action, action := some "deploy.app", deps := []
    compensation := some (.action "deploy.rollback" none) }

/-- The two side by side. -/
def deployContext : Context :=
  { limits := defaultBulkhead, compensations := .empty, sha256 := fun s => s
    runId := "run", taskId := "task", graph := [createNode, deployNode] }

/-- Nothing needs approval, and no guard stops anything. -/
def calmWorld : World := ⟨fun _ => false, fun _ _ _ => none⟩

/-- The creation completes, the deployment fails, is rolled back, and sweeps. -/
def deployRun : List Label :=
  let done : Answer := .run (.resolved ⟨.success, .obj [], []⟩)
  [.drive, .drive, .drive, .drive, .worker 0 .tick, .worker 1 .tick] ++
    [.tick, done, .tick, .tick].map (.flight (keyOf deployContext createNode)) ++
    [.worker 0 .tick] ++
    [.tick, .run (.rejected "deploy exploded"), .tick, .tick, done, done].map
      (.flight (keyOf deployContext deployNode))

theorem initial_uncompensated (c : Context) (w : World) (m : NodeId) :
    ¬ Compensated (State.initial c w).core.trace m := by
  intro ⟨action, hm⟩
  cases List.mem_singleton.mp hm

theorem undone_iff_deploy : ∃ s, exec (step deployContext) (.initial deployContext calmWorld)
    deployRun = some s ∧ (Undone deployContext s ↔
      Run (step deployContext) SettlesNoSweep (.initial deployContext calmWorld) deployRun s) := by
  obtain ⟨s, hs⟩ := Option.isSome_iff_exists.mp (show (exec (step deployContext)
    (.initial deployContext calmWorld) deployRun).isSome = true by decide)
  exact ⟨s, hs, undone_iff (by rfl) (.inl ⟨_, rfl⟩) (initial_uncompensated _ _)
    (run_of_exec (fun _ _ => trivial) hs)⟩

/-- Whether a node compensated in the trace is listed as completed. -/
def listsCompensated (c : Context) (s : State) : Bool :=
  s.core.trace.any fun
    | .event (.nodeCompensated m _) => (outcome c s).completed.contains m
    | _ => false

theorem not_undone_of_listsCompensated {c : Context} {s : State} (h : listsCompensated c s = true) :
    ¬ Undone c s := by
  intro ⟨_, hout⟩
  obtain ⟨o, ho, hflag⟩ := List.any_eq_true.mp h
  split at hflag
  · exact hout _ _ ho (List.contains_iff_mem.mp hflag)
  · cases hflag

/-- The deleted resource is listed as completed. -/
theorem deleted_counts_as_done : ∃ c s ls w, validateGraph c.graph = .ok () ∧
    Run (step c) (fun _ _ => True) (.initial c w) ls s ∧ ¬ Undone c s := by
  obtain ⟨s, hs, hlists⟩ := Option.map_eq_some_iff.mp (show (exec (step deployContext)
    (.initial deployContext calmWorld) deployRun).map (listsCompensated deployContext) =
      some true by decide)
  exact ⟨deployContext, s, deployRun, calmWorld, rfl, run_of_exec (fun _ _ => trivial) hs,
    not_undone_of_listsCompensated hlists⟩

end AgentKernel.Orchestrator
