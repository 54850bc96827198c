/-
  File:      AgentKernel/Orchestrator/Cancel.lean
  Subject:   What still starts after `cancel()`.

  The flag is read at the head of the drive loop and by a worker before it takes a job. It is not
  read behind the bulkhead, behind the persist of `WorkflowNodeRunning`, behind the answer to an
  approval request and behind the backoff of a retry.

  So no forward action is called after a cancellation that finds every execution past its call and
  every job at a seat under way already, unless an attempt is retried (`Stilled`, `Heeds`). And
  where a cancellation finds an execution in front of its call, the run can go on to that call
  (`Impends.canCall`). Both together are **`no_new_work`**.
-/
import AgentKernel.Orchestrator.Start
import AgentKernel.Orchestrator.Trace

namespace AgentKernel.Orchestrator

open Lib

/-! ## 1. The property and its condition -/

/-- A forward action is called. -/
def Obs.startsForward : Obs → Bool
  | .called _ _ .forward .. => true
  | _ => false

/-- The calls of forward actions in a trace. -/
def forwardCalls (trace : List Obs) : List Obs := trace.filter (·.startsForward)

/-- After a cancellation in the run no forward action is called. -/
def NoNewWork (c : Context) (s₀ : State) (ls : List Label) (s : State) : Prop :=
  ∀ ls₁ reason ls₂ s₁, ls = ls₁ ++ .cancel reason :: ls₂ →
    Run (step c) (fun _ _ => True) s₀ ls₁ s₁ →
    forwardCalls s.core.trace = forwardCalls s₁.core.trace

/-- The node has an input to be called with. -/
def inputResolves (s : Core) (n : WorkflowNode) : Bool :=
  match resolveInput s.results n with
  | .ok _ => true
  | .error _ => false

/-- An execution at this place goes on to the call of its forward action. -/
def goesOnToCall (s : Core) (n : WorkflowNode) : FlightPc → Answer → Bool
  | .ran, .tick =>
      match n.kind with
      | .conditional => n.condition.isSome && (truthy n.action).isSome && inputResolves s n
      | .approval => false
      | .action => !s.world.requiresApproval (n.action.getD "") && inputResolves s n
  | .answered _ true, .tick =>
      match n.kind with
      | .approval => false
      | _ => inputResolves s n
  | _, _ => false

/-- A node with a forward action to call. -/
def callable (n : WorkflowNode) : Bool :=
  match n.kind with
  | .action => true
  | .conditional => n.condition.isSome && (truthy n.action).isSome
  | .approval => false

/-- The call of the attempt is still ahead of this place. -/
def stillCalls (n : WorkflowNode) : FlightPc → Bool
  | .ran | .retrying => callable n
  | .waiting _ | .answered _ true => decide (n.kind ≠ .approval)
  | _ => false

/-- The attempt that has thrown is retried. -/
def Retries (s : Core) (f : Flight) (e : String) : Prop :=
  s.status f.node.id = .running ∧ willRetry s f.node f.job.attempt e = true

/-- What a cancellation may find: every execution is past the call of its attempt, and a job that
    waits for a seat has been executed already, or is in flight, or its node calls nothing. -/
structure Stilled (s : State) : Prop where
  seats : ∀ job n, .seat job n ∈ s.workers → callable n = true →
    s.core.store.run job.idempotencyKey ≠ .fresh
  flights : ∀ key f, s.core.store.inFlight key = some f → stillCalls f.node f.pc = false

/-- A cancellation finds every execution past its call, and behind it no attempt of a node that
    calls is retried. -/
def Heeds (s : State) : Label → Prop
  | .cancel _ => Stilled s
  | .flight key _ => s.cancelled ≠ none → ∀ f e, s.core.store.inFlight key = some f →
      callable f.node = true → f.pc = .threw e → ¬Retries s.core f e
  | _ => True

/-- A call is at hand: an execution is in front of it, or about to be tried again, or its job is
    about to get a seat; and the input is there. -/
inductive Impends (c : Context) (s : State) : Prop where
  | ahead {key : String} {f : Flight} (hf : s.core.store.inFlight key = some f)
      (hcall : stillCalls f.node f.pc = true) (hin : inputResolves s.core f.node = true)
  | again {key e : String} {f : Flight} (hf : s.core.store.inFlight key = some f)
      (hpc : f.pc = .threw e) (hcall : callable f.node = true) (hagain : Retries s.core f e)
      (hin : inputResolves s.core f.node = true)
  | seated {i : Nat} {job : WorkflowJob} {n : WorkflowNode} {limiter : ConcurrencyLimiter}
      (hw : s.workers[i]? = some (.seat job n)) (hcall : callable n = true)
      (hfresh : s.core.store.run job.idempotencyKey = .fresh) (hready : s.status n.id = .ready)
      (hacq : s.limiter.tryAcquire c.limits (slotOf job n) = some limiter)
      (hin : inputResolves s.core n = true)

/-! ## 2. What a step calls -/

section Calls

variable {c : Context} {s s' : State} {x y : Core} {n : WorkflowNode} {l : Label} {pc' : FlightPc}

/-- Observations without the call of a forward action are added. -/
def CallsNothing (x y : Core) : Prop :=
  ∃ obs, y.trace = x.trace ++ obs ∧ ∀ o ∈ obs, o.startsForward = false

theorem CallsNothing.calls (h : CallsNothing x y) : forwardCalls y.trace = forwardCalls x.trace := by
  obtain ⟨obs, hobs, hq⟩ := h
  have hnone : forwardCalls obs = [] := by
    refine List.filter_eq_nil_iff.mpr fun o ho => ?_
    rw [hq o ho]
    decide
  rw [forwardCalls, hobs, List.filter_append]
  show _ ++ forwardCalls obs = _
  rw [hnone, List.append_nil, forwardCalls]

theorem callForward_calling {action action' : String} {input : Option Json} {call : Nat}
    (h : callForward x n action' = (y, .calling action input call)) : inputResolves x n = true := by
  unfold callForward at h
  unfold inputResolves
  split at h
  · cases h
  · rename_i hinput
    rw [hinput]

theorem callForward_eq (action : String) (h : inputResolves x n = true) : ∃ input,
    callForward x n action =
      (x.invoke n.id .forward action input, .calling action input x.trace.length) := by
  unfold inputResolves at h
  unfold callForward
  split at h
  · rename_i input hinput
    exact ⟨input, by rw [hinput]⟩
  · cases h

/-- What comes to a call from its start or its answer was about to. -/
theorem runNodeAction_calling {action : String} {input : Option Json} {call : Nat}
    (h : runNodeAction c x n = (y, .calling action input call)) :
    goesOnToCall x n .ran .tick = true := by
  unfold runNodeAction at h
  unfold goesOnToCall
  cases hkind : n.kind with
  | conditional =>
      simp only [hkind] at h
      split at h
      · cases h
      · rename_i cond hcond
        split at h
        · rename_i action' haction
          simp [hcond, haction, callForward_calling h]
        · split at h
          · rcases conclude_pc h with hpc | ⟨_, hpc⟩ <;> cases hpc
          · cases h
  | approval =>
      simp only [hkind, requestApproval] at h
      split at h <;> cases h
  | action =>
      simp only [hkind] at h
      split_ifs at h with hreq
      · unfold requestApproval at h
        split at h <;> cases h
      · simp [hreq, callForward_calling h]

theorem afterApproval_calling {req : ApprovalRequest} {action : String} {input : Option Json}
    {call : Nat} (h : afterApproval x n req.action true = (y, .calling action input call)) :
    goesOnToCall x n (.answered req true) .tick = true := by
  unfold afterApproval at h
  rw [if_pos rfl] at h
  cases hkind : n.kind with
  | approval =>
      rw [hkind] at h
      cases h
  | action | conditional =>
      rw [hkind] at h
      simp [goesOnToCall, hkind, callForward_calling h]

/-- **An act that calls a forward action** is an execution that was about to. -/
theorem ActObs.goesOn {o : Obs} (h : ActObs c s l o) (ho : o.startsForward = true) :
    ∃ key a f, l = .flight key a ∧ s.core.store.inFlight key = some f ∧
      goesOnToCall s.core f.node f.pc a = true := by
  unfold Obs.startsForward at ho
  split at ho
  · obtain ⟨key, f, rfl, hf, -, hpc, hnext⟩ := h.called
    refine ⟨key, .tick, f, rfl, hf, ?_⟩
    rcases hpc with hpc | ⟨req, hpc⟩
    · rw [hpc] at hnext ⊢
      exact runNodeAction_calling (Option.some.inj hnext)
    · rw [hpc] at hnext ⊢
      exact afterApproval_calling (Option.some.inj hnext)
  · cases ho

theorem TouchObs.startsForward {q : Prop} {o : Obs} (h : TouchObs q o) :
    o.startsForward = false := by
  cases h <;> rfl

theorem goesOnToCall_of_past {pc : FlightPc} {a : Answer} (h : stillCalls n pc = false) :
    goesOnToCall x n pc a = false := by
  unfold stillCalls callable at h
  unfold goesOnToCall
  split
  · cases hk : n.kind <;> simp_all
  · split <;> simp_all
  · rfl

/-- **Where every execution is past its call, a step calls nothing.** -/
theorem step_callsNothing (hnd : (c.graph.map (·.id)).Nodup) (hS : State.Sound c s)
    (hpast : ∀ key f, s.core.store.inFlight key = some f → stillCalls f.node f.pc = false)
    (hs : step c s l = some s') : CallsNothing s.core s'.core := by
  refine (step_adds hnd hS hs).mono fun o ho => ?_
  rcases ho with hact | htouch
  · by_contra hcall
    obtain ⟨key, a, f, rfl, hf, hgo⟩ := hact.goesOn ((Bool.not_eq_false _).mp hcall)
    rw [goesOnToCall_of_past (hpast key f hf)] at hgo
    cases hgo
  · exact htouch.startsForward

/-- One stretch of an execution that does not return. -/
theorem step_flight {key : String} {f : Flight} {a : Answer}
    (hf : s.core.store.inFlight key = some f) (hgo : ∀ r, f.pc ≠ .verified r)
    (hnext : flightNext c s.core f f.pc a = some (y, pc')) :
    step c s (.flight key a) =
      some { s with core := y.setFlight key { f with job := nextJob f, pc := pc' } } := by
  have hstep : flightStep c s.core key a =
      some (y.setFlight key { f with job := nextJob f, pc := pc' }) := by
    unfold flightStep
    rw [hf]
    dsimp only
    split
    · rename_i r hr
      exact absurd hr (hgo r)
    · rw [hnext]
      rfl
  simp only [step, hstep, Option.map_some]

/-- An execution that is about to call does so with its next stretch. -/
theorem step_calls {key : String} {f : Flight} {a : Answer}
    (hf : s.core.store.inFlight key = some f) (hgo : goesOnToCall s.core f.node f.pc a = true) :
    ∃ s', step c s (.flight key a) = some s' ∧
      (forwardCalls s.core.trace).length < (forwardCalls s'.core.trace).length := by
  have hnext : ∃ action input, flightNext c s.core f f.pc a =
      some (s.core.invoke f.node.id .forward action input, .calling action input s.core.trace.length) := by
    unfold goesOnToCall at hgo
    split at hgo
    · rename_i hpc
      rw [hpc]
      simp only [flightNext]
      unfold runNodeAction
      cases hkind : f.node.kind with
      | conditional =>
          simp only [hkind, Bool.and_eq_true, Option.isSome_iff_exists] at hgo
          obtain ⟨⟨⟨cond, hcond⟩, action, haction⟩, hres⟩ := hgo
          obtain ⟨input, hcall⟩ := callForward_eq action hres
          simp only [hcond, haction]
          exact ⟨action, input, congrArg some hcall⟩
      | approval =>
          simp only [hkind] at hgo
          cases hgo
      | action =>
          simp only [hkind, Bool.and_eq_true, Bool.not_eq_true'] at hgo
          obtain ⟨input, hcall⟩ := callForward_eq (f.node.action.getD "") hgo.2
          simp only [hgo.1]
          exact ⟨_, input, congrArg some hcall⟩
    · rename_i req hpc
      rw [hpc]
      simp only [flightNext, afterApproval, if_true]
      split at hgo
      · cases hgo
      · rename_i hkind
        obtain ⟨input, hcall⟩ := callForward_eq req.action hgo
        refine ⟨req.action, input, Eq.trans ?_ (congrArg some hcall)⟩
        cases hk : f.node.kind with
        | approval => exact absurd hk hkind
        | action | conditional => rfl
    · cases hgo
  obtain ⟨action, input, hnext⟩ := hnext
  refine ⟨_, step_flight hf (fun r hr => ?_) hnext, ?_⟩
  · rw [hr] at hgo
    cases hgo
  · simp [forwardCalls, Core.invoke, Obs.startsForward]

end Calls

/-! ## 3. Runs -/

section Runs

variable {c : Context} {s₀ s s' : State} {l : Label} {ls : List Label} {ok : State → Label → Prop}

/-- Only `cancel` writes the flag, and it never takes it back. -/
theorem step_cancelled (hs : step c s l = some s') :
    s'.cancelled = s.cancelled ∨ ∃ reason, l = .cancel reason ∧ s'.cancelled = some reason := by
  have hloop : ∀ {x y : State}, Loop c x y → y.cancelled = x.cancelled := by
    intro x y hl
    cases hl <;> rfl
  cases l with
  | drive =>
      refine .inl ?_
      cases driveStep_move hs with
      | starts hd hl => exact (hloop hl).trans rfl
      | loops hd hall hl => exact hloop hl
      | aborts | emits | enqueues | dispatches | resolves => rfl
  | worker i a =>
      obtain ⟨-, -, -, -, -, -, -, -, hc⟩ := (workerStep_move hs).frame
      exact .inl hc
  | flight key a =>
      obtain ⟨y, -, rfl⟩ := Option.map_eq_some_iff.mp hs
      exact .inl rfl
  | late call o =>
      obtain ⟨y, -, rfl⟩ := Option.map_eq_some_iff.mp hs
      exact .inl rfl
  | redeliver j at_ =>
      obtain ⟨job, -, rfl⟩ := Option.map_eq_some_iff.mp hs
      exact .inl rfl
  | cancel reason =>
      cases hs
      exact .inr ⟨reason, rfl, rfl⟩
  | world w =>
      cases hs
      exact .inl rfl

theorem stays_cancelled (hs : step c s l = some s') (hc : s.cancelled ≠ none) :
    s'.cancelled ≠ none := by
  rcases step_cancelled hs with he | ⟨reason, -, he⟩
  · rw [he]
    exact hc
  · rw [he]
    simp

/-- A cancellation changes nothing else. -/
theorem State.Sound.cancel (hS : State.Sound c s) (reason : String) :
    State.Sound c { s with cancelled := some reason } :=
  ⟨hS.core, ⟨hS.orderly.jobs, hS.orderly.resting⟩, hS.workers, hS.held⟩

end Runs

/-! ## 4. Executions past their call -/

section PastCalls

variable {c : Context} {s s' : State} {x y : Core} {l : Label} {ls : List Label}

/-- An execution comes back to a call only by a retry. -/
theorem Row.past {f : Flight} {pc pc' : FlightPc} {a : Answer} (h : Row c x f pc a y pc')
    (hpc : stillCalls f.node pc = false)
    (hno : ∀ e, callable f.node = true → pc = .threw e → ¬Retries x f e) :
    stillCalls f.node pc' = false := by
  cases h with
  | throws | approved | timesOut | verifies | fails | failRefused | retryRefused | ending | ended
  | calls => rfl
  | concludes hkind hcond hsrc hpc' => rcases hpc' with rfl | ⟨_, rfl⟩ <;> rfl
  | settles hpc' =>
      rcases hpc' with ⟨_, -, -, rfl, -⟩ | ⟨_, -, -, rfl, -⟩ | ⟨_, -, rfl⟩ <;> rfl
  | retries hagain hs =>
      by_contra hcall
      exact hno _ ((Bool.not_eq_false _).mp hcall) rfl ⟨hs, hagain⟩
  | asks hs hgate =>
      rcases hgate with ⟨hkind, -⟩ | ⟨hkind, -, -⟩
      · simp [stillCalls, hkind]
      · simp [stillCalls, callable, hkind] at hpc
  | @answers req granted hs =>
      cases granted
      · rfl
      · exact hpc
  | resumes => exact hpc

theorem beginAttempt_past {n : WorkflowNode} (job : WorkflowJob) (h : callable n = false) :
    stillCalls n (beginAttempt x n job).2 = false := by
  unfold beginAttempt
  dsimp only
  split
  · rfl
  · exact h

/-- Behind a cancellation only the job of a seat is begun. -/
theorem Stilled.inHand (h : Stilled s) (hc : s.cancelled ≠ none) {i : Nat} {job : WorkflowJob}
    {n : WorkflowNode} {s₀ : State} (hh : InHand c s i job n s₀)
    (hfresh : s.core.store.run job.idempotencyKey = .fresh) : callable n = false := by
  cases hh with
  | dequeued hw hnone => exact absurd hnone hc
  | seated hw =>
      by_contra hcall
      exact h.seats job n (List.mem_of_getElem? hw) ((Bool.not_eq_false _).mp hcall) hfresh

theorem Stilled.act (h : Stilled s) (hc : s.cancelled ≠ none) (hok : Heeds s l) (ha : Act c s l y) :
    ∀ key f, y.store.inFlight key = some f → stillCalls f.node f.pc = false := by
  intro key f hf
  cases ha with
  | idle | completes | endRefused | late | world => exact h.flights key f hf
  | @flight k g a z pc hg hrow =>
      rw [Core.setFlight_inFlight] at hf
      split_ifs at hf with hk
      · cases hf
        exact hrow.past (h.flights k g hg) fun e hcall he => hok hc g e hg hcall he
      · rw [hrow.own.store] at hf
        exact h.flights key f hf
  | settles hg hpc =>
      simp only [IdempotencyStore.settle] at hf
      split_ifs at hf
      exact h.flights key f hf
  | begins hh hn hid hkey hcompleted hnone =>
      rw [Core.setFlight_inFlight] at hf
      split_ifs at hf with hk
      · cases hf
        exact beginAttempt_past _
          (h.inHand hc hh (IdempotencyStore.run_eq_fresh.mpr ⟨hcompleted, hnone⟩))
      · rw [beginAttempt_own.store] at hf
        exact h.flights key f hf
  | givesUp hw hn hend ht hcore hcaught hrow =>
      rw [hrow.own.store] at hf
      refine h.flights key f ?_
      rcases hcore with rfl | rfl <;> exact hf
  | ending hw hn hend hrow =>
      rw [hrow.own.store] at hf
      exact h.flights key f hf

/-- A key that has been used is not fresh again. -/
def Used (x y : Core) : Prop := ∀ key, x.store.run key ≠ .fresh → y.store.run key ≠ .fresh

theorem Used.of_store (h : y.store = x.store) : Used x y := fun key hused => by rwa [h]

theorem used_setFlight {key : String} {f : Flight} (h : y.store = x.store) :
    Used x (y.setFlight key f) := by
  intro k hused hfresh
  obtain ⟨hc, hf⟩ := IdempotencyStore.run_eq_fresh.mp hfresh
  rw [Core.setFlight_inFlight] at hf
  split_ifs at hf
  rw [Core.setFlight_completed] at hc
  rw [h] at hc hf
  exact hused (IdempotencyStore.run_eq_fresh.mpr ⟨hc, hf⟩)

theorem Act.used (ha : Act c s l y) : Used s.core y := by
  cases ha with
  | idle | completes | endRefused | late | world => exact .of_store rfl
  | flight hf hrow => exact used_setFlight hrow.own.store
  | @settles key f r hf hpc =>
      intro k hused hfresh
      obtain ⟨hc, hn⟩ := IdempotencyStore.run_eq_fresh.mp hfresh
      simp only [IdempotencyStore.settle] at hc hn
      split_ifs at hc hn
      exact hused (IdempotencyStore.run_eq_fresh.mpr ⟨hc, hn⟩)
  | begins => exact used_setFlight beginAttempt_own.store
  | givesUp hw hn hend ht hcore hcaught hrow =>
      refine .of_store (hrow.own.store.trans ?_)
      rcases hcore with rfl | rfl <;> rfl
  | ending hw hn hend hrow => exact .of_store hrow.own.store

theorem step_used (hnd : (c.graph.map (·.id)).Nodup) (hS : State.Sound c s)
    (hs : step c s l = some s') : Used s.core s'.core := by
  refine (step_core hS hnd hs).keeps (I := Used s.core) hnd hS.core (fun z ha => ha.used)
    (fun z z' T q _ _ hz ht => ?_) fun z id st _ hz => hz
  intro key hused
  rw [ht.sameRest.store]
  exact hz key hused

/-- Behind a cancellation no worker comes to wait for a seat. -/
theorem WorkerMove.seats {i : Nat} {a : Answer} (hm : WorkerMove c s i a s')
    (hc : s.cancelled ≠ none) {job : WorkflowJob} {n : WorkflowNode}
    (hmem : .seat job n ∈ s'.workers) : .seat job n ∈ s.workers := by
  have hset : ∀ {new : Worker}, new ≠ .seat job n → .seat job n ∈ s.workers.set i new →
      .seat job n ∈ s.workers := by
    intro new hne hmem
    rcases List.mem_or_eq_of_mem_set hmem with hmem | he
    · exact hmem
    · exact absurd he.symm hne
  cases hm with
  | waits hh =>
      cases hh with
      | dequeued hw hnone => exact absurd hnone hc
      | seated hw =>
          rcases List.mem_or_eq_of_mem_set hmem with hmem | he
          · exact hmem
          · exact he ▸ List.mem_of_getElem? hw
  | joins hh | begins hh => cases hh <;> exact hset (by simp) hmem
  | stops | drops | passes | completes | leaves | givesUp | dies | ending | ended | endRefused =>
      exact hset (by simp) hmem

theorem step_seats (hS : State.Sound c s) (hc : s.cancelled ≠ none) (hs : step c s l = some s')
    {job : WorkflowJob} {n : WorkflowNode} (hmem : .seat job n ∈ s'.workers) :
    .seat job n ∈ s.workers := by
  cases l with
  | drive =>
      rcases (hS.orderly.drive (driveStep_move hs)).2 with hws | ⟨-, hidle⟩
      · exact hws ▸ hmem
      · cases hidle _ hmem
  | worker i a => exact (workerStep_move hs).seats hc hmem
  | flight key a =>
      obtain ⟨y, -, rfl⟩ := Option.map_eq_some_iff.mp hs
      exact hmem
  | late call o =>
      obtain ⟨y, -, rfl⟩ := Option.map_eq_some_iff.mp hs
      exact hmem
  | redeliver j at_ =>
      obtain ⟨y, -, rfl⟩ := Option.map_eq_some_iff.mp hs
      exact hmem
  | cancel reason =>
      cases hs
      exact hmem
  | world w =>
      cases hs
      exact hmem

/-- **A cancelled run in which nothing is retried stays so.** -/
theorem Stilled.step (hnd : (c.graph.map (·.id)).Nodup) (hS : State.Sound c s)
    (hc : s.cancelled ≠ none) (h : Stilled s) (hok : Heeds s l) (hs : step c s l = some s') :
    Stilled s' := by
  refine ⟨fun job n hm hcall => ?_, ?_⟩
  · exact step_used hnd hS hs _ (h.seats job n (step_seats hS hc hs hm) hcall)
  · refine (step_core hS hnd hs).keeps (I := fun z => ∀ key f, z.store.inFlight key = some f →
      stillCalls f.node f.pc = false) hnd hS.core (fun z ha => h.act hc hok ha)
      (fun z z' T q _ _ hz ht => ?_) fun z id st _ hz => hz
    rw [ht.sameRest.store]
    exact hz

/-- **An executor past its calls calls nothing behind the cancellation, unless an attempt is
    retried.** -/
theorem Stilled.callsNothing {reason : String} (hnd : (c.graph.map (·.id)).Nodup)
    (hS : State.Sound c s) (h : Stilled s)
    (hr : Run (Orchestrator.step c) Heeds { s with cancelled := some reason } ls s') :
    CallsNothing s.core s'.core := by
  refine (Run.invariant (I := fun x => (State.Sound c x ∧ x.cancelled ≠ none ∧ Stilled x) ∧
    CallsNothing s.core x.core) ⟨⟨hS.cancel reason, by simp, h.1, h.2⟩, Adds.none rfl⟩ ?_ hr).2
  intro x l x' ⟨⟨hSx, hc, hx⟩, hcalls⟩ hok hs
  exact ⟨⟨hSx.step hnd hs, stays_cancelled hs hc, hx.step hnd hSx hc hok hs⟩,
    Adds.trans hcalls (step_callsNothing hnd hSx hx.flights hs)⟩

end PastCalls

/-! ## 5. Executions in front of their call -/

section Impending

variable {c : Context} {s s' : State} {l : Label} {key : String} {f : Flight}

/-- The run can go on to another call of a forward action. -/
def CanCall (c : Context) (s : State) : Prop :=
  ∃ ls s', Run (step c) (fun _ _ => True) s ls s' ∧
    (forwardCalls s.core.trace).length < (forwardCalls s'.core.trace).length

theorem CanCall.behind (hnd : (c.graph.map (·.id)).Nodup) (hS : State.Sound c s)
    (hs : step c s l = some s') (h : State.Sound c s' → CanCall c s') : CanCall c s := by
  obtain ⟨ls, s₂, hrun, hlt⟩ := h (hS.step hnd hs)
  obtain ⟨obs, hobs⟩ := step_trace hnd hS hs
  have hone : Run (step c) (fun _ _ => True) s ([] ++ [l]) s' := .next .start trivial hs
  refine ⟨_, s₂, hone.append hrun, lt_of_le_of_lt ?_ hlt⟩
  rw [hobs, forwardCalls, forwardCalls, List.filter_append, List.length_append]
  exact Nat.le_add_right _ _

theorem CanCall.now {a : Answer} (hf : s.core.store.inFlight key = some f)
    (hgo : goesOnToCall s.core f.node f.pc a = true) : CanCall c s := by
  obtain ⟨s', hs, hlt⟩ := step_calls (c := c) hf hgo
  exact ⟨[] ++ [.flight key a], s', .next .start trivial hs, hlt⟩

/-- Nothing needs approval, and no guard stops anything. -/
def idleWorld : World := ⟨fun _ => false, fun _ _ _ => none⟩

/-- Behind the persist of its start. -/
theorem canCall_ran (hnd : (c.graph.map (·.id)).Nodup) (hS : State.Sound c s)
    (hf : s.core.store.inFlight key = some f) (hpc : f.pc = .ran) (hcall : callable f.node = true)
    (hin : inputResolves s.core f.node = true) : CanCall c s := by
  refine CanCall.behind (l := .world idleWorld) hnd hS rfl fun _ => ?_
  refine CanCall.now (a := .tick) (f := f) hf ?_
  have hres : inputResolves { s.core with world := idleWorld } f.node = true := hin
  unfold callable at hcall
  rw [hpc]
  unfold goesOnToCall
  cases hk : f.node.kind with
  | approval =>
      rw [hk] at hcall
      cases hcall
  | action =>
      rw [Bool.and_eq_true]
      exact ⟨rfl, hres⟩
  | conditional =>
      rw [hk] at hcall
      simpa [hres] using hcall

/-- Behind the persist of a granted approval. -/
theorem canCall_answered {req : ApprovalRequest} (hf : s.core.store.inFlight key = some f)
    (hpc : f.pc = .answered req true) (hkind : f.node.kind ≠ .approval)
    (hin : inputResolves s.core f.node = true) : CanCall c s := by
  refine CanCall.now (a := .tick) hf ?_
  rw [hpc]
  unfold goesOnToCall
  cases hk : f.node.kind with
  | approval => exact absurd hk hkind
  | action | conditional => exact hin

/-- In front of the answer to an approval request. -/
theorem canCall_waiting {req : ApprovalRequest} (hnd : (c.graph.map (·.id)).Nodup)
    (hS : State.Sound c s) (hf : s.core.store.inFlight key = some f) (hpc : f.pc = .waiting req)
    (hkind : f.node.kind ≠ .approval) (hin : inputResolves s.core f.node = true) : CanCall c s := by
  have hst : s.core.status f.node.id = .waiting := by
    have hagrees := (hS.core.flight key f hf).2.2
    rwa [hpc] at hagrees
  have hfire : (s.core.observe (.approval f.node.id req.action true)).fire f.node.id .approve = _ :=
    Core.fire_ok _ _ .running (by rw [Core.observe_status, hst]; rfl)
  have hnext : ∃ y, flightNext c s.core f f.pc (.approval true) = some (y, .answered req true) ∧
      y.results = s.core.results := by
    rw [hpc]
    simp only [flightNext, recordApproval, if_true, hfire]
    exact ⟨_, rfl, rfl⟩
  obtain ⟨y, hnext, hres⟩ := hnext
  refine CanCall.behind hnd hS (step_flight hf (by simp [hpc]) hnext) fun _ => ?_
  refine canCall_answered (Core.setFlight_self y key _) rfl hkind ?_
  unfold inputResolves at hin ⊢
  rwa [Core.setFlight_results, hres]

/-- In the backoff of a retry. -/
theorem canCall_retrying (hnd : (c.graph.map (·.id)).Nodup) (hS : State.Sound c s)
    (hf : s.core.store.inFlight key = some f) (hpc : f.pc = .retrying)
    (hcall : callable f.node = true) (hin : inputResolves s.core f.node = true) : CanCall c s := by
  have hst : s.core.status f.node.id = .retrying := by
    have hagrees := (hS.core.flight key f hf).2.2
    rwa [hpc] at hagrees
  have hnext : ∃ y, flightNext c s.core f f.pc .tick = some (y, .ran) ∧
      y.results = s.core.results := by
    rw [hpc]
    simp only [flightNext, beginAttempt_ok (.inr hst)]
    exact ⟨_, rfl, rfl⟩
  obtain ⟨y, hnext, hres⟩ := hnext
  refine CanCall.behind hnd hS (step_flight hf (by simp [hpc]) hnext) fun hS' => ?_
  refine canCall_ran hnd hS' (Core.setFlight_self y key _) rfl hcall ?_
  unfold inputResolves at hin ⊢
  rwa [Core.setFlight_results, hres]

/-- In front of the catch that retries the attempt. -/
theorem canCall_threw {e : String} (hnd : (c.graph.map (·.id)).Nodup) (hS : State.Sound c s)
    (hf : s.core.store.inFlight key = some f) (hpc : f.pc = .threw e)
    (hcall : callable f.node = true) (hagain : Retries s.core f e)
    (hin : inputResolves s.core f.node = true) : CanCall c s := by
  obtain ⟨hst, hagain⟩ := hagain
  have hnext : ∃ y, flightNext c s.core f f.pc .tick = some (y, .retrying) ∧
      y.results = s.core.results := by
    cases hcatch : catchAttempt c s.core f.node f.job.attempt e with
    | mk y pc' =>
        obtain ⟨z, hrow, hend⟩ := catchAttempt_ends (.inl hst) hcatch
        rcases hend with rfl | ⟨_, _, -, -, hsrc, -⟩
        · refine ⟨z, ?_, hrow.own.results⟩
          rw [hpc]
          simp only [flightNext, hcatch]
          cases hrow with
          | retries => rfl
          | throws hpc => rcases hpc with hpc | ⟨_, hpc⟩ | ⟨_, _, hpc⟩ <;> cases hpc
          | concludes _ _ hsrc => rcases hsrc with ⟨hpc, -⟩ | ⟨_, _, _, hpc, -⟩ <;> cases hpc
          | calls hpc => rcases hpc with ⟨hpc, -⟩ | ⟨_, hpc, -⟩ <;> cases hpc
          | retryRefused _ hne => exact absurd hst hne
          | fails hno | failRefused hno =>
              rw [hagain] at hno
              cases hno
        · cases hsrc
  obtain ⟨y, hnext, hres⟩ := hnext
  refine CanCall.behind hnd hS (step_flight hf (by simp [hpc]) hnext) fun hS' => ?_
  refine canCall_retrying hnd hS' (Core.setFlight_self y key _) rfl hcall ?_
  unfold inputResolves at hin ⊢
  rwa [Core.setFlight_results, hres]

/-- In front of a free seat. -/
theorem canCall_seated {i : Nat} {job : WorkflowJob} {n : WorkflowNode}
    {limiter : ConcurrencyLimiter} (hnd : (c.graph.map (·.id)).Nodup) (hS : State.Sound c s)
    (hw : s.workers[i]? = some (.seat job n)) (hcall : callable n = true)
    (hfresh : s.core.store.run job.idempotencyKey = .fresh) (hready : s.status n.id = .ready)
    (hacq : s.limiter.tryAcquire c.limits (slotOf job n) = some limiter)
    (hin : inputResolves s.core n = true) : CanCall c s := by
  have hstep : step c s (.worker i .tick) = some (acquireSeat c s i job n) := by
    simp only [step, workerStep, hw]
  refine CanCall.behind hnd hS hstep fun hS' => ?_
  have hbegun : (acquireSeat c s i job n).core = (beginAttempt s.core n job).1.setFlight
      job.idempotencyKey ⟨n, job, .ran⟩ := by
    unfold acquireSeat
    rw [hacq]
    simp only [hfresh]
    rw [beginAttempt_ok (.inl hready)]
    rfl
  have hflight : (acquireSeat c s i job n).core.store.inFlight job.idempotencyKey =
      some ⟨n, job, .ran⟩ := hbegun ▸ Core.setFlight_self _ _ _
  refine canCall_ran hnd hS' hflight rfl hcall ?_
  unfold inputResolves at hin ⊢
  rwa [hbegun, Core.setFlight_results, beginAttempt_own.results]

/-- **What impends can happen.** -/
theorem Impends.canCall (hnd : (c.graph.map (·.id)).Nodup) (hS : State.Sound c s)
    (h : Impends c s) : CanCall c s := by
  cases h with
  | @ahead key f hf hcall hin =>
      cases hpc : f.pc with
      | ran =>
          rw [hpc] at hcall
          exact canCall_ran hnd hS hf hpc hcall hin
      | retrying =>
          rw [hpc] at hcall
          exact canCall_retrying hnd hS hf hpc hcall hin
      | waiting req =>
          rw [hpc] at hcall
          exact canCall_waiting hnd hS hf hpc (of_decide_eq_true hcall) hin
      | answered req granted =>
          rw [hpc] at hcall
          cases granted with
          | true => exact canCall_answered hf hpc (of_decide_eq_true hcall) hin
          | false => cases hcall
      | calling | judged | threw | verified | failing | rejected =>
          rw [hpc] at hcall
          cases hcall
  | again hf hpc hcall hagain hin => exact canCall_threw hnd hS hf hpc hcall hagain hin
  | seated hw hcall hfresh hready hacq hin => exact canCall_seated hnd hS hw hcall hfresh hready hacq hin

end Impending

/-! ## 6. Cancelled runs -/

section Cancelled

variable {c : Context} {s₀ s : State} {ls : List Label}

/-- A cancellation takes nothing away from what impends. -/
theorem Impends.cancel (h : Impends c s) (reason : String) :
    Impends c { s with cancelled := some reason } := by
  cases h with
  | ahead hf hcall hin => exact .ahead hf hcall hin
  | again hf hpc hcall hagain hin => exact .again hf hpc hcall hagain hin
  | seated hw hcall hfresh hready hacq hin => exact .seated hw hcall hfresh hready hacq hin

/-- **No forward action is called after the cancellations of a run that find every execution past
    its call and behind which no attempt is retried; and where a call impends, a cancellation does
    not keep the run from it.** -/
theorem no_new_work (hv : validateGraph c.graph = .ok ()) (hb : Begins c s₀)
    (h : Run (step c) (fun _ _ => True) s₀ ls s) :
    (Run (step c) Heeds s₀ ls s → NoNewWork c s₀ ls s) ∧
    (Impends c s → ∀ reason, ∃ ls' s',
      Run (step c) (fun _ _ => True) s₀ (ls ++ .cancel reason :: ls') s' ∧
      ¬NoNewWork c s₀ (ls ++ .cancel reason :: ls') s') := by
  have hnd := validateGraph_nodup hv
  have hS := hb.sound hnd
  refine ⟨?_, fun himp reason => ?_⟩
  · rintro hr ls₁ reason ls₂ s₁ rfl hr₁
    obtain ⟨s₁', h₁, h₂⟩ := hr.cut
    obtain rfl := h₁.functional hr₁
    obtain ⟨s₂, hheeds, hcancel, h₃⟩ := h₂.uncons
    cases hcancel
    exact (Stilled.callsNothing hnd (run_sound hnd hS hr₁) hheeds h₃).calls
  · obtain ⟨ls', s', hrun, hlt⟩ :=
      (himp.cancel reason).canCall hnd ((run_sound hnd hS h).cancel reason)
    have hone : Run (step c) (fun _ _ => True) s ([] ++ [.cancel reason]) _ :=
      .next .start trivial rfl
    refine ⟨ls', s', h.append (hone.append hrun), fun hquiet => ?_⟩
    have heq := hquiet ls reason ls' s rfl h
    rw [heq] at hlt
    exact absurd hlt (lt_irrefl _)

end Cancelled

/-- One node that may be tried a second time. -/
def sendNode : WorkflowNode :=
  { id := "send", kind := .action, action := some "mail.send", deps := []
    retry := some ⟨2, ["*"]⟩ }

/-- A graph of this node. -/
def sendContext : Context :=
  { limits := defaultBulkhead, compensations := .empty, sha256 := fun s => s
    runId := "run", taskId := "task", graph := [sendNode] }

/-- The first attempt fails, and the node is in the backoff of its retry. -/
def sendBefore : List Label :=
  [.drive, .drive, .drive, .worker 0 .tick] ++
    [.tick, .run (.rejected "refused"), .tick].map (.flight (keyOf sendContext sendNode))

/-- The backoff ends and the second attempt calls. -/
def sendAfter : List Label := [.tick, .tick].map (.flight (keyOf sendContext sendNode))

/-- A node next to it. -/
def archiveNode : WorkflowNode :=
  { id := "archive", kind := .action, action := some "mail.archive", deps := [] }

/-- And one behind both. -/
def closeNode : WorkflowNode :=
  { id := "close", kind := .action, action := some "ticket.close", deps := ["send", "archive"] }

/-- Two calls side by side, and one behind both. -/
def ticketContext : Context := { sendContext with graph := [sendNode, archiveNode, closeNode] }

/-- Two workers are in front of their calls. -/
def ticketStarted : List Label :=
  [.drive, .drive, .drive, .drive, .worker 0 .tick, .worker 1 .tick]

/-- Both have called. -/
def ticketCalled : List Label :=
  ticketStarted ++ [sendNode, archiveNode].map fun n => .flight (keyOf ticketContext n) .tick

/-- The mail is sent, the archive is full, and the run comes to its end. -/
def ticketEnds : List Label :=
  [.run (.resolved ⟨.success, .obj [], []⟩), .tick, .tick].map
      (.flight (keyOf ticketContext sendNode)) ++
    [.run (.rejected "full"), .tick, .tick].map (.flight (keyOf ticketContext archiveNode)) ++
    ([0, 1, 2, 3, 4, 5, 6, 7, 0, 1].map (.worker · .tick)) ++ [.drive, .drive]

/-- The condition, to be computed. -/
def heedsCheck (c : Context) (s : State) : Label → Bool
  | .cancel _ =>
      (s.workers.all fun
        | .seat _ n => !callable n
        | _ => true) &&
      c.graph.all fun n => (s.core.store.inFlight (keyOf c n)).all fun f => !stillCalls f.node f.pc
  | .flight key _ => (s.core.store.inFlight key).all fun f =>
      match f.pc with
      | .threw e => !willRetry s.core f.node f.job.attempt e
      | _ => true
  | _ => true

theorem heeds_of_check {c : Context} {s : State} (hS : State.Sound c s) (l : Label)
    (h : heedsCheck c s l = true) : Heeds s l := by
  cases l with
  | cancel reason =>
      obtain ⟨hseats, hflights⟩ := Bool.and_eq_true_iff.mp h
      refine ⟨fun job n hmem hcall => ?_, fun key f hf => ?_⟩
      · have hno := List.all_eq_true.mp hseats _ hmem
        rw [Bool.not_eq_true'] at hno
        rw [hno] at hcall
        cases hcall
      · obtain ⟨hn, hkey, -⟩ := hS.core.flight key f hf
        have hpast := List.all_eq_true.mp hflights _ hn
        rwa [hkey, hf, Option.all_some, Bool.not_eq_true'] at hpast
  | flight key a =>
      intro _ f e hf _ hpc ⟨_, hagain⟩
      simp [heedsCheck, hf, hpc, hagain] at h
  | _ => trivial

/-- A cancellation behind both calls lets nothing start; one in front of them does not stop the
    mail. -/
theorem no_new_work_ticket :
    (∃ s, Run (step ticketContext) (fun _ _ => True) (.initial ticketContext idleWorld)
        (ticketCalled ++ .cancel "stop" :: ticketEnds) s ∧ s.drive = .resolved ∧
      NoNewWork ticketContext (.initial ticketContext idleWorld)
        (ticketCalled ++ .cancel "stop" :: ticketEnds) s) ∧
    ∃ ls' s', Run (step ticketContext) (fun _ _ => True) (.initial ticketContext idleWorld)
        (ticketStarted ++ .cancel "stop" :: ls') s' ∧
      ¬ NoNewWork ticketContext (.initial ticketContext idleWorld)
        (ticketStarted ++ .cancel "stop" :: ls') s' := by
  constructor
  · obtain ⟨s, hs, hd⟩ := Option.map_eq_some_iff.mp (show (exec
      (fun s l => if heedsCheck ticketContext s l then step ticketContext s l else none)
      (.initial ticketContext idleWorld) (ticketCalled ++ .cancel "stop" :: ticketEnds)).map
        (·.drive) = some .resolved by rfl)
    have hchecked := run_of_exec_check (c := heedsCheck ticketContext) (fun _ _ h => h) hs
    have hheeds : Run (step ticketContext) Heeds _ _ s :=
      hchecked.mono_of_invariant (initial_sound idleWorld) (fun s l s' hS hs => hS.step (by decide) hs)
        fun s l hS h => heeds_of_check hS l h
    have hrun : Run (step ticketContext) (fun _ _ => True) _ _ s := hheeds.mono fun _ _ _ => trivial
    exact ⟨s, hrun, hd, (no_new_work (by rfl) (.inl ⟨_, rfl⟩) hrun).1 hheeds⟩
  · obtain ⟨s, hs, hf⟩ := Option.map_eq_some_iff.mp (show (exec (step ticketContext)
      (.initial ticketContext idleWorld) ticketStarted).map
        (fun s => (s.core.store.inFlight (keyOf ticketContext sendNode)).map
          fun f => (f.node, f.pc)) = some (some (sendNode, .ran)) by rfl)
    obtain ⟨f, hf, hfront⟩ := Option.map_eq_some_iff.mp hf
    obtain ⟨hnode, hpc⟩ := Prod.mk.inj hfront
    have hrun : Run (step ticketContext) (fun _ _ => True) _ _ s := run_of_exec (fun _ _ => trivial) hs
    exact (no_new_work (by rfl) (.inl ⟨_, rfl⟩) hrun).2
      (.ahead hf (by rw [hnode, hpc]; rfl) (by rw [hnode]; rfl)) "stop"

/-- The cancellation falls into the backoff; the mail is sent a second time. -/
theorem retry_calls_after_cancel : ∃ c w ls s, validateGraph c.graph = .ok () ∧
    Run (step c) (fun _ _ => True) (.initial c w) ls s ∧ ¬ NoNewWork c (.initial c w) ls s := by
  obtain ⟨s₁, hs₁, hone⟩ := Option.map_eq_some_iff.mp (show (exec (step sendContext)
    (.initial sendContext idleWorld) sendBefore).map
      (fun s => (forwardCalls s.core.trace).length) = some 1 by decide)
  obtain ⟨s, hs, htwo⟩ := Option.map_eq_some_iff.mp (show (exec (step sendContext)
    (.initial sendContext idleWorld) (sendBefore ++ .cancel "stop" :: sendAfter)).map
      (fun s => (forwardCalls s.core.trace).length) = some 2 by decide)
  refine ⟨sendContext, idleWorld, _, s, rfl, run_of_exec (fun _ _ => trivial) hs, fun hquiet => ?_⟩
  have heq := hquiet sendBefore "stop" sendAfter s₁ rfl (run_of_exec (fun _ _ => trivial) hs₁)
  rw [heq, hone] at htwo
  cases htwo

end AgentKernel.Orchestrator
