/-
  File:      AgentKernel/Orchestrator/Moves.lean
  Subject:   What one step of the machine can do, said once for the drive loop and the workers
             (`step_move`). The rows for executions in flight are those of Effects.lean.
-/
import AgentKernel.Orchestrator.Spread

namespace AgentKernel.Orchestrator

/-! ## 1. Completion -/

/-- The writes of `completeNode` before its `promoteReady`. -/
def doneCore (c : Context) (s : Core) (n : WorkflowNode) (r : NodeResult) : Core :=
  { s.put n.id { s.nodes n.id with status := .completed, result := some r }
      [.event (.nodeCompleted n.id r (operationId c n) (keyOf c n))] with
    results := fun x => if x = n.id then some r else s.results x
    completionOrder := s.completionOrder ++ [n.id] }

section Completion

variable {c : Context} {s : Core} {n : WorkflowNode} {r : NodeResult}

theorem doneCore_status (x : NodeId) :
    (doneCore c s n r).status x = if x = n.id then .completed else s.status x :=
  Core.put_status s n.id x _ [.event (.nodeCompleted n.id r (operationId c n) (keyOf c n))]

theorem completeNode_eq : completeNode c s n r =
    (if s.status n.id = .running then s.fire n.id .verify else .ok s).bind fun s =>
      (s.fire n.id .complete).bind fun s =>
        let s := s.setNode n.id { s.nodes n.id with result := some r }
        let s := { s with
          results := fun x => if x = n.id then some r else s.results x
          completionOrder := s.completionOrder ++ [n.id] }
        .ok (promoteReady c (s.emit (.nodeCompleted n.id r (operationId c n) (keyOf c n)))) := by
  unfold completeNode
  split_ifs <;> rfl

theorem completeNode_ok (hs : s.status n.id = .running ∨ s.status n.id = .verifying) :
    completeNode c s n r = .ok (promoteReady c (doneCore c s n r)) := by
  have hfires : ∃ s₁, (if s.status n.id = .running then s.fire n.id .verify else .ok s) = .ok s₁ ∧
      s₁.fire n.id .complete =
        .ok (s.put n.id { s.nodes n.id with status := .completed } []) := by
    rcases hs with hs | hs
    · refine ⟨s.put n.id { s.nodes n.id with status := .verifying } [], ?_, ?_⟩
      · rw [if_pos hs]
        exact Core.fire_ok s n.id _ (by rw [hs]; rfl)
      · rw [Core.fire_ok _ n.id .completed (by rw [Core.put_status_self]; rfl)]
        simp
    · refine ⟨s, ?_, Core.fire_ok s n.id _ (by rw [hs]; rfl)⟩
      rw [if_neg (by rw [hs]; decide)]
  obtain ⟨s₁, h₁, h₂⟩ := hfires
  rw [completeNode_eq, h₁, Except.bind, h₂, Except.bind]
  simp only [Core.put_setNode, Core.put_nodes_self]
  simp [doneCore, Core.put, Core.emit, Core.observe]

theorem completeNode_refused (hs : s.status n.id ≠ .running) (hs' : s.status n.id ≠ .verifying) :
    ∃ message, completeNode c s n r =
      .error ⟨s.observe (.illegal n.id (s.status n.id) .complete), message⟩ := by
  have hno : nodeStateMachine.transitions (s.status n.id) .complete = none := by
    revert hs'
    cases s.status n.id <;> simp [nodeStateMachine]
  refine ⟨illegalTransitionMessage ⟨s.status n.id, .complete⟩, ?_⟩
  rw [completeNode_eq, if_neg hs, Except.bind, Core.fire_error s n.id hno, ← Core.observe_eq_put]
  rfl

end Completion

/-! ## 2. Rows of the drive loop and of the workers -/

/-- The head of the drive loop. -/
inductive Loop (c : Context) (s : State) : State → Prop where
  | cancels {reason : String} {e : WorkflowEvent} (hc : s.cancelled = some reason) (he : IsNote e) :
      Loop c s { s with core := (cancelAll c s.core reason).emit e, drive := .finalizing }
  | finishes {e : WorkflowEvent} (hc : s.cancelled = none)
      (hr : ∀ n ∈ c.graph, s.status n.id ≠ .ready) (he : IsNote e) :
      Loop c s { s with core := s.core.emit e, drive := .finalizing }
  | enqueues {n : WorkflowNode} {rest : List WorkflowNode} (hc : s.cancelled = none)
      (hr : (c.graph.filter fun n => s.status n.id = .ready) = n :: rest) :
      Loop c s { s with
        queue := s.queue ++ [toJob c s.core n]
        enqueued := s.enqueued ++ [toJob c s.core n]
        drive := .enqueuing (toJob c s.core n) (rest.map (toJob c s.core)) }

/-- Worker `i` has a job in hand; the second state is the first without the job in the queue. -/
inductive InHand (c : Context) (s : State) (i : Nat) (job : WorkflowJob) (n : WorkflowNode) :
    State → Prop where
  | dequeued {rest : List WorkflowJob} (hw : s.workers[i]? = some .idle) (hc : s.cancelled = none)
      (hq : s.queue = job :: rest) (hn : nodeById c.graph job.nodeId = some n) :
      InHand c s i job n { s with queue := rest }
  | seated (hw : s.workers[i]? = some (.seat job n)) : InHand c s i job n s

/-- The promise of a worker has resolved. -/
def Resolved (s : Core) (job : WorkflowJob) (stored : Option NodeResult) (r : NodeResult) : Prop :=
  stored = some r ∨ (stored = none ∧ s.store.completed job.idempotencyKey = some r)

/-- What the catch of `runJob` has caught, and the core it finds. -/
inductive Caught (s : Core) (job : WorkflowJob) (n : WorkflowNode) (stored : Option NodeResult) :
    Core → String → Prop where
  | refused {r : NodeResult} {message : String} (hr : Resolved s job stored r)
      (ht : (s.status n.id).isTerminal = false) (hs : s.status n.id ≠ .running)
      (hs' : s.status n.id ≠ .verifying) :
      Caught s job n stored (s.observe (.illegal n.id (s.status n.id) .complete)) message
  | rejected {f : Flight} {error : String} (hst : stored = none)
      (hc : s.store.completed job.idempotencyKey = none)
      (hf : s.store.inFlight job.idempotencyKey = some f) (hpc : f.pc = .rejected error) :
      Caught s job n stored s error

/-- What a step of a worker does. -/
inductive WorkerMove (c : Context) (s : State) (i : Nat) : Answer → State → Prop where
  | stops (hw : s.workers[i]? = some .idle) (h : s.cancelled ≠ none ∨ s.queue = []) :
      WorkerMove c s i .tick (s.setWorker i .finished)
  | drops {job : WorkflowJob} {rest : List WorkflowJob} (hw : s.workers[i]? = some .idle)
      (hq : s.queue = job :: rest) (hn : nodeById c.graph job.nodeId = none) :
      WorkerMove c s i .tick ({ s with queue := rest }.setWorker i .idle)
  | waits {job : WorkflowJob} {n : WorkflowNode} {s₀ : State} (hh : InHand c s i job n s₀)
      (hfull : s.limiter.tryAcquire c.limits (slotOf job n) = none) :
      WorkerMove c s i .tick (s₀.setWorker i (.seat job n))
  | joins {job : WorkflowJob} {n : WorkflowNode} {s₀ : State} {stored : Option NodeResult}
      {limiter : ConcurrencyLimiter} (hh : InHand c s i job n s₀)
      (hacq : s.limiter.tryAcquire c.limits (slotOf job n) = some limiter)
      (hst : (∃ r, s.core.store.completed job.idempotencyKey = some r ∧ stored = some r) ∨
        (s.core.store.completed job.idempotencyKey = none ∧
          (∃ f, s.core.store.inFlight job.idempotencyKey = some f) ∧ stored = none)) :
      WorkerMove c s i .tick ({ s₀ with core := s.core, limiter := limiter }.setWorker i
        (.holding job n (s.core.store.has job.idempotencyKey) stored))
  | begins {job : WorkflowJob} {n : WorkflowNode} {s₀ : State} {limiter : ConcurrencyLimiter}
      (hh : InHand c s i job n s₀)
      (hacq : s.limiter.tryAcquire c.limits (slotOf job n) = some limiter)
      (hc : s.core.store.completed job.idempotencyKey = none)
      (hf : s.core.store.inFlight job.idempotencyKey = none) :
      WorkerMove c s i .tick ({ s₀ with
        limiter := limiter
        core := (beginAttempt s.core n job).1.setFlight job.idempotencyKey
          ⟨n, job, (beginAttempt s.core n job).2⟩ }.setWorker i
        (.holding job n (s.core.store.has job.idempotencyKey) none))
  | passes {job : WorkflowJob} {n : WorkflowNode} {d : Bool} {stored : Option NodeResult}
      {r : NodeResult} {k : Nat} (hw : s.workers[i]? = some (.holding job n d stored))
      (hr : Resolved s.core job stored r) (ht : (s.status n.id).isTerminal = true) :
      WorkerMove c s i .tick (release { s with deduped := k } i job n .idle)
  | completes {job : WorkflowJob} {n : WorkflowNode} {d : Bool} {stored : Option NodeResult}
      {r : NodeResult} {k : Nat} (hw : s.workers[i]? = some (.holding job n d stored))
      (hr : Resolved s.core job stored r)
      (hs : s.status n.id = .running ∨ s.status n.id = .verifying) :
      WorkerMove c s i .tick (release
        { s with deduped := k, core := promoteReady c (doneCore c s.core n r) } i job n .idle)
  | leaves {job : WorkflowJob} {n : WorkflowNode} {d : Bool} {stored : Option NodeResult}
      {core : Core} {error : String} {k : Nat}
      (hw : s.workers[i]? = some (.holding job n d stored))
      (h : Caught s.core job n stored core error) (ht : (s.status n.id).isTerminal = true) :
      WorkerMove c s i .tick (release { s with deduped := k, core := core } i job n .idle)
  | givesUp {job : WorkflowJob} {n : WorkflowNode} {d : Bool} {stored : Option NodeResult}
      {core s' : Core} {error : String} {pc : FailPc} {k : Nat}
      (hw : s.workers[i]? = some (.holding job n d stored))
      (h : Caught s.core job n stored core error) (ht : (s.status n.id).isTerminal = false)
      (hrow : HeadRow c core n error false s' (some pc)) :
      WorkerMove c s i .tick
        ({ s with deduped := k, core := s' }.setWorker i (.failing job n error pc))
  | dies {job : WorkflowJob} {n : WorkflowNode} {d : Bool} {stored : Option NodeResult}
      {core s' : Core} {error message : String} {k : Nat}
      (hw : s.workers[i]? = some (.holding job n d stored))
      (h : Caught s.core job n stored core error) (ht : (s.status n.id).isTerminal = false)
      (hrow : HeadRow c core n error false s' none) :
      WorkerMove c s i .tick
        (release { s with deduped := k, core := s' } i job n (.died message))
  | ending {job : WorkflowJob} {n : WorkflowNode} {error : String} {pc pc' : FailPc} {a : Answer}
      {s' : Core} (hw : s.workers[i]? = some (.failing job n error pc))
      (h : FailRow c s.core n error pc a s' pc') :
      WorkerMove c s i a ({ s with core := s' }.setWorker i (.failing job n error pc'))
  | ended {job : WorkflowJob} {n : WorkflowNode} {error : String}
      (hw : s.workers[i]? = some (.failing job n error .persisting)) :
      WorkerMove c s i .tick (release s i job n .idle)
  | endRefused {job : WorkflowJob} {n : WorkflowNode} {error message : String}
      {spec : CompensationAction} {call : Nat} {o : RunOutcome}
      (hw : s.workers[i]? = some (.failing job n error (.undoing spec call)))
      (hs : s.status n.id ≠ .compensating) :
      WorkerMove c s i (.run o) (release
        { s with core := (s.core.put n.id (s.core.nodes n.id)
          [.settled call n.id .compensation o, .illegal n.id (s.status n.id) .rollback]) } i job n
        (.died message))

/-- What a step of the drive loop does. -/
inductive DriveMove (c : Context) (s : State) : State → Prop where
  | starts {s' : State} (hd : s.drive = .starting)
      (h : Loop c { s with core := promoteReady c s.core } s') : DriveMove c s s'
  | loops {s' : State} (hd : s.drive = .dispatching) (hall : ∀ w ∈ s.workers, w = .finished)
      (h : Loop c s s') : DriveMove c s s'
  | aborts {e : String} (hd : s.drive = .dispatching) (hw : .died e ∈ s.workers) :
      DriveMove c s { s with drive := .aborted e }
  | emits {job : WorkflowJob} (hd : s.drive = .enqueuing job []) :
      DriveMove c s
        { s.emit (.jobEnqueued job.nodeId job.id job.idempotencyKey job.attempt) with
          drive := .enqueued }
  | enqueues {job next : WorkflowJob} {rest : List WorkflowJob}
      (hd : s.drive = .enqueuing job (next :: rest)) :
      DriveMove c s
        { s.emit (.jobEnqueued job.nodeId job.id job.idempotencyKey job.attempt) with
        queue := s.queue ++ [next]
        enqueued := s.enqueued ++ [next]
        drive := .enqueuing next rest }
  | dispatches (hd : s.drive = .enqueued) :
      DriveMove c s { s with
        workers := List.replicate (max 1 c.limits.maxConcurrentJobs) .idle
        drive := .dispatching }
  | resolves (hd : s.drive = .finalizing) : DriveMove c s { s with drive := .resolved }

section Inversion

variable {c : Context} {s s' : State} {i : Nat} {a : Answer}

theorem finalize_eq (s : State) : ∃ e, finalize c s = s.emit e ∧ IsNote e := by
  unfold finalize
  split
  · exact ⟨_, rfl, trivial⟩
  · exact ⟨_, rfl, trivial⟩
  · exact ⟨_, rfl, trivial⟩

theorem loopHead_cancels {reason : String} (h : s.cancelled = some reason) : loopHead c s =
    { finalize c { s with core := cancelAll c s.core reason } with drive := .finalizing } := by
  unfold loopHead
  rw [h]

theorem loopHead_finishes (h : s.cancelled = none)
    (hr : (c.graph.filter fun n => s.status n.id = .ready).map (toJob c s.core) = []) :
    loopHead c s = { finalize c s with drive := .finalizing } := by
  unfold loopHead
  rw [h]
  dsimp only
  rw [hr]

theorem loopHead_enqueues {job : WorkflowJob} {rest : List WorkflowJob} (h : s.cancelled = none)
    (hr : (c.graph.filter fun n => s.status n.id = .ready).map (toJob c s.core) = job :: rest) :
    loopHead c s = { enqueue s job with drive := .enqueuing job rest } := by
  unfold loopHead
  rw [h]
  dsimp only
  rw [hr]

theorem loopHead_loop (s : State) : Loop c s (loopHead c s) := by
  unfold loopHead
  split
  · rename_i reason hc
    obtain ⟨e, heq, he⟩ := finalize_eq (c := c) { s with core := cancelAll c s.core reason }
    rw [heq]
    exact .cancels hc he
  · rename_i hc
    split
    · rename_i hmap
      obtain ⟨e, heq, he⟩ := finalize_eq (c := c) s
      rw [heq]
      refine .finishes hc (fun n hn hs => ?_) he
      have hmem : n ∈ c.graph.filter fun n => s.status n.id = .ready := by simp [hn, hs]
      rw [List.map_eq_nil_iff.mp hmap] at hmem
      cases hmem
    · rename_i job rest hmap
      obtain ⟨n, ns, hr, rfl, rfl⟩ := List.map_eq_cons_iff.mp hmap
      exact .enqueues hc hr

theorem firstDeath_mem {ws : List Worker} {e : String} (h : firstDeath ws = some e) :
    .died e ∈ ws := by
  obtain ⟨w, hw, he⟩ := List.exists_of_findSome?_eq_some h
  split at he
  · cases he
    exact hw
  · cases he

theorem driveStep_move (h : driveStep c s = some s') : DriveMove c s s' := by
  unfold driveStep at h
  split at h
  · rename_i hd
    cases h
    exact .starts hd (loopHead_loop _)
  · rename_i job rest hd
    dsimp only at h
    split at h
    · cases h
      exact .emits hd
    · cases h
      exact .enqueues hd
  · rename_i hd
    cases h
    exact .dispatches hd
  · rename_i hd
    split at h
    · rename_i e he
      cases h
      exact .aborts hd (firstDeath_mem he)
    · split_ifs at h with hall
      cases h
      refine .loops hd (fun w hw => ?_) (loopHead_loop _)
      have := List.all_eq_true.mp hall w hw
      cases w <;> simp [isFinished] at this ⊢
  · rename_i hd
    cases h
    exact .resolves hd
  · cases h
  · cases h

theorem acquireSeat_move {job : WorkflowJob} {n : WorkflowNode} {s₀ : State}
    (hh : InHand c s i job n s₀) : WorkerMove c s i .tick (acquireSeat c s₀ i job n) := by
  have hsame : s₀.limiter = s.limiter ∧ s₀.core = s.core := by
    cases hh <;> exact ⟨rfl, rfl⟩
  unfold acquireSeat
  rw [hsame.1]
  split
  · rename_i hfull
    exact .waits hh hfull
  · rename_i limiter hacq
    dsimp only
    rw [hsame.2]
    split
    · rename_i r hr
      exact .joins hh hacq (.inl ⟨r, IdempotencyStore.run_eq_done.mp hr, rfl⟩)
    · rename_i p hp
      refine .joins hh hacq (.inr ?_)
      unfold IdempotencyStore.run at hp
      split at hp
      · cases hp
      · rename_i hc
        split at hp
        · rename_i f hf
          exact ⟨hc, ⟨f, hf⟩, rfl⟩
        · cases hp
    · rename_i hfresh
      obtain ⟨hc, hf⟩ := IdempotencyStore.run_eq_fresh.mp hfresh
      exact .begins hh hacq hc hf

theorem catchJob_move {job : WorkflowJob} {n : WorkflowNode} {d : Bool}
    {stored : Option NodeResult} {core : Core} {error : String} {k : Nat}
    (hw : s.workers[i]? = some (.holding job n d stored))
    (h : Caught s.core job n stored core error) (hst : core.status n.id = s.status n.id) :
    WorkerMove c s i .tick (catchJob c { s with deduped := k, core := core } i job n error) := by
  unfold catchJob
  have hstatus : ({ s with deduped := k, core := core } : State).status n.id = s.status n.id := hst
  rw [hstatus]
  split_ifs with ht
  · exact .leaves hw h ht
  · simp only [Bool.not_eq_true] at ht
    have hrow := failNode_row (c := c) (s := core) (n := n) error false
    dsimp only
    split
    · rename_i t hf
      rw [hf] at hrow
      exact .dies hw h ht hrow
    · rename_i core' pc hf
      rw [hf] at hrow
      exact .givesUp hw h ht hrow

theorem resolveJob_move {job : WorkflowJob} {n : WorkflowNode} {d : Bool}
    {stored : Option NodeResult} {r : NodeResult}
    (hw : s.workers[i]? = some (.holding job n d stored)) (hr : Resolved s.core job stored r) :
    WorkerMove c s i .tick (resolveJob c s i job n d r) := by
  unfold resolveJob
  generalize s.deduped + (if d = true then 1 else 0) = k
  dsimp only
  split_ifs with ht
  · exact .passes hw hr ht
  · have ht' : (s.status n.id).isTerminal = false := Bool.eq_false_iff.mpr ht
    by_cases hs : s.status n.id = .running ∨ s.status n.id = .verifying
    · rw [completeNode_ok hs]
      exact .completes hw hr hs
    · simp only [not_or] at hs
      obtain ⟨message, he⟩ := completeNode_refused (c := c) (r := r) hs.1 hs.2
      rw [he]
      exact catchJob_move hw (.refused hr ht' hs.1 hs.2) rfl

theorem workerStep_move (h : workerStep c s i a = some s') : WorkerMove c s i a s' := by
  unfold workerStep at h
  split at h
  · rename_i hw
    split_ifs at h with hc
    · cases h
      exact .stops hw (.inl (Option.isSome_iff_ne_none.mp hc))
    · have hnone : s.cancelled = none := by simpa using hc
      split at h
      · rename_i hq
        cases h
        exact .stops hw (.inr hq)
      · rename_i job rest hq
        dsimp only at h
        split at h
        · rename_i hn
          cases h
          exact .drops hw hq hn
        · rename_i n hn
          cases h
          exact acquireSeat_move (.dequeued hw hnone hq hn)
  · rename_i job n hw
    cases h
    exact acquireSeat_move (.seated hw)
  · rename_i job n d stored hw
    split at h
    · rename_i r
      cases h
      exact resolveJob_move hw (.inl rfl)
    · split at h
      · rename_i r hset
        cases h
        refine resolveJob_move hw (.inr ⟨rfl, ?_⟩)
        unfold settledAs at hset
        split at hset
        · rename_i r' hr'
          cases hset
          exact hr'
        · split at hset <;> cases hset
      · rename_i e hset
        cases h
        unfold settledAs at hset
        split at hset
        · cases hset
        · rename_i hc
          split at hset
          · rename_i m j e' hf
            cases hset
            exact catchJob_move (k := s.deduped) hw (.rejected rfl hc hf rfl) rfl
          · cases hset
      · cases h
  · rename_i job n error pc a hw
    split at h
    · rename_i core pc' hf
      cases h
      exact .ending hw (failStep_row hf)
    · rename_i core hf
      cases h
      obtain ⟨rfl, rfl, rfl⟩ := failStep_row hf
      exact .ended hw
    · rename_i t hf
      cases h
      obtain ⟨spec, call, o, rfl, rfl, hne, hcore⟩ := failStep_row hf
      rw [hcore]
      exact .endRefused hw hne
    · cases h
  · cases h

/-- A worker inside `failNode` was there before, has just gone on there, or has just entered it. -/
theorem WorkerMove.failing {job : WorkflowJob} {n : WorkflowNode} {error : String} {pc : FailPc}
    (h : WorkerMove c s i a s') (hm : .failing job n error pc ∈ s'.workers) :
    .failing job n error pc ∈ s.workers ∨
    (∃ pc₀, s.workers[i]? = some (.failing job n error pc₀) ∧
      FailRow c s.core n error pc₀ a s'.core pc) ∨
    ∃ d stored core, s.workers[i]? = some (.holding job n d stored) ∧
      Caught s.core job n stored core error ∧ (s.status n.id).isTerminal = false ∧
      HeadRow c core n error false s'.core (some pc) := by
  have hset : ∀ {ws : List Worker} {new : Worker}, ws = s.workers →
      .failing job n error pc ∈ ws.set i new → .failing job n error pc = new ∨
        .failing job n error pc ∈ s.workers := by
    intro ws new hws hmem
    rcases List.mem_or_eq_of_mem_set hmem with hmem | he
    · exact .inr (hws ▸ hmem)
    · exact .inl he
  have hinhand : ∀ {job n s₀}, InHand c s i job n s₀ → s₀.workers = s.workers := by
    intro job n s₀ hh
    cases hh <;> rfl
  cases h with
  | stops | drops | passes | completes | leaves | dies | ended | endRefused =>
      rcases hset rfl hm with he | hmem
      · cases he
      · exact .inl hmem
  | waits hh | joins hh | begins hh =>
      rcases hset (hinhand hh) hm with he | hmem
      · cases he
      · exact .inl hmem
  | givesUp hw hcaught ht hrow =>
      rcases hset rfl hm with he | hmem
      · cases he
        exact .inr (.inr ⟨_, _, _, hw, hcaught, ht, hrow⟩)
      · exact .inl hmem
  | ending hw hrow =>
      rcases hset rfl hm with he | hmem
      · cases he
        exact .inr (.inl ⟨_, hw, hrow⟩)
      · exact .inl hmem

end Inversion

end AgentKernel.Orchestrator
