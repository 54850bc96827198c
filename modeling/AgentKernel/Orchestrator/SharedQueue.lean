/-
  File:      AgentKernel/Orchestrator/SharedQueue.lean
  Subject:   Two executors on one job queue (scheduler.ts `InProcessScheduler`; executor.ts
             `drive`, `dispatch`, `runJob`).

  `dequeue()` hands out the head of the queue, and `runJob` looks the job up by its `nodeId`: the
  `runId` a job carries is read nowhere. An executor that finds a job of the other run at the head
  drops it, or executes it on its own node of that name under the other run's key.

  * `Twin.step`: a step of either executor on the one queue;
  * **`twin_run`**: as long as each executor only finds jobs of its own run at the head, what it
    does is a run of its own on a queue of its own;
  * **`apart_iff`**: the two do not interfere just as long.
-/
import AgentKernel.Lib.Lists
import AgentKernel.Orchestrator.Tidy

namespace AgentKernel.Orchestrator

open Lib

/-! ## 1. Two executors -/

/-- The two executors. -/
inductive Side where
  | left | right
  deriving DecidableEq

/-- Two executors; the queue is the one they share, those of the two states are unused. -/
structure Twin where
  left : State
  right : State
  queue : List WorkflowJob

/-- The same run with another queue. -/
def State.withQueue (s : State) (queue : List WorkflowJob) : State := { s with queue := queue }

/-- What the executor of one side sees. -/
def Twin.view (p : Twin) : Side → State
  | .left => p.left.withQueue p.queue
  | .right => p.right.withQueue p.queue

/-- One side has moved, and with it the queue they share. -/
def Twin.put (p : Twin) (s : State) : Side → Twin
  | .left => { p with left := s, queue := s.queue }
  | .right => { p with right := s, queue := s.queue }

/-- A step of one side. -/
def Twin.step (c : Side → Context) (p : Twin) (x : Side × Label) : Option Twin :=
  (Orchestrator.step (c x.1) (p.view x.1) x.2).map fun s => p.put s x.1

/-! ## 2. The property and its condition -/

/-- The jobs of other runs. -/
def foreign (c : Context) (queue : List WorkflowJob) : List WorkflowJob :=
  queue.filter fun job => job.runId ≠ c.runId

/-- After a step of an executor: its workers have jobs of its own run in hand, its executions run
    such jobs under the keys of its own run, and the jobs of other runs are in the queue still. -/
structure Apart (c : Context) (s s' : State) : Prop where
  acts : ∀ w ∈ s'.workers, ∀ job, w.job = some job → job.runId = c.runId
  executes : ∀ key f, s'.core.store.inFlight key = some f →
    f.job.runId = c.runId ∧ f.node ∈ c.graph ∧ key = keyOf c f.node
  keeps : (foreign c s'.queue).Perm (foreign c s.queue)

/-- Every step of the run along `ls` leaves the two runs apart. -/
def NoInterference (c : Side → Context) (p₀ : Twin) (ls : List (Side × Label)) : Prop :=
  ∀ ls₁ x ls₂ p p', ls = ls₁ ++ x :: ls₂ → Run (Twin.step c) (fun _ _ => True) p₀ ls₁ p →
    Twin.step c p x = some p' → Apart (c x.1) (p.view x.1) (p'.view x.1)

/-- A worker that takes a job finds one of its own run at the head of the queue. -/
def TakesOwn (c : Context) (s : State) : Label → Prop
  | .worker i .tick => s.workers[i]? = some .idle → s.cancelled = none →
      ∀ job rest, s.queue = job :: rest → job.runId = c.runId
  | _ => True

/-- The side that moves takes no job of the other. -/
def TwinTakesOwn (c : Side → Context) (p : Twin) (x : Side × Label) : Prop :=
  TakesOwn (c x.1) (p.view x.1) x.2

/-! ## 3. A step and the queue -/

/-- What a step makes of the queue, and that the rest of the queue has no part in it. -/
inductive QueueMove (c : Context) (s : State) (l : Label) (s' : State) : Prop where
  | pushes {new : List WorkflowJob} (hq : s'.queue = s.queue ++ new)
      (hnew : ∀ job ∈ new, job ∈ s'.enqueued)
      (hall : ∀ q, step c (s.withQueue q) l = some (s'.withQueue (q ++ new)))
  | takes {i : Nat} {job : WorkflowJob} (hl : l = .worker i .tick)
      (hw : s.workers[i]? = some .idle) (hc : s.cancelled = none) (hq : s.queue = job :: s'.queue)
      (hall : ∀ q, step c (s.withQueue (job :: q)) l = some (s'.withQueue q))
  | finds (hq : s.queue = []) (hq' : s'.queue = [])
  | inserts {j at_ : Nat} {job : WorkflowJob} (hl : l = .redeliver j at_)
      (hj : s.enqueued[j]? = some job) (hs' : s' = s.withQueue s'.queue)
      (hq : s'.queue = s.queue.insertIdx (min at_ s.queue.length) job)

section Queue

variable {c : Context} {s s' : State} {l : Label}

@[simp] theorem withQueue_self (s : State) : s.withQueue s.queue = s := rfl

@[simp] theorem withQueue_queue (s : State) (q : List WorkflowJob) : (s.withQueue q).queue = q := rfl

@[simp] theorem withQueue_withQueue (s : State) (q q' : List WorkflowJob) :
    (s.withQueue q).withQueue q' = s.withQueue q' := rfl

theorem acquireSeat_queue (s : State) (i : Nat) (job : WorkflowJob) (n : WorkflowNode)
    (q : List WorkflowJob) :
    acquireSeat c (s.withQueue q) i job n = (acquireSeat c s i job n).withQueue q := by
  have hlimiter : (s.withQueue q).limiter = s.limiter := rfl
  unfold acquireSeat
  rw [hlimiter]
  cases s.limiter.tryAcquire c.limits (slotOf job n) with
  | none => rfl
  | some limiter =>
      dsimp only [State.withQueue]
      cases s.core.store.run job.idempotencyKey <;> rfl

theorem catchJob_queue (s : State) (i : Nat) (job : WorkflowJob) (n : WorkflowNode) (error : String)
    (q : List WorkflowJob) :
    catchJob c (s.withQueue q) i job n error = (catchJob c s i job n error).withQueue q := by
  unfold catchJob
  show (if (s.status n.id).isTerminal then _ else _) = _
  split_ifs
  · rfl
  · dsimp only [State.withQueue]
    split <;> rfl

theorem resolveJob_queue (s : State) (i : Nat) (job : WorkflowJob) (n : WorkflowNode) (d : Bool)
    (r : NodeResult) (q : List WorkflowJob) :
    resolveJob c (s.withQueue q) i job n d r = (resolveJob c s i job n d r).withQueue q := by
  unfold resolveJob
  dsimp only [State.status, State.withQueue]
  by_cases ht : (s.core.status n.id).isTerminal = true
  · simp only [ht, if_true]
    rfl
  · simp only [ht]
    cases completeNode c s.core n r with
    | ok core => rfl
    | error t => exact catchJob_queue { s with core := t.core, deduped := _ } i job n t.message q

/-- A worker that is not about to dequeue has no business with the queue. -/
theorem workerStep_queue {i : Nat} {a : Answer} (hw : s.workers[i]? ≠ some .idle)
    (q : List WorkflowJob) :
    workerStep c (s.withQueue q) i a = (workerStep c s i a).map (·.withQueue q) := by
  have hworkers : (s.withQueue q).workers = s.workers := rfl
  unfold workerStep
  rw [hworkers]
  cases hwi : s.workers[i]? with
  | none => rfl
  | some w =>
      cases w with
      | idle => exact absurd hwi hw
      | seat job n =>
          cases a with
          | tick => exact congrArg some (acquireSeat_queue s i job n q)
          | _ => rfl
      | holding job n d stored =>
          cases a with
          | tick =>
              cases stored with
              | some r => exact congrArg some (resolveJob_queue s i job n d r q)
              | none =>
                  dsimp only
                  have hsettled : settledAs (s.withQueue q).core job.idempotencyKey =
                      settledAs s.core job.idempotencyKey := rfl
                  rw [hsettled]
                  cases settledAs s.core job.idempotencyKey with
                  | none => rfl
                  | some r =>
                      cases r with
                      | ok r => exact congrArg some (resolveJob_queue s i job n d r q)
                      | error e => exact congrArg some (catchJob_queue s i job n e q)
          | _ => rfl
      | failing job n error pc =>
          dsimp only
          have hfail : failStep c (s.withQueue q).core n error pc a =
              failStep c s.core n error pc a := rfl
          rw [hfail]
          cases failStep c s.core n error pc a with
          | none => rfl
          | some r => cases r <;> rfl
      | finished | died => cases a <;> rfl

theorem finalize_queue (s : State) (q : List WorkflowJob) :
    finalize c (s.withQueue q) = (finalize c s).withQueue q := by
  have hst : finalStatus c (s.withQueue q).core = finalStatus c s.core := rfl
  unfold finalize
  rw [hst]
  cases finalStatus c s.core <;> rfl

theorem finalize_kept (s : State) : (finalize c s).queue = s.queue := by
  obtain ⟨e, he, -⟩ := finalize_eq (c := c) s
  rw [he]
  rfl

/-- The head of the drive loop hands over at most one job. -/
theorem loopHead_queue (s : State) : ∃ new, (loopHead c s).queue = s.queue ++ new ∧
    (∀ job ∈ new, job ∈ (loopHead c s).enqueued) ∧
    ∀ q, loopHead c (s.withQueue q) = (loopHead c s).withQueue (q ++ new) := by
  cases hc : s.cancelled with
  | some reason =>
      refine ⟨[], ?_, fun _ hj => absurd hj List.not_mem_nil, fun q => ?_⟩
      · rw [loopHead_cancels hc, List.append_nil]
        exact finalize_kept _
      · rw [loopHead_cancels hc, loopHead_cancels (s := s.withQueue q) hc, List.append_nil]
        exact congrArg (fun t : State => { t with drive := .finalizing })
          (finalize_queue { s with core := cancelAll c s.core reason } q)
  | none =>
      cases hjobs : (c.graph.filter fun n => s.status n.id = .ready).map (toJob c s.core) with
      | nil =>
          refine ⟨[], ?_, fun _ hj => absurd hj List.not_mem_nil, fun q => ?_⟩
          · rw [loopHead_finishes hc hjobs, List.append_nil]
            exact finalize_kept s
          · rw [loopHead_finishes hc hjobs, loopHead_finishes (s := s.withQueue q) hc hjobs,
              List.append_nil]
            exact congrArg (fun t : State => { t with drive := .finalizing }) (finalize_queue s q)
      | cons job rest =>
          rw [loopHead_enqueues hc hjobs]
          refine ⟨[job], rfl, fun x hx => ?_, fun q => ?_⟩
          · rw [List.mem_singleton.mp hx]
            exact List.mem_append_right _ List.mem_cons_self
          · rw [loopHead_enqueues (s := s.withQueue q) hc hjobs]
            rfl

theorem driveStep_queue (h : driveStep c s = some s') : ∃ new, s'.queue = s.queue ++ new ∧
    (∀ job ∈ new, job ∈ s'.enqueued) ∧
    ∀ q, driveStep c (s.withQueue q) = some (s'.withQueue (q ++ new)) := by
  have hdrive : ∀ q, (s.withQueue q).drive = s.drive := fun _ => rfl
  unfold driveStep at h ⊢
  simp only [hdrive]
  cases hd : s.drive with
  | starting =>
      rw [hd] at h
      cases h
      obtain ⟨new, hq, hnew, hall⟩ := loopHead_queue (c := c)
        { s with core := promoteReady c s.core, drive := .starting }
      exact ⟨new, hq, hnew, fun q => congrArg some (hall q)⟩
  | enqueuing job rest =>
      rw [hd] at h
      cases rest with
      | nil =>
          cases h
          exact ⟨[], (List.append_nil _).symm, fun _ hj => absurd hj List.not_mem_nil,
            fun q => by rw [List.append_nil]; rfl⟩
      | cons next rest =>
          cases h
          refine ⟨[next], rfl, fun x hx => ?_, fun q => rfl⟩
          rw [List.mem_singleton.mp hx]
          exact List.mem_append_right _ List.mem_cons_self
  | enqueued | finalizing =>
      rw [hd] at h
      cases h
      exact ⟨[], (List.append_nil _).symm, fun _ hj => absurd hj List.not_mem_nil,
        fun q => by rw [List.append_nil]; rfl⟩
  | dispatching =>
      rw [hd] at h
      have hworkers : ∀ q, (s.withQueue q).workers = s.workers := fun _ => rfl
      simp only [hworkers]
      dsimp only at h
      cases hdeath : firstDeath s.workers with
      | some e =>
          rw [hdeath] at h
          cases h
          exact ⟨[], (List.append_nil _).symm, fun _ hj => absurd hj List.not_mem_nil,
            fun q => by rw [List.append_nil]; rfl⟩
      | none =>
          rw [hdeath] at h
          dsimp only at h
          by_cases hall : s.workers.all isFinished = true
          · rw [if_pos hall] at h
            cases h
            obtain ⟨new, hq, hnew, hhead⟩ := loopHead_queue (c := c) s
            refine ⟨new, hq, hnew, fun q => ?_⟩
            rw [if_pos hall, hhead q]
          · rw [if_neg hall] at h
            cases h
  | resolved | aborted =>
      rw [hd] at h
      cases h

theorem acquireSeat_kept (s : State) (i : Nat) (job : WorkflowJob) (n : WorkflowNode) :
    (acquireSeat c s i job n).queue = s.queue := by
  have h := acquireSeat_queue (c := c) s i job n s.queue
  rw [withQueue_self] at h
  rw [h, withQueue_queue]

/-- A worker takes the job at the head of the queue. -/
theorem workerStep_dequeues {i : Nat} {job : WorkflowJob} {rest : List WorkflowJob}
    (hw : s.workers[i]? = some .idle) (hc : s.cancelled = none) (hq : s.queue = job :: rest) :
    workerStep c s i .tick = some (match nodeById c.graph job.nodeId with
      | none => { s with queue := rest }.setWorker i .idle
      | some n => acquireSeat c { s with queue := rest } i job n) := by
  have hnone : ¬ s.cancelled.isSome = true := by simp [hc]
  unfold workerStep
  rw [hw]
  dsimp only
  rw [if_neg hnone, hq]
  dsimp only
  cases nodeById c.graph job.nodeId <;> rfl

/-- **What a step does to the queue**, and that it does the same whatever else is in it. -/
theorem step_queue (h : step c s l = some s') : QueueMove c s l s' := by
  have hquiet : s'.queue = s.queue → (∀ q, step c (s.withQueue q) l = some (s'.withQueue q)) →
      QueueMove c s l s' := fun hq hall =>
    @QueueMove.pushes c s l s' [] (by rw [hq, List.append_nil])
      (fun _ hj => absurd hj List.not_mem_nil)
      fun q => by rw [List.append_nil]; exact hall q
  cases l with
  | drive =>
      obtain ⟨new, hq, hnew, hall⟩ := driveStep_queue h
      exact .pushes hq hnew hall
  | flight key a =>
      obtain ⟨y, hy, rfl⟩ := Option.map_eq_some_iff.mp h
      exact hquiet rfl fun q => Option.map_eq_some_iff.mpr ⟨y, hy, rfl⟩
  | late call o =>
      obtain ⟨y, hy, rfl⟩ := Option.map_eq_some_iff.mp h
      exact hquiet rfl fun q => Option.map_eq_some_iff.mpr ⟨y, hy, rfl⟩
  | redeliver j at_ =>
      obtain ⟨job, hj, rfl⟩ := Option.map_eq_some_iff.mp h
      exact .inserts rfl hj rfl rfl
  | cancel | world =>
      cases h
      exact hquiet rfl fun q => rfl
  | worker i a =>
      by_cases hw : s.workers[i]? = some .idle
      · have hs : workerStep c s i a = some s' := h
        cases a with
        | tick =>
            cases hc : s.cancelled with
            | some reason =>
                have hstop : ∀ q, workerStep c (s.withQueue q) i .tick =
                    some ((s.withQueue q).setWorker i .finished) := by
                  intro q
                  have hsome : (s.withQueue q).cancelled.isSome = true := by
                    show s.cancelled.isSome = true
                    rw [hc]
                    rfl
                  unfold workerStep
                  rw [show (s.withQueue q).workers[i]? = some .idle from hw]
                  dsimp only
                  rw [if_pos hsome]
                have hself := hstop s.queue
                rw [withQueue_self, hs] at hself
                cases hself
                exact hquiet rfl hstop
            | none =>
                cases hq : s.queue with
                | nil =>
                    have hnone : ¬ s.cancelled.isSome = true := by simp [hc]
                    unfold workerStep at hs
                    rw [hw] at hs
                    dsimp only at hs
                    rw [if_neg hnone, hq] at hs
                    cases hs
                    exact .finds hq hq
                | cons job rest =>
                    have hgo := fun q => workerStep_dequeues (c := c) (s := s.withQueue (job :: q))
                      (i := i) hw hc rfl
                    rw [workerStep_dequeues hw hc hq] at hs
                    cases hn : nodeById c.graph job.nodeId with
                    | none =>
                        rw [hn] at hs
                        cases hs
                        refine .takes rfl hw hc hq fun q => ?_
                        refine (hgo q).trans ?_
                        rw [hn]
                        rfl
                    | some n =>
                        rw [hn] at hs
                        cases hs
                        have hkept : s.queue = job :: (acquireSeat c (s.withQueue rest) i job n).queue := by
                          rw [acquireSeat_kept, hq]
                          rfl
                        refine .takes rfl hw hc hkept fun q => ?_
                        refine (hgo q).trans ?_
                        rw [hn]
                        exact congrArg some (acquireSeat_queue (s.withQueue rest) i job n q)
        | _ =>
            unfold workerStep at hs
            rw [hw] at hs
            cases hs
      · have hall := fun q => workerStep_queue (c := c) (i := i) (a := a) hw q
        have hs : workerStep c s i a = some s' := h
        have hself : s' = s'.withQueue s.queue := by
          have hq := hall s.queue
          rw [withQueue_self, hs] at hq
          exact Option.some.inj hq
        refine hquiet ?_ fun q => ?_
        · rw [hself]
          rfl
        · show workerStep c (s.withQueue q) i a = _
          rw [hall, hs]
          rfl

end Queue

/-! ## 4. The jobs of one run -/

/-- Everything an executor has in hand is of its own run. -/
structure OwnJobs (c : Context) (s : State) : Prop where
  handed : ∀ job, job ∈ s.enqueued ∨ job ∈ s.drive.jobs → job.runId = c.runId
  queued : ∀ job ∈ s.queue, job.runId = c.runId
  hands : ∀ w ∈ s.workers, ∀ job, w.job = some job → job.runId = c.runId
  flights : ∀ key f, s.core.store.inFlight key = some f → f.job.runId = c.runId

section Own

variable {c : Context} {s s' : State} {l : Label}

theorem OwnJobs.inHand (h : OwnJobs c s) {i : Nat} {job : WorkflowJob} {n : WorkflowNode}
    {s₀ : State} (hh : InHand c s i job n s₀) : job.runId = c.runId := by
  cases hh with
  | dequeued hw hc hq => exact h.queued job (by rw [hq]; exact List.mem_cons_self)
  | seated hw => exact h.hands _ (List.mem_of_getElem? hw) job rfl

theorem OwnJobs.act {y : Core} (h : OwnJobs c s) (ha : Act c s l y) :
    ∀ key f, y.store.inFlight key = some f → f.job.runId = c.runId := by
  intro key f hf
  cases ha with
  | idle | completes | endRefused | late | world => exact h.flights key f hf
  | @flight k g a z pc hg hrow =>
      rw [Core.setFlight_inFlight] at hf
      split_ifs at hf
      · cases hf
        have hjob : (nextJob g).runId = g.job.runId := by
          unfold nextJob
          split <;> rfl
        exact hjob.trans (h.flights k g hg)
      · rw [hrow.own.store] at hf
        exact h.flights key f hf
  | settles =>
      simp only [IdempotencyStore.settle] at hf
      split_ifs at hf
      exact h.flights key f hf
  | begins hh =>
      rw [Core.setFlight_inFlight] at hf
      split_ifs at hf
      · cases hf
        exact h.inHand hh
      · rw [beginAttempt_own.store] at hf
        exact h.flights key f hf
  | givesUp hw hn hend ht hcore hcaught hrow =>
      rw [hrow.own.store] at hf
      rcases hcore with rfl | rfl <;> exact h.flights key f hf
  | ending hw hn hend hrow =>
      rw [hrow.own.store] at hf
      exact h.flights key f hf

theorem OwnJobs.step (hnd : (c.graph.map (·.id)).Nodup) (hS : State.Sound c s) (h : OwnJobs c s)
    (hs : step c s l = some s') : OwnJobs c s' := by
  have hhanded : ∀ job, job ∈ s'.enqueued ∨ job ∈ s'.drive.jobs → job.runId = c.runId :=
    fun job hj => step_handed (P := fun job => job.runId = c.runId) hs (fun _ _ _ => rfl) h.handed hj
  refine ⟨hhanded, fun job hj => ?_, fun w hw job hj => ?_, ?_⟩
  · cases step_queue hs with
    | pushes hq hnew =>
        rw [hq] at hj
        rcases List.mem_append.mp hj with hj | hj
        · exact h.queued job hj
        · exact hhanded job (.inl (hnew job hj))
    | takes hl hw hc hq =>
        exact h.queued job (by rw [hq]; exact List.mem_cons_of_mem _ hj)
    | finds hq hq' =>
        rw [hq'] at hj
        cases hj
    | inserts hl hj' hs' hq =>
        rw [hq] at hj
        rcases List.eq_or_mem_of_mem_insertIdx hj with rfl | hj
        · exact h.handed job (.inl (List.mem_of_getElem? hj'))
        · exact h.queued job hj
  · have hstay : s'.workers = s.workers → job.runId = c.runId := fun hws =>
      h.hands w (hws ▸ hw) job hj
    cases l with
    | drive =>
        rcases (hS.orderly.drive (driveStep_move hs)).2 with hws | ⟨-, hidle⟩
        · exact hstay hws
        · rw [hidle w hw] at hj
          cases hj
    | worker i a =>
        rcases (workerStep_move hs).jobs hw hj with ⟨w', hw', hj'⟩ | hj'
        · exact h.hands w' hw' job hj'
        · exact h.queued job hj'
    | flight | late | redeliver =>
        obtain ⟨_, -, rfl⟩ := Option.map_eq_some_iff.mp hs
        exact hstay rfl
    | cancel | world =>
        cases hs
        exact hstay rfl
  · refine (step_core hS hnd hs).keeps hnd hS.core (fun _ ha => h.act ha)
      (fun z z' T q _ _ hz ht key f hf => hz key f (ht.sameRest.store ▸ hf)) fun _ _ _ _ hz => hz

/-- An executor about to drive, whose queue was given jobs of its own run. -/
structure Starts (c : Context) (s : State) : Prop where
  begins : Begins c s
  jobs : ∀ job ∈ s.enqueued, job.runId = c.runId

theorem Starts.launched (h : Starts c s) :
    s.queue = [] ∧ s.drive = .starting ∧ s.workers = [] := by
  rcases h.begins with ⟨w, rfl⟩ | ⟨o, w, trace, events, core, old, hh, -, rfl⟩
  · exact ⟨rfl, rfl, rfl⟩
  · exact ⟨rfl, rfl, rfl⟩

theorem Starts.own (hnd : (c.graph.map (·.id)).Nodup) (h : Starts c s) : OwnJobs c s := by
  obtain ⟨hq, hd, hw⟩ := h.launched
  refine ⟨fun job hj => ?_, fun job hj => ?_, fun w hw' => ?_, fun key f hf => ?_⟩
  · rcases hj with hj | hj
    · exact h.jobs job hj
    · rw [hd] at hj
      cases hj
  · rw [hq] at hj
    cases hj
  · rw [hw] at hw'
    cases hw'
  · rw [h.begins.still hnd key] at hf
    cases hf

/-- **Every run of an executor with a queue of its own.** -/
theorem run_own {s₀ : State} {ls : List Label} (hnd : (c.graph.map (·.id)).Nodup)
    (h₀ : Starts c s₀) (h : Run (step c) (fun _ _ => True) s₀ ls s) :
    State.Sound c s ∧ OwnJobs c s := by
  refine Run.invariant (I := fun s => State.Sound c s ∧ OwnJobs c s)
    ⟨h₀.begins.sound hnd, h₀.own hnd⟩ ?_ h
  exact fun s l s' hI _ hs => ⟨hI.1.step hnd hs, hI.2.step hnd hI.1 hs⟩

end Own

/-! ## 5. What an executor makes of its own jobs -/

/-- The jobs of the run itself. -/
def own (c : Context) (queue : List WorkflowJob) : List WorkflowJob :=
  queue.filter fun job => job.runId = c.runId

/-- The executor with only its own jobs in the queue. -/
def mine (c : Context) (s : State) : State := s.withQueue (own c s.queue)

section Mine

variable {c d : Context} {s s' : State} {l : Label} {job : WorkflowJob} {q q' : List WorkflowJob}

theorem own_append : own c (q ++ q') = own c q ++ own c q' := List.filter_append ..

theorem foreign_append : foreign c (q ++ q') = foreign c q ++ foreign c q' := List.filter_append ..

theorem own_cons (h : job.runId = c.runId) : own c (job :: q) = job :: own c q :=
  List.filter_cons_of_pos (by simpa using h)

theorem foreign_cons_own (h : job.runId = c.runId) : foreign c (job :: q) = foreign c q :=
  List.filter_cons_of_neg (by simpa using h)

theorem foreign_cons (h : job.runId ≠ c.runId) : foreign c (job :: q) = job :: foreign c q :=
  List.filter_cons_of_pos (by simpa using h)

theorem own_all (h : ∀ job ∈ q, job.runId = c.runId) : own c q = q ∧ foreign c q = [] := by
  constructor
  · exact List.filter_eq_self.mpr fun job hj => decide_eq_true (h job hj)
  · exact List.filter_eq_nil_iff.mpr fun job hj => by simp [h job hj]

/-- The jobs of one run are all foreign to another one. -/
theorem own_foreign (hne : c.runId ≠ d.runId) : own c (foreign d q) = own c q := by
  unfold own foreign
  rw [List.filter_filter]
  refine List.filter_congr fun job _ => ?_
  by_cases h : job.runId = c.runId
  · simp [h, hne]
  · simp [h]

theorem mine_nil (h : s.queue = []) : mine c s = s := by
  have hown : own c s.queue = s.queue := by
    rw [h]
    rfl
  rw [mine, hown, withQueue_self]

/-- **A step that takes an own job** is a step of the executor with its own jobs alone, and leaves
    the other ones where they are. -/
theorem step_mine (h : step c s l = some s') (hown : TakesOwn c s l)
    (hjobs : ∀ job ∈ s.enqueued, job.runId = c.runId)
    (hjobs' : ∀ job ∈ s'.enqueued, job.runId = c.runId) :
    (∃ l', step c (mine c s) l' = some (mine c s')) ∧ foreign c s'.queue = foreign c s.queue := by
  cases step_queue h with
  | @pushes new hq hnew hall =>
      obtain ⟨hfilter, hnone⟩ := own_all fun job hj => hjobs' job (hnew job hj)
      refine ⟨⟨l, ?_⟩, ?_⟩
      · rw [mine, mine, hq, own_append, hfilter]
        exact hall _
      · rw [hq, foreign_append, hnone, List.append_nil]
  | @takes i job hl hw hc hq hall =>
      subst hl
      have hjob : job.runId = c.runId := hown hw hc job s'.queue hq
      refine ⟨⟨.worker i .tick, ?_⟩, ?_⟩
      · rw [mine, mine, hq, own_cons hjob]
        exact hall _
      · rw [hq, foreign_cons_own hjob]
  | finds hq hq' =>
      rw [mine_nil hq, mine_nil hq', hq, hq']
      exact ⟨⟨l, h⟩, rfl⟩
  | @inserts j at_ job hl hj hs' hq =>
      have hjob : job.runId = c.runId := hjobs job (List.mem_of_getElem? hj)
      obtain ⟨A, B, hAB, hins⟩ := insertIdx_split (Nat.min_le_right at_ s.queue.length) job
      rw [hins] at hq
      refine ⟨⟨.redeliver j (own c A).length, ?_⟩, ?_⟩
      · refine Option.map_eq_some_iff.mpr ⟨job, hj, ?_⟩
        have hmin : min (own c A).length (mine c s).queue.length = (own c A).length := by
          refine Nat.min_eq_left ?_
          rw [mine, withQueue_queue, hAB, own_append, List.length_append]
          exact Nat.le_add_right _ _
        have hqueue : (mine c s).queue.insertIdx (own c A).length job = own c s'.queue := by
          rw [mine, withQueue_queue, hAB, own_append, insertIdx_append, hq, own_append,
            own_cons hjob]
        rw [hmin, hqueue]
        exact (congrArg (fun t : State => t.withQueue (own c s'.queue)) hs').symm
      · rw [hq, hAB, foreign_append, foreign_append, foreign_cons_own hjob]

/-- A step that takes a job of another run out of the queue. -/
theorem not_apart (h : step c s l = some s') (hno : ¬ TakesOwn c s l) : ¬ Apart c s s' := by
  unfold TakesOwn at hno
  split at hno
  · rename_i i
    push Not at hno
    obtain ⟨hw, hc, job, rest, hq, hjob⟩ := hno
    intro hapart
    have hs : workerStep c s i .tick = some s' := h
    rw [workerStep_dequeues hw hc hq] at hs
    have hq' : s'.queue = rest := by
      cases hn : nodeById c.graph job.nodeId with
      | none =>
          rw [hn] at hs
          cases hs
          rfl
      | some n =>
          rw [hn] at hs
          cases hs
          exact acquireSeat_kept (s.withQueue rest) i job n
    have hlen := hapart.keeps.length_eq
    rw [hq, hq', foreign_cons hjob, List.length_cons] at hlen
    omega
  · exact absurd trivial hno

end Mine

/-! ## 6. Two executors on one queue -/

section Twins

variable {c : Side → Context} {p₀ p p' : Twin} {ls : List (Side × Label)} {side : Side}
  {x : Side × Label}

theorem view_put_self (p : Twin) (s : State) (side : Side) : (p.put s side).view side = s := by
  cases side <;> rfl

theorem view_put_other {other : Side} (h : side ≠ other) (p : Twin) (s : State) :
    (p.put s other).view side = (p.view side).withQueue s.queue := by
  cases side <;> cases other <;> first | exact absurd rfl h | rfl

theorem view_queue (p : Twin) (side : Side) : (p.view side).queue = p.queue := by
  cases side <;> rfl

theorem runId_ne (hne : (c .left).runId ≠ (c .right).runId) {other : Side} (h : side ≠ other) :
    (c side).runId ≠ (c other).runId := by
  cases side <;> cases other <;> first | exact absurd rfl h | exact hne | exact hne.symm

/-- The step of an executor that runs as on a queue of its own. -/
theorem mover {d : Context} {s₀ v s : State} {l : Label} {ls' : List Label}
    (hnd : (d.graph.map (·.id)).Nodup) (hs₀ : Starts d s₀)
    (hrun : Run (Orchestrator.step d) (fun _ _ => True) s₀ ls' (mine d v))
    (hs : Orchestrator.step d v l = some s) (hok : TakesOwn d v l) :
    (∃ l', Orchestrator.step d (mine d v) l' = some (mine d s)) ∧
      foreign d s.queue = foreign d v.queue := by
  have hown := (run_own hnd hs₀ hrun).2
  refine step_mine hs hok (fun job hj => hown.handed job (.inl hj)) fun job hj => ?_
  exact step_handed (P := fun job => job.runId = d.runId) hs (fun _ _ _ => rfl) hown.handed (.inl hj)

/-- **Each executor runs as on a queue of its own**: what it makes of its own jobs is a run of it
    without the other one. -/
theorem twin_run (hnd : ∀ side, ((c side).graph.map (·.id)).Nodup)
    (hne : (c .left).runId ≠ (c .right).runId) (hs₀ : ∀ side, Starts (c side) (p₀.view side))
    (h : Run (Twin.step c) (TwinTakesOwn c) p₀ ls p) : ∀ side, ∃ ls',
      Run (Orchestrator.step (c side)) (fun _ _ => True) (p₀.view side) ls'
        (mine (c side) (p.view side)) := by
  induction h with
  | start =>
      refine fun side => ⟨[], ?_⟩
      rw [mine_nil (hs₀ side).launched.1]
      exact .start
  | @next ls p p' x h hok hstep ih =>
      obtain ⟨s, hs, rfl⟩ := Option.map_eq_some_iff.mp hstep
      obtain ⟨ls', hrun⟩ := ih x.1
      obtain ⟨⟨l', hl'⟩, hforeign⟩ := mover (hnd x.1) (hs₀ x.1) hrun hs hok
      intro side
      by_cases hside : side = x.1
      · subst hside
        rw [view_put_self]
        exact ⟨ls' ++ [l'], hrun.next trivial hl'⟩
      · -- what the other executor does leaves the jobs of this one where they are
        have hid : (c side).runId ≠ (c x.1).runId := runId_ne hne hside
        have hqueue : own (c side) s.queue = own (c side) (p.view side).queue := by
          rw [← own_foreign hid, hforeign, own_foreign hid, view_queue, view_queue]
        have hmine : mine (c side) ((p.put s x.1).view side) = mine (c side) (p.view side) := by
          rw [view_put_other hside, mine, withQueue_queue, hqueue]
          rfl
        rw [hmine]
        exact ih side

/-- **Two runs on one queue do not interfere just as long as each executor finds only jobs of its
    own run at the head of the queue.** -/
theorem apart_iff {c : Side → Context} {p₀ p : Twin} {ls : List (Side × Label)}
    (hv : ∀ side, validateGraph (c side).graph = .ok ())
    (hne : (c .left).runId ≠ (c .right).runId) (hs₀ : ∀ side, Starts (c side) (p₀.view side))
    (h : Run (Twin.step c) (fun _ _ => True) p₀ ls p) :
    NoInterference c p₀ ls ↔ Run (Twin.step c) (TwinTakesOwn c) p₀ ls p := by
  have hnd := fun side => validateGraph_nodup (hv side)
  constructor
  · intro hapart
    rcases h.and_or_bad (TwinTakesOwn c) with hr | ⟨ls₁, x, ls₂, p₁, p₂, hls, hr, -, hno, hs, -⟩
    · exact hr.mono fun _ _ => And.right
    · obtain ⟨s, hstep, hput⟩ := Option.map_eq_some_iff.mp hs
      have hx := hapart ls₁ x ls₂ p₁ p₂ hls (hr.mono fun _ _ _ => trivial) hs
      rw [← hput, view_put_self] at hx
      exact absurd hx (not_apart hstep hno)
  · intro hg ls₁ x ls₂ q q' hls hq hs
    subst hls
    obtain ⟨q₁, hg₁, hg₂⟩ := hg.cut
    obtain rfl := hg₁.functional hq
    obtain ⟨-, hok, -⟩ := hg₂.uncons
    obtain ⟨ls', hrun⟩ := twin_run hnd hne hs₀ (hg₁.next hok hs) x.1
    obtain ⟨lsq, hrunq⟩ := twin_run hnd hne hs₀ hg₁ x.1
    obtain ⟨s, hstep, rfl⟩ := Option.map_eq_some_iff.mp hs
    obtain ⟨hS, hown⟩ := run_own (hnd x.1) (hs₀ x.1) hrun
    have hforeign := (mover (hnd x.1) (hs₀ x.1) hrunq hstep hok).2
    rw [view_put_self] at hS hown ⊢
    refine ⟨hown.hands, fun key f hf => ?_, ?_⟩
    · obtain ⟨hn, hkey, -⟩ := hS.core.flight key f hf
      exact ⟨hown.flights key f hf, hn, hkey.symm⟩
    · rw [hforeign]

end Twins

/-- A letter is sent. -/
def letterNode : WorkflowNode :=
  { id := "letter", kind := .action, action := some "letter.send", deps := [] }

/-- A run with one worker. -/
def letterRun (runId : String) : Context :=
  { limits := { defaultBulkhead with maxConcurrentJobs := 1 }, compensations := .empty
    sha256 := fun s => s, runId := runId, taskId := "task", graph := [letterNode] }

/-- Both send one, each in its own run. -/
def letterContext : Side → Context
  | .left => letterRun "run-1"
  | .right => letterRun "run-2"

/-- Nothing needs approval, and no guard stops anything. -/
def letterWorld : World := ⟨fun _ => false, fun _ _ _ => none⟩

/-- Neither has begun. -/
def letterTwin : Twin :=
  ⟨.initial (letterContext .left) letterWorld, .initial (letterContext .right) letterWorld, []⟩

/-- The drive loop of one side up to its dispatch, and its worker. -/
def dispatches (side : Side) : List (Side × Label) :=
  [(side, .drive), (side, .drive), (side, .drive), (side, .worker 0 .tick)]

theorem letter_starts (side : Side) : Starts (letterContext side) (letterTwin.view side) := by
  cases side
  · exact ⟨.inl ⟨letterWorld, rfl⟩, fun _ hj => by cases hj⟩
  · exact ⟨.inl ⟨letterWorld, rfl⟩, fun _ hj => by cases hj⟩

theorem letter_valid (side : Side) : validateGraph (letterContext side).graph = .ok () := by
  cases side <;> rfl

/-- One executor dispatches after the other. -/
theorem apart_iff_letter : ∃ p, Run (Twin.step letterContext) (fun _ _ => True) letterTwin
      (dispatches .left ++ dispatches .right) p ∧
    (NoInterference letterContext letterTwin (dispatches .left ++ dispatches .right) ↔
      Run (Twin.step letterContext) (TwinTakesOwn letterContext) letterTwin
        (dispatches .left ++ dispatches .right) p) := by
  obtain ⟨p, hp⟩ := Option.isSome_iff_exists.mp (show (exec (Twin.step letterContext) letterTwin
    (dispatches .left ++ dispatches .right)).isSome = true by decide)
  have hrun : Run (Twin.step letterContext) (fun _ _ => True) _ _ p :=
    run_of_exec (fun _ _ => trivial) hp
  exact ⟨p, hrun, apart_iff letter_valid (by decide) letter_starts hrun⟩

/-- Whether a worker has a job of another run in hand. -/
def holdsForeign (c : Context) (s : State) : Bool :=
  s.workers.any fun w => (w.job.map fun job => decide (job.runId ≠ c.runId)).getD false

theorem not_apart_of_holdsForeign {c : Context} {s s' : State} (h : holdsForeign c s' = true) :
    ¬ Apart c s s' := by
  intro hapart
  obtain ⟨w, hw, hjob⟩ := List.any_eq_true.mp h
  cases hj : w.job with
  | none =>
      rw [hj] at hjob
      cases hjob
  | some job =>
      rw [hj] at hjob
      exact of_decide_eq_true hjob (hapart.acts w hw job hj)

/-- The left executor has handed over its job; the right one takes it. -/
theorem letter_taken : ∃ (c : Side → Context) (p₀ : Twin) (ls : List (Side × Label)) (p : Twin),
    (∀ side, validateGraph (c side).graph = .ok ()) ∧ (c .left).runId ≠ (c .right).runId ∧
    (∀ side, Starts (c side) (p₀.view side)) ∧
    Run (Twin.step c) (fun _ _ => True) p₀ ls p ∧ ¬ NoInterference c p₀ ls := by
  obtain ⟨p, hp, hx⟩ := Option.bind_eq_some_iff.mp (show (exec (Twin.step letterContext) letterTwin
    ((Side.left, Label.drive) :: (dispatches .right).dropLast)).bind (fun p =>
      (Twin.step letterContext p (.right, .worker 0 .tick)).map fun p' =>
        holdsForeign (letterContext .right) (p'.view .right)) = some true by decide)
  obtain ⟨p', hp', hforeign⟩ := Option.map_eq_some_iff.mp hx
  have hrun : Run (Twin.step letterContext) (fun _ _ => True) letterTwin _ p :=
    run_of_exec (fun _ _ => trivial) hp
  refine ⟨letterContext, letterTwin, _, p', letter_valid, by decide, letter_starts,
    hrun.next trivial hp', fun hno => ?_⟩
  exact not_apart_of_holdsForeign hforeign (hno _ _ [] p p' rfl hrun hp')

end AgentKernel.Orchestrator
