/-
  File:      AgentKernel/Orchestrator/Progress.lean
  Subject:   A run that goes on comes to its end.

  * `potential`: what is left to do. A step of the code lowers it (`step_spends`), except that of a
    worker that sleeps in front of a full bulkhead; only a delivery raises it, by four;
  * `step_enabled`: as long as the run is not resolved some code can go on, and does not sleep. If
    all workers sat in front of the bulkhead nobody would hold a seat, and the limits admit one.

  So a run whose steps do not misfire comes to its end (**`run_contained`**).
-/
import AgentKernel.Orchestrator.Evaluate
import AgentKernel.Orchestrator.Legal
import AgentKernel.Orchestrator.Seats
import AgentKernel.Orchestrator.SweptOnce
import AgentKernel.Orchestrator.Waves

namespace AgentKernel.Orchestrator

open Lib

/-! ## 1. What is left of an execution -/

/-- What is left of `failNode`. -/
def failWork (c : Context) : FailPc → Nat
  | .compensating _ => c.graph.length + 6
  | .undoing .. => c.graph.length + 5
  | .sweeping _ _ _ rest => rest.length + 4
  | .persisting => 3

/-- What is left of an attempt, without the further ones. -/
def stretchWork (c : Context) : FlightPc → Nat
  | .ran => c.graph.length + 16
  | .waiting _ => c.graph.length + 15
  | .answered .. => c.graph.length + 14
  | .calling .. => c.graph.length + 13
  | .judged _ => c.graph.length + 12
  | .verified _ => c.graph.length + 11
  | .threw _ => c.graph.length + 10
  | .retrying => c.graph.length + 17
  | .failing _ _ pc => failWork c pc
  | .rejected _ => 0

/-- The attempts that may follow the attempt at hand. -/
def furtherAttempts (n : WorkflowNode) (attempt : Nat) : FlightPc → Nat
  | .failing .. | .rejected _ => 0
  | .retrying => (retryPolicy n).maxAttempts - (attempt + 1)
  | _ => (retryPolicy n).maxAttempts - attempt

/-- What is left of an execution of `n`. -/
def flightWork (c : Context) (n : WorkflowNode) (attempt : Nat) (pc : FlightPc) : Nat :=
  9 * furtherAttempts n attempt pc + stretchWork c pc

/-- What an execution of `n` that has not begun will do. -/
def fullWork (c : Context) (n : WorkflowNode) : Nat :=
  9 * (retryPolicy n).maxAttempts + c.graph.length + 17

/-- What is left to do for `n`, as far as the store knows. -/
def nodeWork (c : Context) (x : Core) (n : WorkflowNode) : Nat :=
  match x.store.completed (keyOf c n), x.store.inFlight (keyOf c n) with
  | some _, _ => 0
  | none, some f => flightWork c f.node f.job.attempt f.pc
  | none, none => fullWork c n

section Executions

variable {c : Context} {x y : Core} {n : WorkflowNode} {error : String} {a : Answer}

/-- The ids that have completed, each once, are ids of the graph. -/
def Brief (c : Context) (x : Core) : Prop := x.completionOrder.length ≤ c.graph.length

theorem sweepNext_work {failed : NodeId} {pc : FailPc} : ∀ {ids : List NodeId},
    sweepNext c x failed ids = (y, pc) → failWork c pc ≤ ids.length + 3
  | [], h => by
      cases h
      exact Nat.le_refl _
  | id :: rest, h => by
      unfold sweepNext at h
      split at h
      · cases h
        simp only [failWork, List.length_cons]
        omega
      · have ih := sweepNext_work h
        simp only [List.length_cons]
        omega

theorem HeadRow.work {q : Bool} {pc : FailPc} (h : HeadRow c x n error q y (some pc)) :
    failWork c pc ≤ c.graph.length + 6 := by
  cases h <;> simp only [failWork] <;> omega

theorem FailRow.work {pc pc' : FailPc} (hb : Brief c x) (h : FailRow c x n error pc a y pc') :
    failWork c pc' < failWork c pc := by
  cases h with
  | undoes => simp only [failWork]; omega
  | @rollsBack spec call o y pc' hs hx =>
      have hle := sweepNext_work hx
      rw [List.length_reverse] at hle
      have hb' : x.completionOrder.length ≤ c.graph.length := hb
      show failWork c pc' < c.graph.length + 5
      omega
  | @swept id spec call rest o y pc' hx =>
      have hle := sweepNext_work hx
      show failWork c pc' < rest.length + 4
      omega

theorem nextJob_attempt {f : Flight} (h : f.pc ≠ .retrying) : nextJob f = f.job := by
  unfold nextJob
  split
  · rename_i hr
    exact absurd hr h
  · rfl

/-- **Every stretch of an execution leaves less to do.** -/
theorem Row.work {f : Flight} {pc' : FlightPc} (hb : Brief c x) (h : Row c x f f.pc a y pc') :
    flightWork c f.node (nextJob f).attempt pc' < flightWork c f.node f.job.attempt f.pc := by
  generalize hpc : f.pc = pc at h
  have hjob : pc ≠ .retrying → nextJob f = f.job := fun hne => nextJob_attempt (hpc ▸ hne)
  cases h with
  | throws hplace =>
      rcases hplace with rfl | ⟨_, rfl⟩ | ⟨_, _, rfl⟩ <;>
      · rw [hjob nofun]
        simp only [flightWork, furtherAttempts, stretchWork]
        omega
  | calls hgate =>
      rcases hgate with ⟨rfl, -⟩ | ⟨_, rfl, -⟩ <;>
      · rw [hjob nofun]
        simp only [flightWork, furtherAttempts, stretchWork]
        omega
  | concludes hkind hcond hsrc hend =>
      rcases hsrc with ⟨rfl, -⟩ | ⟨_, _, _, rfl, -⟩ <;> rcases hend with rfl | ⟨_, rfl⟩ <;>
      · rw [hjob nofun]
        simp only [flightWork, furtherAttempts, stretchWork]
        omega
  | settles hend =>
      rw [hjob nofun]
      rcases hend with ⟨_, -, -, rfl, -⟩ | ⟨_, -, -, rfl, -⟩ | ⟨_, -, rfl⟩ <;>
      · simp only [flightWork, furtherAttempts, stretchWork]
        omega
  | retries hagain hs =>
      -- the policy grants one attempt more
      have hlt : f.job.attempt < (retryPolicy f.node).maxAttempts := by
        unfold willRetry retryable at hagain
        simp only [Bool.and_eq_true, decide_eq_true_eq] at hagain
        exact hagain.1.1
      rw [hjob nofun]
      simp only [flightWork, furtherAttempts, stretchWork]
      omega
  | fails hagain hq hrow =>
      have hle := hrow.work
      simp only [flightWork, furtherAttempts, stretchWork]
      omega
  | resumes hs =>
      have hnext : (nextJob f).attempt = f.job.attempt + 1 := by
        unfold nextJob
        rw [hpc]
      rw [hnext]
      simp only [flightWork, furtherAttempts, stretchWork]
      omega
  | ending hrow =>
      have hlt := hrow.work hb
      simp only [flightWork, furtherAttempts, stretchWork]
      omega
  | asks | answers | approved | timesOut | verifies =>
      rw [hjob nofun]
      simp only [flightWork, furtherAttempts, stretchWork]
      omega
  | retryRefused | failRefused | ended =>
      simp only [flightWork, furtherAttempts, stretchWork, failWork]
      omega

theorem nodeWork_congr (hc : y.store.completed (keyOf c n) = x.store.completed (keyOf c n))
    (hf : y.store.inFlight (keyOf c n) = x.store.inFlight (keyOf c n)) :
    nodeWork c y n = nodeWork c x n := by
  unfold nodeWork
  rw [hc, hf]

theorem nodeWork_flight {f : Flight} (hc : x.store.completed (keyOf c n) = none)
    (hf : x.store.inFlight (keyOf c n) = some f) :
    nodeWork c x n = flightWork c f.node f.job.attempt f.pc := by
  unfold nodeWork
  rw [hc, hf]

theorem conclude_store {z : Core} {cond : ConditionSpec} {source : NodeResult} {pc : FlightPc}
    (h : conclude c x n cond source = (z, pc)) : z.store = x.store := by
  rcases conclude_spread (q := False) h with ⟨-, hsp⟩ | ⟨_, -, z₁, m, -, hsp, -, -, -, rfl⟩
  · exact hsp.sameRest.store
  · exact hsp.sameRest.store

/-- **A step of an execution lowers what is left of its node**, and of no other. -/
theorem flightStep_work {key : String} (hb : Brief c x) (hS : Core.Sound c x)
    (h : flightStep c x key a = some y) :
    (∃ n ∈ c.graph, keyOf c n = key) ∧
    ∀ n ∈ c.graph, (keyOf c n = key → nodeWork c y n < nodeWork c x n) ∧
      (keyOf c n ≠ key → nodeWork c y n = nodeWork c x n) := by
  unfold flightStep at h
  split at h
  · cases h
  · rename_i f hf
    obtain ⟨hfn, hfk, hag⟩ := hS.flight key f hf
    have hcomp := hS.excl key f hf
    refine ⟨⟨f.node, hfn, hfk⟩, fun n hn => ?_⟩
    split at h
    · rename_i r hpc
      cases h
      constructor
      · rintro rfl
        rw [nodeWork_flight hcomp hf, hpc]
        simp only [nodeWork, IdempotencyStore.settle, if_true, flightWork, stretchWork]
        omega
      · intro hk
        refine nodeWork_congr ?_ ?_ <;> simp only [IdempotencyStore.settle, if_neg hk]
    · obtain ⟨⟨z, pc⟩, hnext, rfl⟩ := Option.map_eq_some_iff.mp h
      obtain ⟨z₁, hrow, hend⟩ := flightNext_ends hag hnext
      have hstore : z.store = x.store := by
        rcases hend with rfl | ⟨cond, source, -, -, -, hconc⟩
        · exact hrow.own.store
        · exact (conclude_store hconc).trans hrow.own.store
      constructor
      · rintro rfl
        rw [nodeWork_flight hcomp hf,
          nodeWork_flight (by rw [Core.setFlight_completed, hstore]; exact hcomp)
            (by rw [Core.setFlight_inFlight, if_pos rfl])]
        exact hrow.work hb
      · intro hk
        refine nodeWork_congr ?_ ?_
        · rw [Core.setFlight_completed, hstore]
        · rw [Core.setFlight_inFlight, if_neg hk, hstore]

/-- What is left to do for all nodes. -/
def graphWork (c : Context) (x : Core) : Nat := (c.graph.map (nodeWork c x)).sum

theorem graphWork_congr (h : y.store = x.store) : graphWork c y = graphWork c x := by
  unfold graphWork
  refine congrArg List.sum (List.map_congr_left fun n _ => nodeWork_congr ?_ ?_) <;> rw [h]

theorem graphWork_lt {m : WorkflowNode} (hm : m ∈ c.graph) (hlt : nodeWork c y m < nodeWork c x m)
    (hle : ∀ n ∈ c.graph, nodeWork c y n ≤ nodeWork c x n) : graphWork c y < graphWork c x :=
  List.sum_lt_sum _ _ hle ⟨m, hm, hlt⟩

theorem flightStep_graphWork {key : String} (hb : Brief c x) (hS : Core.Sound c x)
    (h : flightStep c x key a = some y) : graphWork c y < graphWork c x := by
  obtain ⟨⟨m, hm, hmk⟩, hall⟩ := flightStep_work hb hS h
  refine graphWork_lt hm ((hall m hm).1 hmk) fun n hn => ?_
  by_cases hk : keyOf c n = key
  · exact Nat.le_of_lt ((hall n hn).1 hk)
  · exact Nat.le_of_eq ((hall n hn).2 hk)

end Executions

/-! ## 2. What is left of the run -/

/-- How many steps a worker has before it at the most. -/
def Worker.work : Worker → Nat
  | .idle => 1
  | .seat .. => 3
  | .holding .. | .failing .. => 2
  | .finished | .died _ => 0

/-- How many workers a dispatch starts. -/
def crewSize (c : Context) : Nat := max 1 c.limits.maxConcurrentJobs

/-- How many steps the loop has before it at the most. -/
def Drive.work (c : Context) : Drive → Nat
  | .starting | .dispatching => 2
  | .enqueuing _ rest => 5 * rest.length + crewSize c + 4
  | .enqueued => crewSize c + 3
  | .finalizing => 1
  | .resolved | .aborted _ => 0

/-- What one body of the drive loop hands out. -/
def bodyWork (c : Context) : Nat := 5 * c.graph.length + crewSize c + 5

/-- How many bodies may follow. -/
def bodiesLeft (c : Context) (s : State) : Nat :=
  if s.cancelled = none then c.graph.length + 1 - progress c s else 0

/-- What is left to do. -/
def potential (c : Context) (s : State) : Nat :=
  bodyWork c * bodiesLeft c s + s.drive.work c + 4 * s.queue.length +
    (s.workers.map (·.work)).sum + graphWork c s.core

/-- The step is one of the run's own code, and not that of a worker that goes on sleeping in front
    of a full bulkhead. -/
def works (c : Context) (s : State) : Label → Bool
  | .drive | .flight .. => true
  | .worker i _ =>
      match s.workers[i]? with
      | some (.seat job n) => (s.limiter.tryAcquire c.limits (slotOf job n)).isSome
      | _ => true
  | _ => false

/-- The queue delivers a job once more. -/
def redelivers (_ : State) : Label → Bool
  | .redeliver .. => true
  | _ => false

/-- The environment answers as the handler does; it does not cancel the run, and changes no hook. -/
def Obeys (h : Handler) (s : State) : Label → Prop
  | .flight key a => ∀ f, s.core.store.inFlight key = some f → Replies h f a
  | .cancel _ | .world _ => False
  | _ => True

section Spending

variable {c : Context} {s s' : State} {l : Label} {i : Nat} {a : Answer}

theorem Work.graphWork_le {y : Core} (hk : DistinctKeys c) (h : Work c s i y) :
    graphWork c y ≤ graphWork c s.core := by
  cases h with
  | nothing => exact Nat.le_refl _
  | completes => exact Nat.le_of_eq (graphWork_congr promoteReady_store)
  | dies => exact Nat.le_of_eq (graphWork_congr rfl)
  | @begins job n s₀ hh hjob hno hr =>
      refine List.sum_le_sum fun m hm => ?_
      by_cases hkey : keyOf c m = keyOf c n
      · obtain rfl := hk _ hm _ hjob.1 hkey
        have hcomp : s.core.store.completed (keyOf c m) = none := by
          by_contra hne
          obtain ⟨r, hr⟩ := Option.ne_none_iff_exists'.mp hne
          exact hno (.inl ⟨r, hr⟩)
        have hflight : s.core.store.inFlight (keyOf c m) = none := by
          by_contra hne
          obtain ⟨f, hf⟩ := Option.ne_none_iff_exists'.mp hne
          exact hno (.inr ⟨f, hf⟩)
        rw [nodeWork_flight (f := ⟨m, job, .ran⟩) (by rw [Core.setFlight_completed]; exact hcomp)
          (by rw [Core.setFlight_inFlight, if_pos rfl])]
        simp only [nodeWork, hcomp, hflight, fullWork, flightWork, furtherAttempts, stretchWork]
        omega
      · refine Nat.le_of_eq (nodeWork_congr (by rw [Core.setFlight_completed]; rfl) ?_)
        rw [Core.setFlight_inFlight, if_neg hkey]
        rfl

/-- **A step of a worker leaves less to do**, unless the worker goes on sleeping. -/
theorem WorkerMove.spends (hk : DistinctKeys c) (hS : State.Sound c s) (ht : State.Tidy c s)
    (ha : Answered s.core) (h : WorkerMove c s i a s') :
    4 * s'.queue.length + (s'.workers.map (·.work)).sum +
        (if works c s (.worker i a) then 1 else 0) ≤
      4 * s.queue.length + (s.workers.map (·.work)).sum := by
  have hone : (if works c s (.worker i a) then 1 else 0) ≤ 1 := by split_ifs <;> omega
  -- an entry that is replaced by one with less to do
  have hset : ∀ {old : Worker} (new : Worker), s.workers[i]? = some old →
      s'.workers = s.workers.set i new →
      (s'.workers.map (·.work)).sum + old.work = (s.workers.map (·.work)).sum + new.work := by
    intro old new hw hws
    rw [hws]
    exact sum_map_set (·.work) new hw
  have hsame : ∀ {old new : Worker}, s.workers[i]? = some old → new.work < old.work →
      s'.workers = s.workers.set i new → s'.queue = s.queue →
      4 * s'.queue.length + (s'.workers.map (·.work)).sum +
        (if works c s (.worker i a) then 1 else 0) ≤
          4 * s.queue.length + (s.workers.map (·.work)).sum := by
    intro old new hw hlt hws hq
    have hsum := hset new hw hws
    rw [hq]
    omega
  -- a job in hand leaves the queue or a seat
  have hhand : ∀ {job n s₀} (new : Worker), InHand c s i job n s₀ → new.work ≤ 2 →
      s'.workers = s.workers.set i new → s'.queue = s₀.queue →
      4 * s'.queue.length + (s'.workers.map (·.work)).sum +
        (if works c s (.worker i a) then 1 else 0) ≤
          4 * s.queue.length + (s.workers.map (·.work)).sum := by
    intro job n s₀ new hh hle hws hq
    cases hh with
    | @dequeued rest hw hc hqueue hn =>
        have hsum := hset new hw hws
        have hidle : Worker.idle.work = 1 := rfl
        rw [show s'.queue = rest from hq, hqueue, List.length_cons]
        omega
    | seated hw =>
        have hseat : (Worker.seat job n).work = 3 := rfl
        exact hsame hw (by omega) hws hq
  cases h with
  | stops hw | passes hw | completes hw | leaves hw =>
      exact hsame hw (by simp [Worker.work]) rfl rfl
  | givesUp hw hc hterm | dies hw hc hterm =>
      rw [ha.caught hk hS ht (List.mem_of_getElem? hw) hc] at hterm
      cases hterm
  | ending hw | ended hw | endRefused hw =>
      exact absurd (List.mem_of_getElem? hw) (ht.calm _ _ _ _)
  | @drops job rest hw hq hn =>
      have hsum := hset .idle hw rfl
      have hqueue : ({ s with queue := rest }.setWorker i .idle).queue = rest := rfl
      rw [hqueue, hq, List.length_cons]
      omega
  | @waits job n s₀ hh hfull =>
      cases hh with
      | @dequeued rest hw hc hqueue hn =>
          have hsum := hset (.seat job n) hw rfl
          have hidle : Worker.idle.work = 1 := rfl
          have hseat : (Worker.seat job n).work = 3 := rfl
          have hq : ({ s with queue := rest }.setWorker i (.seat job n)).queue = rest := rfl
          rw [hq, hqueue, List.length_cons]
          omega
      | seated hw =>
          -- the worker goes on sleeping
          have hsum := hset (.seat job n) hw rfl
          have hsleeps : works c s (.worker i .tick) = false := by
            simp only [works, hw, hfull, Option.isSome_none]
          have hq : (s.setWorker i (.seat job n)).queue = s.queue := rfl
          rw [hsleeps, hq]
          simp only [Bool.false_eq_true, if_false]
          omega
  | @joins job n s₀ stored limiter hh =>
      refine hhand (.holding job n (s.core.store.has job.idempotencyKey) stored) hh
        (Nat.le_refl _) ?_ rfl
      cases hh <;> rfl
  | @begins job n s₀ limiter hh =>
      refine hhand (.holding job n (s.core.store.has job.idempotencyKey) none) hh
        (Nat.le_refl _) ?_ rfl
      cases hh <;> rfl

theorem progress_le (c : Context) (s : State) : progress c s ≤ c.graph.length + 1 := by
  refine Nat.add_le_add List.countP_le_length ?_
  cases s.drive <;> simp [Drive.ended]

/-- The heads of the drive loop use up the bodies that may follow. -/
theorem bodiesLeft_step (hk : DistinctKeys c) (hS : State.Sound c s) (ht : State.Tidy c s)
    (hf : s.cancelled = none → Fed s) (hs : step c s l = some s') :
    bodiesLeft c s' + (if s.cancelled = none ∧ runsBody s l then 1 else 0) ≤ bodiesLeft c s := by
  by_cases hc : s.cancelled = none
  · by_cases hc' : s'.cancelled = none
    · have hok : NotCancelled s l := by
        cases l with
        | cancel reason =>
            cases hs
            cases hc'
        | _ => trivial
      have hle := progress_step hk hS ht hc (hf hc) hok hs
      have hmax := progress_le c s'
      unfold bodiesLeft
      rw [if_pos hc, if_pos hc']
      simp only [hc, true_and]
      split_ifs at hle ⊢ <;> omega
    · rcases step_cancelled hs with he | ⟨reason, rfl, -⟩
      · exact absurd (he.trans hc) hc'
      · unfold bodiesLeft
        rw [if_neg hc', if_neg (by simp [runsBody])]
        exact Nat.zero_le _
  · have hc' : s'.cancelled ≠ none := stays_cancelled hs hc
    unfold bodiesLeft
    rw [if_neg hc, if_neg hc', if_neg fun h => hc h.1]

theorem Loop.spends {x : State} (h : Loop c x s') :
    s'.drive.work c + 4 * s'.queue.length + 1 ≤
      2 + 4 * x.queue.length + (if x.cancelled = none then bodyWork c else 0) ∧
    s'.workers = x.workers := by
  cases h with
  | cancels | finishes =>
      refine ⟨?_, rfl⟩
      simp only [Drive.work]
      omega
  | @enqueues n rest hc hr =>
      have hlen : rest.length + 1 ≤ c.graph.length := by
        rw [← List.length_cons, ← hr]
        exact List.length_filter_le _ _
      refine ⟨?_, rfl⟩
      rw [if_pos hc]
      simp only [Drive.work, List.length_map, List.length_append, List.length_cons,
        List.length_nil, bodyWork]
      omega

/-- **A step of the drive loop leaves less to do.** -/
theorem DriveMove.spends (hb : bodiesLeft c s' +
      (if s.cancelled = none ∧ runsBody s .drive then 1 else 0) ≤ bodiesLeft c s)
    (h : DriveMove c s s') : potential c s' + 1 ≤ potential c s := by
  have hgraph : graphWork c s'.core = graphWork c s.core := graphWork_congr h.spread.sameRest.store
  have hmul := Nat.mul_le_mul_left (bodyWork c) hb
  rw [Nat.mul_add] at hmul
  have hhead : ∀ {x : State}, x.queue = s.queue → x.cancelled = s.cancelled →
      x.workers = s.workers → s.drive.work c = 2 → runsBody s .drive = true → Loop c x s' →
      potential c s' + 1 ≤ potential c s := by
    intro x hq hc hws hd hrun hl
    obtain ⟨hle, hws'⟩ := hl.spends
    rw [hq, hc] at hle
    simp only [hrun, and_true] at hmul
    unfold potential
    rw [hgraph, hws', hws, hd]
    split_ifs at hle hmul <;> omega
  have hrest : s'.drive.work c + 4 * s'.queue.length + (s'.workers.map (·.work)).sum + 1 ≤
      s.drive.work c + 4 * s.queue.length + (s.workers.map (·.work)).sum →
      potential c s' + 1 ≤ potential c s := by
    intro hle
    unfold potential
    rw [hgraph]
    omega
  cases h with
  | starts hd hl =>
      exact hhead (x := { s with core := promoteReady c s.core }) rfl rfl rfl (by rw [hd]; rfl)
        (by simp only [runsBody, hd]) hl
  | loops hd hall hl =>
      exact hhead rfl rfl rfl (by rw [hd]; rfl) (runsBody_drive.mpr (.inr ⟨hd, hall⟩)) hl
  | aborts hd | resolves hd =>
      refine hrest ?_
      rw [hd]
      simp only [Drive.work]
      omega
  | @emits job hd =>
      refine hrest ?_
      rw [hd]
      show crewSize c + 3 + 4 * s.queue.length + (s.workers.map (·.work)).sum + 1 ≤
        5 * 0 + crewSize c + 4 + 4 * s.queue.length + (s.workers.map (·.work)).sum
      omega
  | @enqueues job next rest hd =>
      refine hrest ?_
      rw [hd]
      show 5 * rest.length + crewSize c + 4 + 4 * (s.queue ++ [next]).length +
          (s.workers.map (·.work)).sum + 1 ≤
        5 * (rest.length + 1) + crewSize c + 4 + 4 * s.queue.length + (s.workers.map (·.work)).sum
      rw [List.length_append, List.length_singleton]
      omega
  | dispatches hd =>
      have hcrew : ((List.replicate (max 1 c.limits.maxConcurrentJobs) Worker.idle).map
          (·.work)).sum = crewSize c := by
        rw [List.map_replicate, List.sum_replicate]
        exact Nat.mul_one _
      refine hrest ?_
      rw [hd, hcrew]
      simp only [Drive.work]
      omega

/-- **What a step spends.** -/
theorem step_spends (hnd : (c.graph.map (·.id)).Nodup) (hk : DistinctKeys c) (hS : State.Sound c s)
    (ht : State.Tidy c s) (hf : s.cancelled = none → Fed s) (ha : Answered s.core)
    (hb : Brief c s.core) (hs : step c s l = some s') :
    potential c s' + (if works c s l then 1 else 0) ≤
      potential c s + if redelivers s l then 4 else 0 := by
  have hbodies := bodiesLeft_step hk hS ht hf hs
  have hmul : bodyWork c * bodiesLeft c s' ≤ bodyWork c * bodiesLeft c s :=
    Nat.mul_le_mul_left _ (Nat.le_trans (Nat.le_add_right _ _) hbodies)
  -- only the shared state is written, and what is left of the executions is as before
  have hstay : ∀ {y : Core}, y.store = s.core.store →
      potential c { s with core := y } = potential c s := by
    intro y hy
    unfold potential
    rw [graphWork_congr (y := y) hy]
    rfl
  cases l with
  | drive => exact (driveStep_move hs).spends hbodies
  | flight key a =>
      obtain ⟨y, hy, rfl⟩ := Option.map_eq_some_iff.mp hs
      have hlt := flightStep_graphWork hb hS.core hy
      have hbody : bodiesLeft c { s with core := y } = bodiesLeft c s := rfl
      unfold potential
      rw [hbody]
      simp only [works, redelivers, if_true]
      omega
  | worker i a =>
      have hm := workerStep_move hs
      obtain ⟨-, -, -, -, -, -, -, hd, -⟩ := hm.frame
      have hle := hm.spends hk hS ht ha
      have hgraph := (hm.work hnd hk hS ht).graphWork_le hk
      unfold potential
      rw [hd]
      simp only [redelivers]
      omega
  | late call o =>
      obtain ⟨y, hy, rfl⟩ := Option.map_eq_some_iff.mp hs
      unfold lateStep at hy
      split at hy
      · cases hy
      · cases hy
        exact Nat.le_of_eq (hstay rfl)
  | redeliver j at_ =>
      obtain ⟨job, -, rfl⟩ := Option.map_eq_some_iff.mp hs
      have hlen : (s.queue.insertIdx (min at_ s.queue.length) job).length = s.queue.length + 1 :=
        List.length_insertIdx_of_le_length (Nat.min_le_right _ _) _
      unfold potential
      rw [hlen]
      simp only [works, redelivers, Bool.false_eq_true, if_false, if_true]
      omega
  | cancel reason =>
      cases hs
      unfold potential
      simp only [works, redelivers, Bool.false_eq_true, if_false]
      omega
  | world w =>
      cases hs
      exact Nat.le_of_eq (hstay rfl)

end Spending

/-! ## 3. Seats -/

/-- The seat a worker has in the bulkhead. -/
def Worker.slot : Worker → Option BulkheadSlot
  | .holding job n _ _ | .failing job n _ _ => some (slotOf job n)
  | _ => none

/-- The limiter counts the seats the workers have. -/
def Housed (c : Context) (s : State) : Prop :=
  ∃ held, held.Perm (s.workers.filterMap Worker.slot) ∧ Balanced c.limits ⟨s.limiter, held⟩

section Seats

variable {c : Context} {s s' : State} {l : Label} {i : Nat} {a : Answer}

theorem Housed.acquire {old new : Worker} {slot : BulkheadSlot} {limiter : ConcurrencyLimiter}
    (h : Housed c s) (hw : s.workers[i]? = some old) (hold : old.slot = none)
    (hnew : new.slot = some slot) (hws : s'.workers = s.workers.set i new)
    (hacq : s.limiter.tryAcquire c.limits slot = some limiter) (hl : s'.limiter = limiter) :
    Housed c s' := by
  obtain ⟨held, hperm, hbal⟩ := h
  refine ⟨slot :: held, ?_, hl ▸ hbal.acquire hacq⟩
  have hset := filterMap_set_perm Worker.slot new hw
  rw [hold, hnew] at hset
  rw [hws]
  exact (hperm.cons slot).trans hset

theorem Housed.release {old new : Worker} {job : WorkflowJob} {n : WorkflowNode}
    (h : Housed c s) (hw : s.workers[i]? = some old) (hold : old.slot = some (slotOf job n))
    (hnew : new.slot = none) (hws : s'.workers = s.workers.set i new)
    (hl : s'.limiter = s.limiter.release (slotOf job n)) : Housed c s' := by
  obtain ⟨held, hperm, hbal⟩ := h
  have hset := filterMap_set_perm Worker.slot new hw
  rw [hold, hnew] at hset
  have hall : held.Perm (slotOf job n :: (s.workers.set i new).filterMap Worker.slot) :=
    hperm.trans hset
  have hmem : slotOf job n ∈ held := hall.mem_iff.mpr List.mem_cons_self
  refine ⟨held.erase (slotOf job n), ?_, hl ▸ hbal.release hmem⟩
  have herase := hall.erase (slotOf job n)
  rw [List.erase_cons_head] at herase
  rw [hws]
  exact herase

/-- A worker that is replaced by one with the same seat. -/
theorem Housed.same {old : Worker} (new : Worker) (h : Housed c s)
    (hw : s.workers[i]? = some old) (hslot : new.slot = old.slot)
    (hws : s'.workers = s.workers.set i new) (hl : s'.limiter = s.limiter) : Housed c s' := by
  obtain ⟨held, hperm, hbal⟩ := h
  have hset := filterMap_set_perm Worker.slot new hw
  rw [hslot] at hset
  refine ⟨held, ?_, hl ▸ hbal⟩
  rw [hws]
  exact hperm.trans ((List.perm_append_left_iff _).mp hset)

theorem Housed.worker (h : Housed c s) (hm : WorkerMove c s i a s') : Housed c s' := by
  have hhand : ∀ {job n s₀} new, InHand c s i job n s₀ → ∃ old, s.workers[i]? = some old ∧
      old.slot = none ∧ s₀.workers.set i new = s.workers.set i new ∧ s₀.limiter = s.limiter := by
    intro job n s₀ new hh
    cases hh with
    | dequeued hw | seated hw => exact ⟨_, hw, rfl, rfl, rfl⟩
  cases hm with
  | stops hw => exact h.same .finished hw rfl rfl rfl
  | drops hw => exact h.same .idle hw rfl rfl rfl
  | @givesUp job n d stored core s' error pc k hw =>
      exact h.same (.failing job n error pc) hw rfl rfl rfl
  | @ending job n error pc pc' a s' hw =>
      exact h.same (.failing job n error pc') hw rfl rfl rfl
  | @waits job n s₀ hh hfull =>
      obtain ⟨old, hw, hold, hws, hl⟩ := hhand (.seat job n) hh
      exact h.same (.seat job n) hw hold.symm hws hl
  | @joins job n s₀ stored limiter hh hacq =>
      obtain ⟨old, hw, hold, hws, -⟩ :=
        hhand (.holding job n (s.core.store.has job.idempotencyKey) stored) hh
      exact h.acquire hw hold rfl hws hacq rfl
  | @begins job n s₀ limiter hh hacq =>
      obtain ⟨old, hw, hold, hws, -⟩ :=
        hhand (.holding job n (s.core.store.has job.idempotencyKey) none) hh
      exact h.acquire hw hold rfl hws hacq rfl
  | passes hw | completes hw | leaves hw | dies hw | ended hw | endRefused hw =>
      exact h.release hw rfl rfl rfl rfl

theorem Housed.drive (hS : State.Sound c s) (h : Housed c s) (hm : DriveMove c s s') :
    Housed c s' := by
  have hloop : ∀ {x : State}, x.workers = s.workers → x.limiter = s.limiter → Loop c x s' →
      Housed c s' := by
    intro x hws hl hloop
    unfold Housed
    cases hloop with
    | cancels | finishes | enqueues =>
        rw [show State.workers _ = _ from hws, show State.limiter _ = _ from hl]
        exact h
  cases hm with
  | starts hd hl => exact hloop (x := { s with core := promoteReady c s.core }) rfl rfl hl
  | loops hd hall hl => exact hloop rfl rfl hl
  | aborts | emits | enqueues | resolves => exact h
  | dispatches hd =>
      -- nobody has a seat before a dispatch, and nobody behind its start
      have hnone : s.workers.filterMap Worker.slot = [] := List.filterMap_eq_nil_iff.mpr
        fun w hw => by rw [hS.orderly.rest hd (by simp) (by simp) w hw]; rfl
      obtain ⟨held, hperm, hbal⟩ := h
      refine ⟨held, ?_, hbal⟩
      rw [hnone] at hperm
      rw [hperm.eq_nil, List.filterMap_eq_nil_iff.mpr fun w hw => by
        rw [(List.mem_replicate.mp hw).2]; rfl]

theorem Housed.step (hS : State.Sound c s) (h : Housed c s) (hs : step c s l = some s') :
    Housed c s' := by
  cases l with
  | drive => exact h.drive hS (driveStep_move hs)
  | worker i a => exact h.worker (workerStep_move hs)
  | flight key a =>
      obtain ⟨y, -, rfl⟩ := Option.map_eq_some_iff.mp hs
      exact h
  | late call o =>
      obtain ⟨y, -, rfl⟩ := Option.map_eq_some_iff.mp hs
      exact h
  | redeliver j at_ =>
      obtain ⟨job, -, rfl⟩ := Option.map_eq_some_iff.mp hs
      exact h
  | cancel reason | world w =>
      cases hs
      exact h

theorem Housed.launch (core : Core) : Housed c (.launch core []) := ⟨[], .refl _, balanced_start⟩

/-- **Where nobody has a seat the bulkhead admits one.** -/
theorem Housed.admits (hpos : c.limits.Positive) (h : Housed c s)
    (hnone : ∀ w ∈ s.workers, w.slot = none) (slot : BulkheadSlot) :
    (s.limiter.tryAcquire c.limits slot).isSome = true := by
  obtain ⟨held, hperm, hbal⟩ := h
  rw [List.filterMap_eq_nil_iff.mpr hnone] at hperm
  obtain rfl := hperm.eq_nil
  have hrun : s.limiter.running = [] := List.eq_nil_iff_forall_not_mem.mpr fun id hid => by
    obtain ⟨slot, hslot, -⟩ := hbal.running id hid
    cases hslot
  have hfree : ∀ {counter : String → Nat} {dim limit}, 1 ≤ limit → Counts dim limit counter [] →
      ∀ name, full counter limit name = false := by
    intro counter dim limit hlim hcount name
    unfold full
    split
    · rename_i k hk
      rw [(hcount k).1]
      exact decide_eq_false (Nat.not_le.mpr hlim)
    · rfl
  unfold ConcurrencyLimiter.tryAcquire
  rw [if_neg]
  · rfl
  · rw [hrun, hfree hpos.perAgent hbal.byAgent, hfree hpos.perTenant hbal.byTenant,
      hfree hpos.perTool hbal.byTool]
    have hjobs := hpos.jobs
    simp only [List.length_nil, Bool.false_eq_true, or_false]
    omega

end Seats

/-! ## 4. Some code can go on -/

section Enabled

variable {c : Context} {s s' : State} {x : Core}

/-- An execution that has not rejected goes on when the handler answers. -/
theorem flightStep_enabled (h : Handler) {key : String} {f : Flight}
    (hf : x.store.inFlight key = some f) (hgo : Going f.pc) :
    ∃ a y, Replies h f a ∧ flightStep c x key a = some y := by
  have hnext : ∀ a, (∀ r, f.pc ≠ .verified r) → (∃ p, flightNext c x f f.pc a = some p) →
      ∃ y, flightStep c x key a = some y := by
    rintro a hv ⟨p, hp⟩
    unfold flightStep
    rw [hf]
    dsimp only
    split
    · rename_i r hr
      exact absurd hr (hv r)
    · rw [hp]
      exact ⟨_, rfl⟩
  have hfail : ∀ thrown error pc, f.pc = .failing thrown error pc →
      ∃ a p, Replies h f a ∧ flightNext c x f f.pc a = some p := by
    intro thrown error pc hpc
    have hstep : ∀ a, (∃ r, failStep c x f.node error pc a = some r) →
        ∃ p, flightNext c x f f.pc a = some p := by
      rintro a ⟨r, hr⟩
      rw [hpc]
      simp only [flightNext, hr]
      cases r <;> exact ⟨_, rfl⟩
    have hany : Replies h f (.run (.rejected "")) := fun _ _ _ hcall => by
      rw [hpc] at hcall
      cases hcall
    cases pc with
    | compensating spec =>
        obtain ⟨p, hp⟩ := hstep .tick ⟨_, rfl⟩
        exact ⟨.tick, p, trivial, hp⟩
    | undoing spec call =>
        obtain ⟨p, hp⟩ := hstep (.run (.rejected "")) (by
          unfold failStep
          dsimp only
          split <;> exact ⟨_, rfl⟩)
        exact ⟨_, p, hany, hp⟩
    | sweeping id spec call rest =>
        obtain ⟨p, hp⟩ := hstep (.run (.rejected "")) ⟨_, rfl⟩
        exact ⟨_, p, hany, hp⟩
    | persisting =>
        obtain ⟨p, hp⟩ := hstep .tick ⟨_, rfl⟩
        exact ⟨.tick, p, trivial, hp⟩
  cases hpc : f.pc with
  | ran | answered req granted | judged r | threw e | retrying =>
      obtain ⟨y, hy⟩ := hnext .tick (by simp [hpc]) (by rw [hpc]; exact ⟨_, rfl⟩)
      exact ⟨.tick, y, trivial, hy⟩
  | waiting req =>
      obtain ⟨y, hy⟩ := hnext (.approval (h.approve req)) (by simp [hpc])
        (by rw [hpc]; exact ⟨_, rfl⟩)
      refine ⟨.approval _, y, fun req' hreq => ?_, hy⟩
      rw [hpc] at hreq
      cases hreq
      rfl
  | calling action input call =>
      obtain ⟨y, hy⟩ := hnext (.run (h.run action input f.node)) (by simp [hpc])
        (by rw [hpc]; exact ⟨_, rfl⟩)
      refine ⟨.run _, y, fun action' input' call' hcall => ?_, hy⟩
      rw [hpc] at hcall
      cases hcall
      rfl
  | verified r =>
      refine ⟨.tick, { x with store := x.store.settle key r }, trivial, ?_⟩
      unfold flightStep
      rw [hf]
      simp only [hpc]
  | failing thrown error pc =>
      obtain ⟨a, p, hreplies, hp⟩ := hfail thrown error pc hpc
      obtain ⟨y, hy⟩ := hnext a (by simp [hpc]) ⟨p, hp⟩
      exact ⟨a, y, hreplies, hy⟩
  | rejected e => exact absurd hpc (hgo e)

/-- A worker whose promise has settled goes on, or the execution it waits for does. -/
theorem holding_enabled (h : Handler) (hS : State.Sound c s) {i : Nat} {job : WorkflowJob} {n : WorkflowNode}
    {d : Bool} {stored : Option NodeResult}
    (hw : s.workers[i]? = some (.holding job n d stored)) :
    ∃ l s', works c s l = true ∧ Obeys h s l ∧ step c s l = some s' := by
  have hworks : ∀ a, works c s (.worker i a) = true := fun a => by simp only [works, hw]
  obtain ⟨-, -, hknown⟩ := hS.workers _ (List.mem_of_getElem? hw)
  cases hst : stored with
  | some r =>
      refine ⟨.worker i .tick, resolveJob c s i job n d r, hworks _, trivial, ?_⟩
      simp only [step, workerStep, hw, hst]
  | none =>
      have hsettled : ∀ v, settledAs s.core job.idempotencyKey = some v →
          ∃ l s', works c s l = true ∧ Obeys h s l ∧ step c s l = some s' := by
        intro v hv
        cases v with
        | ok r =>
            refine ⟨.worker i .tick, resolveJob c s i job n d r, hworks _, trivial, ?_⟩
            simp only [step, workerStep, hw, hst, hv]
        | error e =>
            refine ⟨.worker i .tick, catchJob c s i job n e, hworks _, trivial, ?_⟩
            simp only [step, workerStep, hw, hst, hv]
      rcases hknown with ⟨r, hr⟩ | ⟨f, hf⟩
      · exact hsettled (.ok r) (by simp only [settledAs, hr])
      · by_cases hgo : Going f.pc
        · obtain ⟨a, y, hreplies, hy⟩ := flightStep_enabled (c := c) h hf hgo
          refine ⟨.flight job.idempotencyKey a, { s with core := y }, rfl, fun g hg => ?_,
            by simp only [step, hy, Option.map_some]⟩
          rw [hf] at hg
          cases hg
          exact hreplies
        · obtain ⟨e, he⟩ : ∃ e, f.pc = .rejected e := by
            by_contra hno
            exact hgo fun e he => hno ⟨e, he⟩
          obtain ⟨m, j, pc⟩ := f
          cases he
          exact hsettled (.error e) (by simp only [settledAs, hS.core.excl _ _ hf, hf])

theorem idle_enabled {i : Nat} (hw : s.workers[i]? = some .idle) :
    ∃ s', step c s (.worker i .tick) = some s' := by
  simp only [step, workerStep, hw]
  split_ifs
  · exact ⟨_, rfl⟩
  · split
    · exact ⟨_, rfl⟩
    · split <;> exact ⟨_, rfl⟩

/-- **Until the run is resolved some code can go on**, and it does not sleep. -/
theorem step_enabled (h : Handler) (hS : State.Sound c s) (ht : State.Tidy c s) (hu : Standing s)
    (hh : Housed c s) (hpos : c.limits.Positive) (hd : s.drive ≠ .resolved) :
    ∃ l s', works c s l = true ∧ Obeys h s l ∧ step c s l = some s' := by
  have hdrive : ∀ s', driveStep c s = some s' →
      ∃ l s', works c s l = true ∧ Obeys h s l ∧ step c s l = some s' :=
    fun s' hs => ⟨.drive, s', rfl, trivial, hs⟩
  cases hdr : s.drive with
  | resolved => exact absurd hdr hd
  | aborted e => exact absurd hdr (hu.driving e)
  | starting | enqueued | finalizing => exact hdrive _ (by simp only [driveStep, hdr]; rfl)
  | enqueuing job rest =>
      cases rest with
      | nil => exact hdrive _ (by simp only [driveStep, hdr]; rfl)
      | cons next rest => exact hdrive _ (by simp only [driveStep, hdr]; rfl)
  | dispatching =>
      by_cases hall : ∀ w ∈ s.workers, w = .finished
      · have hdeath : firstDeath s.workers = none := by
          by_contra hne
          obtain ⟨e, he⟩ := Option.ne_none_iff_exists'.mp hne
          exact hu.alive e (firstDeath_mem he)
        have hfin : s.workers.all isFinished = true :=
          List.all_eq_true.mpr fun w hw => by rw [hall w hw]; rfl
        exact hdrive _ (by simp only [driveStep, hdr, hdeath, hfin, if_true]; rfl)
      · push Not at hall
        obtain ⟨w, hw, hne⟩ := hall
        by_cases hhold : ∃ job n d stored, .holding job n d stored ∈ s.workers
        · obtain ⟨job, n, d, stored, hmem⟩ := hhold
          obtain ⟨i, hi⟩ := List.mem_iff_getElem?.mp hmem
          exact holding_enabled h hS hi
        · -- nobody has a seat
          have hnone : ∀ w ∈ s.workers, w.slot = none := by
            intro w hw
            cases w with
            | holding job n d stored => exact absurd ⟨_, _, _, _, hw⟩ hhold
            | failing job n e pc => exact absurd hw (ht.calm _ _ _ _)
            | _ => rfl
          obtain ⟨i, hi⟩ := List.mem_iff_getElem?.mp hw
          cases w with
          | idle =>
              obtain ⟨s', hs⟩ := idle_enabled (c := c) hi
              exact ⟨.worker i .tick, s', by simp only [works, hi], trivial, hs⟩
          | seat job n =>
              refine ⟨.worker i .tick, acquireSeat c s i job n, ?_, trivial,
                by simp only [step, workerStep, hi]⟩
              simp only [works, hi]
              exact hh.admits hpos hnone _
          | holding job n d stored => exact absurd ⟨_, _, _, _, hw⟩ hhold
          | failing job n e pc => exact absurd hw (ht.calm _ _ _ _)
          | finished => exact absurd rfl hne
          | died e => exact absurd hw (hu.alive e)

end Enabled

/-! ## 5. The whole run -/

/-- What a run has to do at most, if no job is delivered twice. -/
def runWork (c : Context) : Nat :=
  bodyWork c * (c.graph.length + 1) + 2 + (c.graph.map (fullWork c)).sum

/-- Only nodes of the graph complete. -/
def Enlisted (c : Context) (x : Core) : Prop := x.completionOrder ⊆ c.graph.map (·.id)

/-- What a run keeps that can always go on. -/
structure Advancing (c : Context) (s : State) : Prop where
  sound : State.Sound c s
  tidy : State.Tidy c s
  unlost : Unlost c s
  standing : Standing s
  answered : Answered s.core
  listed : Listed s.core
  enlisted : Enlisted c s.core
  fed : s.cancelled = none → Fed s
  housed : Housed c s

section Whole

variable {c : Context} {s s' : State} {l : Label} {ls : List Label} {w : World}

theorem Enlisted.congr {x y : Core} (h : Enlisted c x)
    (ho : y.completionOrder = x.completionOrder) : Enlisted c y := by
  unfold Enlisted
  rw [ho]
  exact h

theorem Act.enlisted {y : Core} (h : Act c s l y) (hsub : Enlisted c s.core) : Enlisted c y := by
  cases h with
  | idle | settles | late | world | endRefused => exact hsub
  | flight hf hrow => exact hsub.congr hrow.own.completionOrder
  | begins => exact hsub.congr beginAttempt_own.completionOrder
  | @completes i n r hn hr hs =>
      refine List.append_subset.mpr ⟨hsub, fun id hid => ?_⟩
      rw [List.mem_singleton.mp hid]
      exact List.mem_map_of_mem hn
  | givesUp hw hn hend ht hcore hcaught hrow =>
      rcases hcore with rfl | rfl <;> exact hsub.congr hrow.own.completionOrder
  | ending hw hn hend hrow => exact hsub.congr hrow.own.completionOrder

theorem Advancing.brief (h : Advancing c s) : Brief c s.core := by
  have hle := (List.subperm_of_subset h.listed.1 h.enlisted).length_le
  rwa [List.length_map] at hle

theorem Advancing.step (hnd : (c.graph.map (·.id)).Nodup) (hk : DistinctKeys c)
    (h : Advancing c s) (hno : ¬ CatchesWaiting s l) (hs : step c s l = some s') : Advancing c s' := by
  obtain ⟨hst, ha⟩ := h.standing.step hnd hk h.sound h.tidy h.answered hno hs
  refine ⟨h.sound.step hnd hs, h.tidy.step hnd hk h.sound hs,
    h.unlost.step hnd hk h.sound h.tidy hs, hst, ha, step_listed hnd h.sound h.listed hs,
    ?_, fun hc' => ?_, h.housed.step h.sound hs⟩
  · exact (step_core h.sound hnd hs).keeps (I := Enlisted c) hnd h.sound.core
      (fun z hact => hact.enlisted h.enlisted)
      (fun z z' T q _ _ hz ht => hz.congr ht.sameRest.completionOrder) fun z _ _ _ hz => hz
  · have hc : s.cancelled = none := by
      by_contra hc
      exact stays_cancelled hs hc hc'
    have hok : NotCancelled s l := by
      cases l with
      | cancel reason =>
          cases hs
          cases hc'
      | _ => trivial
    exact (h.fed hc).step hnd h.sound hc hok hs

/-- A process that begins on its own, with nothing in flight, advances. -/
theorem Advancing.launch {core : Core} (hnd : (c.graph.map (·.id)).Nodup) (hk : DistinctKeys c)
    (hb : Begins c (.launch core [])) (hclosed : Closed c core) (hlisted : Listed core)
    (henlisted : Enlisted c core) : Advancing c (.launch core []) where
  sound := hb.sound hnd
  tidy := Alone.tidy hnd hk ⟨hb, rfl⟩
  unlost := by
    refine ⟨hclosed, fun hd => absurd rfl hd, fun n hn f e hf => ?_⟩
    rw [hb.still hnd] at hf
    cases hf
  standing := ⟨fun _ hw => absurd hw List.not_mem_nil, fun _ hd => by cases hd⟩
  answered key f e hf := by
    rw [hb.still hnd] at hf
    cases hf
  listed := hlisted
  enlisted := henlisted
  fed _ := .launch core
  housed := .launch core

theorem Advancing.initial (hnd : (c.graph.map (·.id)).Nodup) (hk : DistinctKeys c) (w : World) :
    Advancing c (.initial c w) :=
  .launch hnd hk (alone_initial w).1 (Unlost.initial w).closed
    ⟨List.nodup_nil, fun _ => iff_of_false List.not_mem_nil fun hs => by cases hs⟩
    (List.nil_subset _)

/-- A process begins with what there is to do for the whole graph, or less. -/
theorem potential_launch {core : Core} (hstill : ∀ key, core.store.inFlight key = none) :
    potential c (.launch core []) ≤ runWork c := by
  have hbodies : bodiesLeft c (.launch core []) ≤ c.graph.length + 1 := by
    unfold bodiesLeft
    split_ifs
    · exact Nat.sub_le _ _
    · exact Nat.zero_le _
  have hgraph : graphWork c core ≤ (c.graph.map (fullWork c)).sum := by
    refine List.sum_le_sum fun n _ => ?_
    unfold nodeWork
    rw [hstill]
    split
    · exact Nat.zero_le _
    · rename_i hno
      cases hno
    · exact Nat.le_refl _
  have hmul := Nat.mul_le_mul_left (bodyWork c) hbodies
  unfold potential runWork
  show _ + 2 + 4 * 0 + 0 + graphWork c core ≤ _
  omega

theorem potential_initial (w : World) : potential c (.initial c w) ≤ runWork c :=
  potential_launch fun _ => rfl

/-- **A run in which no approval request is rejected comes to its end.** -/
theorem run_advances (hnd : (c.graph.map (·.id)).Nodup) (hk : DistinctKeys c)
    (h : Run (step c) (fun s l => ¬ CatchesWaiting s l) (.initial c w) ls s) :
    Advancing c s ∧ occurrences (step c) (works c) (.initial c w) ls ≤
      runWork c + 4 * occurrences (step c) redelivers (.initial c w) ls := by
  obtain ⟨hI, hle⟩ : Advancing c s ∧
      potential c s + occurrences (step c) (works c) (.initial c w) ls ≤
        potential c (.initial c w) + 4 * occurrences (step c) redelivers (.initial c w) ls :=
    h.occurrences_spent (.initial hnd hk w) fun s l s' hI hno hs =>
      ⟨hI.step hnd hk hno hs, step_spends hnd hk hI.sound hI.tidy hI.fed hI.answered hI.brief hs⟩
  have hstart := potential_initial (c := c) w
  exact ⟨hI, by omega⟩

/-- **A run no step of which misfires is unbroken throughout, can go on and comes to its end**,
    where the bulkhead admits anybody. -/
theorem run_contained (hv : validateGraph c.graph = .ok ()) (hk : NoCollision c)
    (hpos : c.limits.Positive)
    (h : Run (step c) (fun s l => ¬ Misfires c s l) (.initial c w) ls s) :
    Throughout (step c) (.initial c w) ls Unbroken ∧
      (s.drive ≠ .resolved → ∃ l s', works c s l = true ∧ step c s l = some s') ∧
      occurrences (step c) (works c) (.initial c w) ls ≤
        runWork c + 4 * occurrences (step c) redelivers (.initial c w) ls := by
  have hnd := validateGraph_nodup hv
  have hdk := hk.distinctKeys hnd
  obtain ⟨hI, hends⟩ := run_advances hnd hdk (h.mono fun s l hno hc => hno hc.misfires)
  refine ⟨(unbroken_iff hnd hdk (h.mono fun _ _ _ => trivial)).mpr h, fun hd => ?_, hends⟩
  obtain ⟨l, s', hworks, -, hs⟩ := step_enabled ⟨fun _ _ _ => .rejected "", fun _ => true, fun _ => false⟩
    hI.sound hI.tidy hI.standing hI.housed hpos hd
  exact ⟨l, s', hworks, hs⟩

end Whole

end AgentKernel.Orchestrator
