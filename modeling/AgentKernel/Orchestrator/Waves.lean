/-
  File:      AgentKernel/Orchestrator/Waves.lean
  Subject:   How often the body of the drive loop runs, and what a resolved run leaves behind.

  A body that does not end the loop hands the jobs of the READY nodes to the queue. A job that was
  handed over reaches a worker, which finishes only when the queue is empty; when all workers have
  finished, the store knows every node whose job was handed over, and such a node is READY no
  more. So every body but the last hands over a node for the first time, and an uncancelled run
  takes at most one body more than it has nodes (**`drive_terminates`**).
-/
import AgentKernel.Orchestrator.Cancel
import AgentKernel.Orchestrator.Finish

namespace AgentKernel.Orchestrator

open Lib

/-! ## 1. The count -/

/-- The step runs the body of the drive loop. -/
def runsBody (s : State) : Label → Bool
  | .drive =>
      match s.drive with
      | .starting => true
      | .dispatching => s.workers.all isFinished
      | _ => false
  | _ => false

/-- How often the body of the drive loop runs along `ls`. -/
def loopBodies (c : Context) (s₀ : State) (ls : List Label) : Nat :=
  occurrences (step c) runsBody s₀ ls

/-- The run is not cancelled. -/
def NotCancelled (_ : State) : Label → Prop
  | .cancel _ => False
  | _ => True

/-- The keys of the jobs the drive loop has handed over, or is about to. -/
def handedKeys (s : State) : List String :=
  (s.enqueued ++ s.drive.jobs).map (·.idempotencyKey)

/-- Whether the job of the node is among them. -/
def isHanded (c : Context) (s : State) (n : WorkflowNode) : Bool := (handedKeys s).contains (keyOf c n)

/-- The loop is over. -/
def Drive.ended : Drive → Nat
  | .finalizing | .resolved => 1
  | _ => 0

/-- What every body raises: the nodes handed over, and the end of the loop. -/
def progress (c : Context) (s : State) : Nat := c.graph.countP (isHanded c s) + s.drive.ended

/-! ## 2. No job is lost -/

/-- The operation has a job in the queue. -/
def Queued (s : State) (key : String) : Prop := ∃ j ∈ s.queue, j.idempotencyKey = key

/-- A worker has a job of it. -/
def AtSeat (s : State) (key : String) : Prop := ∃ j n, .seat j n ∈ s.workers ∧ j.idempotencyKey = key

/-- Every operation that has been handed out and is not known yet is in the queue or with a worker. -/
structure Fed (s : State) : Prop where
  placed : ∀ job ∈ s.enqueued, ¬ Known s.core job.idempotencyKey →
    Queued s job.idempotencyKey ∨ AtSeat s job.idempotencyKey
  drained : s.drive = .dispatching → .finished ∈ s.workers → ∀ job ∈ s.enqueued,
    ¬ Known s.core job.idempotencyKey → AtSeat s job.idempotencyKey
  crew : s.drive = .dispatching → s.workers ≠ []
  lead : ∀ job rest, s.drive = .enqueuing job rest → job ∈ s.enqueued
  first : s.drive = .starting → s.enqueued = []

section Fed

variable {c : Context} {s s' : State} {l : Label} {i : Nat} {a : Answer} {key : String}

/-- A worker that is replaced at no seat of `key` leaves the seats of `key` alone. -/
theorem AtSeat.set {old new : Worker} (h : AtSeat s key) (hi : s.workers[i]? = some old)
    (hne : ∀ job n, old = .seat job n → job.idempotencyKey ≠ key) (hws : s'.workers = s.workers.set i new) :
    AtSeat s' key := by
  obtain ⟨j, n, hm, rfl⟩ := h
  refine ⟨j, n, ?_, rfl⟩
  rw [hws]
  exact mem_set_of_ne hi hm fun he => hne j n he.symm rfl

/-- **What a worker does to the places of a key the store does not know.** -/
theorem WorkerMove.places (hS : State.Sound c s) (hnd : (c.graph.map (·.id)).Nodup)
    (h : WorkerMove c s i a s') (hg : Grows s.core s'.core) (hk : ¬ Known s'.core key) :
    (Queued s key → Queued s' key ∨ AtSeat s' key) ∧ (AtSeat s key → AtSeat s' key) := by
  have hk₀ : ¬ Known s.core key := fun h => hk (hg.known key h)
  -- the job in hand comes from the head of the queue, or from the worker's own seat
  have hhand : ∀ {job n s₀} new, InHand c s i job n s₀ → s'.queue = s₀.queue →
      s'.workers = s.workers.set i new → (job.idempotencyKey = key → new = .seat job n) →
      (Queued s key → Queued s' key ∨ AtSeat s' key) ∧ (AtSeat s key → AtSeat s' key) := by
    intro job n s₀ new hh hq hws hnew
    cases hh with
    | @dequeued rest hw hc hqueue hn =>
        refine ⟨?_, fun hseat => hseat.set hw (by simp) hws⟩
        rintro ⟨j, hj, rfl⟩
        rw [hqueue] at hj
        rcases List.mem_cons.mp hj with rfl | hj
        · refine .inr ⟨j, n, ?_, rfl⟩
          rw [hws, hnew rfl]
          exact mem_set_self hw
        · exact .inl ⟨j, by rw [hq]; exact hj, rfl⟩
    | seated hw =>
        refine ⟨fun ⟨j, hj, he⟩ => .inl ⟨j, by rw [hq]; exact hj, he⟩, fun hseat => ?_⟩
        by_cases hjob : job.idempotencyKey = key
        · refine ⟨job, n, ?_, hjob⟩
          rw [hws, hnew hjob]
          exact mem_set_self hw
        · refine hseat.set hw (fun j m he => ?_) hws
          cases he
          exact hjob
  have hsame : ∀ {old new : Worker}, s.workers[i]? = some old → (∀ job n, old ≠ .seat job n) →
      s'.queue = s.queue → s'.workers = s.workers.set i new →
      (Queued s key → Queued s' key ∨ AtSeat s' key) ∧ (AtSeat s key → AtSeat s' key) := by
    intro old new hw hold hq hws
    exact ⟨fun ⟨j, hj, he⟩ => .inl ⟨j, by rw [hq]; exact hj, he⟩,
      fun hseat => hseat.set hw (fun j n he => absurd he (hold j n)) hws⟩
  cases h with
  | stops hw | passes hw | completes hw | leaves hw | givesUp hw | dies hw | ending hw | ended hw
  | endRefused hw => exact hsame hw (by simp) rfl rfl
  | drops hw hq hn =>
      -- every job in the queue is one of the run's nodes
      obtain ⟨m, hm, hid, -⟩ := hS.orderly.jobs _ (.inl (by rw [hq]; exact List.mem_cons_self))
      rw [hid, nodeById_of_mem hnd hm] at hn
      cases hn
  | @waits job n s₀ hh hfull =>
      refine hhand (.seat job n) hh rfl ?_ fun _ => rfl
      cases hh <;> rfl
  | @joins job n s₀ stored limiter hh hacq hst =>
      refine hhand (.holding job n (s.core.store.has job.idempotencyKey) stored) hh rfl ?_
        fun he => absurd ?_ hk₀
      · cases hh <;> rfl
      · rw [← he]
        rcases hst with ⟨r, hr, -⟩ | ⟨-, hf, -⟩
        · exact .inl ⟨r, hr⟩
        · exact .inr hf
  | @begins job n s₀ limiter hh hacq hc hf =>
      refine hhand (.holding job n (s.core.store.has job.idempotencyKey) none) hh rfl ?_
        fun he => absurd ?_ hk
      · cases hh <;> rfl
      · rw [← he]
        exact known_setFlight ..

theorem WorkerMove.finishes (h : WorkerMove c s i a s') (hm : .finished ∈ s'.workers) :
    .finished ∈ s.workers ∨ s.cancelled ≠ none ∨ s.queue = [] := by
  have hset : ∀ {ws : List Worker} {new : Worker}, ws = s.workers → new ≠ .finished →
      .finished ∈ ws.set i new → .finished ∈ s.workers := by
    intro ws new hws hne hmem
    rcases List.mem_or_eq_of_mem_set hmem with hmem | he
    · exact hws ▸ hmem
    · exact absurd he.symm hne
  have hinhand : ∀ {job n s₀}, InHand c s i job n s₀ → s₀.workers = s.workers := by
    intro job n s₀ hh
    cases hh <;> rfl
  cases h with
  | stops hw hstop => exact .inr hstop
  | drops | passes | completes | leaves | givesUp | dies | ending | ended | endRefused =>
      exact .inl (hset rfl (by simp) hm)
  | waits hh | joins hh | begins hh => exact .inl (hset (hinhand hh) (by simp) hm)

theorem Fed.worker (hS : State.Sound c s) (hnd : (c.graph.map (·.id)).Nodup)
    (hc : s.cancelled = none) (h : Fed s) (hm : WorkerMove c s i a s')
    (hg : Grows s.core s'.core) : Fed s' := by
  obtain ⟨old, new, hw, hne, hws, -, he, hd, -⟩ := hm.frame
  have hlen : s'.workers.length = s.workers.length := by rw [hws, List.length_set]
  refine ⟨fun job hj hk => ?_, fun hdisp hfin job hj hk => ?_, fun hdisp hnil => ?_,
    fun job rest hdrive => ?_, fun hdrive => ?_⟩
  · obtain ⟨hqueued, hseat⟩ := hm.places hS hnd hg hk
    rw [he] at hj
    rcases h.placed job hj (fun h' => hk (hg.known _ h')) with hq | hs
    · exact hqueued hq
    · exact .inr (hseat hs)
  · obtain ⟨-, hseat⟩ := hm.places hS hnd hg hk
    have hk₀ : ¬ Known s.core job.idempotencyKey := fun h' => hk (hg.known _ h')
    rw [he] at hj
    rw [hd] at hdisp
    refine hseat ?_
    by_cases hold : .finished ∈ s.workers
    · exact h.drained hdisp hold job hj hk₀
    · -- it is this worker that finishes, and it has found the queue empty
      rcases hm.finishes hfin with hmem | hcan | hq
      · exact absurd hmem hold
      · exact absurd hc hcan
      · rcases h.placed job hj hk₀ with ⟨j, hmem, -⟩ | hs
        · rw [hq] at hmem
          cases hmem
        · exact hs
  · rw [hd] at hdisp
    rw [hnil] at hlen
    exact h.crew hdisp (List.eq_nil_of_length_eq_zero hlen.symm)
  · rw [hd] at hdrive
    rw [he]
    exact h.lead job rest hdrive
  · rw [hd] at hdrive
    rw [he]
    exact h.first hdrive

theorem Fed.drive (hS : State.Sound c s) (hc : s.cancelled = none) (h : Fed s) (hm : DriveMove c s s') : Fed s' := by
  -- what the store does not know now it did not know before, and its job is where it was
  have hsub : ∀ {x : State}, x.queue = s.queue → x.enqueued = s.enqueued → x.workers = s.workers →
      Grows s.core x.core → ∀ job ∈ x.enqueued, ¬ Known x.core job.idempotencyKey →
      Queued x job.idempotencyKey ∨ AtSeat x job.idempotencyKey := by
    intro x hq he hws hg job hj hk
    rw [he] at hj
    have hold := h.placed job hj fun h' => hk (hg.known _ h')
    unfold Queued AtSeat at hold ⊢
    rw [hq, hws]
    exact hold
  -- a job that is added to the queue is in the queue
  have hadd : ∀ (x : State) {y : State} (job₀ : WorkflowJob), (∀ job ∈ x.enqueued,
      ¬ Known x.core job.idempotencyKey → Queued x job.idempotencyKey ∨ AtSeat x job.idempotencyKey) →
      y.queue = x.queue ++ [job₀] → y.enqueued = x.enqueued ++ [job₀] → y.workers = x.workers →
      y.core.store = x.core.store → ∀ job ∈ y.enqueued, ¬ Known y.core job.idempotencyKey →
      Queued y job.idempotencyKey ∨ AtSeat y job.idempotencyKey := by
    intro x y job₀ hx hq he hws hstore job hj hk
    rw [he] at hj
    rcases List.mem_append.mp hj with hj | hj
    · rcases hx job hj (by unfold Known at hk ⊢; rw [← hstore]; exact hk) with ⟨j, hmem, hjk⟩ | hs
      · exact .inl ⟨j, by rw [hq]; exact List.mem_append_left _ hmem, hjk⟩
      · refine .inr ?_
        unfold AtSeat at hs ⊢
        rw [hws]
        exact hs
    · refine .inl ⟨job, ?_, rfl⟩
      rw [hq]
      exact List.mem_append_right _ hj
  have hloop : ∀ {x : State}, (∀ job ∈ x.enqueued, ¬ Known x.core job.idempotencyKey →
      Queued x job.idempotencyKey ∨ AtSeat x job.idempotencyKey) → x.cancelled = none →
      Loop c x s' → Fed s' := by
    intro x hx hxc hl
    cases hl with
    | cancels hcan =>
        rw [hxc] at hcan
        cases hcan
    | finishes => exact ⟨hx, by simp, by simp, by simp, by simp⟩
    | @enqueues n rest =>
        refine ⟨hadd x (toJob c x.core n) hx rfl rfl rfl rfl, by simp, by simp,
          fun job rest he => ?_, by simp⟩
        cases he
        exact List.mem_append_right _ List.mem_cons_self
  cases hm with
  | starts hd hl =>
      exact hloop (hsub (x := { s with core := promoteReady c s.core }) rfl rfl rfl
        (.of_eq promoteReady_store)) hc hl
  | loops hd hall hl => exact hloop h.placed hc hl
  | aborts | resolves => exact ⟨h.placed, by simp, by simp, by simp, by simp⟩
  | emits => exact ⟨h.placed, by simp, by simp, by simp, by simp⟩
  | @enqueues job next rest hd =>
      refine ⟨hadd s next h.placed rfl rfl rfl rfl, by simp, by simp,
        fun job rest he => ?_, by simp⟩
      cases he
      exact List.mem_append_right _ List.mem_cons_self
  | dispatches hd =>
      refine ⟨fun job hj hk => ?_, fun _ hfin => ?_, fun _ hnil => ?_, by simp, by simp⟩
      · -- nobody sat behind the last dispatch
        rcases h.placed job hj hk with hq | ⟨j, n, hmem, -⟩
        · exact .inl hq
        · cases hS.orderly.rest hd (by simp) (by simp) _ hmem
      · cases (List.mem_replicate.mp hfin).2
      · have hlen := congrArg List.length hnil
        rw [List.length_replicate, List.length_nil] at hlen
        omega

/-- **An uncancelled run loses no job.** -/
theorem Fed.step (hnd : (c.graph.map (·.id)).Nodup) (hS : State.Sound c s)
    (hc : s.cancelled = none) (h : Fed s) (hok : NotCancelled s l) (hs : step c s l = some s') :
    Fed s' := by
  have hg := (step_core hS hnd hs).grows hnd hS.core
  have hstay : s'.queue = s.queue → s'.enqueued = s.enqueued → s'.workers = s.workers →
      s'.drive = s.drive → Fed s' := by
    intro hq he hws hd
    have hk : ∀ {key}, ¬ Known s'.core key → ¬ Known s.core key := fun hno h' => hno (hg.known _ h')
    refine ⟨fun job hj hno => ?_, fun hdisp hfin job hj hno => ?_, ?_, ?_, ?_⟩
    · have hold := h.placed job (he ▸ hj) (hk hno)
      unfold Queued AtSeat at hold ⊢
      rw [hq, hws]
      exact hold
    · have hold := h.drained (hd ▸ hdisp) (hws ▸ hfin) job (he ▸ hj) (hk hno)
      unfold AtSeat at hold ⊢
      rw [hws]
      exact hold
    · rw [hd, hws]
      exact h.crew
    · rw [hd, he]
      exact h.lead
    · rw [hd, he]
      exact h.first
  cases l with
  | drive => exact h.drive hS hc (driveStep_move hs)
  | worker i a => exact h.worker hS hnd hc (workerStep_move hs) hg
  | flight key a =>
      obtain ⟨y, -, rfl⟩ := Option.map_eq_some_iff.mp hs
      exact hstay rfl rfl rfl rfl
  | late call o =>
      obtain ⟨y, -, rfl⟩ := Option.map_eq_some_iff.mp hs
      exact hstay rfl rfl rfl rfl
  | redeliver j at_ =>
      obtain ⟨job, -, rfl⟩ := Option.map_eq_some_iff.mp hs
      refine ⟨fun job' hj hno => ?_, h.drained, h.crew, h.lead, h.first⟩
      rcases h.placed job' hj hno with ⟨j', hmem, he⟩ | hseat
      · exact .inl ⟨j', (List.mem_insertIdx (Nat.min_le_right _ _)).mpr (.inr hmem), he⟩
      · exact .inr hseat
  | cancel reason => exact hok.elim
  | world w =>
      cases hs
      exact hstay rfl rfl rfl rfl

end Fed

/-! ## 3. Every body hands over a new node -/

section Bodies

variable {c : Context} {s s' : State} {l : Label} {n : WorkflowNode}

theorem runsBody_drive : runsBody s .drive = true ↔ AtHead s := by
  have hfin : ∀ w, isFinished w = true ↔ w = .finished := fun w => by cases w <;> simp [isFinished]
  unfold runsBody AtHead
  cases s.drive with
  | dispatching => simp [hfin]
  | _ => simp

theorem mem_handedKeys {key : String} : key ∈ handedKeys s ↔
    ∃ job, (job ∈ s.enqueued ∨ job ∈ s.drive.jobs) ∧ job.idempotencyKey = key := by
  simp only [handedKeys, List.mem_map, List.mem_append]

theorem isHanded_iff : isHanded c s n = true ↔ keyOf c n ∈ handedKeys s := by
  simp [isHanded]

/-- At a head the store knows every node that was handed over. -/
theorem Fed.known_at_head (h : Fed s) (hhead : AtHead s) :
    ∀ job ∈ s.enqueued, Known s.core job.idempotencyKey := by
  intro job hj
  rcases hhead with hd | ⟨hd, hall⟩
  · rw [h.first hd] at hj
    cases hj
  · by_contra hk
    obtain ⟨w, ws, hws⟩ := List.exists_cons_of_ne_nil (h.crew hd)
    have hfin : .finished ∈ s.workers := by
      rw [← hall w (by rw [hws]; exact List.mem_cons_self), hws]
      exact List.mem_cons_self
    obtain ⟨j, m, hmem, -⟩ := h.drained hd hfin job hj hk
    cases hall _ hmem

/-- A head that hands jobs over hands over a node it has never handed over before. -/
theorem progress_head {x : State} (hno : ∀ n ∈ c.graph, x.core.status n.id = .ready →
      keyOf c n ∉ handedKeys x) (hc : x.cancelled = none) (hd : x.drive.ended = 0)
    (hjobs : x.drive.jobs = []) (hl : Loop c x s') : progress c x + 1 ≤ progress c s' := by
  unfold progress
  rw [hd]
  cases hl with
  | cancels hcan =>
      rw [hc] at hcan
      cases hcan
  | @finishes e =>
      have hkeys : handedKeys { x with core := x.core.emit e, drive := .finalizing } =
          handedKeys x := by
        unfold handedKeys
        rw [hjobs]
        rfl
      unfold isHanded
      rw [hkeys]
      exact Nat.le_refl _
  | @enqueues m rest _ hr =>
      obtain ⟨hm, hready⟩ := List.mem_filter.mp (show m ∈ c.graph.filter _ from hr ▸ List.mem_cons_self)
      have hready : x.core.status m.id = .ready := of_decide_eq_true hready
      refine Nat.add_le_add_right (Nat.succ_le_of_lt (countP_lt (fun n _ hn => ?_) ⟨m, hm, ?_, ?_⟩)) 0
      · obtain ⟨job, hj, he⟩ := mem_handedKeys.mp (isHanded_iff.mp hn)
        rw [hjobs] at hj
        refine isHanded_iff.mpr (mem_handedKeys.mpr ⟨job, .inl ?_, he⟩)
        exact List.mem_append_left _ (hj.resolve_right List.not_mem_nil)
      · exact isHanded_iff.mpr (mem_handedKeys.mpr ⟨toJob c x.core m,
          .inl (List.mem_append_right _ List.mem_cons_self), rfl⟩)
      · exact Bool.eq_false_iff.mpr fun hh => hno m hm hready (isHanded_iff.mp hh)

theorem AtHead.jobs (h : AtHead s) : s.drive.jobs = [] ∧ s.drive.ended = 0 := by
  rcases h with h | ⟨h, -⟩ <;> (rw [h]; exact ⟨rfl, rfl⟩)

/-- Steps that are no head take nothing back. -/
theorem progress_mono (hkeys : ∀ key ∈ handedKeys s, key ∈ handedKeys s')
    (hd : s.drive.ended ≤ s'.drive.ended) : progress c s ≤ progress c s' := by
  refine Nat.add_le_add (List.countP_mono_left fun n _ hn => ?_) hd
  exact isHanded_iff.mpr (hkeys _ (isHanded_iff.mp hn))

theorem progress_step (hk : DistinctKeys c) (hS : State.Sound c s) (ht : State.Tidy c s)
    (hc : s.cancelled = none) (h : Fed s) (hok : NotCancelled s l) (hs : step c s l = some s') :
    progress c s + (if runsBody s l then 1 else 0) ≤ progress c s' := by
  have hsame : ∀ {x : State}, x.enqueued = s.enqueued → x.drive = s.drive →
      progress c s + 0 ≤ progress c x := by
    intro x he hd
    refine progress_mono (fun key hkey => ?_) (by rw [hd])
    unfold handedKeys at hkey ⊢
    rw [he, hd]
    exact hkey
  cases l with
  | drive =>
      by_cases hhead : AtHead s
      · rw [if_pos (runsBody_drive.mpr hhead)]
        obtain ⟨hjobs, hd⟩ := hhead.jobs
        have hknown := h.known_at_head hhead
        rcases driveStep_head hs with ⟨hd', rfl⟩ | ⟨hd', hall, rfl⟩ | hno
        · -- nothing has been handed over yet
          refine progress_head (x := { s with core := promoteReady c s.core }) (fun n _ _ hm => ?_)
            hc hd hjobs (loopHead_loop _)
          obtain ⟨job, hj, -⟩ := mem_handedKeys.mp hm
          have hempty : s.enqueued = [] := h.first hd'
          rcases hj with hj | hj
          · rw [show State.enqueued _ = _ from hempty] at hj
            cases hj
          · rw [show Drive.jobs _ = _ from hjobs] at hj
            cases hj
        · refine progress_head (fun n hn hready hm => ?_) hc hd hjobs (loopHead_loop s)
          obtain ⟨job, hj, he⟩ := mem_handedKeys.mp hm
          rw [hjobs] at hj
          have hkn := hknown job (hj.resolve_right List.not_mem_nil)
          rw [he] at hkn
          exact ht.core.unknown hk hS.core hn hready hkn
        · exact absurd hhead hno
      · rw [if_neg fun hb => hhead (runsBody_drive.mp hb)]
        cases driveStep_move hs with
        | starts hd => exact absurd (.inl hd) hhead
        | loops hd hall => exact absurd (.inr ⟨hd, hall⟩) hhead
        | aborts hd | dispatches hd =>
            refine progress_mono (fun key hkey => ?_) (by rw [hd]; exact Nat.le_refl _)
            unfold handedKeys at hkey ⊢
            rw [hd] at hkey
            exact hkey
        | resolves hd =>
            refine progress_mono (fun key hkey => ?_) (by rw [hd]; exact Nat.le_refl _)
            unfold handedKeys at hkey ⊢
            rw [hd] at hkey
            exact hkey
        | emits hd =>
            refine progress_mono (fun key hkey => ?_) (by rw [hd]; exact Nat.le_refl _)
            obtain ⟨job, hj, he⟩ := mem_handedKeys.mp hkey
            refine mem_handedKeys.mpr ⟨job, .inl ?_, he⟩
            rw [hd] at hj
            rcases hj with hj | hj
            · exact hj
            · rw [List.mem_singleton.mp hj]
              exact h.lead _ _ hd
        | enqueues hd =>
            refine progress_mono (fun key hkey => ?_) (by rw [hd]; exact Nat.le_refl _)
            obtain ⟨job, hj, he⟩ := mem_handedKeys.mp hkey
            rw [hd] at hj
            refine mem_handedKeys.mpr ⟨job, ?_, he⟩
            rcases hj with hj | hj
            · exact .inl (List.mem_append_left _ hj)
            · rcases List.mem_cons.mp hj with rfl | hj
              · exact .inl (List.mem_append_left _ (h.lead _ _ hd))
              · exact .inr hj
  | worker i a =>
      obtain ⟨-, -, -, -, -, -, he, hd, -⟩ := (workerStep_move hs).frame
      exact hsame he hd
  | flight key a =>
      obtain ⟨y, -, rfl⟩ := Option.map_eq_some_iff.mp hs
      exact hsame rfl rfl
  | late call o =>
      obtain ⟨y, -, rfl⟩ := Option.map_eq_some_iff.mp hs
      exact hsame rfl rfl
  | redeliver j at_ =>
      obtain ⟨job, -, rfl⟩ := Option.map_eq_some_iff.mp hs
      exact hsame rfl rfl
  | cancel reason => exact hok.elim
  | world w =>
      cases hs
      exact hsame rfl rfl

theorem Fed.launch (core : Core) : Fed (.launch core []) :=
  ⟨fun _ hj => absurd hj List.not_mem_nil, by simp [State.launch], by simp [State.launch],
    by simp [State.launch], fun _ => rfl⟩

theorem Fed.initial (w : World) : Fed (.initial c w) := .launch _

end Bodies

/-! ## 4. The whole run -/

section Whole

variable {c : Context} {s : State} {ls : List Label} {w : World}

theorem notCancelled_step {s' : State} {l : Label} (hc : s.cancelled = none)
    (hok : NotCancelled s l) (hs : step c s l = some s') : s'.cancelled = none := by
  rcases step_cancelled hs with he | ⟨reason, rfl, -⟩
  · rw [he, hc]
  · exact hok.elim

theorem run_heads_uncancelled (h : Run (step c) NotCancelled (.initial c w) ls s) :
    Run (step c) HeadUncancelled (.initial c w) ls s := by
  rcases h.and_or_bad HeadUncancelled with hall | ⟨ls₁, l, ls₂, s₁, s₂, -, hr, -, hbad, -, -⟩
  · exact hall.mono fun _ _ => And.right
  · have hnone : s₁.cancelled = none := by
      refine Run.invariant (I := fun s => s.cancelled = none) rfl ?_ hr
      exact fun s l s' hc hok hs => notCancelled_step hc hok.1 hs
    refine absurd ?_ hbad
    unfold HeadUncancelled
    split
    · exact fun _ => hnone
    · trivial

theorem loopBodies_le (hnd : (c.graph.map (·.id)).Nodup) (hk : DistinctKeys c)
    (h : Run (step c) NotCancelled (.initial c w) ls s) :
    loopBodies c (.initial c w) ls ≤ c.graph.length + 1 := by
  have ha := alone_initial (c := c) w
  obtain ⟨-, hle⟩ := h.occurrences_le (p := runsBody) (μ := progress c)
    (I := fun s => (State.Sound c s ∧ State.Tidy c s) ∧ s.cancelled = none ∧ Fed s)
    ⟨⟨ha.1.sound hnd, ha.tidy hnd hk⟩, rfl, .initial w⟩
    (fun s l s' ⟨⟨hS, ht⟩, hc, hf⟩ hok hs =>
      ⟨⟨⟨hS.step hnd hs, ht.step hnd hk hS hs⟩, notCancelled_step hc hok hs,
        hf.step hnd hS hc hok hs⟩, progress_step hk hS ht hc hf hok hs⟩)
  have hcount : progress c s ≤ c.graph.length + 1 := by
    refine Nat.add_le_add List.countP_le_length ?_
    cases s.drive <;> simp [Drive.ended]
  exact Nat.le_trans (Nat.le_trans (Nat.le_add_left _ _) hle) hcount

/-- An uncancelled run ends COMPLETED exactly when every node is completed or skipped. -/
theorem completed_iff (hv : validateGraph c.graph = .ok ()) (hr : AtRest c s.core)
    (hc : ∀ n ∈ c.graph, s.core.status n.id ≠ .cancelled) : (outcome c s).status = .completed ↔
      ∀ n ∈ c.graph, s.core.status n.id = .completed ∨ s.core.status n.id = .skipped := by
  have hany : ∀ {p : WorkflowNode → Bool}, (∀ n ∈ c.graph, p n = false) → c.graph.any p = false :=
    fun hp => List.any_eq_false.mpr fun n hn => by simp [hp n hn]
  rw [outcome_status]
  constructor
  · intro hst
    split_ifs at hst with hq hf hcan
    refine hr.finished hv fun n hn hb => ?_
    simp only [List.any_eq_true, decide_eq_true_eq, not_exists, not_and, not_or] at hq hf
    rcases hb with hb | hb | hb | hb
    · exact (hf n hn).1 hb
    · exact (hf n hn).2 hb
    · exact hq n hn hb
    · exact hc n hn hb
  · intro hall
    rw [hany fun n hn => ?_, hany fun n hn => ?_, hany fun n hn => ?_]
    · simp
    all_goals rcases hall n hn with h | h <;> rw [h] <;> rfl

/-- **The drive loop of a run that is not cancelled** runs its body at most once more than the
    graph has nodes; at the resolution no node is lost, and the outcome is COMPLETED exactly when
    every node is. -/
theorem drive_waves (hv : validateGraph c.graph = .ok ()) (hk : NoCollision c)
    (h : Run (step c) NotCancelled (.initial c w) ls s) (hd : s.drive = .resolved) :
    loopBodies c (.initial c w) ls ≤ c.graph.length + 1 ∧
    (∀ n ∈ c.graph, (s.core.status n.id).isTerminal = true ∨
      (s.core.status n.id = .planned ∧ ∃ d, DependsOn c.graph n.id d ∧
        (s.core.status d = .failed ∨ s.core.status d = .rolledBack ∨
          s.core.status d = .quarantined))) ∧
    ((outcome c s).status = .completed ↔
      ∀ n ∈ c.graph, s.core.status n.id = .completed ∨ s.core.status n.id = .skipped) := by
  have hnd := validateGraph_nodup hv
  have hdk := hk.distinctKeys hnd
  obtain ⟨-, hcut⟩ := run_uncut hv hdk (run_heads_uncancelled h)
  have hrest := (hcut.after (.inr hd)).2
  refine ⟨loopBodies_le hnd hdk h, fun n hn => ?_, completed_iff hv hrest fun n _ => hcut.alive n.id⟩
  refine (hrest n hn).imp_right fun ⟨hp, d, hdep, hb⟩ => ⟨hp, d, hdep, ?_⟩
  rcases hb with hb | hb | hb | hb
  · exact .inl hb
  · exact .inr (.inl hb)
  · exact .inr (.inr hb)
  · exact absurd hb (hcut.alive d)

end Whole

/-- The condition, to be computed. -/
def notCancelledCheck : Label → Bool
  | .cancel _ => false
  | _ => true

theorem notCancelled_of_check (s : State) (l : Label) (h : notCancelledCheck l = true) :
    NotCancelled s l := by
  cases l with
  | cancel => cases h
  | _ => trivial

/-- Two bodies; the publication stays planned behind the lint that has failed. -/
theorem drive_waves_pipeline : ∃ s, Run (step pipelineContext) NotCancelled
      (.initial pipelineContext quietWorld) pipelineRun s ∧ s.drive = .resolved ∧
    loopBodies pipelineContext (.initial pipelineContext quietWorld) pipelineRun ≤ 6 ∧
    s.core.status "publish" = .planned ∧
    (∃ d, DependsOn pipelineContext.graph "publish" d ∧ (s.core.status d = .failed ∨
      s.core.status d = .rolledBack ∨ s.core.status d = .quarantined)) ∧
    (outcome pipelineContext s).status ≠ .completed := by
  obtain ⟨s, hs, hend⟩ := Option.map_eq_some_iff.mp (show (exec
    (fun s l => if notCancelledCheck l then step pipelineContext s l else none)
    (.initial pipelineContext quietWorld) pipelineRun).map
      (fun s => (s.drive, s.core.status "publish")) = some (.resolved, .planned) by rfl)
  obtain ⟨hd, hst⟩ := Prod.mk.inj hend
  have hrun := run_of_exec_check (c := fun _ l => notCancelledCheck l) notCancelled_of_check hs
  obtain ⟨hle, hlost, hiff⟩ := drive_waves (by rfl) noCollision_pipeline hrun hd
  have hpublish : publishNode ∈ pipelineContext.graph := by simp [pipelineContext]
  have hplanned : s.core.status publishNode.id = .planned := hst
  refine ⟨s, hrun, hd, hle, hst, ?_, fun hc => ?_⟩
  · rcases hlost publishNode hpublish with ht | ⟨-, hdep⟩
    · rw [hplanned] at ht
      cases ht
    · exact hdep
  · rcases hiff.mp hc publishNode hpublish with h | h <;> rw [hplanned] at h <;> cases h

end AgentKernel.Orchestrator
