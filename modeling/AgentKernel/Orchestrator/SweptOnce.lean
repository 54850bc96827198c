/-
  File:      AgentKernel/Orchestrator/SweptOnce.lean
  Subject:   Exactly-once compensation: how often the compensation of a completed node is called.

  A sweep takes the completed nodes as they are when its node is rolled back, and no sweep looks
  at `compensated`. So a node that completes behind the last rollback is never undone, and one
  behind which two nodes are rolled back is undone twice (**`undoCalls_eq`**). The compensations of
  a run are called exactly once if and only if one node is rolled back behind the completion of
  each (**`compensated_once_iff`**).
-/
import AgentKernel.Orchestrator.Undo
import AgentKernel.Orchestrator.Rollback
import AgentKernel.Orchestrator.Rest
import AgentKernel.Orchestrator.Trace

namespace AgentKernel.Orchestrator

open Lib

/-! ## 1. The property and its condition -/

/-- A call of the compensation action `action` for the node `id`. -/
def Obs.undoCall (id : NodeId) (action : String) : Obs → Bool
  | .called _ node purpose action' .. => node = id ∧ purpose ≠ .forward ∧ action' = action
  | _ => false

/-- Once a node has been rolled back, the compensation of every completed node that has one has
    been called exactly once. -/
def CompensatedOnce (c : Context) (s : State) : Prop :=
  (∃ n ∈ c.graph, s.status n.id = .rolledBack) →
    ∀ m ∈ c.graph, ∀ spec, s.status m.id = .completed → c.compensations.actionFor m = some spec →
      s.core.trace.countP (·.undoCall m.id spec.action) = 1

/-- The step rolls a node back: the compensation call of a COMPENSATING node settles. -/
def rollsBack (s : State) (l : Label) : Bool :=
  match settlesUndo s l with
  | some (id, _) => s.status id = .compensating
  | none => false

/-- The step rolls a node back behind the completion of the node `id`. -/
def rollsBackBehind (id : NodeId) (s : State) (l : Label) : Bool :=
  rollsBack s l && s.status id = .completed

/-- Behind the completion of every node that has a compensation exactly one node is rolled back. -/
def OneRollbackBehind (c : Context) (s₀ : State) (ls : List Label) (s : State) : Prop :=
  (∃ n ∈ c.graph, s.status n.id = .rolledBack) →
    ∀ m ∈ c.graph, s.status m.id = .completed → c.compensations.actionFor m ≠ none →
      occurrences (step c) (rollsBackBehind m.id) s₀ ls = 1

/-! ## 2. Where sweeps run -/

/-- What code of `failNode` runs in. -/
inductive Host where
  | flight (key : String)
  | worker (i : Nat)
  deriving DecidableEq

/-- The node a sweep is at, and those it has still to visit. -/
def FailPc.sweep : FailPc → List NodeId
  | .sweeping id _ _ rest => id :: rest
  | _ => []

/-- What is left of the sweep behind the next node. -/
def FailPc.rest (pc : FailPc) : List NodeId := pc.sweep.tail

/-- The `failNode` an execution is inside of. -/
def Flight.failPc (f : Flight) : Option (WorkflowNode × FailPc) :=
  match f.pc with
  | .failing _ _ pc => some (f.node, pc)
  | _ => none

/-- The `failNode` a worker is inside of. -/
def Worker.failPc : Worker → Option (WorkflowNode × FailPc)
  | .failing _ n _ pc => some (n, pc)
  | _ => none

/-- The `failNode` a host is inside of. -/
def State.failPc (s : State) : Host → Option (WorkflowNode × FailPc)
  | .flight key => (s.core.store.inFlight key).bind (·.failPc)
  | .worker i => s.workers[i]?.bind (·.failPc)

/-- What its sweep has before it. -/
def State.sweep (s : State) (p : Host) : List NodeId := (s.failPc p).elim [] (·.2.sweep)

/-- What is left behind the next node. -/
def State.rest (s : State) (p : Host) : List NodeId := (s.sweep p).tail

/-- A call of the compensation of a node that has failed, or that a sweep visits. -/
def Obs.isUndo : Obs → Bool
  | .called _ _ purpose .. => purpose ≠ .forward
  | _ => false

/-- What a step does to the sweeps: nothing, or the code of one `failNode` goes on. -/
inductive SweepStep (c : Context) (s s' : State) (l : Label) : Prop where
  | quiet (hadds : Adds (·.isUndo = false) s.core s'.core)
      (hsweep : ∀ p, s'.failPc p = s.failPc p ∨ (s.sweep p = [] ∧ s'.sweep p = []))
      (hl : settlesUndo s l = none)
  | goes {p : Host} {n : WorkflowNode} {error : String} {pc pc' : FailPc} {a : Answer} {y : Core}
      (hn : n ∈ c.graph) (hrow : FailRow c s.core n error pc a y pc')
      (htrace : s'.core.trace = y.trace)
      (hp : s.failPc p = some (n, pc)) (hp' : s'.failPc p = some (n, pc'))
      (hother : ∀ q, q ≠ p → s'.failPc q = s.failPc q)
      (hl : settlesUndo s l = undoPc s.core n pc a)

section Steps

variable {c : Context} {s s' : State} {x y : Core} {l : Label} {n : WorkflowNode}

theorem HeadRow.calls {error : String} {q : Bool} {pc : Option FailPc}
    (h : HeadRow c x n error q y pc) : Adds (·.isUndo = false) x y :=
  h.adds.mono fun o ho => by cases ho <;> rfl

/-- A stretch of `executeWithRetry` outside `failNode` calls no compensation. -/
theorem Row.quiet {f : Flight} {pc pc' : FlightPc} {a : Answer} (h : Row c x f pc a y pc')
    (hpc : ∀ thrown error p, pc = .failing thrown error p → p = .persisting ∧ a = .tick) :
    Adds (·.isUndo = false) x y ∧
      ∀ thrown error p, pc' = .failing thrown error p → p.sweep = [] := by
  cases h with
  | throws | approved | timesOut | ended => exact ⟨.none rfl, nofun⟩
  | calls => exact ⟨.one rfl rfl, nofun⟩
  | concludes hkind hcond hsrc hpc' =>
      refine ⟨?_, ?_⟩
      · rcases hsrc with ⟨-, -, rfl, -⟩ | ⟨_, _, _, -, -, rfl⟩
        · exact .none (List.append_nil _)
        · exact .one rfl rfl
      · rintro thrown error p rfl
        rcases hpc' with hpc' | ⟨_, hpc'⟩ <;> cases hpc'
  | asks | verifies | retries | retryRefused | resumes => exact ⟨.one rfl rfl, nofun⟩
  | @answers req granted => exact ⟨.two rfl rfl rfl, nofun⟩
  | settles hpc' =>
      refine ⟨.one rfl rfl, ?_⟩
      rintro thrown error p rfl
      rcases hpc' with ⟨_, -, -, hpc', -⟩ | ⟨_, -, -, hpc', -⟩ | ⟨_, -, hpc'⟩ <;> cases hpc'
  | fails _ _ hhead =>
      refine ⟨Adds.trans (y := x.countFailure f.node.id) (.none rfl) hhead.calls, ?_⟩
      intro thrown error p he
      cases he
      rcases headRow_pc hhead with rfl | ⟨spec, rfl⟩ <;> rfl
  | failRefused _ hhead =>
      exact ⟨Adds.trans (y := x.countFailure f.node.id) (.none rfl) hhead.calls, nofun⟩
  | ending hfail =>
      obtain ⟨rfl, rfl⟩ := hpc _ _ _ rfl
      cases hfail

/-- The skipping behind a conclusion. -/
theorem Ends.quiet {f : Flight} {pc pc' : FlightPc} {a : Answer} (h : Ends c x f pc a y pc')
    (hpc : ∀ thrown error p, pc = .failing thrown error p → p = .persisting ∧ a = .tick) :
    Adds (·.isUndo = false) x y ∧
      ∀ thrown error p, pc' = .failing thrown error p → p.sweep = [] := by
  obtain ⟨z, hrow, hend⟩ := h
  obtain ⟨hadds, hsweep⟩ := hrow.quiet hpc
  refine ⟨?_, hsweep⟩
  rcases hend with rfl | ⟨cond, source, -, -, -, hconc⟩
  · exact hadds
  · have htouch : ∀ {u v T}, Spread c T False u v → Adds (·.isUndo = false) u v := fun hsp =>
      hsp.adds.mono fun o ho => by cases ho <;> rfl
    rcases conclude_spread (q := False) hconc with ⟨-, hsp⟩ | ⟨e, -, z₂, m, -, hsp, -, -, -, rfl⟩
    · exact hadds.trans (htouch hsp)
    · exact (hadds.trans (htouch hsp)).trans (.one rfl rfl)

theorem Ends.store {f : Flight} {pc pc' : FlightPc} {a : Answer} (h : Ends c x f pc a y pc') :
    y.store = x.store := by
  obtain ⟨z, hrow, hend⟩ := h
  rcases hend with rfl | ⟨cond, source, -, -, -, hconc⟩
  · exact hrow.own.store
  · rcases conclude_spread (q := False) hconc with ⟨-, hsp⟩ | ⟨e, -, z₂, m, -, hsp, -, -, -, rfl⟩
    · exact hsp.sameRest.store.trans hrow.own.store
    · exact hsp.sameRest.store.trans hrow.own.store

theorem settlesUndo_flight {key : String} {a : Answer} : settlesUndo s (.flight key a) =
    (s.failPc (.flight key)).bind fun p => undoPc s.core p.1 p.2 a := by
  simp only [settlesUndo, State.failPc]
  cases s.core.store.inFlight key with
  | none => rfl
  | some f =>
      obtain ⟨n, job, pc⟩ := f
      cases pc <;> rfl

theorem settlesUndo_worker {i : Nat} {a : Answer} : settlesUndo s (.worker i a) =
    (s.failPc (.worker i)).bind fun p => undoPc s.core p.1 p.2 a := by
  simp only [settlesUndo, State.failPc]
  cases s.workers[i]? with
  | none => rfl
  | some w => cases w <;> rfl

theorem failPc_setFlight {key : String} {g : Flight} (hstore : y.store = s.core.store) (p : Host) :
    State.failPc { s with core := y.setFlight key g } p =
      if p = .flight key then g.failPc else s.failPc p := by
  cases p with
  | worker i => rfl
  | flight k =>
      simp only [State.failPc, Core.setFlight_inFlight, hstore, Host.flight.injEq]
      split_ifs <;> rfl

/-- **A step of an execution.** -/
theorem flight_sweeps {key : String} {a : Answer} (hS : State.Sound c s)
    (hs : step c s (.flight key a) = some s') : SweepStep c s s' (.flight key a) := by
  obtain ⟨y, hy, rfl⟩ := Option.map_eq_some_iff.mp hs
  unfold flightStep at hy
  split at hy
  · cases hy
  · rename_i f hf
    obtain ⟨hn, -, hag⟩ := hS.core.flight key f hf
    have hfail : s.failPc (.flight key) = f.failPc := by simp [State.failPc, hf]
    split at hy
    · rename_i r hpc
      cases hy
      have hnone : s.failPc (.flight key) = none := by rw [hfail, Flight.failPc, hpc]
      refine .quiet (.none rfl) (fun p => ?_) (by rw [settlesUndo_flight, hnone]; rfl)
      cases p with
      | worker i => exact .inl rfl
      | flight k =>
          by_cases hk : k = key
          · subst hk
            refine .inl (Eq.trans ?_ hnone.symm)
            simp [State.failPc, IdempotencyStore.settle]
          · refine .inl ?_
            simp [State.failPc, IdempotencyStore.settle, hk]
    · rename_i a _ _ hno
      obtain ⟨⟨z, pc'⟩, hnext, rfl⟩ := Option.map_eq_some_iff.mp hy
      have hends := flightNext_ends hag hnext
      have hstore := hends.store
      by_cases hquiet : ∀ thrown error p,
          f.pc = .failing thrown error p → p = .persisting ∧ a = .tick
      · obtain ⟨hadds, hsweep⟩ := hends.quiet hquiet
        have hold : s.sweep (.flight key) = [] ∧ settlesUndo s (.flight key a) = none := by
          rw [settlesUndo_flight, State.sweep, hfail, Flight.failPc]
          split
          · rename_i thrown error pc hpc
            obtain ⟨rfl, rfl⟩ := hquiet thrown error pc hpc
            exact ⟨rfl, rfl⟩
          · exact ⟨rfl, rfl⟩
        refine .quiet hadds (fun p => ?_) hold.2
        by_cases hp : p = .flight key
        · subst hp
          refine .inr ⟨hold.1, ?_⟩
          rw [State.sweep, failPc_setFlight hstore, if_pos rfl, Flight.failPc]
          split
          · rename_i thrown error pc hpc
            exact hsweep thrown error pc hpc
          · rfl
        · refine .inl ?_
          rw [failPc_setFlight hstore, if_neg hp]
      · push Not at hquiet
        obtain ⟨thrown, error, pc, hpc, hgo⟩ := hquiet
        have hthis : s.failPc (.flight key) = some (f.node, pc) := by rw [hfail, Flight.failPc, hpc]
        rw [hpc] at hends
        obtain ⟨z₁, hrow, rfl | ⟨cond, source, -, -, hsrc, -⟩⟩ := hends
        · cases hrow with
          | @ending _ _ _ p' _ _ hfailRow =>
              refine .goes hn hfailRow rfl hthis (p := .flight key) ?_ (fun q hq => ?_) ?_
              · rw [failPc_setFlight hstore, if_pos rfl]
                rfl
              · rw [failPc_setFlight hstore, if_neg hq]
              · rw [settlesUndo_flight, hthis]
                rfl
          | throws hp => rcases hp with hp | ⟨_, hp⟩ | ⟨_, _, hp⟩ <;> cases hp
          | calls hp => rcases hp with ⟨hp, -⟩ | ⟨_, hp, -⟩ <;> cases hp
          | concludes _ _ hp => rcases hp with ⟨hp, -⟩ | ⟨_, _, _, hp, -⟩ <;> cases hp
          | ended => exact absurd rfl (hgo rfl)
        · cases hsrc

/-- A step of a worker that is in no sweep before it and in none behind it. -/
theorem SweepStep.worker {i : Nat} {a : Answer} {old new : Worker}
    (hw : s.workers[i]? = some old) (hws : s'.workers = s.workers.set i new)
    (hstore : ∀ key, s'.failPc (.flight key) = s.failPc (.flight key))
    (hadds : Adds (·.isUndo = false) s.core s'.core)
    (hold : old.failPc = none ∨ ∃ n pc, old.failPc = some (n, pc) ∧ pc.sweep = [] ∧
      undoPc s.core n pc a = none)
    (hnew : new.failPc = none ∨ ∃ n pc, new.failPc = some (n, pc) ∧ pc.sweep = []) :
    SweepStep c s s' (.worker i a) := by
  have hlt : i < s.workers.length := (List.getElem?_eq_some_iff.mp hw).1
  have hbefore : s.failPc (.worker i) = old.failPc := by simp [State.failPc, hw]
  have hafter : s'.failPc (.worker i) = new.failPc := by simp [State.failPc, hws, hlt]
  refine .quiet hadds (fun p => ?_) ?_
  · cases p with
    | flight key => exact .inl (hstore key)
    | worker j =>
        by_cases hj : j = i
        · subst hj
          refine .inr ⟨?_, ?_⟩
          · rw [State.sweep, hbefore]
            rcases hold with ho | ⟨n, pc, ho, hsweep, -⟩
            · rw [ho]
              rfl
            · rw [ho]
              exact hsweep
          · rw [State.sweep, hafter]
            rcases hnew with ho | ⟨n, pc, ho, hsweep⟩
            · rw [ho]
              rfl
            · rw [ho]
              exact hsweep
        · refine .inl ?_
          simp only [State.failPc, hws]
          rw [List.getElem?_set_ne (Ne.symm hj)]
  · rw [settlesUndo_worker, hbefore]
    rcases hold with ho | ⟨n, pc, ho, -, hl⟩
    · rw [ho]
      rfl
    · rw [ho]
      exact hl

theorem failPc_flight (h : s'.core.store = s.core.store) (key : String) :
    s'.failPc (.flight key) = s.failPc (.flight key) := by
  simp [State.failPc, h]

theorem Caught.calls {job : WorkflowJob} {stored : Option NodeResult} {error : String}
    (h : Caught x job n stored y error) : Adds (·.isUndo = false) x y ∧ y.store = x.store := by
  cases h with
  | refused => exact ⟨.one rfl rfl, rfl⟩
  | rejected => exact ⟨.none rfl, rfl⟩

theorem Spread.calls {T : List NodeId} {q : Prop} (h : Spread c T q x y) :
    Adds (·.isUndo = false) x y :=
  h.adds.mono fun o ho => by cases ho <;> rfl

theorem headRow_sweep {error : String} {q : Bool} {pc : FailPc}
    (h : HeadRow c x n error q y (some pc)) : pc.sweep = [] := by
  rcases headRow_pc h with rfl | ⟨spec, rfl⟩ <;> rfl

theorem beginAttempt_calls (job : WorkflowJob) :
    Adds (·.isUndo = false) x (beginAttempt x n job).1 ∧
    ∀ thrown error pc, (beginAttempt x n job).2 ≠ .failing thrown error pc := by
  by_cases hs : x.status n.id = .ready ∨ x.status n.id = .retrying
  · rw [beginAttempt_ok hs]
    exact ⟨.one rfl rfl, fun _ _ _ h => by cases h⟩
  · simp only [not_or] at hs
    obtain ⟨_, he⟩ := beginAttempt_refused job hs.1 hs.2
    rw [he]
    exact ⟨.one rfl rfl, fun _ _ _ h => by cases h⟩

/-- **A step of a worker.** -/
theorem worker_sweeps {i : Nat} {a : Answer} (hS : State.Sound c s)
    (hs : step c s (.worker i a) = some s') : SweepStep c s s' (.worker i a) := by
  have hm := workerStep_move hs
  have hinhand : ∀ {job n s₀}, InHand c s i job n s₀ → ∃ old, s.workers[i]? = some old ∧
      (∀ w, s₀.workers.set i w = s.workers.set i w) ∧ old.failPc = none := by
    intro job n s₀ hh
    cases hh with
    | dequeued hw => exact ⟨_, hw, fun _ => rfl, rfl⟩
    | seated hw => exact ⟨_, hw, fun _ => rfl, rfl⟩
  cases hm with
  | stops hw | drops hw | passes hw =>
      exact .worker hw rfl (failPc_flight rfl) (.none rfl) (.inl rfl) (.inl rfl)
  | waits hh =>
      obtain ⟨old, hw, hws, hno⟩ := hinhand hh
      exact .worker hw (hws _) (failPc_flight (congrArg (·.store) hh.core))
        (.none (congrArg (·.trace) hh.core)) (.inl hno) (.inl rfl)
  | joins hh =>
      obtain ⟨old, hw, hws, hno⟩ := hinhand hh
      exact .worker hw (hws _) (failPc_flight rfl) (.none rfl) (.inl hno) (.inl rfl)
  | @begins job n s₀ limiter hh hacq hc hf =>
      obtain ⟨old, hw, hws, hno⟩ := hinhand hh
      obtain ⟨hadds, hpc⟩ := beginAttempt_calls (x := s.core) (n := n) job
      have hnone : Flight.failPc ⟨n, job, (beginAttempt s.core n job).2⟩ = none := by
        unfold Flight.failPc
        split
        · rename_i hp
          exact absurd hp (hpc _ _ _)
        · rfl
      refine .worker hw (hws _) (fun key => ?_) hadds (.inl hno) (.inl rfl)
      show (((beginAttempt s.core n job).1.setFlight job.idempotencyKey
        ⟨n, job, (beginAttempt s.core n job).2⟩).store.inFlight key).bind _ =
          (s.core.store.inFlight key).bind _
      rw [Core.setFlight_inFlight]
      split_ifs with hk
      · rw [hk, hf]
        exact hnone
      · rw [beginAttempt_own.store]
  | @completes job n d stored r k hw hr hst =>
      have hdone : Adds (·.isUndo = false) s.core (doneCore c s.core n r) := .one rfl rfl
      have hpromote : Spread c [] False _ (promoteReady c (doneCore c s.core n r)) :=
        promoteReady_spread
      exact .worker hw rfl (failPc_flight promoteReady_store) (hdone.trans hpromote.calls)
        (.inl rfl) (.inl rfl)
  | leaves hw h =>
      obtain ⟨hadds, hstore⟩ := h.calls
      exact .worker hw rfl (failPc_flight hstore) hadds (.inl rfl) (.inl rfl)
  | givesUp hw h ht hrow =>
      obtain ⟨hadds, hstore⟩ := h.calls
      exact .worker hw rfl (failPc_flight (hrow.own.store.trans hstore)) (hadds.trans hrow.calls)
        (.inl rfl) (.inr ⟨_, _, rfl, headRow_sweep hrow⟩)
  | dies hw h ht hrow =>
      obtain ⟨hadds, hstore⟩ := h.calls
      exact .worker hw rfl (failPc_flight (hrow.own.store.trans hstore)) (hadds.trans hrow.calls)
        (.inl rfl) (.inl rfl)
  | @ending job n error pc pc' a y hw hrow =>
      have hlt : i < s.workers.length := (List.getElem?_eq_some_iff.mp hw).1
      have hbefore : s.failPc (.worker i) = some (n, pc) := by
        simp [State.failPc, hw, Worker.failPc]
      have hlisted := (hS.workers _ (List.mem_of_getElem? hw)).1.1
      refine .goes hlisted hrow rfl hbefore ?_ (fun q hq => ?_) ?_
      · simp [State.failPc, State.setWorker, hlt, Worker.failPc]
      · cases q with
        | flight key => exact failPc_flight hrow.own.store key
        | worker j =>
            simp only [State.failPc, State.setWorker]
            rw [List.getElem?_set_ne fun hij => hq (congrArg _ hij.symm)]
      · rw [settlesUndo_worker, hbefore]
        rfl
  | ended hw =>
      exact .worker hw rfl (failPc_flight rfl) (.none rfl) (.inr ⟨_, _, rfl, rfl, rfl⟩) (.inl rfl)
  | endRefused hw hs' =>
      exact .worker hw rfl (failPc_flight rfl) (.two rfl rfl rfl)
        (.inr ⟨_, _, rfl, rfl, if_neg hs'⟩) (.inl rfl)

theorem failPc_none {i : Nat} (h : ∀ w ∈ s.workers, w.failPc = none) :
    s.failPc (.worker i) = none := by
  simp only [State.failPc, Option.bind_eq_none_iff]
  exact fun w hw => h w (List.mem_of_getElem? hw)

/-- **What a step does to the sweeps**: nothing, or the code of one `failNode` goes on. -/
theorem step_sweeps (hS : State.Sound c s)
    (hs : step c s l = some s') : SweepStep c s s' l := by
  cases l with
  | flight key a => exact flight_sweeps hS hs
  | worker i a => exact worker_sweeps hS hs
  | drive =>
      have hm := driveStep_move hs
      refine .quiet hm.spread.calls (fun p => .inl ?_) rfl
      cases p with
      | flight key => exact failPc_flight hm.spread.sameRest.store key
      | worker i =>
          rcases (hS.orderly.drive hm).2 with hws | ⟨hall, hidle⟩
          · simp [State.failPc, hws]
          · rw [failPc_none (fun w hw => hidle w hw ▸ rfl),
              failPc_none (fun w hw => hall w hw ▸ rfl)]
  | late call o =>
      obtain ⟨y, hy, rfl⟩ := Option.map_eq_some_iff.mp hs
      unfold lateStep at hy
      split at hy
      · cases hy
      · cases hy
        exact .quiet (.one rfl rfl) (fun p => .inl (by cases p <;> rfl)) rfl
  | redeliver j at_ =>
      obtain ⟨job, -, rfl⟩ := Option.map_eq_some_iff.mp hs
      exact .quiet (.none rfl) (fun p => .inl (by cases p <;> rfl)) rfl
  | cancel reason =>
      cases hs
      exact .quiet (.none rfl) (fun p => .inl (by cases p <;> rfl)) rfl
  | world w =>
      cases hs
      exact .quiet (.none rfl) (fun p => .inl (by cases p <;> rfl)) rfl

end Steps
/-! ## 3. What a sweep calls -/

/-- A call of a sweep for the node `id`. -/
def Obs.sweepCall (id : NodeId) (action : String) : Obs → Bool
  | .called _ node .upstream action' .. => node = id ∧ action' = action
  | _ => false

/-- How often a sweep has called the compensation of a node. -/
def sweepCalls (id : NodeId) (action : String) (x : Core) : Nat :=
  x.trace.countP (·.sweepCall id action)

section Counting

variable {c : Context} {m n : WorkflowNode} {spec : CompensationAction} {x y : Core}
  {failed : NodeId} {pc pc' : FailPc}

theorem sweepCalls_append {obs : List Obs} {id : NodeId} {action : String}
    (h : y.trace = x.trace ++ obs) (hno : ∀ o ∈ obs, o.sweepCall id action = false) :
    sweepCalls id action y = sweepCalls id action x := by
  have hnone : obs.countP (·.sweepCall id action) = 0 :=
    List.countP_eq_zero.mpr fun o ho => by rw [hno o ho]; decide
  rw [sweepCalls, h, List.countP_append, hnone, Nat.add_zero, sweepCalls]

/-- **A sweep calls each completed node of its list with a compensation once**: what it has not
    called it has still to visit. -/
theorem sweepNext_counts (hm : nodeById c.graph m.id = some m)
    (ha : c.compensations.actionFor m = some spec) : ∀ {l : List NodeId}, l.Nodup → failed ∉ l →
    (∀ id ∈ l, x.status id = .completed) → sweepNext c x failed l = (y, pc) →
    sweepCalls m.id spec.action y + (if m.id ∈ pc.rest then 1 else 0) =
      sweepCalls m.id spec.action x + (if m.id ∈ l then 1 else 0) ∧ pc.sweep <:+ l
  | [], _, _, _, h => by
      cases h
      exact ⟨rfl, List.nil_suffix⟩
  | id :: rest, hnd, hf, hdone, h => by
      obtain ⟨hid, hnd⟩ := List.nodup_cons.mp hnd
      unfold sweepNext at h
      split at h
      · rename_i spec' hspec
        cases h
        split_ifs at hspec with hskip
        refine ⟨?_, List.suffix_refl _⟩
        show sweepCalls _ _ _ + (if m.id ∈ rest then 1 else 0) = _
        by_cases hme : m.id = id
        · subst hme
          rw [hm] at hspec
          obtain rfl := Option.some.inj (ha.symm.trans hspec)
          simp [sweepCalls, Core.invoke, Obs.sweepCall, hid]
        · have hsame : sweepCalls m.id spec.action (x.invoke id .upstream spec'.action
              (some (orEmpty spec'.input))) = sweepCalls m.id spec.action x := by
            have htrace : (x.invoke id .upstream spec'.action (some (orEmpty spec'.input))).trace =
                x.trace ++ [_] := rfl
            refine sweepCalls_append htrace fun o ho => ?_
            rw [List.mem_singleton.mp ho]
            simp [Obs.sweepCall, Ne.symm hme]
          rw [hsame]
          simp [hme]
      · rename_i hnone
        have hme : m.id ≠ id := by
          rintro rfl
          have hgo : ¬ (m.id = failed ∨ x.status m.id ≠ .completed) := by
            rintro (he | he)
            · exact hf (he ▸ List.mem_cons_self)
            · exact he (hdone _ List.mem_cons_self)
          rw [if_neg hgo, hm] at hnone
          exact absurd (hnone.symm.trans ha) (by simp)
        obtain ⟨hcount, hsuf⟩ := sweepNext_counts hm ha hnd (fun h => hf (List.mem_cons_of_mem _ h))
          (fun i hi => hdone i (List.mem_cons_of_mem _ hi)) h
        refine ⟨?_, hsuf.trans (List.suffix_cons _ _)⟩
        rw [hcount]
        simp [hme]

/-- What a `failNode` of the node `n` has still to sweep: completed nodes, each once, and not the
    failed one. -/
structure Sweepable (x : Core) (n : WorkflowNode) (ids : List NodeId) : Prop where
  nodup : ids.Nodup
  failed : n.id ∉ ids
  done : ∀ id ∈ ids, x.status id = .completed

theorem Sweepable.nil : Sweepable x n [] := ⟨.nil, nofun, nofun⟩

theorem Sweepable.suffix {ids ids' : List NodeId} (h : Sweepable x n ids) (hs : ids' <:+ ids) :
    Sweepable x n ids' :=
  ⟨h.nodup.sublist hs.sublist, fun hn => h.failed (hs.subset hn),
    fun id hi => h.done id (hs.subset hi)⟩

theorem Sweepable.mono {ids : List NodeId} (h : Sweepable x n ids)
    (hst : ∀ id, x.status id = .completed → y.status id = .completed) : Sweepable y n ids :=
  ⟨h.nodup, h.failed, fun id hi => hst id (h.done id hi)⟩

/-- Completed nodes are listed, each once, and no others. -/
def Listed (x : Core) : Prop :=
  x.completionOrder.Nodup ∧ ∀ id, id ∈ x.completionOrder ↔ x.status id = .completed

/-- Whether the answer rolls the node back. -/
def undoneBy (x : Core) (n : WorkflowNode) (pc : FailPc) (a : Answer) : Bool :=
  match undoPc x n pc a with
  | some (id, _) => x.status id = .compensating
  | none => false

/-- **What the code of `failNode` calls and has still to call.** -/
theorem FailRow.counts {error : String} {a : Answer} (hm : nodeById c.graph m.id = some m)
    (ha : c.compensations.actionFor m = some spec) (hl : Listed x) (hsw : Sweepable x n pc.sweep)
    (h : FailRow c x n error pc a y pc') :
    Sweepable x n pc'.sweep ∧
    sweepCalls m.id spec.action y + (if m.id ∈ pc'.rest then 1 else 0) =
      sweepCalls m.id spec.action x + (if m.id ∈ pc.rest then 1 else 0) +
        if undoneBy x n pc a && x.status m.id = .completed then 1 else 0 := by
  cases h with
  | undoes =>
      refine ⟨.nil, ?_⟩
      rw [sweepCalls_append (x := x) rfl fun o ho => by rw [List.mem_singleton.mp ho]; rfl]
      rfl
  | @rollsBack spec' call o y pc' hs hx =>
      have hfailed : n.id ∉ x.completionOrder := fun hn => by
        rw [hl.2, hs] at hn
        cases hn
      have hlist : Sweepable x n x.completionOrder.reverse :=
        ⟨List.nodup_reverse.mpr hl.1, fun hn => hfailed (List.mem_reverse.mp hn),
          fun id hi => (hl.2 id).mp (List.mem_reverse.mp hi)⟩
      obtain ⟨hcount, hsuf⟩ := sweepNext_counts hm ha hlist.nodup hlist.failed (fun id hi => by
        rw [Core.put_status, if_neg fun he : id = n.id => hlist.failed (he ▸ hi)]
        exact hlist.done id hi) hx
      refine ⟨hlist.suffix hsuf, ?_⟩
      have hundone : undoneBy x n (.undoing spec' call) (.run o) = true := by
        simp [undoneBy, undoPc, hs]
      rw [hcount, sweepCalls_append (x := x) rfl (by simp [Obs.sweepCall]), hundone]
      simp [FailPc.rest, FailPc.sweep, hl.2]
  | @swept id spec' call rest o y pc' hx =>
      have hrest : Sweepable x n rest := hsw.suffix (List.suffix_cons _ _)
      obtain ⟨hcount, hsuf⟩ := sweepNext_counts hm ha hrest.nodup hrest.failed
        (by intro id hi; exact hrest.done id hi) hx
      refine ⟨hrest.suffix hsuf, ?_⟩
      have hundone : undoneBy x n (.sweeping id spec' call rest) (.run o) = false := by
        simp [undoneBy, undoPc, hsw.done id List.mem_cons_self]
      have hsame : sweepCalls m.id spec.action ({ x.observe (.settled call id .upstream o) with
          compensated := x.compensated ++ [id] }.emit (.nodeCompensated id spec'.action)) =
          sweepCalls m.id spec.action x :=
        sweepCalls_append (List.append_assoc ..) (by simp [Obs.sweepCall])
      rw [hcount, hsame, hundone]
      rfl

end Counting

/-! ## 4. Every run -/

section Runs

variable {c : Context} {s s' : State} {x y : Core} {l : Label} {m n : WorkflowNode}
  {spec : CompensationAction}

theorem Listed.congr (h : Listed x) (ho : y.completionOrder = x.completionOrder)
    (hst : ∀ id, y.status id = .completed ↔ x.status id = .completed) : Listed y :=
  ⟨ho ▸ h.1, fun id => by rw [ho, hst]; exact h.2 id⟩

theorem Act.listed (hS : Core.Sound c s.core) (h : Listed s.core) (ha : Act c s l y) :
    Listed y := by
  cases ha with
  | idle | settles | late | world => exact h.congr rfl fun _ => Iff.rfl
  | @flight key f a z pc hf hrow =>
      have hag := (hS.flight key f hf).2.2
      have hs := (hag.not_completed hrow.going).1
      exact h.congr hrow.own.completionOrder fun id =>
        hrow.own.completed_iff hs (hrow.not_completed hag hrow.going) id
  | @begins i n job s₀ hh hn hid hkey hc hf =>
      refine h.congr beginAttempt_own.completionOrder fun id => ?_
      rw [Core.setFlight_status]
      by_cases hx : id = n.id
      · rcases beginAttempt_row (s := s.core) (n := n) job with ⟨hs, hrun, -⟩ | ⟨hsame, -⟩
        · rw [hx, hrun]
          rcases hs with hs | hs <;> simp [hs]
        · rw [hx, hsame]
      · rw [beginAttempt_own.status hx]
  | @completes i n r hn hr hs =>
      have hno : n.id ∉ s.core.completionOrder := fun hmem => by
        rw [h.2] at hmem
        rcases hs with hs | hs <;> cases hs.symm.trans hmem
      refine ⟨List.nodup_append.mpr ⟨h.1, List.nodup_singleton _, ?_⟩, fun id => ?_⟩
      · rintro a ha b hb rfl
        rw [List.mem_singleton] at hb
        exact hno (hb ▸ ha)
      · rw [doneCore_status]
        show id ∈ s.core.completionOrder ++ [n.id] ↔ _
        rw [List.mem_append, List.mem_singleton, h.2]
        split_ifs with hx <;> simp [hx]
  | @givesUp i job n d stored error core z pc hw hn hend ht hcore hcaught hrow =>
      have hs : s.core.status n.id ≠ .completed := fun hc => by
        rw [show s.status n.id = .completed from hc] at ht
        cases ht
      rcases hcore with rfl | rfl
      · exact h.congr hrow.own.completionOrder (hrow.own.completed_iff hs (hrow.not_completed hs))
      · exact h.congr hrow.own.completionOrder (hrow.own.completed_iff hs (hrow.not_completed hs))
  | @ending i job n error a z pc pc' hw hn hend hrow =>
      refine h.congr hrow.own.completionOrder fun id => ?_
      by_cases hx : id = n.id
      · rcases hrow.status with hsame | ⟨hs, hs'⟩
        · rw [hx, hsame]
        · rw [hx, hs, hs']
          simp
      · rw [hrow.own.status hx]
  | @endRefused i job n error spec call o hw hn hs =>
      refine h.congr rfl fun id => ?_
      rw [Core.put_status]
      split_ifs with hx
      · rw [hx]
        rfl
      · rfl

/-- Completed nodes stay listed. -/
theorem step_listed (hnd : (c.graph.map (·.id)).Nodup) (hS : State.Sound c s) (h : Listed s.core)
    (hs : step c s l = some s') : Listed s'.core := by
  refine (step_core hS hnd hs).keeps (I := Listed) hnd hS.core (fun z ha => ha.listed hS.core h)
    (fun z z' T q _ _ hz ht => ?_) fun z _ _ _ hz => hz.congr rfl fun _ => Iff.rfl
  exact hz.congr ht.sameRest.completionOrder fun id => Spread.completed (.single ht)

/-- The calls of sweeps for the node `m` up to a moment at which `k` nodes have been rolled back
    behind its completion: those calls are made, or a sweep has still to make them. -/
structure Tallied (c : Context) (m : WorkflowNode) (action : String) (s : State) (k : Nat) :
    Prop where
  sound : State.Sound c s
  listed : Listed s.core
  sweeps : ∀ p n pc, s.failPc p = some (n, pc) → Sweepable s.core n pc.sweep
  calls : ∃ F : Finset Host, (∀ p, p ∈ F ↔ m.id ∈ s.rest p) ∧
    sweepCalls m.id action s.core + F.card = k

theorem State.sweep_eq {p : Host} {pc : FailPc} (h : s.failPc p = some (n, pc)) :
    s.sweep p = pc.sweep := by
  rw [State.sweep, h]
  rfl

theorem sweepCall_of_isUndo {o : Obs} (h : o.isUndo = false) (id : NodeId) (action : String) :
    o.sweepCall id action = false := by
  cases o with
  | called call node purpose => cases purpose <;> first | rfl | cases h
  | _ => rfl

/-- A set of hosts, when one of them changes sides. -/
theorem card_moved {F : Finset Host} {p : Host} {P Q : Host → Prop} [DecidablePred Q]
    (hF : ∀ q, q ∈ F ↔ P q) (hother : ∀ q, q ≠ p → (Q q ↔ P q)) [Decidable (P p)] :
    ∃ F' : Finset Host, (∀ q, q ∈ F' ↔ Q q) ∧
      F'.card + (if P p then 1 else 0) = F.card + if Q p then 1 else 0 := by
  refine ⟨if Q p then insert p F else F.erase p, fun q => ?_, ?_⟩
  · by_cases hq : q = p
    · subst hq
      split_ifs with hQ <;> simp [hQ]
    · rw [hother q hq, ← hF]
      split_ifs <;> simp [hq]
  · split_ifs with hQ hP hP
    · rw [Finset.insert_eq_of_mem ((hF p).mpr hP)]
    · rw [Finset.card_insert_of_notMem fun hp => hP ((hF p).mp hp)]
    · rw [Finset.card_erase_add_one ((hF p).mpr hP), Nat.add_zero]
    · rw [Finset.erase_eq_of_notMem fun hp => hP ((hF p).mp hp)]

theorem Tallied.step (hnd : (c.graph.map (·.id)).Nodup) (hm : m ∈ c.graph)
    (ha : c.compensations.actionFor m = some spec) {k : Nat} (h : Tallied c m spec.action s k)
    (hs : step c s l = some s') :
    Tallied c m spec.action s' (k + if rollsBackBehind m.id s l then 1 else 0) := by
  have hdone : ∀ id, s.core.status id = .completed → s'.core.status id = .completed := fun id hc =>
    step_completed hnd h.sound hs hc
  have hS' := h.sound.step hnd hs
  have hlist := step_listed hnd h.sound h.listed hs
  obtain ⟨F, hF, hcard⟩ := h.calls
  cases step_sweeps h.sound hs with
  | quiet hadds hsweep hl =>
      refine ⟨hS', hlist, fun p n pc hp => ?_, F, fun p => ?_, ?_⟩
      · rcases hsweep p with he | ⟨-, hnil⟩
        · exact (h.sweeps p n pc (he ▸ hp)).mono hdone
        · rw [State.sweep_eq hp] at hnil
          rw [hnil]
          exact .nil
      · rw [hF, State.rest, State.rest]
        rcases hsweep p with he | ⟨hnil, hnil'⟩
        · rw [State.sweep, State.sweep, he]
        · rw [hnil, hnil']
      · obtain ⟨obs, hobs, hno⟩ := hadds
        rw [sweepCalls_append hobs fun o ho => sweepCall_of_isUndo (hno o ho) _ _, hcard]
        simp [rollsBackBehind, rollsBack, hl]
  | @goes p n error pc pc' a y hn hrow htrace hp hp' hother hl =>
      obtain ⟨hsw, hcount⟩ := hrow.counts (nodeById_of_mem hnd hm) ha h.listed (h.sweeps p n pc hp)
      have hback : rollsBackBehind m.id s l =
          (undoneBy s.core n pc a && s.core.status m.id = .completed) := by
        rw [rollsBackBehind, rollsBack, hl]
        rfl
      have hcalls : sweepCalls m.id spec.action s'.core = sweepCalls m.id spec.action y := by
        rw [sweepCalls, htrace, sweepCalls]
      obtain ⟨F', hF', hcard'⟩ := card_moved (p := p) (Q := fun q => m.id ∈ s'.rest q) hF
        fun q hq => by rw [State.rest, State.rest, State.sweep, State.sweep, hother q hq]
      refine ⟨hS', hlist, fun q k pc₁ hq => ?_, F', hF', ?_⟩
      · by_cases hqp : q = p
        · subst hqp
          cases hp'.symm.trans hq
          exact hsw.mono hdone
        · exact (h.sweeps q k pc₁ ((hother q hqp).symm.trans hq)).mono hdone
      · have hrest : s.rest p = pc.rest := congrArg List.tail (State.sweep_eq hp)
        have hrest' : s'.rest p = pc'.rest := congrArg List.tail (State.sweep_eq hp')
        rw [hrest, hrest'] at hcard'
        rw [hcalls, hback]
        omega

theorem run_tallied {ok : State → Label → Prop} {ls : List Label} {w : World}
    (hnd : (c.graph.map (·.id)).Nodup) (hm : m ∈ c.graph)
    (ha : c.compensations.actionFor m = some spec) (h : Run (step c) ok (.initial c w) ls s) :
    Tallied c m spec.action s (occurrences (step c) (rollsBackBehind m.id) (.initial c w) ls) := by
  induction h with
  | start =>
      have hnone : ∀ p, (State.initial c w).failPc p = none := by
        rintro (_ | _) <;> rfl
      refine ⟨initial_sound w, ⟨.nil, fun id => ?_⟩, fun p n pc hp => ?_, ∅, fun p => ?_, rfl⟩
      · exact iff_of_false nofun (by
          simp [State.initial, State.launch, Core.fresh, Core.status, Core.emit, Core.observe])
      · rw [hnone] at hp
        cases hp
      · rw [State.rest, State.sweep, hnone]
        simp
  | @next ls s s' l h _ hs ih =>
      have hlast : occurrences (step c) (rollsBackBehind m.id) s [l] =
          if rollsBackBehind m.id s l then 1 else 0 := by
        simp [occurrences, hs]
      rw [h.occurrences_append, hlast]
      exact ih.step hnd hm ha hs

end Runs

/-! ## 5. A node whose own compensation is called never completes -/

/-- The statuses a node has from the start of its own compensation on. -/
def Undoing (st : NodeStatus) : Prop := st = .compensating ∨ st = .rolledBack ∨ st = .cancelled

section Own

variable {c : Context} {s s' : State} {x y : Core} {l : Label} {n : WorkflowNode} {id : NodeId}

theorem HeadRow.undoing {error : String} {q : Bool} {pc : Option FailPc}
    (h : HeadRow c x n error q y pc) (hu : Undoing (x.status n.id)) : Undoing (y.status n.id) := by
  have hne : headStatus (x.status n.id) ≠ .failed := by
    rcases hu with hu | hu | hu <;> (rw [hu]; decide)
  cases h with
  | failed =>
      rw [Core.put_status_self]
      exact (headStatus_of_ne hne).symm ▸ hu
  | compensates hs | quarantines hs => exact absurd hs hne
  | waits | refused =>
      rw [Core.put_status_self]
      exact hu

theorem FailRow.undoing {error : String} {pc pc' : FailPc} {a : Answer}
    (h : FailRow c x n error pc a y pc') (hu : Undoing (x.status n.id)) :
    Undoing (y.status n.id) := by
  rcases h.status with hs | ⟨-, hs⟩
  · rw [hs]
    exact hu
  · exact .inr (.inl hs)

theorem Row.undoing {f : Flight} {pc pc' : FlightPc} {a : Answer} (h : Row c x f pc a y pc')
    (hu : Undoing (x.status f.node.id)) : Undoing (y.status f.node.id) := by
  have hno : ∀ {st}, x.status f.node.id = st → ¬ Undoing st → False := fun hs h => h (hs ▸ hu)
  cases h with
  | throws | approved | timesOut | ended | calls => exact hu
  | concludes | settles | retryRefused =>
      rw [Core.put_status_self]
      exact hu
  | asks hs | answers hs | verifies hs | retries _ hs | resumes hs =>
      exact (hno hs (by simp [Undoing])).elim
  | fails _ _ hhead | failRefused _ hhead =>
      refine hhead.undoing ?_
      rw [countFailure_status]
      exact hu
  | ending hfail => exact hfail.undoing hu

theorem Act.undoing (h : Act c s l y) (hu : Undoing (s.core.status id)) :
    Undoing (y.status id) := by
  have hown : ∀ {n : WorkflowNode} {u v : Core}, Own n.id u v → Undoing (u.status id) →
      (Undoing (u.status n.id) → Undoing (v.status n.id)) → Undoing (v.status id) := by
    intro n u v ho hu hn
    by_cases hx : id = n.id
    · rw [hx] at hu ⊢
      exact hn hu
    · rw [ho.status hx]
      exact hu
  cases h with
  | idle | settles | late | world => exact hu
  | flight hf hrow =>
      rw [Core.setFlight_status]
      exact hown hrow.own hu hrow.undoing
  | @begins i n job s₀ hh =>
      rw [Core.setFlight_status]
      refine hown beginAttempt_own hu fun hn => ?_
      rcases beginAttempt_row (s := s.core) (n := n) job with ⟨hs, -⟩ | ⟨hsame, -⟩
      · rcases hs with hs | hs <;> (rw [hs] at hn; simp [Undoing] at hn)
      · rw [hsame]
        exact hn
  | @completes i n r hn hr hs =>
      rw [doneCore_status]
      split_ifs with hx
      · rw [hx] at hu
        rcases hs with hs | hs
        all_goals
          rw [show s.core.status n.id = _ from hs] at hu
          simp [Undoing] at hu
      · exact hu
  | givesUp hw hn hend ht hcore hcaught hrow =>
      rcases hcore with rfl | rfl
      · exact hown hrow.own hu hrow.undoing
      · exact hown hrow.own hu hrow.undoing
  | ending hw hn hend hrow => exact hown hrow.own hu hrow.undoing
  | @endRefused i job n error spec call o hw hn hs =>
      refine hown (.put _ _ _ _) hu fun hn => ?_
      rw [Core.put_status_self]
      exact hn

theorem Touch.undoing {T : List NodeId} {q : Prop} (h : Touch c T q x y)
    (hu : Undoing (x.status id)) : Undoing (y.status id) := by
  rcases h.status id with hs | ⟨hp, -⟩ | ⟨-, hs, -⟩
  · rw [hs]
    exact hu
  · rw [hp] at hu
    simp [Undoing] at hu
  · exact .inr (.inr hs)

theorem step_undoing (hnd : (c.graph.map (·.id)).Nodup) (hS : State.Sound c s)
    (hs : step c s l = some s') (hu : Undoing (s.core.status id)) : Undoing (s'.core.status id) :=
  (step_core hS hnd hs).keeps (I := fun z => Undoing (z.status id)) hnd hS.core
    (fun _ ha => ha.undoing hu) (fun _ _ _ _ _ _ hz ht => ht.undoing hz) fun _ _ _ _ hz => hz

/-- Every node whose own compensation is about to be called, or has been, is being undone. -/
structure OwnCalls (s : State) : Prop where
  workers : ∀ job n error spec, .failing job n error (.compensating spec) ∈ s.workers →
    Undoing (s.core.status n.id)
  calls : ∀ call id action input gate,
    .called call id .compensation action input gate ∈ s.core.trace →
    Undoing (s.core.status id)

theorem failRow_ownCalls {error action : String} {pc pc' : FailPc} {a : Answer} {call : Nat}
    {input : Option Json} {gate : Bool} (h : FailRow c x n error pc a y pc')
    (hc : .called call id .compensation action input gate ∈ y.trace) :
    .called call id .compensation action input gate ∈ x.trace ∨
      (id = n.id ∧ ∃ spec, pc = .compensating spec) := by
  cases h with
  | undoes =>
      rcases List.mem_append.mp hc with hc | hc
      · exact .inl hc
      · cases List.mem_singleton.mp hc
        exact .inr ⟨rfl, _, rfl⟩
  | rollsBack hs hx =>
      rcases sweepNext_cases hx with ⟨rfl, -⟩ | ⟨_, _, _, _, rfl, _⟩
      · exact .inl (by simpa using hc)
      · exact .inl (by simpa [Core.invoke] using hc)
  | swept hx =>
      rcases sweepNext_cases hx with ⟨rfl, -⟩ | ⟨_, _, _, _, rfl, _⟩
      · exact .inl (by simpa [Core.emit] using hc)
      · exact .inl (by simpa [Core.invoke, Core.emit] using hc)

theorem FailRow.not_compensating {error : String} {pc pc' : FailPc} {a : Answer}
    (h : FailRow c x n error pc a y pc') (spec : CompensationAction) :
    pc' ≠ .compensating spec := by
  cases h with
  | undoes => exact fun h => by cases h
  | rollsBack hs hx | swept hx =>
      rcases sweepNext_pc hx with rfl | ⟨_, _, _, _, rfl⟩ <;> exact fun h => by cases h

theorem HeadRow.compensating {error : String} {q : Bool}
    {spec : CompensationAction} (h : HeadRow c x n error q y (some (.compensating spec))) :
    Undoing (y.status n.id) := by
  generalize hpc : some (FailPc.compensating spec) = pc at h
  cases h with
  | compensates =>
      rw [Core.put_status_self]
      exact .inl rfl
  | _ => cases hpc

theorem OwnCalls.step (hnd : (c.graph.map (·.id)).Nodup) (hS : State.Sound c s) (h : OwnCalls s)
    (hs : step c s l = some s') : OwnCalls s' := by
  have hlater : ∀ {id}, Undoing (s.core.status id) → Undoing (s'.core.status id) :=
    fun hu => step_undoing hnd hS hs hu
  constructor
  · intro job n error spec hw
    have hold : .failing job n error (.compensating spec) ∈ s.workers →
        Undoing (s'.core.status n.id) := fun hw => hlater (h.workers job n error spec hw)
    cases l with
    | drive =>
        rcases (hS.orderly.drive (driveStep_move hs)).2 with hws | ⟨-, hidle⟩
        · exact hold (hws ▸ hw)
        · cases hidle _ hw
    | worker i a =>
        rcases (workerStep_move hs).failing hw with hw | ⟨pc₀, -, hrow⟩ | ⟨_, _, _, -, -, -, hrow⟩
        · exact hold hw
        · exact absurd rfl (hrow.not_compensating spec)
        · exact hrow.compensating
    | flight | late | redeliver =>
        obtain ⟨_, -, rfl⟩ := Option.map_eq_some_iff.mp hs
        exact hold hw
    | cancel | world =>
        cases hs
        exact hold hw
  · intro call id action input gate hc
    cases step_sweeps hS hs with
    | quiet hadds hsweep hl =>
        rcases hadds.mem hc with hc | hno
        · exact hlater (h.calls _ _ _ _ _ hc)
        · cases hno
    | @goes p n error pc pc' a y hn hrow htrace hp hp' hother hl =>
        rw [htrace] at hc
        rcases failRow_ownCalls hrow hc with hc | ⟨rfl, spec, rfl⟩
        · exact hlater (h.calls _ _ _ _ _ hc)
        · refine hlater ?_
          cases p with
          | flight key =>
              obtain ⟨f, hf, hfail⟩ := Option.bind_eq_some_iff.mp hp
              have hag := (hS.core.flight key f hf).2.2
              unfold Flight.failPc at hfail
              split at hfail
              · rename_i hpc
                cases hfail
                rw [hpc] at hag
                exact .inl hag
              · cases hfail
          | worker i =>
              obtain ⟨w, hw, hfail⟩ := Option.bind_eq_some_iff.mp hp
              cases w with
              | failing job n' err pc =>
                  cases hfail
                  exact h.workers _ _ _ _ (List.mem_of_getElem? hw)
              | _ => cases hfail

end Own

/-! ## 6. Once, and not once -/

section Once

variable {c : Context} {s : State} {m : WorkflowNode} {spec : CompensationAction} {w : World}
  {ls : List Label}

theorem run_ownCalls {ok : State → Label → Prop} (hnd : (c.graph.map (·.id)).Nodup)
    (h : Run (step c) ok (.initial c w) ls s) : OwnCalls s := by
  have hstart : OwnCalls (State.initial c w) := by
    refine ⟨fun _ _ _ _ hw => (List.not_mem_nil hw).elim, fun _ _ _ _ _ hc => ?_⟩
    cases List.mem_singleton.mp hc
  refine (Run.invariant (I := fun s => State.Sound c s ∧ OwnCalls s)
    ⟨initial_sound w, hstart⟩ ?_ h).2
  exact fun s l s' hI _ hs => ⟨hI.1.step hnd hs, hI.2.step hnd hI.1 hs⟩

/-- A resolved run is inside no `failNode`. -/
theorem failPc_resolved (hS : State.Sound c s) (hd : s.drive = .resolved) (p : Host) :
    s.failPc p = none := by
  have hall := hS.orderly.rest hd (by simp) (by simp)
  cases p with
  | worker i => exact failPc_none fun w hw => hall w hw ▸ rfl
  | flight key =>
      refine Option.bind_eq_none_iff.mpr fun f hf => ?_
      obtain ⟨e, he⟩ := hS.quiescent hall key f hf
      unfold Flight.failPc
      rw [he]

/-- **The compensation of a completed node is called once for every node rolled back behind its
    completion.** -/
theorem undoCalls_eq (hnd : (c.graph.map (·.id)).Nodup) (hm : m ∈ c.graph)
    (ha : c.compensations.actionFor m = some spec) (hst : s.status m.id = .completed)
    (h : Run (step c) (fun _ _ => True) (.initial c w) ls s) (hd : s.drive = .resolved) :
    s.core.trace.countP (·.undoCall m.id spec.action) =
      occurrences (step c) (rollsBackBehind m.id) (.initial c w) ls := by
  have ht := run_tallied hnd hm ha h
  obtain ⟨F, hF, hcard⟩ := ht.calls
  have hempty : F = ∅ := Finset.eq_empty_of_forall_notMem fun p hp => by
    rw [hF, State.rest, State.sweep, failPc_resolved ht.sound hd p] at hp
    cases hp
  have hown := (run_ownCalls hnd h).calls
  have hsame : s.core.trace.countP (·.undoCall m.id spec.action) =
      sweepCalls m.id spec.action s.core := by
    refine List.countP_congr fun o ho => ?_
    cases o with
    | called call node purpose action input gate =>
        cases purpose with
        | forward => simp [Obs.undoCall, Obs.sweepCall]
        | upstream => simp [Obs.undoCall, Obs.sweepCall]
        | compensation =>
            have hne : node ≠ m.id := by
              rintro rfl
              have hu := hown _ _ _ _ _ ho
              rw [show s.core.status m.id = .completed from hst] at hu
              simp [Undoing] at hu
            simp [Obs.undoCall, Obs.sweepCall, hne]
    | _ => simp [Obs.undoCall, Obs.sweepCall]
  rw [hsame, ← hcard, hempty, Finset.card_empty, Nat.add_zero]

/-- **The compensations of a resolved run are called exactly once if and only if exactly one node
    is rolled back behind the completion of each.** -/
theorem compensated_once_iff (hv : validateGraph c.graph = .ok ())
    (h : Run (step c) (fun _ _ => True) (.initial c w) ls s) (hd : s.drive = .resolved) :
    CompensatedOnce c s ↔ OneRollbackBehind c (.initial c w) ls s := by
  have hnd := validateGraph_nodup hv
  constructor
  · intro hone hback m hm hst ha
    obtain ⟨spec, ha⟩ := Option.ne_none_iff_exists'.mp ha
    rw [← undoCalls_eq hnd hm ha hst h hd]
    exact hone hback m hm spec hst ha
  · intro hone hback m hm spec hst ha
    rw [undoCalls_eq hnd hm ha hst h hd]
    exact hone hback m hm hst (by rw [ha]; exact nofun)

end Once

/-- Every compensation call resolves. -/
def UndoResolves (s : State) (l : Label) : Prop :=
  ∀ id o, settlesUndo s l = some (id, o) → ∃ r, o = .resolved r

/-- The condition, to be computed. -/
def undoResolves (s : State) (l : Label) : Bool :=
  match settlesUndo s l with
  | some (_, .rejected _) => false
  | _ => true

theorem undoResolves_sound (s : State) (l : Label) (h : undoResolves s l = true) :
    UndoResolves s l := by
  intro id o ho
  cases o with
  | resolved r => exact ⟨r, rfl⟩
  | rejected e => simp [undoResolves, ho] at h

/-- Both nodes of `deployContext` start, and one execution after the other comes to its end. -/
def deployBoth (first second : List Label) : List Label :=
  [.drive, .drive, .drive, .drive, .worker 0 .tick, .worker 1 .tick] ++ first ++ second ++
    (List.range 8).map (.worker · .tick) ++ [.drive, .drive]

/-- A call that succeeds. -/
def succeeded : Answer := .run (.resolved ⟨.success, .obj [], []⟩)

/-- The creation completes. -/
def createCompletes : List Label :=
  [.tick, succeeded, .tick, .tick].map (.flight (keyOf deployContext createNode)) ++
    [.worker 0 .tick]

/-- The deployment fails and is rolled back; what its sweep calls is answered with `sweep`. -/
def deployFails (sweep : List Answer) : List Label :=
  let answers : List Answer :=
    [.tick, .run (.rejected "deploy exploded"), .tick, .tick, succeeded] ++ sweep ++ [.tick]
  answers.map (.flight (keyOf deployContext deployNode)) ++ [.worker 1 .tick]

theorem compensated_once_iff_deploy : ∃ s ls, Run (step deployContext) (fun _ _ => True)
      (.initial deployContext calmWorld) ls s ∧ s.drive = .resolved ∧
    (CompensatedOnce deployContext s ↔
      OneRollbackBehind deployContext (.initial deployContext calmWorld) ls s) := by
  obtain ⟨s, hs, hd⟩ := Option.map_eq_some_iff.mp (show (exec (step deployContext)
    (.initial deployContext calmWorld) (deployBoth createCompletes (deployFails [succeeded]))).map
      (·.drive) = some .resolved by rfl)
  have hrun : Run (step deployContext) (fun _ _ => True) _ _ s :=
    run_of_exec (fun _ _ => trivial) hs
  exact ⟨s, _, hrun, hd, compensated_once_iff (by rfl) hrun hd⟩

/-- The creation completes behind the rollback of the deployment: nothing undoes it. -/
theorem late_completion_not_undone : ∃ c s ls w, validateGraph c.graph = .ok () ∧
    Run (step c) UndoResolves (.initial c w) ls s ∧ s.drive = .resolved ∧
    ¬ CompensatedOnce c s := by
  obtain ⟨s, hs, hall⟩ := Option.map_eq_some_iff.mp (show (exec
    (fun s l => if undoResolves s l then step deployContext s l else none)
    (.initial deployContext calmWorld) (deployBoth (deployFails []) createCompletes)).map
      (fun s => (s.drive, s.status "deploy", s.status "create",
        s.core.trace.countP (·.undoCall "create" "delete.resource"))) =
      some (.resolved, .rolledBack, .completed, 0) by rfl)
  simp only [Prod.mk.injEq] at hall
  obtain ⟨hd, hdeploy, hcreate, hcalls⟩ := hall
  refine ⟨deployContext, s, _, calmWorld, rfl, run_of_exec_check undoResolves_sound hs, hd, fun hone => ?_⟩
  have h := hone ⟨deployNode, by simp [deployContext], hdeploy⟩ createNode (by simp [deployContext])
    ⟨"delete.resource", none⟩ hcreate rfl
  exact absurd (h.symm.trans hcalls) (by decide)

end AgentKernel.Orchestrator
