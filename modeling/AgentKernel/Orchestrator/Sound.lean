/-
  File:      AgentKernel/Orchestrator/Sound.lean
  Subject:   The invariant of every run of one executor process, and the rule that carries facts
             about the shared state along a run.

  `Core.Sound` ties the executions in flight to the node statuses: an execution belongs to the
  node whose key it is stored under, its node's status agrees with the place its code awaits at,
  and a node that is being worked on has only completed dependencies. `State.Sound` adds the
  queue and the workers: whoever waits for an execution holds its job, and outside a dispatch
  every worker has finished.

  Under it a machine step is a `CoreStep`: one `Act`, then touches, then possibly a refused skip.
  **`run_keeps`** is the rule every statement about all runs uses: what each act, each touch and a
  refused skip keep holds wherever a run ends. Jobs may be delivered again, also jobs an earlier
  process of the same run was given.
-/
import AgentKernel.Orchestrator.Moves

namespace AgentKernel.Orchestrator

open Lib

/-! ## 1. The invariant of the shared state -/

/-- Statuses of a node that was made ready and has not ended. -/
def Live : NodeStatus → Prop
  | .ready | .running | .waiting | .verifying | .retrying | .compensating => True
  | _ => False

/-- The place of an execution that can go on. -/
def Going (pc : FlightPc) : Prop := ∀ e, pc ≠ .rejected e

/-- What is under way agrees with the states of the nodes. -/
structure Core.Sound (c : Context) (s : Core) : Prop where
  flight : ∀ key f, s.store.inFlight key = some f →
    f.node ∈ c.graph ∧ keyOf c f.node = key ∧ Agrees f.pc (s.status f.node.id)
  excl : ∀ key f, s.store.inFlight key = some f → s.store.completed key = none
  live : ∀ n ∈ c.graph, Live (s.status n.id) → ∀ d ∈ n.deps, s.status d = .completed
  working : ∀ key f, s.store.inFlight key = some f → Going f.pc →
    ∀ d ∈ f.node.deps, s.status d = .completed

/-- The store knows the key of `n`, and no execution under it can go on. -/
def Ended (c : Context) (s : Core) (n : WorkflowNode) : Prop :=
  ((∃ r, s.store.completed (keyOf c n) = some r) ∨ ∃ f, s.store.inFlight (keyOf c n) = some f) ∧
  ∀ f, s.store.inFlight (keyOf c n) = some f → ∃ e, f.pc = .rejected e

/-- The first write of a machine step to the shared state. -/
inductive Act (c : Context) (s : State) : Label → Core → Prop where
  | idle {l : Label} : Act c s l s.core
  | flight {key : String} {f : Flight} {a : Answer} {s₁ : Core} {pc : FlightPc}
      (hf : s.core.store.inFlight key = some f) (h : Row c s.core f f.pc a s₁ pc) :
      Act c s (.flight key a) (s₁.setFlight key { f with job := nextJob f, pc := pc })
  | settles {key : String} {f : Flight} {r : NodeResult}
      (hf : s.core.store.inFlight key = some f) (hpc : f.pc = .verified r) :
      Act c s (.flight key .tick) { s.core with store := s.core.store.settle key r }
  | begins {i : Nat} {n : WorkflowNode} {job : WorkflowJob} {s₀ : State}
      (hh : InHand c s i job n s₀) (hn : n ∈ c.graph)
      (hid : job.nodeId = n.id) (hkey : job.idempotencyKey = keyOf c n)
      (hc : s.core.store.completed job.idempotencyKey = none)
      (hf : s.core.store.inFlight job.idempotencyKey = none) :
      Act c s (.worker i .tick) ((beginAttempt s.core n job).1.setFlight job.idempotencyKey
        ⟨n, job, (beginAttempt s.core n job).2⟩)
  | completes {i : Nat} {n : WorkflowNode} {r : NodeResult} (hn : n ∈ c.graph)
      (hr : s.core.store.completed (keyOf c n) = some r)
      (hs : s.status n.id = .running ∨ s.status n.id = .verifying) :
      Act c s (.worker i .tick) (doneCore c s.core n r)
  | givesUp {i : Nat} {job : WorkflowJob} {n : WorkflowNode} {d : Bool}
      {stored : Option NodeResult} {error : String} {core s₁ : Core} {pc : Option FailPc}
      (hw : s.workers[i]? = some (.holding job n d stored)) (hn : n ∈ c.graph)
      (hend : Ended c s.core n) (ht : (s.status n.id).isTerminal = false)
      (hcore : core = s.core ∨ core = s.core.observe (.illegal n.id (s.status n.id) .complete))
      (hcaught : Caught s.core job n stored core error)
      (h : HeadRow c core n error false s₁ pc) : Act c s (.worker i .tick) s₁
  | ending {i : Nat} {job : WorkflowJob} {n : WorkflowNode} {error : String} {a : Answer}
      {s₁ : Core} {pc pc' : FailPc} (hw : s.workers[i]? = some (.failing job n error pc))
      (hn : n ∈ c.graph) (hend : Ended c s.core n) (h : FailRow c s.core n error pc a s₁ pc') :
      Act c s (.worker i a) s₁
  | endRefused {i : Nat} {job : WorkflowJob} {n : WorkflowNode} {error : String}
      {spec : CompensationAction} {call : Nat} {o : RunOutcome}
      (hw : s.workers[i]? = some (.failing job n error (.undoing spec call))) (hn : n ∈ c.graph)
      (hs : s.status n.id ≠ .compensating) :
      Act c s (.worker i (.run o)) (s.core.put n.id (s.core.nodes n.id)
        [.settled call n.id .compensation o, .illegal n.id (s.status n.id) .rollback])
  | late {call : Nat} {id : NodeId} {o : RunOutcome} (hl : (call, id) ∈ s.core.late) :
      Act c s (.late call o) ({ s.core with
        late := s.core.late.filter fun p => p.1 ≠ call }.observe (.settled call id .forward o))
  | world {w : World} : Act c s (.world w) { s.core with world := w }

section CoreSound

variable {c : Context} {s s' s₁ : Core}

/-- A node being worked on is live, has been denied, or its execution is past the failure. -/
theorem Agrees.not_completed {pc : FlightPc} {st : NodeStatus} (h : Agrees pc st) (hg : Going pc) :
    st ≠ .completed ∧ st ≠ .planned := by
  cases pc with
  | rejected e => exact absurd rfl (hg e)
  | answered req granted => cases granted <;> (cases h; exact ⟨by decide, by decide⟩)
  | failing thrown error pc =>
      cases pc <;> revert h <;> cases st <;> simp [Agrees]
  | _ => revert h; cases st <;> simp [Agrees]

theorem HeadRow.not_completed {n : WorkflowNode} {error : String} {q : Bool} {pc : Option FailPc}
    (h : HeadRow c s n error q s' pc) (hs : s.status n.id ≠ .completed) :
    s'.status n.id ≠ .completed := by
  cases h with
  | failed hw ha =>
      rw [Core.put_status_self]
      revert hs
      cases s.status n.id <;> simp [headStatus]
  | compensates | quarantines =>
      rw [Core.put_status_self]
      exact fun h => by cases h
  | waits | refused =>
      rw [Core.put_status_self]
      exact hs

theorem sweepNext_status {failed x : NodeId} {l : List NodeId} {pc : FailPc}
    (h : sweepNext c s failed l = (s', pc)) : s'.status x = s.status x := by
  rcases sweepNext_cases h with ⟨rfl, -⟩ | ⟨_, _, _, _, rfl, _⟩ <;> rfl

theorem sweepNext_pc {failed : NodeId} {l : List NodeId} {pc : FailPc}
    (h : sweepNext c s failed l = (s', pc)) :
    pc = .persisting ∨ ∃ id spec call rest, pc = .sweeping id spec call rest := by
  rcases sweepNext_cases h with ⟨-, rfl⟩ | ⟨id, spec, rest, _, -, rfl, _⟩
  · exact .inl rfl
  · exact .inr ⟨id, spec, _, rest, rfl⟩

/-- The rest of `failNode` writes one status: a node whose compensation has settled is rolled
    back. -/
theorem FailRow.status {n : WorkflowNode} {error : String} {a : Answer} {pc pc' : FailPc}
    (h : FailRow c s n error pc a s' pc') : s'.status n.id = s.status n.id ∨
      (s.status n.id = .compensating ∧ s'.status n.id = .rolledBack) := by
  cases h with
  | undoes => exact .inl rfl
  | rollsBack hs hsweep =>
      refine .inr ⟨hs, ?_⟩
      rw [sweepNext_status hsweep, Core.put_status_self]
  | swept hsweep => exact .inl ((sweepNext_status hsweep).trans rfl)

theorem FailRow.agrees {n : WorkflowNode} {thrown error : String} {a : Answer} {pc pc' : FailPc}
    (h : FailRow c s n error pc a s' pc') (hag : Agrees (.failing thrown error pc) (s.status n.id)) :
    Agrees (.failing thrown error pc') (s'.status n.id) := by
  cases h with
  | undoes => exact hag
  | rollsBack hs hsweep =>
      rw [sweepNext_status hsweep, Core.put_status_self]
      rcases sweepNext_pc hsweep with rfl | ⟨_, _, _, _, rfl⟩
      · exact .inr (.inr rfl)
      · rfl
  | swept hsweep =>
      rw [sweepNext_status hsweep]
      rcases sweepNext_pc hsweep with rfl | ⟨_, _, _, _, rfl⟩
      · exact .inr (.inr hag)
      · exact hag

theorem countFailure_status (s : Core) (id x : NodeId) :
    (s.countFailure id).status x = s.status x := by
  rw [Core.countFailure, Core.setNode_eq_put, Core.put_status]
  split_ifs with h
  · rw [h]
    rfl
  · rfl

section Rows

variable {f : Flight} {a : Answer} {pc pc' : FlightPc}

/-- **A stretch keeps the status and the place of its code in agreement.** -/
theorem Row.agrees (h : Row c s f pc a s' pc') (hag : Agrees pc (s.status f.node.id)) :
    Agrees pc' (s'.status f.node.id) := by
  cases h with
  | throws hpc h =>
      rcases hpc with rfl | ⟨req, rfl⟩ | ⟨req, granted, rfl⟩
      · exact .inl hag
      · exact .inr (.inl hag)
      · cases granted
        · exact .inr (.inr hag)
        · exact .inl hag
  | calls hgate h =>
      rcases hgate with ⟨rfl, -⟩ | ⟨req, rfl, -⟩ <;> exact hag
  | concludes hkind hcond hsrc hpc =>
      rw [Core.put_status_self]
      have hs : s.status f.node.id = .running := by
        rcases hsrc with ⟨rfl, -⟩ | ⟨_, _, _, rfl, -⟩ <;> exact hag
      rcases hpc with rfl | ⟨e, rfl⟩
      · exact hs
      · exact .inl hs
  | asks hs haction => exact Core.put_status_self ..
  | @answers req granted hs =>
      rw [Core.put_status_self]
      cases granted <;> rfl
  | approved hkind => exact hag
  | settles hpc =>
      rw [Core.put_status_self]
      rcases hpc with ⟨r, -, -, rfl, -⟩ | ⟨r, -, -, rfl, -⟩ | ⟨e, -, rfl⟩
      · exact hag
      · exact .inl hag
      · exact .inl hag
  | timesOut hms => exact .inl hag
  | verifies hs | retries hagain hs | resumes hs => exact Core.put_status_self ..
  | retryRefused | failRefused => trivial
  | fails hagain hq hhead =>
      have hs : headStatus ((s.countFailure f.node.id).status f.node.id) = .failed ∨
          (s.countFailure f.node.id).status f.node.id = .waiting := by
        rw [countFailure_status]
        rcases hag with h | h | h
        · exact .inl (by rw [h]; rfl)
        · exact .inr h
        · exact .inl (by rw [h]; rfl)
      cases hhead with
      | failed hw ha =>
          rw [Core.put_status_self]
          exact .inl (hs.resolve_right hw)
      | compensates => exact Core.put_status_self ..
      | quarantines => exact .inr (.inl (Core.put_status_self ..))
  | ending h => exact h.agrees hag
  | ended => trivial

/-- A stretch of `executeWithRetry` completes no node. -/
theorem Row.not_completed (h : Row c s f pc a s' pc') (hag : Agrees pc (s.status f.node.id))
    (hg : Going pc) : s'.status f.node.id ≠ .completed := by
  have hs := (hag.not_completed hg).1
  by_cases hg' : Going pc'
  · exact ((h.agrees hag).not_completed hg').1
  · cases h with
    | retryRefused =>
        rw [Core.put_status_self]
        exact hs
    | failRefused hagain hhead => exact hhead.not_completed (by rw [countFailure_status]; exact hs)
    | ended => exact hs
    | throws | calls | asks | answers | approved | timesOut | verifies | retries | fails | resumes |
      ending => exact absurd (fun e he => by cases he) hg'
    | concludes hkind hcond hsrc hpc =>
        rw [Core.put_status_self]
        exact hs
    | settles =>
        rw [Core.put_status_self]
        exact hs

/-- Only the place `rejected` has no next stretch. -/
theorem Row.going (h : Row c s f pc a s' pc') : Going pc := by
  intro e he
  subst he
  cases h with
  | throws hpc => rcases hpc with h | ⟨_, h⟩ | ⟨_, _, h⟩ <;> cases h
  | calls hgate => rcases hgate with ⟨h, -⟩ | ⟨_, h, -⟩ <;> cases h
  | concludes _ _ hsrc => rcases hsrc with ⟨h, -⟩ | ⟨_, _, _, h, -⟩ <;> cases h

end Rows

/-! ## 2. Every act and every touch keeps it -/

section Keeps

variable {n : WorkflowNode}

/-- The invariant reads statuses and the store only. -/
theorem Core.Sound.congr (hS : Core.Sound c s) (hst : ∀ x, s'.status x = s.status x)
    (hstore : s'.store = s.store) : Core.Sound c s' := by
  refine ⟨fun key f hf => ?_, fun key f hf => ?_, fun n hn hl d hd => ?_,
    fun key f hf hg d hd => ?_⟩
  · rw [hst]
    exact hS.flight key f (hstore ▸ hf)
  · rw [hstore]
    exact hS.excl key f (hstore ▸ hf)
  · rw [hst] at hl ⊢
    exact hS.live n hn hl d hd
  · rw [hst]
    exact hS.working key f (hstore ▸ hf) hg d hd

theorem Own.completed_iff {id : NodeId} (h : Own id s s') (hs : s.status id ≠ .completed)
    (hs' : s'.status id ≠ .completed) (x : NodeId) :
    s'.status x = .completed ↔ s.status x = .completed := by
  by_cases hx : x = id
  · subst hx
    exact ⟨fun h => absurd h hs', fun h => absurd h hs⟩
  · rw [h.status hx]

/-- Code of a node runs under its own key. -/
theorem Core.Sound.own_flight (hnd : (c.graph.map (·.id)).Nodup) (hS : Core.Sound c s)
    (hn : n ∈ c.graph) (hown : Own n.id s s₁)
    (hiff : ∀ x, s₁.status x = .completed ↔ s.status x = .completed)
    (hc : s.store.completed (keyOf c n) = none) {f : Flight} (hnode : f.node = n)
    (hag : Agrees f.pc (s₁.status n.id))
    (hdeps : Live (s₁.status n.id) ∨ Going f.pc → ∀ d ∈ n.deps, s.status d = .completed) :
    Core.Sound c (s₁.setFlight (keyOf c n) f) := by
  refine ⟨fun key g hg => ?_, fun key g hg => ?_, fun m hm hl d hd => ?_,
    fun key g hg hgo d hd => ?_⟩
  · rw [Core.setFlight_inFlight] at hg
    rw [Core.setFlight_status]
    split_ifs at hg with hk
    · cases hg
      subst hnode
      exact ⟨hn, hk.symm, hag⟩
    · rw [hown.store] at hg
      obtain ⟨hm, hkey, hagm⟩ := hS.flight key g hg
      refine ⟨hm, hkey, ?_⟩
      rw [hown.status (fun hid => hk (by rw [← hkey, eq_of_id_eq hnd hm hn hid]))]
      exact hagm
  · rw [Core.setFlight_inFlight] at hg
    rw [Core.setFlight_completed, hown.store]
    split_ifs at hg with hk
    · rw [hk]
      exact hc
    · exact hS.excl key g (hown.store ▸ hg)
  · rw [Core.setFlight_status] at hl ⊢
    rw [hiff]
    by_cases hid : m.id = n.id
    · obtain rfl := eq_of_id_eq hnd hm hn hid
      exact hdeps (.inl hl) d hd
    · rw [hown.status hid] at hl
      exact hS.live m hm hl d hd
  · rw [Core.setFlight_inFlight] at hg
    rw [Core.setFlight_status, hiff]
    split_ifs at hg with hk
    · cases hg
      subst hnode
      exact hdeps (.inr hgo) d hd
    · exact hS.working key g (hown.store ▸ hg) hgo d hd

/-- Code of a node runs whose execution cannot go on. -/
theorem Core.Sound.own_ended (hnd : (c.graph.map (·.id)).Nodup) (hS : Core.Sound c s)
    (hn : n ∈ c.graph) (hown : Own n.id s s₁) (hs : s.status n.id ≠ .completed)
    (hs₁ : s₁.status n.id ≠ .completed) (hend : Ended c s n)
    (hdeps : Live (s₁.status n.id) → Live (s.status n.id)) : Core.Sound c s₁ := by
  have hiff := hown.completed_iff hs hs₁
  refine ⟨fun key g hg => ?_, fun key g hg => ?_, fun m hm hl d hd => ?_,
    fun key g hg hgo d hd => ?_⟩
  · rw [hown.store] at hg
    obtain ⟨hm, hkey, hagm⟩ := hS.flight key g hg
    refine ⟨hm, hkey, ?_⟩
    by_cases hid : g.node.id = n.id
    · obtain ⟨e, he⟩ := hend.2 g (by rw [← eq_of_id_eq hnd hm hn hid, hkey]; exact hg)
      rw [he]
      trivial
    · rw [hown.status hid]
      exact hagm
  · rw [hown.store]
    exact hS.excl key g (hown.store ▸ hg)
  · rw [hiff]
    by_cases hid : m.id = n.id
    · obtain rfl := eq_of_id_eq hnd hm hn hid
      exact hS.live m hm (hdeps hl) d hd
    · rw [hown.status hid] at hl
      exact hS.live m hm hl d hd
  · rw [hiff]
    exact hS.working key g (hown.store ▸ hg) hgo d hd

theorem HeadRow.live {error : String} {q : Bool} {pc : Option FailPc}
    (h : HeadRow c s n error q s' pc) (ht : (s.status n.id).isTerminal = false)
    (hp : Live (s'.status n.id)) : Live (s.status n.id) := by
  cases h with
  | failed hw ha =>
      rw [Core.put_status_self] at hp
      revert hp ht
      cases s.status n.id <;> simp [headStatus, Live, NodeStatus.isTerminal]
  | compensates hs ha =>
      rcases headStatus_eq_failed.mp hs with h | h | h | h
      · rw [h]; trivial
      · rw [h]; trivial
      · rw [h]; trivial
      · rw [h] at ht; cases ht
  | quarantines hs =>
      rw [Core.put_status_self] at hp
      cases hp
  | waits hw =>
      rw [hw]
      trivial
  | refused hw hs =>
      rw [Core.put_status_self] at hp
      exact hp

theorem Core.Sound.touch {T : List NodeId} {q : Prop} (hq : q → Quiescent s)
    (hnd : (c.graph.map (·.id)).Nodup) (hS : Core.Sound c s) (h : Touch c T q s s') :
    Core.Sound c s' := by
  have hstore := h.sameRest.store
  have hiff : ∀ x, s'.status x = .completed ↔ s.status x = .completed := fun x =>
    Spread.completed (.single h)
  refine ⟨fun key f hf => ?_, fun key f hf => ?_, fun n hn hl d hd => ?_,
    fun key f hf hg d hd => ?_⟩
  · rw [hstore] at hf
    obtain ⟨hm, hkey, hag⟩ := hS.flight key f hf
    refine ⟨hm, hkey, ?_⟩
    rcases h.status f.node.id with hsame | ⟨hp, -⟩ | ⟨-, -, hquiet⟩
    · rw [hsame]
      exact hag
    · cases hpc : f.pc with
      | rejected e => trivial
      | _ => exact absurd hp (hag.not_completed (fun e he => by rw [hpc] at he; cases he)).2
    · obtain ⟨e, he⟩ := hq hquiet key f hf
      rw [he]
      trivial
  · rw [hstore] at hf ⊢
    exact hS.excl key f hf
  · rw [hiff]
    cases h with
    | @prepare m hm hp hdep =>
        rw [Core.put_status] at hl
        split_ifs at hl with hx
        · exact hdep d (eq_of_id_eq hnd hn hm hx ▸ hd)
        · exact hS.live n hn hl d hd
    | skip | cancel =>
        rw [Core.put_status] at hl
        split_ifs at hl with hx
        · cases hl
        · exact hS.live n hn hl d hd
    | note => exact hS.live n hn hl d hd
  · rw [hiff]
    exact hS.working key f (hstore ▸ hf) hg d hd

theorem Core.Sound.spread {T : List NodeId} {q : Prop} (hq : q → Quiescent s)
    (hnd : (c.graph.map (·.id)).Nodup) (hS : Core.Sound c s) (h : Spread c T q s s') :
    Core.Sound c s' := by
  have hall : Core.Sound c s' ∧ (q → Quiescent s') := by
    induction h with
    | refl => exact ⟨hS, hq⟩
    | tail _ ht ih =>
        refine ⟨ih.1.touch ih.2 hnd ht, fun hq' key f hf => ?_⟩
        rw [ht.sameRest.store] at hf
        exact ih.2 hq' key f hf
  exact hall.1

theorem beginAttempt_row (job : WorkflowJob) :
    (s.status n.id = .ready ∨ s.status n.id = .retrying) ∧
      (beginAttempt s n job).1.status n.id = .running ∧ (beginAttempt s n job).2 = .ran ∨
    (beginAttempt s n job).1.status n.id = s.status n.id ∧
      ∃ e, (beginAttempt s n job).2 = .rejected e := by
  by_cases h : s.status n.id = .ready ∨ s.status n.id = .retrying
  · refine .inl ⟨h, ?_⟩
    rw [beginAttempt_ok h]
    exact ⟨Core.put_status_self .., rfl⟩
  · simp only [not_or] at h
    obtain ⟨m, he⟩ := beginAttempt_refused job h.1 h.2
    refine .inr ?_
    rw [he]
    exact ⟨Core.put_status_self .., m, rfl⟩

/-- **Every act keeps the invariant.** -/
theorem Core.Sound.act {x : State} {l : Label} (hnd : (c.graph.map (·.id)).Nodup)
    (hS : Core.Sound c x.core) (h : Act c x l s₁) : Core.Sound c s₁ := by
  cases h with
  | idle => exact hS
  | @flight key f a s₂ pc hf h =>
      obtain ⟨hn, hkey, hag⟩ := hS.flight key f hf
      have hdeps := hS.working key f hf h.going
      have hs := (hag.not_completed h.going).1
      rw [← hkey]
      exact hS.own_flight hnd hn h.own (h.own.completed_iff hs (h.not_completed hag h.going))
        (hkey ▸ hS.excl key f hf) rfl (h.agrees hag) (fun _ => hdeps)
  | @settles key f r hf hpc =>
      obtain ⟨hn, hkey, hag⟩ := hS.flight key f hf
      refine ⟨fun k g hg => ?_, fun k g hg => ?_, hS.live, fun k g hg => ?_⟩
      · simp only [IdempotencyStore.settle] at hg
        split_ifs at hg with hk
        exact hS.flight k g hg
      · simp only [IdempotencyStore.settle] at hg ⊢
        split_ifs at hg ⊢ with hk
        exact hS.excl k g hg
      · simp only [IdempotencyStore.settle] at hg
        split_ifs at hg with hk
        exact hS.working k g hg
  | @begins i n job x₀ hh hn hid hkey hc hf =>
      have hrow := beginAttempt_row (s := x.core) (n := n) job
      rw [hkey] at hc ⊢
      rcases hrow with ⟨hs, hs₁, hpc⟩ | ⟨hs₁, e, hpc⟩
      · have hdeps : ∀ d ∈ n.deps, x.core.status d = .completed :=
          hS.live n hn (by rcases hs with h | h <;> rw [h] <;> trivial)
        refine hS.own_flight hnd hn beginAttempt_own (beginAttempt_own.completed_iff ?_ ?_) hc rfl ?_
          (fun _ => hdeps)
        · rcases hs with h | h <;> rw [h] <;> decide
        · rw [hs₁]
          decide
        · rw [hpc]
          exact hs₁
      · have hsame : ∀ y, (beginAttempt x.core n job).1.status y = x.core.status y := fun y => by
          by_cases hy : y = n.id
          · rw [hy, hs₁]
          · exact beginAttempt_own.status hy
        refine hS.own_flight hnd hn beginAttempt_own (fun y => by rw [hsame]) hc rfl ?_ ?_
        · rw [hpc]
          trivial
        · rintro (hl | hg)
          · rw [hs₁] at hl
            exact hS.live n hn hl
          · exact absurd hpc (hg e)
  | @completes i n r hn hr hs =>
      have hnone : x.core.store.inFlight (keyOf c n) = none := by
        cases hf : x.core.store.inFlight (keyOf c n) with
        | none => rfl
        | some f =>
            have := hS.excl _ f hf
            rw [hr] at this
            cases this
      have hst : ∀ y, y ≠ n.id → (doneCore c x.core n r).status y = x.core.status y := fun y hy => by
        rw [doneCore_status, if_neg hy]
      have hself : (doneCore c x.core n r).status n.id = .completed := by
        rw [doneCore_status, if_pos rfl]
      have hmono : ∀ y, x.core.status y = .completed →
          (doneCore c x.core n r).status y = .completed := by
        intro y hy
        by_cases hyn : y = n.id
        · rw [hyn]
          exact hself
        · rw [hst y hyn]
          exact hy
      refine ⟨fun k g hg => ?_, hS.excl, fun m hm hl d hd => ?_, fun k g hg hgo d hd => ?_⟩
      · obtain ⟨hm, hkey, hag⟩ := hS.flight k g hg
        refine ⟨hm, hkey, ?_⟩
        rw [hst _ (fun hid => ?_)]
        · exact hag
        · rw [← eq_of_id_eq hnd hm hn hid, hkey] at hnone
          exact absurd (hnone.symm.trans hg) (by simp)
      · refine hmono d ?_
        by_cases hid : m.id = n.id
        · rw [hid, hself] at hl
          cases hl
        · rw [hst _ hid] at hl
          exact hS.live m hm hl d hd
      · exact hmono d (hS.working k g hg hgo d hd)
  | @givesUp i job n d stored error core s₁ pc hw hn hend ht hcore hcaught h =>
      have hs : x.core.status n.id ≠ .completed := fun h => by
        rw [show x.status n.id = .completed from h] at ht
        cases ht
      have hcs : core.status n.id = x.core.status n.id := by rcases hcore with rfl | rfl <;> rfl
      have hown : Own n.id x.core core := by
        rcases hcore with rfl | rfl
        · exact .refl _ _
        · exact .observe _ _ _
      refine hS.own_ended hnd hn (hown.trans h.own) hs (h.not_completed (by rw [hcs]; exact hs)) hend
        fun hl => ?_
      rw [← hcs]
      exact h.live (by rw [hcs]; exact ht) hl
  | @ending i job n error a s₁ pc pc' hw hn hend h =>
      rcases h.status with hsame | ⟨hs, hs₁⟩
      · refine hS.congr (fun y => ?_) h.own.store
        by_cases hy : y = n.id
        · rw [hy, hsame]
        · exact h.own.status hy
      · refine hS.own_ended hnd hn h.own (by rw [hs]; decide) (by rw [hs₁]; decide) hend fun hl => ?_
        rw [hs₁] at hl
        cases hl
  | endRefused hw hn hs =>
      refine hS.congr (fun y => ?_) rfl
      rw [Core.put_status]
      split_ifs with hy
      · rw [hy]
        rfl
      · rfl
  | late => exact hS.congr (fun _ => rfl) rfl
  | world => exact hS.congr (fun _ => rfl) rfl

end Keeps

end CoreSound

/-! ## 3. The store only grows -/

/-- A key the store has seen. -/
def Known (s : Core) (key : String) : Prop :=
  (∃ r, s.store.completed key = some r) ∨ ∃ f, s.store.inFlight key = some f

/-- Under `key` no execution can go on. -/
def Still (s : Core) (key : String) : Prop :=
  ∀ f, s.store.inFlight key = some f → ∃ e, f.pc = .rejected e

/-- What is done stays done, and what is known stays known. -/
structure Grows (s s' : Core) : Prop where
  completed : ∀ key r, s.store.completed key = some r → s'.store.completed key = some r
  known : ∀ key, Known s key → Known s' key
  still : ∀ key, Known s key → Still s key → Still s' key

section Growth

variable {c : Context} {s s' s₁ : Core} {l : Label}

theorem Grows.of_eq (h : s'.store = s.store) : Grows s s' :=
  ⟨fun key r hr => by rw [h]; exact hr, fun key hk => by unfold Known; rw [h]; exact hk,
    fun key _ hs => by unfold Still; rw [h]; exact hs⟩

theorem Grows.trans {s₂ : Core} (h : Grows s s₁) (h' : Grows s₁ s₂) : Grows s s₂ :=
  ⟨fun key r hr => h'.completed key r (h.completed key r hr),
    fun key hk => h'.known key (h.known key hk),
    fun key hk hs => h'.still key (h.known key hk) (h.still key hk hs)⟩

theorem known_setFlight (s : Core) (key : String) (f : Flight) : Known (s.setFlight key f) key :=
  .inr ⟨f, by rw [Core.setFlight_inFlight, if_pos rfl]⟩

theorem Known.setFlight {k key : String} {f : Flight} (hk : Known s k)
    (hstore : s₁.store = s.store) : Known (s₁.setFlight key f) k := by
  by_cases hkk : k = key
  · rw [hkk]
    exact known_setFlight s₁ key f
  · rcases hk with ⟨r, hr⟩ | ⟨g, hg⟩
    · exact .inl ⟨r, by rw [Core.setFlight_completed, hstore]; exact hr⟩
    · exact .inr ⟨g, by rw [Core.setFlight_inFlight, if_neg hkk, hstore]; exact hg⟩

/-- Writing an execution under a key that was not still, or not known. -/
theorem Grows.setFlight {key : String} {f : Flight} (hstore : s₁.store = s.store)
    (hkey : Known s key → ¬ Still s key) : Grows s (s₁.setFlight key f) := by
  refine ⟨fun k r hr => ?_, fun k hk => hk.setFlight hstore, fun k hk hs g hg => ?_⟩
  · rw [Core.setFlight_completed, hstore]
    exact hr
  · by_cases hkk : k = key
    · subst hkk
      exact absurd hs (hkey hk)
    · rw [Core.setFlight_inFlight, if_neg hkk, hstore] at hg
      exact hs g hg

theorem Act.grows {x : State} (hS : Core.Sound c x.core) (h : Act c x l s₁) :
    Grows x.core s₁ := by
  cases h with
  | flight hf h =>
      refine .setFlight h.own.store fun _ hs => ?_
      obtain ⟨e, he⟩ := hs _ hf
      exact h.going e he
  | @settles key f r hf hpc =>
      refine ⟨fun k r' hr => ?_, fun k hk => ?_, fun k hk hs g hg => ?_⟩
      · simp only [IdempotencyStore.settle]
        split_ifs with hkk
        · rw [hkk, hS.excl key f hf] at hr
          cases hr
        · exact hr
      · by_cases hkk : k = key
        · exact .inl ⟨r, by simp [IdempotencyStore.settle, hkk]⟩
        · rcases hk with ⟨r', hr⟩ | ⟨g, hg⟩
          · exact .inl ⟨r', by simp [IdempotencyStore.settle, hkk, hr]⟩
          · exact .inr ⟨g, by simp [IdempotencyStore.settle, hkk, hg]⟩
      · simp only [IdempotencyStore.settle] at hg
        split_ifs at hg with hkk
        exact hs g hg
  | begins hh hn hid hkey hc hf =>
      refine .setFlight beginAttempt_own.store fun hk => ?_
      rcases hk with ⟨r, hr⟩ | ⟨g, hg⟩
      · rw [hc] at hr
        cases hr
      · rw [hf] at hg
        cases hg
  | givesUp hw hn hend ht hcore hcaught h =>
      refine .of_eq ?_
      rw [h.own.store]
      rcases hcore with rfl | rfl <;> rfl
  | ending hw hn hend h => exact .of_eq h.own.store
  | idle | completes | endRefused | late | world => exact .of_eq rfl

end Growth

/-! ## 4. The invariant of the machine -/

/-- A job of the node `n`. -/
def JobOf (c : Context) (job : WorkflowJob) (n : WorkflowNode) : Prop :=
  n ∈ c.graph ∧ job.nodeId = n.id ∧ job.idempotencyKey = keyOf c n

/-- What a worker relies on. -/
def WorkerOk (c : Context) (s : Core) : Worker → Prop
  | .seat job n => JobOf c job n
  | .holding job n _ stored =>
      JobOf c job n ∧ (∀ r, stored = some r → s.store.completed job.idempotencyKey = some r) ∧
        Known s job.idempotencyKey
  | .failing job n _ _ => JobOf c job n ∧ Known s job.idempotencyKey ∧ Still s job.idempotencyKey
  | _ => True

/-- The jobs an enqueuing drive loop has still to hand over, and the one it has just handed. -/
def Drive.jobs : Drive → List WorkflowJob
  | .enqueuing job rest => job :: rest
  | _ => []

/-- What the queue and the drive loop hold are jobs of the run, and outside a dispatch every
    worker has finished. -/
structure Orderly (c : Context) (s : State) : Prop where
  jobs : ∀ job, job ∈ s.queue ∨ job ∈ s.enqueued ∨ job ∈ s.drive.jobs → ∃ n, JobOf c job n
  resting : s.drive ≠ .dispatching → (∀ e, s.drive ≠ .aborted e) → ∀ w ∈ s.workers, w = .finished

/-- And the workers and the queue agree with both. -/
structure State.Sound (c : Context) (s : State) : Prop where
  core : Core.Sound c s.core
  orderly : Orderly c s
  workers : ∀ w ∈ s.workers, WorkerOk c s.core w
  held : ∀ key f, s.core.store.inFlight key = some f → Going f.pc →
    ∃ job n d, .holding job n d none ∈ s.workers ∧ job.idempotencyKey = key

/-- Nodes may be cancelled: by the drive loop, once every worker has finished. -/
def MayCancel (s : State) (l : Label) (s₁ : Core) : Prop :=
  Quiescent s₁ ∧ l = .drive ∧ ∀ w ∈ s.workers, w = .finished

/-- One machine step as the shared state sees it: a write, the touches behind it, and possibly a
    skip that was refused. -/
def CoreStep (c : Context) (s : State) (l : Label) (s' : Core) : Prop :=
  ∃ s₁ s₂ T q, Act c s l s₁ ∧ (q → MayCancel s l s₁) ∧ Spread c T q s₁ s₂ ∧
    (s' = s₂ ∨ ∃ id st, st ≠ .planned ∧ s' = s₂.observe (.illegal id st .skip))

section Machine

variable {c : Context} {s s' : State} {l : Label} {i : Nat} {a : Answer}

theorem Act.coreStep {y : Core} (h : Act c s l y) : CoreStep c s l y :=
  ⟨y, y, [], False, h, False.elim, .refl, .inl rfl⟩

theorem Spread.coreStep {y : Core} {T : List NodeId} {q : Prop}
    (h : Spread c T q s.core y) (hq : q → MayCancel s l s.core) : CoreStep c s l y :=
  ⟨s.core, y, T, q, .idle, hq, h, .inl rfl⟩

/-- With all workers finished nothing in flight can go on. -/
theorem State.Sound.quiescent (hS : State.Sound c s) (hall : ∀ w ∈ s.workers, w = .finished) :
    Quiescent s.core := by
  intro key f hf
  by_contra hno
  obtain ⟨job, n, d, hw, -⟩ := hS.held key f hf fun e he => hno ⟨e, he⟩
  cases hall _ hw

theorem Loop.spread (h : Loop c s s') : Spread c [] True s.core s'.core := by
  cases h with
  | cancels hc he => exact ((cancelAll_spread trivial).1).tail (.note he trivial)
  | finishes hc hr he => exact .single (.note he trivial)
  | enqueues hc hr => exact .refl

theorem DriveMove.core (hS : State.Sound c s) (h : DriveMove c s s') :
    CoreStep c s .drive s'.core := by
  cases h with
  | starts hd h =>
      have hrest := hS.orderly.resting (by rw [hd]; exact fun h => by cases h)
        (fun e => by rw [hd]; exact fun h => by cases h)
      have hsp : Spread c [] True s.core (promoteReady c s.core) := promoteReady_spread
      exact Spread.coreStep (hsp.trans h.spread) fun _ => ⟨hS.quiescent hrest, rfl, hrest⟩
  | loops hd hall h => exact Spread.coreStep h.spread fun _ => ⟨hS.quiescent hall, rfl, hall⟩
  | emits hd | enqueues hd =>
      have hrest := hS.orderly.resting (by rw [hd]; exact fun h => by cases h)
        (fun e => by rw [hd]; exact fun h => by cases h)
      exact Spread.coreStep (T := []) (.single (.note trivial trivial))
        fun _ => ⟨hS.quiescent hrest, rfl, hrest⟩
  | aborts | dispatches | resolves => exact Act.idle.coreStep

theorem InHand.core {job : WorkflowJob} {n : WorkflowNode} {s₀ : State}
    (h : InHand c s i job n s₀) : s₀.core = s.core := by
  cases h <;> rfl

theorem InHand.jobOf {job : WorkflowJob} {n : WorkflowNode} {s₀ : State} (hS : State.Sound c s)
    (hnd : (c.graph.map (·.id)).Nodup) (h : InHand c s i job n s₀) : JobOf c job n := by
  cases h with
  | dequeued hw hc hq hn =>
      obtain ⟨m, hm, hid, hkey⟩ := hS.orderly.jobs job (.inl (by rw [hq]; exact List.mem_cons_self))
      rw [hid, nodeById_of_mem hnd hm] at hn
      obtain rfl := Option.some.inj hn
      exact ⟨hm, hid, hkey⟩
  | seated hw => exact hS.workers _ (List.mem_of_getElem? hw)

theorem Caught.ended {job : WorkflowJob} {n : WorkflowNode} {d : Bool} {stored : Option NodeResult}
    {core : Core} {error : String} (hS : State.Sound c s)
    (hok : WorkerOk c s.core (.holding job n d stored))
    (h : Caught s.core job n stored core error) :
    Known s.core job.idempotencyKey ∧ Still s.core job.idempotencyKey ∧
      (core = s.core ∨ core = s.core.observe (.illegal n.id (s.core.status n.id) .complete)) := by
  refine ⟨hok.2.2, ?_, ?_⟩
  · intro f hf
    cases h with
    | refused hr =>
        have hcomp : s.core.store.completed job.idempotencyKey ≠ none := by
          rcases hr with hr | ⟨-, hr⟩
          · rw [hok.2.1 _ hr]
            simp
          · rw [hr]
            simp
        exact absurd (hS.core.excl _ f hf) hcomp
    | rejected hst hc hf' hpc =>
        rw [hf'] at hf
        cases hf
        exact ⟨_, hpc⟩
  · cases h with
    | refused => exact .inr rfl
    | rejected => exact .inl rfl

theorem JobOf.ended {job : WorkflowJob} {n : WorkflowNode} {x : Core} (h : JobOf c job n)
    (hk : Known x job.idempotencyKey) (hs : Still x job.idempotencyKey) : Ended c x n := by
  rw [h.2.2] at hk hs
  exact ⟨hk, hs⟩

/-- A worker's step is one act; after the completion of a node the next ones are promoted. -/
theorem WorkerMove.act (hS : State.Sound c s) (hnd : (c.graph.map (·.id)).Nodup)
    (h : WorkerMove c s i a s') : ∃ y, Act c s (.worker i a) y ∧
      (s'.core = y ∨ s'.core = promoteReady c y) := by
  cases h with
  | stops | drops | joins | passes | ended => exact ⟨_, .idle, .inl rfl⟩
  | waits hh hfull => exact ⟨_, .idle, .inl hh.core⟩
  | begins hh hacq hc hf =>
      obtain ⟨hn, hid, hkey⟩ := hh.jobOf hS hnd
      exact ⟨_, .begins hh hn hid hkey hc hf, .inl rfl⟩
  | @completes job n d stored r k hw hr hs =>
      obtain ⟨⟨hn, hid, hkey⟩, hst, hk⟩ := hS.workers _ (List.mem_of_getElem? hw)
      have hcomp : s.core.store.completed (keyOf c n) = some r := by
        rw [← hkey]
        rcases hr with hr | ⟨-, hr⟩
        · exact hst r hr
        · exact hr
      exact ⟨_, .completes hn hcomp hs, .inr rfl⟩
  | leaves hw h ht =>
      cases h with
      | refused hr ht' =>
          have hfalse : (s.status _).isTerminal = false := ht'
          rw [ht] at hfalse
          cases hfalse
      | rejected => exact ⟨_, .idle, .inl rfl⟩
  | givesUp hw h ht hrow | dies hw h ht hrow =>
      have hok := hS.workers _ (List.mem_of_getElem? hw)
      obtain ⟨hk, hs, hcore⟩ := h.ended hS hok
      exact ⟨_, .givesUp hw hok.1.1 (hok.1.ended hk hs) ht hcore h hrow, .inl rfl⟩
  | ending hw h =>
      obtain ⟨hjob, hk, hs⟩ := hS.workers _ (List.mem_of_getElem? hw)
      exact ⟨_, .ending hw hjob.1 (hjob.ended hk hs) h, .inl rfl⟩
  | endRefused hw hs =>
      obtain ⟨hjob, -⟩ := hS.workers _ (List.mem_of_getElem? hw)
      exact ⟨_, .endRefused hw hjob.1 hs, .inl rfl⟩

theorem WorkerMove.core (hS : State.Sound c s) (hnd : (c.graph.map (·.id)).Nodup)
    (h : WorkerMove c s i a s') : CoreStep c s (.worker i a) s'.core := by
  obtain ⟨y, hact, hy | hy⟩ := h.act hS hnd
  · rw [hy]
    exact hact.coreStep
  · rw [hy]
    exact ⟨y, _, [], False, hact, False.elim, promoteReady_spread, .inl rfl⟩

theorem flightStep_core {y : Core} {key : String} (hS : Core.Sound c s.core)
    (h : flightStep c s.core key a = some y) : CoreStep c s (.flight key a) y := by
  unfold flightStep at h
  split at h
  · cases h
  · rename_i f hf
    split at h
    · rename_i r hpc
      cases h
      exact (Act.settles hf hpc).coreStep
    · obtain ⟨⟨z, pc⟩, hnext, rfl⟩ := Option.map_eq_some_iff.mp h
      obtain ⟨z₁, hrow, hend⟩ := flightNext_ends (hS.flight key f hf).2.2 hnext
      have hact := Act.flight hf hrow
      rcases hend with rfl | ⟨cond, source, -, -, -, hconc⟩
      · exact hact.coreStep
      · rcases conclude_spread (q := False) hconc with ⟨-, hsp⟩ | ⟨e, -, z₂, m, -, hsp, hp, -, -, rfl⟩
        · exact ⟨_, _, _, _, hact, False.elim, hsp.setFlight key _, .inl rfl⟩
        · exact ⟨_, _, _, _, hact, False.elim, hsp.setFlight key _, .inr ⟨m.id, _, hp, rfl⟩⟩

/-- **Every machine step is a step of the shared state.** -/
theorem step_core (hS : State.Sound c s) (hnd : (c.graph.map (·.id)).Nodup)
    (h : step c s l = some s') : CoreStep c s l s'.core := by
  cases l with
  | drive => exact (driveStep_move h).core hS
  | worker i a => exact (workerStep_move h).core hS hnd
  | flight key a =>
      obtain ⟨y, hy, rfl⟩ := Option.map_eq_some_iff.mp h
      exact flightStep_core hS.core hy
  | late call o =>
      obtain ⟨y, hy, rfl⟩ := Option.map_eq_some_iff.mp h
      unfold lateStep at hy
      split at hy
      · cases hy
      · rename_i k id hfind
        cases hy
        have hcall : k = call := by simpa using List.find?_some hfind
        have hmem := List.mem_of_find?_eq_some hfind
        rw [hcall] at hmem
        exact (Act.late hmem).coreStep
  | redeliver j at_ =>
      obtain ⟨job, -, rfl⟩ := Option.map_eq_some_iff.mp h
      exact Act.idle.coreStep
  | cancel reason =>
      cases h
      exact Act.idle.coreStep
  | world w =>
      cases h
      exact Act.world.coreStep

/-- **What one step keeps**: it is kept by the write, by every touch and by a refused skip. -/
theorem CoreStep.keeps {I : Core → Prop} {y : Core} (hnd : (c.graph.map (·.id)).Nodup)
    (hS : Core.Sound c s.core) (h : CoreStep c s l y) (hact : ∀ z, Act c s l z → I z)
    (htouch : ∀ z z' T q, Core.Sound c z → (q → MayCancel s l z) → I z →
      Touch c T q z z' → I z')
    (hrefused : ∀ z id st, st ≠ .planned → I z → I (z.observe (.illegal id st .skip))) : I y := by
  obtain ⟨x₁, x₂, T, q, ha, hq, hsp, hlast⟩ := h
  have hall : Core.Sound c x₂ ∧ I x₂ ∧ (q → MayCancel s l x₂) := by
    clear hlast
    induction hsp with
    | refl => exact ⟨hS.act hnd ha, hact _ ha, hq⟩
    | tail _ ht ih =>
        obtain ⟨hSz, hI, hqz⟩ := ih
        refine ⟨hSz.touch (fun hq' => (hqz hq').1) hnd ht, htouch _ _ T q hSz hqz hI ht,
          fun hq' => ⟨fun key f hf => ?_, (hqz hq').2⟩⟩
        rw [ht.sameRest.store] at hf
        exact (hqz hq').1 key f hf
  rcases hlast with rfl | ⟨id, st, hst, rfl⟩
  · exact hall.2.1
  · exact hrefused _ _ _ hst hall.2.1

theorem CoreStep.sound {y : Core} (hnd : (c.graph.map (·.id)).Nodup) (hS : Core.Sound c s.core)
    (h : CoreStep c s l y) : Core.Sound c y :=
  h.keeps hnd hS (fun _ => hS.act hnd) (fun _ _ _ _ hz hq _ ht => hz.touch (fun h => (hq h).1) hnd ht)
    (fun _ _ _ _ hz => hz.congr (fun _ => rfl) rfl)

theorem CoreStep.grows {y : Core} (hnd : (c.graph.map (·.id)).Nodup) (hS : Core.Sound c s.core)
    (h : CoreStep c s l y) : Grows s.core y :=
  h.keeps hnd hS (fun _ ha => ha.grows hS)
    (fun _ _ _ _ _ _ hz ht => hz.trans (.of_eq ht.sameRest.store))
    (fun _ _ _ _ hz => hz.trans (.of_eq rfl))

theorem WorkerOk.mono {x y : Core} {w : Worker} (h : Grows x y) (hw : WorkerOk c x w) :
    WorkerOk c y w := by
  cases w with
  | holding job n d stored =>
      exact ⟨hw.1, fun r hr => h.completed _ _ (hw.2.1 r hr), h.known _ hw.2.2⟩
  | failing job n e pc => exact ⟨hw.1, h.known _ hw.2.1, h.still _ hw.2.1 hw.2.2⟩
  | _ => exact hw

theorem toJob_jobOf {x : Core} {n : WorkflowNode} (hn : n ∈ c.graph) : JobOf c (toJob c x n) n :=
  ⟨hn, rfl, rfl⟩

theorem Loop.orderly (hjobs : ∀ job, job ∈ s.queue ∨ job ∈ s.enqueued → ∃ n, JobOf c job n)
    (hrest : ∀ w ∈ s.workers, w = .finished) (h : Loop c s s') :
    Orderly c s' ∧ s'.workers = s.workers := by
  cases h with
  | cancels | finishes =>
      refine ⟨⟨fun job hj => hjobs job ?_, fun _ _ => hrest⟩, rfl⟩
      rcases hj with hj | hj | hj
      · exact .inl hj
      · exact .inr hj
      · cases hj
  | @enqueues n rest hc hr =>
      have hmem : ∀ m ∈ n :: rest, m ∈ c.graph := fun m hm =>
        (List.mem_filter.mp (hr ▸ hm : m ∈ c.graph.filter _)).1
      have hfirst : ∃ m, JobOf c (toJob c s.core n) m :=
        ⟨n, toJob_jobOf (hmem n List.mem_cons_self)⟩
      refine ⟨⟨fun job hj => ?_, fun _ _ => hrest⟩, rfl⟩
      rcases hj with hj | hj | hj
      · rcases List.mem_append.mp hj with hj | hj
        · exact hjobs job (.inl hj)
        · rw [List.mem_singleton.mp hj]
          exact hfirst
      · rcases List.mem_append.mp hj with hj | hj
        · exact hjobs job (.inr hj)
        · rw [List.mem_singleton.mp hj]
          exact hfirst
      · rcases List.mem_cons.mp hj with rfl | hj
        · exact hfirst
        · obtain ⟨m, hm, rfl⟩ := List.mem_map.mp hj
          exact ⟨m, toJob_jobOf (hmem m (List.mem_cons_of_mem _ hm))⟩

theorem Orderly.rest {d : Drive} (h : Orderly c s) (hd : s.drive = d) (h₁ : d ≠ .dispatching)
    (h₂ : ∀ e, d ≠ .aborted e) : ∀ w ∈ s.workers, w = .finished :=
  h.resting (by rw [hd]; exact h₁) (fun e => by rw [hd]; exact h₂ e)

theorem Orderly.drive (ho : Orderly c s) (h : DriveMove c s s') :
    Orderly c s' ∧ (s'.workers = s.workers ∨
      ((∀ w ∈ s.workers, w = .finished) ∧ ∀ w ∈ s'.workers, w = .idle)) := by
  have hjobs : ∀ job, job ∈ s.queue ∨ job ∈ s.enqueued → ∃ n, JobOf c job n :=
    fun job hj => ho.jobs job (hj.imp_right .inl)
  cases h with
  | starts hd h =>
      obtain ⟨hs, hw⟩ := Loop.orderly (s := { s with core := promoteReady c s.core }) hjobs
        (ho.rest hd (by simp) (by simp)) h
      exact ⟨hs, .inl hw⟩
  | loops hd hall h =>
      obtain ⟨hs, hw⟩ := h.orderly hjobs hall
      exact ⟨hs, .inl hw⟩
  | aborts hd hw =>
      refine ⟨⟨fun job hj => hjobs job ?_, fun _ h => absurd rfl (h _)⟩, .inl rfl⟩
      rcases hj with hj | hj | hj
      · exact .inl hj
      · exact .inr hj
      · cases hj
  | emits hd =>
      refine ⟨⟨fun job hj => hjobs job ?_, fun _ _ => ho.rest hd (by simp) (by simp)⟩, .inl rfl⟩
      rcases hj with hj | hj | hj
      · exact .inl hj
      · exact .inr hj
      · cases hj
  | @enqueues job next rest hd =>
      have hnext : ∃ n, JobOf c next n :=
        ho.jobs next (.inr (.inr (by rw [hd]; simp [Drive.jobs])))
      refine ⟨⟨fun j hj => ?_, fun _ _ => ho.rest hd (by simp) (by simp)⟩, .inl rfl⟩
      rcases hj with hj | hj | hj
      · rcases List.mem_append.mp hj with hj | hj
        · exact hjobs j (.inl hj)
        · rw [List.mem_singleton.mp hj]
          exact hnext
      · rcases List.mem_append.mp hj with hj | hj
        · exact hjobs j (.inr hj)
        · rw [List.mem_singleton.mp hj]
          exact hnext
      · refine ho.jobs j (.inr (.inr ?_))
        rw [hd]
        exact List.mem_cons_of_mem _ hj
  | dispatches hd =>
      refine ⟨⟨fun job hj => hjobs job ?_, fun h _ => absurd rfl h⟩,
        .inr ⟨ho.rest hd (by simp) (by simp), fun w hw => (List.mem_replicate.mp hw).2⟩⟩
      rcases hj with hj | hj | hj
      · exact .inl hj
      · exact .inr hj
      · cases hj
  | resolves hd =>
      refine ⟨⟨fun job hj => hjobs job ?_, fun _ _ => ho.rest hd (by simp) (by simp)⟩, .inl rfl⟩
      rcases hj with hj | hj | hj
      · exact .inl hj
      · exact .inr hj
      · cases hj

/-- What a worker move does to the workers, the queue and the drive loop: the entry of the worker
    was not `finished`, and it alone is replaced. -/
theorem WorkerMove.frame (h : WorkerMove c s i a s') : ∃ old new, s.workers[i]? = some old ∧
    old ≠ .finished ∧ s'.workers = s.workers.set i new ∧ s'.queue ⊆ s.queue ∧
    s'.enqueued = s.enqueued ∧ s'.drive = s.drive ∧ s'.cancelled = s.cancelled := by
  have hinhand : ∀ {job n s₀}, InHand c s i job n s₀ → ∃ old, s.workers[i]? = some old ∧
      old ≠ .finished ∧ (∀ w, s₀.workers.set i w = s.workers.set i w) ∧ s₀.queue ⊆ s.queue ∧
      s₀.enqueued = s.enqueued ∧ s₀.drive = s.drive ∧ s₀.cancelled = s.cancelled := by
    intro job n s₀ hh
    cases hh with
    | dequeued hw hc hq hn =>
        exact ⟨_, hw, by simp, fun _ => rfl, by rw [hq]; exact List.subset_cons_self _ _,
          rfl, rfl, rfl⟩
    | seated hw => exact ⟨_, hw, by simp, fun _ => rfl, List.Subset.refl _, rfl, rfl, rfl⟩
  cases h with
  | stops hw h => exact ⟨_, _, hw, by simp, rfl, List.Subset.refl _, rfl, rfl, rfl⟩
  | drops hw hq hn =>
      exact ⟨_, _, hw, by simp, rfl, by rw [hq]; exact List.subset_cons_self _ _, rfl, rfl, rfl⟩
  | waits hh | joins hh | begins hh =>
      obtain ⟨old, hw, hne, hws, hq, he, hd, hc⟩ := hinhand hh
      exact ⟨old, _, hw, hne, hws _, hq, he, hd, hc⟩
  | passes hw | completes hw | leaves hw | givesUp hw | dies hw | ending hw | ended hw
  | endRefused hw => exact ⟨_, _, hw, by simp, rfl, List.Subset.refl _, rfl, rfl, rfl⟩

theorem Orderly.worker (ho : Orderly c s) (h : WorkerMove c s i a s') : Orderly c s' := by
  obtain ⟨old, new, hw, hne, hws, hq, he, hd, -⟩ := h.frame
  refine ⟨fun job hj => ho.jobs job ?_, fun h₁ h₂ => ?_⟩
  · rw [he, hd] at hj
    exact hj.imp_left (fun hj => hq hj)
  · rw [hd] at h₁ h₂
    exact absurd (ho.resting h₁ h₂ old (List.mem_of_getElem? hw)) hne

theorem Orderly.step (ho : Orderly c s) (h : step c s l = some s') : Orderly c s' := by
  cases l with
  | drive => exact (ho.drive (driveStep_move h)).1
  | worker i a => exact ho.worker (workerStep_move h)
  | flight key a =>
      obtain ⟨y, hy, rfl⟩ := Option.map_eq_some_iff.mp h
      exact ⟨ho.jobs, ho.resting⟩
  | late call o =>
      obtain ⟨y, hy, rfl⟩ := Option.map_eq_some_iff.mp h
      exact ⟨ho.jobs, ho.resting⟩
  | redeliver j at_ =>
      obtain ⟨job, hj, rfl⟩ := Option.map_eq_some_iff.mp h
      refine ⟨fun k hk => ho.jobs k ?_, ho.resting⟩
      rcases hk with hk | hk
      · rcases List.eq_or_mem_of_mem_insertIdx hk with rfl | hk
        · exact .inr (.inl (List.mem_of_getElem? hj))
        · exact .inl hk
      · exact .inr hk
  | cancel reason =>
      cases h
      exact ⟨ho.jobs, ho.resting⟩
  | world w =>
      cases h
      exact ⟨ho.jobs, ho.resting⟩

/-- The head of the drive loop hands over jobs made of its nodes. -/
theorem Loop.handed {P : WorkflowJob → Prop} (h : Loop c s s') (hto : ∀ n, P (toJob c s.core n))
    (hold : ∀ job ∈ s.enqueued, P job) {job : WorkflowJob}
    (hj : job ∈ s'.enqueued ∨ job ∈ s'.drive.jobs) : P job := by
  cases h with
  | cancels | finishes =>
      rcases hj with hj | hj
      · exact hold job hj
      · cases hj
  | enqueues =>
      rcases hj with hj | hj
      · rcases List.mem_append.mp hj with hj | hj
        · exact hold job hj
        · rw [List.mem_singleton.mp hj]
          exact hto _
      · rcases List.mem_cons.mp hj with rfl | hj
        · exact hto _
        · obtain ⟨n, -, rfl⟩ := List.mem_map.mp hj
          exact hto n

theorem DriveMove.handed {P : WorkflowJob → Prop} (h : DriveMove c s s')
    (hto : ∀ n x, x = s.core ∨ x = promoteReady c s.core → P (toJob c x n))
    (hold : ∀ job, job ∈ s.enqueued ∨ job ∈ s.drive.jobs → P job) {job : WorkflowJob}
    (hj : job ∈ s'.enqueued ∨ job ∈ s'.drive.jobs) : P job := by
  cases h with
  | starts hd hl => exact hl.handed (fun n => hto n _ (.inr rfl)) (fun j hj => hold j (.inl hj)) hj
  | loops hd hall hl => exact hl.handed (fun n => hto n _ (.inl rfl)) (fun j hj => hold j (.inl hj)) hj
  | enqueues hd =>
      refine hold job ?_
      rw [hd]
      rcases hj with hj | hj
      · rcases List.mem_append.mp hj with hj | hj
        · exact .inl hj
        · exact .inr (by simp [Drive.jobs, List.mem_singleton.mp hj])
      · exact .inr (List.mem_cons_of_mem _ hj)
  | aborts | emits | dispatches | resolves =>
      rcases hj with hj | hj
      · exact hold job (.inl hj)
      · cases hj

/-- **What every job has**: the jobs of an executor are made of its nodes. -/
theorem step_handed {P : WorkflowJob → Prop} (hs : step c s l = some s')
    (hto : ∀ n x, x = s.core ∨ x = promoteReady c s.core → P (toJob c x n))
    (hold : ∀ job, job ∈ s.enqueued ∨ job ∈ s.drive.jobs → P job) {job : WorkflowJob}
    (hj : job ∈ s'.enqueued ∨ job ∈ s'.drive.jobs) : P job := by
  have hstay : s'.enqueued = s.enqueued → s'.drive = s.drive → P job := by
    intro he hd
    rw [he, hd] at hj
    exact hold job hj
  cases l with
  | drive => exact (driveStep_move hs).handed hto hold hj
  | worker i a =>
      obtain ⟨-, -, -, -, -, -, he, hd, -⟩ := (workerStep_move hs).frame
      exact hstay he hd
  | flight | late | redeliver =>
      obtain ⟨_, -, rfl⟩ := Option.map_eq_some_iff.mp hs
      exact hstay rfl rfl
  | cancel | world =>
      cases hs
      exact hstay rfl rfl

/-- The new entry of a worker relies on what is there. -/
theorem WorkerMove.workerOk (hS : State.Sound c s) (hnd : (c.graph.map (·.id)).Nodup)
    (h : WorkerMove c s i a s') (hg : Grows s.core s'.core) :
    ∀ w ∈ s'.workers, WorkerOk c s'.core w := by
  have hold : ∀ {ws : List Worker} {new : Worker}, s.workers = ws → WorkerOk c s'.core new →
      ∀ w ∈ ws.set i new, WorkerOk c s'.core w := by
    intro ws new hws hnew w hw
    rcases List.mem_or_eq_of_mem_set hw with hw | rfl
    · exact (hS.workers w (hws ▸ hw)).mono hg
    · exact hnew
  have hinhand : ∀ {job n s₀}, InHand c s i job n s₀ → s.workers = s₀.workers := by
    intro job n s₀ hh
    cases hh <;> rfl
  cases h with
  | stops | drops | passes | completes | leaves | dies | ended | endRefused => exact hold rfl trivial
  | waits hh => exact hold (hinhand hh) (hh.jobOf hS hnd)
  | joins hh hacq hst =>
      have hws := hinhand hh
      refine hold hws ⟨hh.jobOf hS hnd, ?_, ?_⟩
      · rintro r rfl
        rcases hst with ⟨r', hr', hr⟩ | ⟨-, -, hr⟩
        · cases hr
          exact hr'
        · cases hr
      · rcases hst with ⟨r', hr', -⟩ | ⟨-, hf, -⟩
        · exact .inl ⟨r', hr'⟩
        · exact .inr hf
  | begins hh hacq hc hf =>
      have hws := hinhand hh
      refine hold hws ⟨hh.jobOf hS hnd, fun r hr => ?_, .inr ⟨_, if_pos rfl⟩⟩
      cases hr
  | givesUp hw h ht hrow =>
      have hok := hS.workers _ (List.mem_of_getElem? hw)
      obtain ⟨hk, hs, -⟩ := h.ended hS hok
      exact hold rfl ⟨hok.1, hg.known _ hk, hg.still _ hk hs⟩
  | ending hw h => exact hold rfl ((hS.workers _ (List.mem_of_getElem? hw)).mono hg :)

theorem Act.going {y : Core} (h : Act c s l y) (hl : ∀ i a, l ≠ .worker i a) {key : String}
    {f : Flight} (hf : y.store.inFlight key = some f) (hgo : Going f.pc) :
    ∃ f₀, s.core.store.inFlight key = some f₀ ∧ Going f₀.pc := by
  cases h with
  | @flight k g a x₁ pc hg hrow =>
      rw [Core.setFlight_inFlight] at hf
      split_ifs at hf with hk
      · exact ⟨g, by rw [hk]; exact hg, hrow.going⟩
      · exact ⟨f, hrow.own.store ▸ hf, hgo⟩
  | settles hg hpc =>
      simp only [IdempotencyStore.settle] at hf
      split_ifs at hf with hk
      exact ⟨f, hf, hgo⟩
  | idle | late | world => exact ⟨f, hf, hgo⟩
  | begins | completes | givesUp | ending | endRefused => exact absurd rfl (hl _ _)

theorem CoreStep.going {y : Core} (h : CoreStep c s l y) (hl : ∀ i a, l ≠ .worker i a)
    {key : String} {f : Flight} (hf : y.store.inFlight key = some f) (hgo : Going f.pc) :
    ∃ f₀, s.core.store.inFlight key = some f₀ ∧ Going f₀.pc := by
  obtain ⟨x₁, x₂, T, q, ha, -, hsp, hlast⟩ := h
  have hstore : y.store = x₁.store := by
    rcases hlast with rfl | ⟨_, _, _, rfl⟩ <;> exact hsp.sameRest.store
  rw [hstore] at hf
  exact ha.going hl hf hgo

/-- Whoever waits for an execution that can go on keeps its job. -/
theorem WorkerMove.held (hS : State.Sound c s) (h : WorkerMove c s i a s') :
    ∀ key f, s'.core.store.inFlight key = some f → Going f.pc →
      ∃ job n d, .holding job n d none ∈ s'.workers ∧ job.idempotencyKey = key := by
  have hinhand : ∀ {job n s₀}, InHand c s i job n s₀ → s.workers = s₀.workers ∧
      ∃ old, s.workers[i]? = some old ∧ ∀ job n d, old ≠ .holding job n d none := by
    intro job n s₀ hh
    cases hh with
    | dequeued hw => exact ⟨rfl, _, hw, by simp⟩
    | seated hw => exact ⟨rfl, _, hw, by simp⟩
  -- the other entries stay
  have hkeep : ∀ {ws : List Worker} {old new : Worker} {key : String} {f : Flight},
      s.workers = ws → s.workers[i]? = some old → s.core.store.inFlight key = some f →
      Going f.pc → (∀ job n d, old = .holding job n d none → job.idempotencyKey ≠ key) →
      ∃ job n d, .holding job n d none ∈ ws.set i new ∧ job.idempotencyKey = key := by
    intro ws old new key f hws hi hf hgo hne
    obtain ⟨job, n, d, hmem, hkey⟩ := hS.held key f hf hgo
    refine ⟨job, n, d, ?_, hkey⟩
    rw [← hws]
    exact mem_set_of_ne hi hmem fun he => hne job n d he.symm hkey
  have hresolved : ∀ {job n d stored r}, s.workers[i]? = some (.holding job n d stored) →
      Resolved s.core job stored r → ∀ key f, s.core.store.inFlight key = some f →
      job.idempotencyKey ≠ key := by
    intro job n d stored r hw hr key f hf hk
    have hok := hS.workers _ (List.mem_of_getElem? hw)
    have hcomp : s.core.store.completed job.idempotencyKey = some r := by
      rcases hr with hr | ⟨-, hr⟩
      · exact hok.2.1 r hr
      · exact hr
    rw [hk, hS.core.excl key f hf] at hcomp
    cases hcomp
  have hcaught : ∀ {job n d stored core error}, s.workers[i]? = some (.holding job n d stored) →
      Caught s.core job n stored core error → ∀ key f, s.core.store.inFlight key = some f →
      Going f.pc → job.idempotencyKey ≠ key := by
    intro job n d stored core error hw h key f hf hgo hk
    obtain ⟨-, hs, -⟩ := h.ended hS (hS.workers _ (List.mem_of_getElem? hw))
    obtain ⟨e, he⟩ := hs f (by rw [hk]; exact hf)
    exact hgo e he
  have hstore : ∀ {job n stored core error}, Caught s.core job n stored core error →
      core.store = s.core.store := by
    intro job n stored core error h
    cases h <;> rfl
  intro key f hf hgo
  cases h with
  | stops hw | drops hw => exact hkeep rfl hw hf hgo (by simp)
  | waits hh =>
      obtain ⟨hws, old, hi, hne⟩ := hinhand hh
      exact hkeep hws hi (hh.core ▸ hf) hgo fun job n d he => absurd he (hne job n d)
  | joins hh =>
      obtain ⟨hws, old, hi, hne⟩ := hinhand hh
      exact hkeep hws hi hf hgo fun job n d he => absurd he (hne job n d)
  | @begins job n s₀ limiter hh hacq hc hnone =>
      obtain ⟨hws, old, hi, hne⟩ := hinhand hh
      have hf' : ((beginAttempt s.core n job).1.setFlight job.idempotencyKey
          ⟨n, job, (beginAttempt s.core n job).2⟩).store.inFlight key = some f := hf
      rw [Core.setFlight_inFlight] at hf'
      split_ifs at hf' with hk
      · refine ⟨job, n, s.core.store.has job.idempotencyKey, ?_, hk.symm⟩
        exact mem_set_self (hws ▸ hi)
      · rw [beginAttempt_own.store] at hf'
        exact hkeep hws hi hf' hgo fun job n d he => absurd he (hne job n d)
  | passes hw hr =>
      exact hkeep rfl hw hf hgo fun job n d he => by
        cases he
        exact hresolved hw hr key f hf
  | @completes job n d stored r k hw hr =>
      have hf' : s.core.store.inFlight key = some f :=
        (congrArg (·.inFlight key) (promoteReady_store (s := doneCore c s.core n r))).symm.trans hf
      exact hkeep rfl hw hf' hgo fun job n d he => by
        cases he
        exact hresolved hw hr key f hf'
  | leaves hw h =>
      have hf' : s.core.store.inFlight key = some f := hstore h ▸ hf
      exact hkeep rfl hw hf' hgo fun job n d he => by
        cases he
        exact hcaught hw h key f hf' hgo
  | givesUp hw h ht hrow | dies hw h ht hrow =>
      have hf' : s.core.store.inFlight key = some f :=
        (hrow.own.store.trans (hstore h)) ▸ hf
      exact hkeep rfl hw hf' hgo fun job n d he => by
        cases he
        exact hcaught hw h key f hf' hgo
  | ending hw h => exact hkeep rfl hw (h.own.store ▸ hf) hgo (by simp)
  | ended hw | endRefused hw => exact hkeep rfl hw hf hgo (by simp)

/-- **The invariant of every run.** -/
theorem State.Sound.step (hnd : (c.graph.map (·.id)).Nodup) (hS : State.Sound c s)
    (h : step c s l = some s') : State.Sound c s' := by
  have hcore := step_core hS hnd h
  have hg := hcore.grows hnd hS.core
  have hstay : s'.workers = s.workers → (∀ i a, l ≠ .worker i a) →
      (∀ w ∈ s'.workers, WorkerOk c s'.core w) ∧
      ∀ key f, s'.core.store.inFlight key = some f → Going f.pc →
        ∃ job n d, .holding job n d none ∈ s'.workers ∧ job.idempotencyKey = key := by
    intro hws hl
    rw [hws]
    refine ⟨fun w hw => (hS.workers w hw).mono hg, fun key f hf hgo => ?_⟩
    obtain ⟨f₀, hf₀, hgo₀⟩ := hcore.going hl hf hgo
    exact hS.held key f₀ hf₀ hgo₀
  have hrest : (∀ w ∈ s'.workers, WorkerOk c s'.core w) ∧
      ∀ key f, s'.core.store.inFlight key = some f → Going f.pc →
        ∃ job n d, .holding job n d none ∈ s'.workers ∧ job.idempotencyKey = key := by
    cases l with
    | drive =>
        rcases (hS.orderly.drive (driveStep_move h)).2 with hws | ⟨hall, hidle⟩
        · exact hstay hws (by simp)
        · refine ⟨fun w hw => by rw [hidle w hw]; trivial, fun key f hf hgo => ?_⟩
          obtain ⟨f₀, hf₀, hgo₀⟩ := hcore.going (by simp) hf hgo
          obtain ⟨e, he⟩ := hS.quiescent hall key f₀ hf₀
          exact absurd he (hgo₀ e)
    | worker i a =>
        have hm := workerStep_move h
        exact ⟨hm.workerOk hS hnd hg, hm.held hS⟩
    | flight key a =>
        obtain ⟨y, hy, rfl⟩ := Option.map_eq_some_iff.mp h
        exact hstay rfl (by simp)
    | late call o =>
        obtain ⟨y, hy, rfl⟩ := Option.map_eq_some_iff.mp h
        exact hstay rfl (by simp)
    | redeliver j at_ =>
        obtain ⟨job, -, rfl⟩ := Option.map_eq_some_iff.mp h
        exact hstay rfl (by simp)
    | cancel reason =>
        cases h
        exact hstay rfl (by simp)
    | world w =>
        cases h
        exact hstay rfl (by simp)
  exact ⟨hcore.sound hnd hS.core, hS.orderly.step h, hrest.1, hrest.2⟩

/-- **What every run keeps.** Each act under the guard, each touch and each refused skip keep it. -/
theorem run_keeps {ok : State → Label → Prop} {s₀ : State} {ls : List Label} {I : Core → Prop}
    (hnd : (c.graph.map (·.id)).Nodup) (hS : State.Sound c s₀) (h₀ : I s₀.core)
    (hact : ∀ s l z, State.Sound c s → I s.core → ok s l → Act c s l z → I z)
    (htouch : ∀ z z' T q, Core.Sound c z → (q → Quiescent z) → I z →
      Touch c T q z z' → I z')
    (hrefused : ∀ z id st, st ≠ .planned → I z → I (z.observe (.illegal id st .skip)))
    (h : Run (step c) ok s₀ ls s) : State.Sound c s ∧ I s.core := by
  refine Run.invariant (I := fun s => State.Sound c s ∧ I s.core) ⟨hS, h₀⟩ ?_ h
  intro s l s' ⟨hSs, hI⟩ hok hs
  exact ⟨hSs.step hnd hs, (step_core hSs hnd hs).keeps hnd hSs.core
    (fun z ha => hact s l z hSs hI hok ha)
    (fun z z' T q hz hq => htouch z z' T q hz fun h => (hq h).1) hrefused⟩

/-- An act undoes no completion. -/
theorem Act.completed {y : Core} {id : NodeId} (hS : Core.Sound c s.core) (h : Act c s l y)
    (hc : s.core.status id = .completed) : y.status id = .completed := by
  have hown : ∀ {n : NodeId}, Own n s.core y → s.core.status n ≠ .completed →
      y.status id = .completed := fun ho hne => by
    rw [ho.status (fun hid => hne (hid ▸ hc))]
    exact hc
  cases h with
  | idle | settles | late | world => exact hc
  | @flight key f a z pc hf hrow =>
      have hne := ((hS.flight key f hf).2.2.not_completed hrow.going).1
      exact (hrow.own.status fun hid => hne (hid ▸ hc)).trans hc
  | @begins i n job s₀ hh hn =>
      rw [Core.setFlight_status]
      by_cases hid : id = n.id
      · rcases beginAttempt_row (s := s.core) (n := n) job with ⟨hs, -⟩ | ⟨hsame, -⟩
        · rw [← hid, hc] at hs
          rcases hs with hs | hs <;> cases hs
        · rw [hid, hsame, ← hid]
          exact hc
      · rw [beginAttempt_own.status hid]
        exact hc
  | completes =>
      rw [doneCore_status]
      split_ifs
      · rfl
      · exact hc
  | @givesUp i job n d stored error core z pc hw hn hend ht hcore hcaught hrow =>
      have hne : s.core.status n.id ≠ .completed := fun h => by
        rw [show s.status n.id = .completed from h] at ht
        cases ht
      refine hown (Own.trans ?_ hrow.own) hne
      rcases hcore with rfl | rfl
      · exact .refl _ _
      · exact .observe _ _ _
  | @ending i job n error a z pc pc' hw hn hend hrow =>
      rcases hrow.status with hsame | ⟨hs, -⟩
      · by_cases hid : id = n.id
        · rw [hid, hsame, ← hid]
          exact hc
        · rw [hrow.own.status hid]
          exact hc
      · exact hown hrow.own (by rw [hs]; decide)
  | endRefused =>
      rw [Core.put_status]
      split_ifs with hid
      · rw [← hid]
        exact hc
      · exact hc

/-- **A completed node stays completed.** -/
theorem step_completed {id : NodeId} (hnd : (c.graph.map (·.id)).Nodup) (hS : State.Sound c s)
    (h : step c s l = some s') (hc : s.core.status id = .completed) :
    s'.core.status id = .completed :=
  (step_core hS hnd h).keeps (I := fun z => z.status id = .completed) hnd hS.core
    (fun _ ha => ha.completed hS.core hc) (fun _ _ _ _ _ _ hz ht => (ht.terminal (by rw [hz]; rfl)).trans hz)
    fun _ _ _ _ hz => hz

/-- Observations are only ever added. -/
theorem Act.trace {y : Core} (h : Act c s l y) : ∃ obs, y.trace = s.core.trace ++ obs := by
  cases h with
  | flight hf h => exact h.own.trace
  | begins => exact beginAttempt_own.trace
  | givesUp hw hn hend ht hcore hcaught h =>
      obtain ⟨obs, hobs⟩ := h.own.trace
      rcases hcore with rfl | rfl
      · exact ⟨obs, hobs⟩
      · exact ⟨_, by rw [hobs, Core.observe_trace, List.append_assoc]⟩
  | ending hw hn hend h => exact h.own.trace
  | idle | settles | world => exact ⟨[], (List.append_nil _).symm⟩
  | completes | endRefused | late => exact ⟨_, rfl⟩

theorem Touch.trace {x y : Core} {T : List NodeId} {q : Prop} (h : Touch c T q x y) :
    ∃ e, y.trace = x.trace ++ [.event e] := by
  cases h <;> exact ⟨_, rfl⟩

/-- Touches add ledger events only. -/
theorem Spread.trace {x y : Core} {T : List NodeId} {q : Prop} (h : Spread c T q x y) :
    ∃ es : List WorkflowEvent, y.trace = x.trace ++ es.map .event := by
  induction h with
  | refl => exact ⟨[], by simp⟩
  | tail _ ht ih =>
      obtain ⟨es, hes⟩ := ih
      obtain ⟨e, he⟩ := ht.trace
      exact ⟨es ++ [e], by rw [he, hes]; simp⟩

theorem step_trace (hnd : (c.graph.map (·.id)).Nodup) (hS : State.Sound c s)
    (h : step c s l = some s') : ∃ obs, s'.core.trace = s.core.trace ++ obs := by
  refine (step_core hS hnd h).keeps (I := fun z => ∃ obs, z.trace = s.core.trace ++ obs) hnd hS.core
    (fun z ha => ha.trace) (fun z z' T q _ _ hz ht => ?_) (fun z id st _ hz => ?_)
  · obtain ⟨obs, hobs⟩ := hz
    obtain ⟨e, he⟩ := ht.trace
    exact ⟨obs ++ [.event e], by rw [he, hobs, List.append_assoc]⟩
  · obtain ⟨obs, hobs⟩ := hz
    exact ⟨_, by rw [Core.observe_trace, hobs, List.append_assoc]⟩

theorem run_trace {ok : State → Label → Prop} {s₀ : State} {ls : List Label}
    (hnd : (c.graph.map (·.id)).Nodup) (hS : State.Sound c s₀) (h : Run (step c) ok s₀ ls s) :
    ∃ obs, s.core.trace = s₀.core.trace ++ obs := by
  refine (Run.invariant (I := fun s => State.Sound c s ∧
    ∃ obs, s.core.trace = s₀.core.trace ++ obs) ⟨hS, [], by simp⟩ ?_ h).2
  intro s l s' ⟨hSs, obs, hobs⟩ _ hs
  obtain ⟨more, hmore⟩ := step_trace hnd hSs hs
  exact ⟨hSs.step hnd hs, obs ++ more, by rw [hmore, hobs, List.append_assoc]⟩

theorem run_sound {ok : State → Label → Prop} {s₀ : State} {ls : List Label}
    (hnd : (c.graph.map (·.id)).Nodup) (hS : State.Sound c s₀) (h : Run (step c) ok s₀ ls s) :
    State.Sound c s :=
  Run.invariant hS (fun _ _ _ hSs _ hs => hSs.step hnd hs) h

end Machine

end AgentKernel.Orchestrator
