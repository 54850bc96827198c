/-
  File:      AgentKernel/Orchestrator/Reuse.lean
  Subject:   An injected idempotency store that already holds the result of a node.

  `run` of the store answers with the stored result, so `executeWithRetry`, and with it every
  transition of the node, is left out. `completeNode` then meets a READY node, which COMPLETE does
  not accept; the catch of `runJob` fails the node. A node whose result was stored before its job
  is run never becomes COMPLETED (**`never_reused`**).
-/
import AgentKernel.Orchestrator.Start

namespace AgentKernel.Orchestrator

open Lib

/-! ## 1. The property -/

/-- The store of the executor was injected with the results `stored` in it; what `hydrate` seeds
    replaces them. -/
def State.stocked (s : State) (stored : String → Option NodeResult) : State :=
  { s with core := { s.core with store := { s.core.store with
      completed := fun key => (s.core.store.completed key).or (stored key) } } }

/-- The node has ended COMPLETED with the result `r`, nothing that only waited for it is still
    PLANNED, and its forward action was not called. -/
def Reused (c : Context) (s : State) (n : WorkflowNode) (r : NodeResult) : Prop :=
  s.core.status n.id = .completed ∧ (s.core.nodes n.id).result = some r ∧
  (∀ m ∈ c.graph, n.id ∈ m.deps → (∀ d ∈ m.deps, s.core.status d = .completed) →
    s.core.status m.id ≠ .planned) ∧
  ∀ call action input gate, .called call n.id .forward action input gate ∉ s.core.trace

/-! ## 2. A node nobody executes -/

/-- Statuses a node has without an execution. -/
def Unrun : NodeStatus → Prop
  | .running | .waiting | .verifying | .retrying | .completed => False
  | _ => True

/-- The result of the node is stored, and no execution has begun. -/
structure Stocked (c : Context) (n : WorkflowNode) (s : Core) : Prop where
  stored : ∃ r, s.store.completed (keyOf c n) = some r
  unrun : Unrun (s.status n.id)

section Stocked

variable {c : Context} {s s₀ : State} {x y : Core} {n : WorkflowNode} {l : Label}

theorem Unrun.head {st : NodeStatus} (h : Unrun st) : Unrun (headStatus st) := by
  cases st <;> simp_all [Unrun, headStatus]

theorem HeadRow.unrun {m : WorkflowNode} {error : String} {q : Bool} {pc : Option FailPc} {id : NodeId}
    (h : HeadRow c x m error q y pc) (hu : Unrun (x.status id)) : Unrun (y.status id) := by
  by_cases hid : id = m.id
  · subst hid
    cases h with
    | failed =>
        rw [Core.put_status_self]
        exact hu.head
    | compensates | quarantines =>
        rw [Core.put_status_self]
        trivial
    | waits | refused =>
        rw [Core.put_status_self]
        exact hu
  · rw [h.own.status hid]
    exact hu

theorem Touch.unrun {T : List NodeId} {q : Prop} {id : NodeId} (h : Touch c T q x y)
    (hu : Unrun (x.status id)) : Unrun (y.status id) := by
  rcases h.status id with he | ⟨-, he | he⟩ | ⟨-, he, -⟩
  · rw [he]
    exact hu
  · rw [he]
    trivial
  · rw [he]
    trivial
  · rw [he]
    trivial

/-- **No act executes the node**: nothing is in flight under its key, and nothing begins. -/
theorem Act.unrun (hnd : (c.graph.map (·.id)).Nodup) (hS : Core.Sound c s.core) (hn : n ∈ c.graph)
    (h : Stocked c n s.core) (ha : Act c s l y) : Unrun (y.status n.id) := by
  obtain ⟨⟨r, hr⟩, hu⟩ := h
  -- the node of an execution, or of one about to begin, is another one
  have hother : ∀ {m : WorkflowNode}, m ∈ c.graph → s.core.store.completed (keyOf c m) = none →
      n.id ≠ m.id := fun hm hnone hid => by
    rw [← eq_of_id_eq hnd hn hm hid, hr] at hnone
    cases hnone
  cases ha with
  | idle | settles | late | world => exact hu
  | @flight key f a z pc hf hrow =>
      obtain ⟨hfn, hkey, -⟩ := hS.flight key f hf
      rw [Core.setFlight_status, hrow.own.status (hother hfn (hkey ▸ hS.excl key f hf))]
      exact hu
  | @begins i m job s₀ hh hm hid hkey hc hf =>
      rw [Core.setFlight_status, beginAttempt_own.status (hother hm (hkey ▸ hc))]
      exact hu
  | @completes i m r' hm hr' hs =>
      rw [doneCore_status]
      split_ifs with hid
      · -- the node would have to be under execution
        have hst : s.core.status n.id = .running ∨ s.core.status n.id = .verifying := by
          rw [hid]
          exact hs
        rcases hst with hst | hst <;> (rw [hst] at hu; exact hu.elim)
      · exact hu
  | @givesUp i job m d stored error core z pc hw hm hend ht hcore hcaught hrow =>
      refine hrow.unrun ?_
      rcases hcore with rfl | rfl <;> exact hu
  | @ending i job m error a z pc pc' hw hm hend hrow =>
      by_cases hid : n.id = m.id
      · rcases hrow.status with hsame | ⟨-, hrolled⟩
        · rw [hid, hsame, ← hid]
          exact hu
        · rw [hid, hrolled]
          trivial
      · rw [hrow.own.status hid]
        exact hu
  | endRefused =>
      rw [Core.put_status]
      split_ifs with hid
      · exact hid ▸ hu
      · exact hu

theorem State.stocked_sound (stored : String → Option NodeResult)
    (hS : State.Sound c s) (hstill : ∀ key, s.core.store.inFlight key = none)
    (hw : s.workers = []) : State.Sound c (s.stocked stored) := by
  refine ⟨⟨fun key f hf => ?_, fun key f hf => ?_, hS.core.live, fun key f hf => ?_⟩,
    ⟨hS.orderly.jobs, hS.orderly.resting⟩, fun w hmem => ?_, fun key f hf => ?_⟩
  · cases (hstill key).symm.trans hf
  · cases (hstill key).symm.trans hf
  · cases (hstill key).symm.trans hf
  · rw [show (s.stocked stored).workers = [] from hw] at hmem
    cases hmem
  · cases (hstill key).symm.trans hf

theorem run_stocked {ok : State → Label → Prop} {ls : List Label}
    (hnd : (c.graph.map (·.id)).Nodup) (hS : State.Sound c s₀) (hn : n ∈ c.graph)
    (h₀ : Stocked c n s₀.core) (h : Run (step c) ok s₀ ls s) : Stocked c n s.core := by
  refine (run_keeps (I := Stocked c n) hnd hS h₀ (fun s l z hSs hI _ ha => ⟨?_, ?_⟩)
    (fun z z' T q _ _ hz ht => ⟨?_, ht.unrun hz.unrun⟩) (fun z id st _ hz => ⟨hz.stored, hz.unrun⟩) h).2
  · obtain ⟨r, hr⟩ := hI.stored
    exact ⟨r, (ha.grows hSs.core).completed _ _ hr⟩
  · exact ha.unrun hnd hSs.core hn hI
  · rw [ht.sameRest.store]
    exact hz.stored

/-- A node of an executor that begins has not been executed, unless it was restored COMPLETED. -/
theorem Begins.unrun (hb : Begins c s) {id : NodeId} (hnew : s.core.status id ≠ .completed) :
    Unrun (s.core.status id) := by
  rcases hb with ⟨w, rfl⟩ | ⟨o, w, trace, events, core, old, hh, -, rfl⟩
  · trivial
  · obtain ⟨sc, -, -, hsp⟩ := hydrate_spread hh
    have hr : Rebuilt (restore c sc.snapshots (Core.fresh w (trace.map .event))) :=
      (rebuilt_fresh w _).restore _
    have hstart : Unrun ((restore c sc.snapshots (Core.fresh w (trace.map .event))).status id) := by
      rcases hr.status id with hp | ht
      · rw [hp]
        trivial
      · have hne : (restore c sc.snapshots (Core.fresh w (trace.map .event))).status id ≠ .completed :=
          fun hc => hnew (hsp.completed.mpr hc)
        revert ht hne
        cases (restore c sc.snapshots (Core.fresh w (trace.map .event))).status id <;>
          simp [Unrun, NodeStatus.isTerminal]
    show Unrun (core.status id)
    clear hnew hh
    induction hsp with
    | refl => exact hstart
    | tail _ ht ih => exact ht.unrun ih

end Stocked

/-! ## 3. A stored result is never reused -/

/-- **A node that is not completed when the executor begins, and whose result its store already
    holds, is completed at no moment of any run.** -/
theorem never_reused {c : Context} {s₀ s : State} {ls : List Label} {n : WorkflowNode}
    {r : NodeResult} {stored : String → Option NodeResult} (hv : validateGraph c.graph = .ok ())
    (hb : Begins c s₀) (hn : n ∈ c.graph) (hnew : s₀.core.status n.id ≠ .completed)
    (hr : (s₀.stocked stored).core.store.completed (keyOf c n) = some r)
    (h : Run (step c) (fun _ _ => True) (s₀.stocked stored) ls s) : ¬ Reused c s n r := by
  have hnd := validateGraph_nodup hv
  have hS := State.stocked_sound stored (hb.sound hnd) (hb.still hnd) hb.workers
  have hend := run_stocked hnd hS hn ⟨⟨r, hr⟩, hb.unrun hnew⟩ h
  intro ⟨hc, _⟩
  have hu := hend.unrun
  rw [hc] at hu
  exact hu

/-- A node whose result an earlier process has stored. -/
def storedNode : WorkflowNode :=
  { id := "pay", kind := .action, action := some "payment.send", deps := [] }

/-- A graph of one node. -/
def storedContext : Context :=
  { limits := defaultBulkhead, compensations := .empty, sha256 := fun s => s
    runId := "run", taskId := "task", graph := [storedNode] }

/-- What an earlier life has stored. -/
def storedResult : NodeResult := ⟨.success, .obj [], []⟩

/-- The executor with the store of the earlier process. -/
def storedStart : State :=
  (State.initial storedContext ⟨fun _ => false, fun _ _ _ => none⟩).stocked fun key =>
    if key = keyOf storedContext storedNode then some storedResult else none

/-- Enqueue, dispatch, take the job, resolve it from the store, and come to the end. -/
def storedRun : List Label :=
  [.drive, .drive, .drive, .worker 0 .tick, .worker 0 .tick, .worker 0 .tick] ++
    (List.range 8).map (.worker · .tick) ++ [.drive, .drive]

theorem never_reused_pay : ∃ s, Run (step storedContext) (fun _ _ => True) storedStart storedRun s ∧
    ¬ Reused storedContext s storedNode storedResult := by
  obtain ⟨s, hs⟩ := Option.isSome_iff_exists.mp
    (show (exec (step storedContext) storedStart storedRun).isSome = true by decide)
  have hrun : Run (step storedContext) (fun _ _ => True) _ _ s := run_of_exec (fun _ _ => trivial) hs
  exact ⟨s, hrun, never_reused (by rfl) (.inl ⟨_, rfl⟩) List.mem_cons_self (by decide) (by rfl) hrun⟩

/-- The payment is stored; the node fails all the same. -/
theorem stored_result_fails : ∃ s, validateGraph storedContext.graph = .ok () ∧
    storedStart.core.store.completed (keyOf storedContext storedNode) = some storedResult ∧
    Run (step storedContext) (fun _ _ => True) storedStart storedRun s ∧ s.drive = .resolved ∧
    s.core.status storedNode.id = .failed ∧ ¬ Reused storedContext s storedNode storedResult := by
  obtain ⟨s, hs, hend⟩ := Option.map_eq_some_iff.mp (show (exec (step storedContext) storedStart
    storedRun).map (fun s => (s.drive, s.core.status storedNode.id)) = some (.resolved, .failed) by rfl)
  obtain ⟨hd, hst⟩ := Prod.mk.inj hend
  refine ⟨s, rfl, rfl, run_of_exec (fun _ _ => trivial) hs, hd, hst, ?_⟩
  intro ⟨hc, _⟩
  rw [hst] at hc
  cases hc

end AgentKernel.Orchestrator
