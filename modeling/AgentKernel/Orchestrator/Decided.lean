/-
  File:      AgentKernel/Orchestrator/Decided.lean
  Subject:   A failure that was decided before a crash, and the process that is rebuilt from what
             the ledger has kept of it.

  `hydrate` keeps a status only if it is terminal. `WorkflowNodeCompensating` says that a node has
  failed for good, but COMPENSATING is no terminal status: the node becomes PLANNED again, READY,
  and its forward action is called once more. Where the terminal event of the node has been kept
  as well it is not (**`decision_kept`**).
-/
import AgentKernel.Orchestrator.LedgerOrder
import AgentKernel.Orchestrator.Rollback
import AgentKernel.Orchestrator.Trace

namespace AgentKernel.Orchestrator

open Lib

/-! ## 1. The property and its condition -/

/-- The node has failed for good and its compensation has begun. -/
def CompensationBegan (ledger : List WorkflowEvent) (id : NodeId) : Prop :=
  ∃ action, .nodeCompensating id action ∈ ledger

/-- The forward action of the node has not been called. -/
def NotCalled (trace : List Obs) (id : NodeId) : Prop :=
  ∀ call action input gate, .called call id .forward action input gate ∉ trace

/-- A process rebuilt from `cut` does not execute again what had failed for good. -/
def DecisionKept (c : Context) (cut : List WorkflowEvent) (s : State) : Prop :=
  ∀ n ∈ c.graph, CompensationBegan cut n.id → NotCalled s.core.trace n.id

/-- The last event that shows the node at work, or ends it. -/
def lastOf (id : NodeId) (ledger : List WorkflowEvent) : Option WorkflowEvent :=
  (ledger.filter fun e => e.works = some id ∨ e.ends = some id).getLast?

/-- Of every node whose compensation has begun the terminal event was kept too, and `hydrate`
    reads it: the node's id is not empty. -/
def EndsKept (c : Context) (cut : List WorkflowEvent) : Prop :=
  ∀ n ∈ c.graph, CompensationBegan cut n.id →
    n.id ≠ "" ∧ ∃ e, lastOf n.id cut = some e ∧ e.ends = some n.id

/-! ## 2. The last event of a node -/

section Last

variable {c : Context} {id : NodeId} {cut : List WorkflowEvent} {e : WorkflowEvent}

theorem lastOf_snoc : lastOf id (cut ++ [e]) =
    if e.works = some id ∨ e.ends = some id then some e else lastOf id cut := by
  unfold lastOf
  rw [List.filter_append]
  split_ifs with h <;> simp [h]

/-- A node whose last event is terminal is rebuilt with a terminal status. -/
theorem snapOf_lastOf : ∀ {cut : List WorkflowEvent}, lastOf id cut = some e → e.ends = some id →
    (snapOf id cut).status.isTerminal = true := by
  intro cut
  induction cut using List.reverseRecOn with
  | nil =>
      intro h
      cases h
  | append_singleton past x ih =>
      intro h hend
      rw [lastOf_snoc] at h
      rw [snapOf_snoc]
      split_ifs at h with hx
      · cases h
        exact (ends_status _ hend).1
      · rw [not_or] at hx
        rcases snapStep_status (snapOf id past) hx.2 with hsame | ⟨hw, -⟩
        · rw [hsame]
          exact ih h hend
        · exact absurd hw hx.1

end Last

/-! ## 3. A node that has ended is not executed -/

/-- The node has ended in this process or before it, and nothing executes it. -/
structure Buried (n : WorkflowNode) (s : Core) : Prop where
  ended : (s.status n.id).isTerminal = true
  still : ∀ key f, s.store.inFlight key = some f → f.node.id = n.id → ∃ e, f.pc = .rejected e
  uncalled : NotCalled s.trace n.id

section Buried

variable {c : Context} {s : State} {x y : Core} {n : WorkflowNode} {l : Label}

theorem Buried.other {key : String} {f : Flight} {a : Answer} {pc : FlightPc} (h : Buried n x)
    (hf : x.store.inFlight key = some f) (hrow : Row c x f f.pc a y pc) : n.id ≠ f.node.id := by
  intro hid
  obtain ⟨e, he⟩ := h.still key f hf hid.symm
  exact hrow.going e he

theorem Buried.refused (h : Buried n x) (job : WorkflowJob) :
    ∃ message, beginAttempt x n job = (x.put n.id { x.nodes n.id with attempt := job.attempt }
      [.illegal n.id (x.status n.id) .start], .rejected message) := by
  have ht := h.ended
  refine beginAttempt_refused job (fun hs => ?_) fun hs => ?_
  · rw [hs] at ht
    cases ht
  · rw [hs] at ht
    cases ht

theorem Buried.act_status (hnd : (c.graph.map (·.id)).Nodup) (hn : n ∈ c.graph)
    (h : Buried n s.core) (ha : Act c s l y) : (y.status n.id).isTerminal = true := by
  have ht := h.ended
  cases ha with
  | idle | settles | late | world => exact ht
  | flight hf hrow =>
      rw [Core.setFlight_status, hrow.own.status (h.other hf hrow)]
      exact ht
  | @begins i m job s₀ hh hm =>
      rw [Core.setFlight_status]
      by_cases hid : n.id = m.id
      · obtain rfl := eq_of_id_eq hnd hn hm hid
        obtain ⟨_, he⟩ := h.refused job
        rw [he, Core.put_status_self]
        exact ht
      · rw [beginAttempt_own.status hid]
        exact ht
  | completes =>
      rw [doneCore_status]
      split_ifs
      · rfl
      · exact ht
  | @givesUp i job m d stored error core z pc hw hm hend hopen hcore hcaught hrow =>
      have hid : n.id ≠ m.id := fun hid => by
        rw [hid, show s.core.status m.id = s.status m.id from rfl, hopen] at ht
        cases ht
      rw [hrow.own.status hid]
      rcases hcore with rfl | rfl <;> exact ht
  | @ending i job m error a z pc pc' hw hm hend hrow =>
      by_cases hid : n.id = m.id
      · rcases hrow.status with hsame | ⟨-, hrolled⟩
        · rw [hid, hsame, ← hid]
          exact ht
        · rw [hid, hrolled]
          rfl
      · rw [hrow.own.status hid]
        exact ht
  | endRefused =>
      rw [Core.put_status]
      split_ifs with hid
      · exact hid ▸ ht
      · exact ht

theorem Buried.act_still (hnd : (c.graph.map (·.id)).Nodup) (hn : n ∈ c.graph)
    (h : Buried n s.core) (ha : Act c s l y) :
    ∀ key f, y.store.inFlight key = some f → f.node.id = n.id → ∃ e, f.pc = .rejected e := by
  intro key f hf hid
  cases ha with
  | idle | completes | endRefused | late | world => exact h.still key f hf hid
  | flight hg hrow =>
      have hne := h.other hg hrow
      rw [Core.setFlight_inFlight] at hf
      split_ifs at hf
      · cases hf
        exact absurd hid.symm hne
      · rw [hrow.own.store] at hf
        exact h.still key f hf hid
  | settles =>
      simp only [IdempotencyStore.settle] at hf
      split_ifs at hf
      exact h.still key f hf hid
  | @begins i m job s₀ hh hm =>
      rw [Core.setFlight_inFlight] at hf
      split_ifs at hf
      · cases hf
        obtain rfl := eq_of_id_eq hnd hm hn hid
        obtain ⟨message, he⟩ := h.refused job
        exact ⟨message, by rw [he]⟩
      · rw [beginAttempt_own.store] at hf
        exact h.still key f hf hid
  | givesUp hw hm hend hopen hcore hcaught hrow =>
      rw [hrow.own.store] at hf
      refine h.still key f ?_ hid
      rcases hcore with rfl | rfl <;> exact hf
  | ending hw hm hend hrow =>
      rw [hrow.own.store] at hf
      exact h.still key f hf hid

/-- A forward call comes from an execution of its node. -/
theorem Buried.act (hnd : (c.graph.map (·.id)).Nodup) (hn : n ∈ c.graph) (h : Buried n s.core)
    (ha : Act c s l y) : Buried n y := by
  refine ⟨h.act_status hnd hn ha, h.act_still hnd hn ha, fun call action input gate hm => ?_⟩
  rcases ha.adds.mem hm with hm | hobs
  · exact h.uncalled _ _ _ _ hm
  · obtain ⟨key, f, -, hf, hid, hpc, -⟩ := hobs.called
    obtain ⟨e, he⟩ := h.still key f hf hid
    rcases hpc with hpc | ⟨req, hpc⟩ <;> (rw [he] at hpc; cases hpc)

theorem Buried.touch {T : List NodeId} {q : Prop} (h : Buried n x) (ht : Touch c T q x y) :
    Buried n y := by
  refine ⟨?_, fun key f hf hid => h.still key f (ht.sameRest.store ▸ hf) hid,
    fun call action input gate hm => ?_⟩
  · rw [ht.terminal h.ended]
    exact h.ended
  · rcases ht.adds.mem hm with hm | hobs
    · exact h.uncalled _ _ _ _ hm
    · cases hobs

theorem run_buried {ok : State → Label → Prop} {s₀ : State} {ls : List Label}
    (hnd : (c.graph.map (·.id)).Nodup) (hS : State.Sound c s₀) (hn : n ∈ c.graph)
    (h₀ : Buried n s₀.core) (h : Run (step c) ok s₀ ls s) : Buried n s.core := by
  refine (run_keeps (I := Buried n) hnd hS h₀ (fun s l z _ hI _ ha => hI.act hnd hn ha)
    (fun z z' T q _ _ hz ht => hz.touch ht) (fun z id st _ hz => ?_) h).2
  refine ⟨hz.ended, hz.still, fun call action input gate hm => ?_⟩
  rcases List.mem_append.mp hm with hm | hm
  · exact hz.uncalled _ _ _ _ hm
  · cases List.mem_singleton.mp hm

/-- What has ended when a process begins is buried in it: nothing is in flight, and nothing has been
    called. -/
theorem Begins.buried (hnd : (c.graph.map (·.id)).Nodup) (hb : Begins c s)
    (ht : (s.core.status n.id).isTerminal = true) : Buried n s.core := by
  refine ⟨ht, fun key f hf => ?_, fun call action input gate hm => ?_⟩
  · rw [hb.still hnd key] at hf
    cases hf
  · obtain ⟨e, he⟩ := hb.events _ hm
    cases he

/-- A process rebuilt from a ledger in which the node's last event is its end. -/
theorem State.resumed.buried {s₀ : State} {w : World} {cut : List WorkflowEvent} {e : WorkflowEvent}
    {jobs : List WorkflowJob} (hnd : (c.graph.map (·.id)).Nodup) (hjobs : JobsOf c jobs)
    (hs₀ : State.resumed c w cut jobs s₀) (hn : n ∈ c.graph) (hid : n.id ≠ "")
    (hlast : lastOf n.id cut = some e) (hend : e.ends = some n.id) : Buried n s₀.core := by
  refine (hs₀.begins hjobs).buried hnd ?_
  obtain ⟨core, hh, rfl⟩ := hs₀
  obtain ⟨mid, hsp, -, -, hnodes⟩ := hydrate_own hnd hh
  have ht := snapOf_lastOf hlast hend
  refine hsp.isTerminal ?_
  rw [Core.status_eq, hnodes n hn hid, restored_terminal ht]
  exact ht

end Buried

/-! ## 4. Every crash -/

/-- **A decided failure survives the crash if the node's terminal event does**: for everything
    that may have been kept of the ledger, and every run of the process rebuilt from it. -/
theorem decision_kept {c : Context} {s₀ s : State} {w : World} {cut : List WorkflowEvent}
    {jobs : List WorkflowJob} {ls : List Label} (hv : validateGraph c.graph = .ok ())
    (hjobs : JobsOf c jobs) (hs₀ : State.resumed c w cut jobs s₀) (hkept : EndsKept c cut)
    (hr : Run (step c) (fun _ _ => True) s₀ ls s) : DecisionKept c cut s := by
  have hnd := validateGraph_nodup hv
  intro n hn hbegan
  obtain ⟨hid, e, hlast, hend⟩ := hkept n hn hbegan
  exact (run_buried hnd ((hs₀.begins hjobs).sound hnd) hn
    (hs₀.buried hnd hjobs hn hid hlast hend) hr).uncalled

/-- What the first `k` steps of the release leave in the ledger. -/
def releaseLedger (k : Nat) : List WorkflowEvent :=
  ledgerAfter releaseContext openWorld ((releaseRun (.rejected "withdrawal failed")).take k)

/-- The node has been rolled back before the crash; the process that resumes comes to its end. -/
theorem decision_kept_release : ∃ s,
    Run (step releaseContext) (fun _ _ => True)
      (.launch (rebuilt releaseContext openWorld (releaseLedger 9)) []) [.drive, .drive] s ∧
    CompensationBegan (releaseLedger 9) "release" ∧
    DecisionKept releaseContext (releaseLedger 9) s := by
  obtain ⟨s, hs⟩ := Option.isSome_iff_exists.mp (show (exec (step releaseContext)
    (.launch (rebuilt releaseContext openWorld (releaseLedger 9)) [])
    [.drive, .drive]).isSome = true by decide)
  have hrun : Run (step releaseContext) (fun _ _ => True) _ _ s := run_of_exec (fun _ _ => trivial) hs
  refine ⟨s, hrun, ⟨"release.withdraw", .tail _ (.tail _ (.tail _ (.tail _ (.head _))))⟩,
    decision_kept (by rfl) (fun _ hj => by cases hj) (rebuilt_resumed [] rfl)
      (fun n hn _ => ?_) hrun⟩
  cases List.mem_singleton.mp hn
  exact ⟨by decide, .nodeRolledBack "release" "release failed", by rfl, rfl⟩

/-- The event begins to undo the node. -/
def beganCheck (id : NodeId) : WorkflowEvent → Bool
  | .nodeCompensating id' _ => id' = id
  | _ => false

/-- The forward action of the node is called. -/
def calledCheck (id : NodeId) : Obs → Bool
  | .called _ id' .forward .. => id' = id
  | _ => false

/-- Whether a node whose compensation `cut` shows begun is called. -/
def callsDecided (c : Context) (cut : List WorkflowEvent) (s : State) : Bool :=
  c.graph.any fun n => cut.any (beganCheck n.id) && s.core.trace.any (calledCheck n.id)

theorem not_decisionKept_of_callsDecided {c : Context} {cut : List WorkflowEvent} {s : State}
    (h : callsDecided c cut s = true) : ¬ DecisionKept c cut s := by
  intro hd
  obtain ⟨n, hn, hboth⟩ := List.any_eq_true.mp h
  obtain ⟨hbegan, hcalled⟩ := Bool.and_eq_true_iff.mp hboth
  obtain ⟨e, he, hid⟩ := List.any_eq_true.mp hbegan
  obtain ⟨o, ho, hid'⟩ := List.any_eq_true.mp hcalled
  unfold beganCheck at hid
  split at hid
  · unfold calledCheck at hid'
    split at hid'
    · cases of_decide_eq_true hid
      cases of_decide_eq_true hid'
      exact hd n hn ⟨_, he⟩ _ _ _ _ ho
    · cases hid'
  · cases hid

/-- The process dies during the compensation of the release; the one that resumes calls
    `release.app` once more. -/
theorem compensating_called_again : ∃ c s cut w jobs s₀ ls s', validateGraph c.graph = .ok () ∧
    Lives c (fun _ _ => True) (JobsOf c) s ∧ cut <+: ledgerOf s.core.trace ∧ JobsOf c jobs ∧
    State.resumed c w cut jobs s₀ ∧ Run (step c) (fun _ _ => True) s₀ ls s' ∧
    ¬ DecisionKept c cut s' := by
  obtain ⟨s, hs, hcut⟩ : ∃ s, exec (step releaseContext) (.initial releaseContext openWorld)
      ((releaseRun (.rejected "withdrawal failed")).take 7) = some s ∧
      ledgerOf s.core.trace = releaseLedger 7 := exec_ledgerAfter (by decide)
  obtain ⟨s', hs', hcalls⟩ := Option.map_eq_some_iff.mp (show (exec (step releaseContext)
    (.launch (rebuilt releaseContext openWorld (releaseLedger 7)) [])
    ((releaseRun (.rejected "withdrawal failed")).take 5)).map
      (callsDecided releaseContext (releaseLedger 7)) = some true by decide)
  exact ⟨releaseContext, s, releaseLedger 7, openWorld, [], _, _, s', rfl,
    .first (run_of_exec (fun _ _ => trivial) hs), hcut ▸ List.prefix_refl _,
    (fun _ hj => by cases hj), rebuilt_resumed [] rfl, run_of_exec (fun _ _ => trivial) hs',
    not_decisionKept_of_callsDecided hcalls⟩

end AgentKernel.Orchestrator
