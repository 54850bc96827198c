/-
  File:      AgentKernel/Orchestrator/Trace.lean
  Subject:   What each stretch of code adds to the trace, said once (`step_adds`).

  The trace only grows. `HeadObs`, `TailObs`, `RowObs` and `ActObs` list what the head of
  `failNode`, the rest of it, a stretch of `executeWithRetry` and an act may add, `TouchObs` what
  touches add. That a kind of observation comes from one place only is read off these lists.
-/
import AgentKernel.Orchestrator.Sound

namespace AgentKernel.Orchestrator

/-! ## 1. Adding to the trace -/

/-- Observations of which `P` holds are added, and nothing else. -/
def Adds (P : Obs → Prop) (x y : Core) : Prop :=
  ∃ obs, y.trace = x.trace ++ obs ∧ ∀ o ∈ obs, P o

section Adds

variable {P Q : Obs → Prop} {x y z : Core} {o : Obs}

theorem Adds.none (h : y.trace = x.trace) : Adds P x y :=
  ⟨[], by rw [h, List.append_nil], fun _ ho => absurd ho List.not_mem_nil⟩

theorem Adds.one (h : y.trace = x.trace ++ [o]) (ho : P o) : Adds P x y :=
  ⟨[o], h, fun p hp => by rw [List.mem_singleton.mp hp]; exact ho⟩

theorem Adds.two {o' : Obs} (h : y.trace = x.trace ++ [o, o']) (ho : P o) (ho' : P o') :
    Adds P x y := by
  refine ⟨[o, o'], h, fun p hp => ?_⟩
  rcases List.mem_pair.mp hp with rfl | rfl
  · exact ho
  · exact ho'

theorem Adds.trans (h : Adds P x y) (h' : Adds P y z) : Adds P x z := by
  obtain ⟨obs, hobs, hP⟩ := h
  obtain ⟨obs', hobs', hP'⟩ := h'
  refine ⟨obs ++ obs', by rw [hobs', hobs, List.append_assoc], fun p hp => ?_⟩
  rcases List.mem_append.mp hp with hp | hp
  · exact hP p hp
  · exact hP' p hp

theorem Adds.mono (hPQ : ∀ o, P o → Q o) (h : Adds P x y) : Adds Q x y := by
  obtain ⟨obs, hobs, hP⟩ := h
  exact ⟨obs, hobs, fun o ho => hPQ o (hP o ho)⟩

/-- What the trace has afterwards was there, or has been added. -/
theorem Adds.mem (h : Adds P x y) (ho : o ∈ y.trace) : o ∈ x.trace ∨ P o := by
  obtain ⟨obs, hobs, hP⟩ := h
  rw [hobs] at ho
  exact (List.mem_append.mp ho).imp_right (hP o)

end Adds

/-! ## 2. The lists -/

/-- The head of `failNode` for the node `n`. -/
inductive HeadObs (n : WorkflowNode) : Obs → Prop where
  | failed {error : String} {irreversible : Bool} :
      HeadObs n (.event (.nodeFailed n.id error irreversible))
  | compensating {action : String} : HeadObs n (.event (.nodeCompensating n.id action))
  | quarantined {error : String} : HeadObs n (.event (.nodeQuarantined n.id error))
  | illegal {st : NodeStatus} {e : NodeEvent} : HeadObs n (.illegal n.id st e)

/-- The rest of `failNode` for the node `n`. -/
inductive TailObs (n : WorkflowNode) : Obs → Prop where
  | undoes {call : Nat} {action : String} {input : Option Json} {gate : Bool} :
      TailObs n (.called call n.id .compensation action input gate)
  | undone {call : Nat} {o : RunOutcome} : TailObs n (.settled call n.id .compensation o)
  | rolledBack {error : String} : TailObs n (.event (.nodeRolledBack n.id error))
  | sweeps {call : Nat} {id : NodeId} {action : String} {input : Option Json} {gate : Bool} :
      TailObs n (.called call id .upstream action input gate)
  | swept {call : Nat} {id : NodeId} {o : RunOutcome} : TailObs n (.settled call id .upstream o)
  | compensated {id : NodeId} {action : String} :
      TailObs n (.event (.nodeCompensated id action))

/-- A stretch of `executeWithRetry` from the place `pc` on. -/
inductive RowObs (c : Context) (s : Core) (f : Flight) (pc : FlightPc) (a : Answer) : Obs → Prop where
  | calls {action : String} {input : Option Json} {gate : Bool} (ha : a = .tick)
      (hpc : pc = .ran ∨ ∃ req, pc = .answered req true)
      (h : flightNext c s f pc .tick = some (s.invoke f.node.id .forward action input,
        .calling action input s.trace.length)) :
      RowObs c s f pc a (.called s.trace.length f.node.id .forward action input gate)
  | settles {action : String} {input : Option Json} {call : Nat} {o : RunOutcome}
      (hpc : pc = .calling action input call) :
      RowObs c s f pc a (.settled call f.node.id .forward o)
  | asks {req : ApprovalRequest} : RowObs c s f pc a (.event (.approvalRequired req))
  | answers {action : String} {granted : Bool} :
      RowObs c s f pc a (.approval f.node.id action granted)
  | granted {req : ApprovalRequest} : RowObs c s f pc a (.event (.approvalGranted req))
  | denied {req : ApprovalRequest} : RowObs c s f pc a (.event (.approvalDenied req))
  | verifies {st : ResultStatus} {evidence : List EvidenceRef} :
      RowObs c s f pc a (.event (.nodeVerified f.node.id st evidence))
  | retries {e : String} (hpc : pc = .threw e) :
      RowObs c s f pc a (.event (.nodeRetrying f.node.id f.job.attempt (f.job.attempt + 1) e))
  | resumes (hpc : pc = .retrying) : RowObs c s f pc a
      (.event (.nodeRunning f.node.id f.job.id (f.job.attempt + 1) f.job.operationId))
  | illegal {st : NodeStatus} {e : NodeEvent} : RowObs c s f pc a (.illegal f.node.id st e)
  | head {o : Obs} (h : HeadObs f.node o) : RowObs c s f pc a o
  | tail {o : Obs} (h : TailObs f.node o) : RowObs c s f pc a o

/-- An act. -/
inductive ActObs (c : Context) (s : State) : Label → Obs → Prop where
  | row {key : String} {f : Flight} {a : Answer} {o : Obs}
      (hf : s.core.store.inFlight key = some f) (h : RowObs c s.core f f.pc a o) :
      ActObs c s (.flight key a) o
  | begins {i : Nat} {n : WorkflowNode} {job : WorkflowJob} {s₀ : State}
      (hh : InHand c s i job n s₀) (hn : n ∈ c.graph) (hkey : job.idempotencyKey = keyOf c n) :
      ActObs c s (.worker i .tick) (.event (.nodeRunning n.id job.id job.attempt job.operationId))
  | refused {i : Nat} {a : Answer} {id : NodeId} {st : NodeStatus} {e : NodeEvent} :
      ActObs c s (.worker i a) (.illegal id st e)
  | completes {i : Nat} {n : WorkflowNode} {r : NodeResult} (hn : n ∈ c.graph)
      (hr : s.core.store.completed (keyOf c n) = some r) :
      ActObs c s (.worker i .tick)
        (.event (.nodeCompleted n.id r (operationId c n) (keyOf c n)))
  | head {i : Nat} {n : WorkflowNode} {o : Obs} (hn : n ∈ c.graph) (h : HeadObs n o) :
      ActObs c s (.worker i .tick) o
  | tail {i : Nat} {a : Answer} {n : WorkflowNode} {o : Obs} (hn : n ∈ c.graph)
      (h : TailObs n o) : ActObs c s (.worker i a) o
  | late {call : Nat} {id : NodeId} {o : RunOutcome} (hl : (call, id) ∈ s.core.late) :
      ActObs c s (.late call o) (.settled call id .forward o)

/-- Touches; under the condition `q` also those of the drive loop. -/
inductive TouchObs (q : Prop) : Obs → Prop where
  | skipped {id : NodeId} {reason : String} : TouchObs q (.event (.nodeSkipped id reason))
  | ready {id : NodeId} : TouchObs q (.event (.nodeReady id))
  | cancelled {id : NodeId} {reason : String} (hq : q) :
      TouchObs q (.event (.nodeCancelled id reason))
  | note {e : WorkflowEvent} (he : IsNote e) (hq : q) : TouchObs q (.event e)
  | illegal {id : NodeId} {st : NodeStatus} : TouchObs q (.illegal id st .skip)

/-! ## 3. Every step adds what is listed -/

section Steps

variable {c : Context} {s s' : State} {x y : Core} {n : WorkflowNode} {l : Label}

theorem HeadRow.adds {error : String} {q : Bool} {pc : Option FailPc}
    (h : HeadRow c x n error q y pc) : Adds (HeadObs n) x y := by
  cases h with
  | failed => exact .one rfl .failed
  | compensates => exact .one rfl .compensating
  | quarantines => exact .one rfl .quarantined
  | waits | refused => exact .one rfl .illegal

theorem sweepNext_adds {failed : NodeId} {ids : List NodeId} {pc : FailPc}
    (h : sweepNext c x failed ids = (y, pc)) : Adds (TailObs n) x y := by
  rcases sweepNext_cases h with ⟨rfl, -⟩ | ⟨_, _, _, _, rfl, _⟩
  · exact .none rfl
  · exact .one rfl .sweeps

theorem FailRow.adds {error : String} {pc pc' : FailPc} {a : Answer}
    (h : FailRow c x n error pc a y pc') : Adds (TailObs n) x y := by
  cases h with
  | undoes => exact .one rfl .undoes
  | rollsBack hs hx => exact (Adds.two rfl .undone .rolledBack).trans (sweepNext_adds hx)
  | swept hx => exact (Adds.two (List.append_assoc ..) .swept .compensated).trans (sweepNext_adds hx)

theorem Row.adds {f : Flight} {pc pc' : FlightPc} {a : Answer} (h : Row c x f pc a y pc') :
    Adds (RowObs c x f pc a) x y := by
  cases h with
  | throws | approved | timesOut | ended => exact .none rfl
  | calls hgate hnext =>
      refine .one rfl (.calls rfl ?_ hnext)
      exact hgate.imp And.left fun ⟨req, hpc, _⟩ => ⟨req, hpc⟩
  | concludes hkind hcond hsrc =>
      rcases hsrc with ⟨-, -, rfl, -⟩ | ⟨_, _, _, rfl, -, rfl⟩
      · exact .none (List.append_nil _)
      · exact .one rfl (.settles rfl)
  | asks => exact .one rfl .asks
  | @answers req granted =>
      cases granted
      · exact .two rfl .answers .denied
      · exact .two rfl .answers .granted
  | settles => exact .one rfl (.settles rfl)
  | verifies => exact .one rfl .verifies
  | retries => exact .one rfl (.retries rfl)
  | retryRefused => exact .one rfl .illegal
  | fails _ _ hhead | failRefused _ hhead =>
      exact Adds.trans (y := x.countFailure f.node.id) (.none rfl) (hhead.adds.mono fun _ => .head)
  | resumes => exact .one rfl (.resumes rfl)
  | ending hfail => exact hfail.adds.mono fun _ => .tail

theorem Act.adds (h : Act c s l y) : Adds (ActObs c s l) s.core y := by
  cases h with
  | idle | settles | world => exact .none rfl
  | flight hf hrow => exact hrow.adds.mono fun _ => .row hf
  | @begins i n job s₀ hh hn hid hkey =>
      by_cases hs : s.core.status n.id = .ready ∨ s.core.status n.id = .retrying
      · rw [beginAttempt_ok hs]
        exact .one rfl (.begins hh hn hkey)
      · simp only [not_or] at hs
        obtain ⟨_, he⟩ := beginAttempt_refused job hs.1 hs.2
        rw [he]
        exact .one rfl .refused
  | completes hn hr => exact .one rfl (.completes hn hr)
  | givesUp hw hn hend ht hcore hcaught hrow =>
      refine Adds.trans ?_ (hrow.adds.mono fun _ => .head hn)
      rcases hcore with rfl | rfl
      · exact .none rfl
      · exact .one rfl .refused
  | ending hw hn hend hrow => exact hrow.adds.mono fun _ => .tail hn
  | endRefused hw hn => exact .two rfl (.tail hn .undone) .refused
  | late hl => exact .one rfl (.late hl)

theorem Touch.adds {T : List NodeId} {q : Prop} (h : Touch c T q x y) :
    Adds (TouchObs q) x y := by
  cases h with
  | skip => exact .one rfl .skipped
  | prepare => exact .one rfl .ready
  | cancel hn hq => exact .one rfl (.cancelled hq)
  | note he hq => exact .one rfl (.note he hq)

theorem Spread.adds {T : List NodeId} {q : Prop} (h : Spread c T q x y) :
    Adds (TouchObs q) x y := by
  induction h with
  | refl => exact .none rfl
  | tail _ ht ih => exact ih.trans ht.adds

/-- **A forward call comes from an execution of its node** that was about to make it. -/
theorem ActObs.called {call : Nat} {id : NodeId} {action : String} {input : Option Json}
    {gate : Bool} (h : ActObs c s l (.called call id .forward action input gate)) :
    ∃ key f, l = .flight key .tick ∧ s.core.store.inFlight key = some f ∧ f.node.id = id ∧
      (f.pc = .ran ∨ ∃ req, f.pc = .answered req true) ∧
      flightNext c s.core f f.pc .tick = some (s.core.invoke id .forward action input,
        .calling action input s.core.trace.length) := by
  generalize ho : Obs.called call id .forward action input gate = o at h
  cases h with
  | @row key f a o hf hrow =>
      cases hrow with
      | calls ha hpc hnext =>
          cases ho
          subst ha
          exact ⟨key, f, rfl, hf, rfl, hpc, hnext⟩
      | head hhead => cases hhead <;> cases ho
      | tail htail => cases htail <;> cases ho
      | _ => cases ho
  | head _ hhead => cases hhead <;> cases ho
  | tail _ htail => cases htail <;> cases ho
  | _ => cases ho

/-- A node is recorded as completed with the result the store holds for it. -/
theorem ActObs.completed {id : NodeId} {r : NodeResult} {op key : String}
    (h : ActObs c s l (.event (.nodeCompleted id r op key))) :
    ∃ n ∈ c.graph, n.id = id ∧ s.core.store.completed (keyOf c n) = some r := by
  cases h with
  | completes hn hr => exact ⟨_, hn, rfl, hr⟩
  | row hf hrow =>
      cases hrow with
      | head hhead => cases hhead
      | tail htail => cases htail
  | head _ hhead => cases hhead
  | tail _ htail => cases htail

/-- **What a step adds to the trace**: what its act adds, and then what touches add. -/
theorem CoreStep.adds (h : CoreStep c s l y) :
    Adds (fun o => ActObs c s l o ∨ TouchObs (l = .drive) o) s.core y := by
  obtain ⟨x₁, x₂, T, q, ha, hq, hsp, hlast⟩ := h
  have h₁ : Adds (fun o => ActObs c s l o ∨ TouchObs (l = .drive) o) s.core x₂ := by
    refine (ha.adds.mono fun _ => .inl).trans (hsp.adds.mono fun o ho => .inr ?_)
    cases ho with
    | skipped => exact .skipped
    | ready => exact .ready
    | cancelled hq' => exact .cancelled (hq hq').2.1
    | note he hq' => exact .note he (hq hq').2.1
    | illegal => exact .illegal
  rcases hlast with rfl | ⟨id, st, -, rfl⟩
  · exact h₁
  · exact h₁.trans (.one rfl (.inr .illegal))

theorem step_adds (hnd : (c.graph.map (·.id)).Nodup) (hS : State.Sound c s)
    (hs : step c s l = some s') :
    Adds (fun o => ActObs c s l o ∨ TouchObs (l = .drive) o) s.core s'.core :=
  (step_core hS hnd hs).adds

end Steps

end AgentKernel.Orchestrator
