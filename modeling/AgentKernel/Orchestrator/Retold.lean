/-
  File:      AgentKernel/Orchestrator/Retold.lean
  Subject:   What the ledger of an obedient run tells of the fates, event by event.

  A crash may fall between any two events, also between two of one step. So what an event tells is
  justified by the events before it (`Tells`), and not by the state at the end of its step: a node
  completes or fails behind its completed dependencies, and a conditional completes behind the
  skips of its verdict. Every step of a run by the handler adds such events only (`Told.step`).
-/
import AgentKernel.Orchestrator.Schedules

namespace AgentKernel.Orchestrator

open Lib

/-! ## 1. What an event tells -/

/-- A node has completed in the ledger. -/
def HasCompleted (ledger : List WorkflowEvent) (id : NodeId) : Prop :=
  ∃ e ∈ ledger, e.completes = some id

/-- A node has been skipped in the ledger. -/
def HasSkipped (ledger : List WorkflowEvent) (id : NodeId) : Prop :=
  ∃ reason, .nodeSkipped id reason ∈ ledger

/-- The dependencies of the node have completed in the ledger. -/
def Unblocked (c : Context) (past : List WorkflowEvent) (id : NodeId) : Prop :=
  ∃ n ∈ c.graph, n.id = id ∧ ∀ d ∈ n.deps, HasCompleted past d

/-- The node completes with `r`, and what it skips is skipped in the ledger. -/
def Concluded (c : Context) (fates : NodeId → Fate) (past : List WorkflowEvent) (id : NodeId)
    (r : NodeResult) : Prop :=
  ∃ ids, fates id = .completed r ids ∧ ∀ m ∈ c.graph, m.id ∈ ids → HasSkipped past m.id

/-- An event that ends a node tells its fate, behind the events that this fate rests on. -/
def Tells (c : Context) (fates : NodeId → Fate) (past : List WorkflowEvent) : WorkflowEvent → Prop
  | .nodeCompleted id r .. => Unblocked c past id ∧ Concluded c fates past id r
  | .nodeFailed id .. => Unblocked c past id ∧ fates id = .failed
  | .nodeSkipped id _ => fates id = .skipped
  | .nodeRolledBack .. | .nodeQuarantined .. | .nodeCancelled .. => False
  | _ => True

/-- The ledger tells the fates, and whatever has been skipped. -/
structure Told (c : Context) (fates : NodeId → Fate) (x : Core) : Prop where
  tells : Justified (Tells c fates) (ledgerOf x.trace)
  skips : ∀ n ∈ c.graph, x.status n.id = .skipped → HasSkipped (ledgerOf x.trace) n.id

section Telling

variable {c : Context} {fates : NodeId → Fate} {past later : List WorkflowEvent}
  {e : WorkflowEvent} {x y : Core}

theorem HasCompleted.grow {id : NodeId} (h : HasCompleted past id) (hsub : past ⊆ later) :
    HasCompleted later id := by
  obtain ⟨e, he, hc⟩ := h
  exact ⟨e, hsub he, hc⟩

theorem HasSkipped.grow {id : NodeId} (h : HasSkipped past id) (hsub : past ⊆ later) :
    HasSkipped later id := by
  obtain ⟨reason, he⟩ := h
  exact ⟨reason, hsub he⟩

theorem Unblocked.grow {id : NodeId} (h : Unblocked c past id) (hsub : past ⊆ later) :
    Unblocked c later id := by
  obtain ⟨n, hn, hid, hdeps⟩ := h
  exact ⟨n, hn, hid, fun d hd => (hdeps d hd).grow hsub⟩

theorem Concluded.grow {id : NodeId} {r : NodeResult} (h : Concluded c fates past id r)
    (hsub : past ⊆ later) : Concluded c fates later id r := by
  obtain ⟨ids, hfate, hall⟩ := h
  exact ⟨ids, hfate, fun m hm hid => (hall m hm hid).grow hsub⟩

/-- Only an event that ends a node has something to tell. -/
theorem tells_of_ends_none (h : e.ends = none) : Tells c fates past e := by
  cases e <;> trivial

theorem tells_append (es : List WorkflowEvent) (hJ : Justified (Tells c fates) (ledgerOf x.trace))
    (hl : ledgerOf y.trace = ledgerOf x.trace ++ es) (hes : ∀ e ∈ es, e.ends = none) :
    Justified (Tells c fates) (ledgerOf y.trace) := by
  rw [hl]
  exact hJ.append fun e he _ => tells_of_ends_none (hes e he)

/-- **Touches tell the fates**, if what they lead to is foretold. -/
theorem Spread.tells {h : Handler} {T : List NodeId} {q : Prop} (hsp : Spread c T q x y)
    (hy : Foretold c h fates y) (hJ : Justified (Tells c fates) (ledgerOf x.trace)) :
    Justified (Tells c fates) (ledgerOf y.trace) := by
  induction hsp using Relation.ReflTransGen.head_induction_on with
  | refl => exact hJ
  | head ht hrest ih =>
      refine ih ?_
      cases ht with
      | @skip n reason hn hp why =>
          refine (ledgerOf_snoc _ _).symm ▸ justified_snoc.mpr ⟨hJ, hy.skipped n hn ?_⟩
          exact Spread.skipped hrest (Core.put_status_self ..)
      | prepare => exact tells_append _ hJ (ledgerOf_snoc _ _) (by simp [WorkflowEvent.ends])
      | @cancel n reason hn hq ho =>
          -- what is cancelled would stay so
          refine absurd ?_ (hy.native n hn)
          rw [Spread.terminal hrest (by rw [Core.put_status_self]; rfl), Core.put_status_self]
          trivial
      | @note e he =>
          refine tells_append _ hJ (ledgerOf_snoc _ _) fun e' he' => ?_
          rw [List.mem_singleton.mp he']
          cases e <;> first | rfl | exact he.elim

end Telling

/-! ## 2. Every step tells -/

section Steps

variable {c : Context} {h : Handler} {fates : NodeId → Fate} {s s' : State} {x y : Core}
  {n : WorkflowNode} {f : Flight} {a : Answer} {l : Label} {i : Nat}

/-- Dependencies that have completed have done so in the ledger. -/
theorem LedgerKept.unblocked (hK : LedgerKept c x) (hS : Setting c h fates) (hn : n ∈ c.graph)
    (hdeps : ∀ d ∈ n.deps, x.status d = .completed) : Unblocked c (ledgerOf x.trace) n.id := by
  refine ⟨n, hn, rfl, fun d hd => ?_⟩
  obtain ⟨m, hm, rfl⟩ := hS.graph.known n hn d hd
  exact (hK.done m hm).mpr (hdeps _ hd)

/-- **A stretch of an execution tells the fate of its node.** -/
theorem Row.tells (hF : Foretold c h fates x) (hS : Setting c h fates) (hK : LedgerKept c x)
    (hn : f.node ∈ c.graph) (hdeps : ∀ d ∈ f.node.deps, x.status d = .completed)
    {pc pc' : FlightPc} (hag : Agrees pc (x.status f.node.id)) (hfit : Fits c h fates x f.node pc)
    (hrow : Row c x f pc a y pc') (hJ : Justified (Tells c fates) (ledgerOf x.trace)) :
    Justified (Tells c fates) (ledgerOf y.trace) := by
  have hnone : ledgerOf y.trace = ledgerOf x.trace → Justified (Tells c fates) (ledgerOf y.trace) :=
    fun hl => by
      rw [hl]
      exact hJ
  -- no execution compensates
  have hnative : ∀ st, Foreign st → x.status f.node.id ≠ st := fun st hst he =>
    hF.native _ hn (he ▸ hst)
  cases hrow with
  | throws | approved | ended | timesOut => exact hJ
  | calls => exact hnone (by simp [Core.invoke])
  | concludes hkind hcond hsrc =>
      rcases hsrc with ⟨-, -, rfl, -⟩ | ⟨_, _, _, -, -, rfl⟩ <;> exact hnone (by simp)
  | settles => exact hnone (by simp)
  | asks | verifies | retries | resumes =>
      exact tells_append _ hJ (ledgerOf_snoc _ _) (by simp [WorkflowEvent.ends])
  | @answers req granted =>
      refine tells_append [if granted then .approvalGranted req else .approvalDenied req] hJ
        (by simp) ?_
      cases granted <;> simp [WorkflowEvent.ends]
  | retryRefused => exact hnone (by simp)
  | fails hagain hq hhead =>
      cases hhead with
      | failed hw ha =>
          exact (ledgerOf_snoc _ _).symm ▸
            justified_snoc.mpr ⟨hJ, hK.unblocked hS hn hdeps, hfit.1⟩
      | compensates hs ha =>
          rw [(hS.plain _ hn).1] at ha
          cases ha
      | quarantines hs =>
          rw [hF.world] at hq
          cases hq
  | failRefused hagain hhead =>
      cases hhead with
      | waits | refused => exact hnone (by simp [Core.countFailure, Core.setNode])
  | ending hrow =>
      cases hrow with
      | undoes => exact absurd hag (hnative _ trivial)
      | rollsBack hs => exact absurd hs (hnative _ trivial)
      | swept => exact absurd hag (hnative _ trivial)

/-- What is not done by a worker tells the fates. -/
theorem Act.tells (hF : Foretold c h fates s.core) (hfit : Fitting c h fates s.core)
    (hS : Setting c h fates) (hC : Core.Sound c s.core) (hK : LedgerKept c s.core)
    (hl : ∀ i a, l ≠ .worker i a) (ha : Act c s l y)
    (hJ : Justified (Tells c fates) (ledgerOf s.core.trace)) :
    Justified (Tells c fates) (ledgerOf y.trace) := by
  cases ha with
  | idle | settles | world => exact hJ
  | late =>
      simp only [Core.observe_trace, ledgerOf_append, ledgerOf_settled, ledgerOf_nil,
        List.append_nil]
      exact hJ
  | @flight key f a z pc hf hrow =>
      obtain ⟨hn, -, hag⟩ := hC.flight key f hf
      rw [Core.setFlight_trace]
      exact hrow.tells hF hS hK hn (hC.working key f hf hrow.going) hag (hfit key f hf) hJ
  | begins | completes | givesUp | ending | endRefused => exact absurd rfl (hl _ _)

/-- **What a worker does tells the fates**: it completes a node as the store says. -/
theorem Work.tells (hF : Foretold c h fates s.core) (hS : Setting c h fates)
    (hK : LedgerKept c s.core) (hT : Told c fates s.core) (hw : Work c s i y)
    (hy : Foretold c h fates y) : Justified (Tells c fates) (ledgerOf y.trace) := by
  cases hw with
  | nothing => exact hT.tells
  | begins => exact tells_append _ hT.tells (ledgerOf_snoc _ _) (by simp [WorkflowEvent.ends])
  | @completes n r hn hr hs =>
      have hdone : Justified (Tells c fates) (ledgerOf (doneCore c s.core n r).trace) := by
        refine (ledgerOf_snoc _ _).symm ▸ justified_snoc.mpr ⟨hT.tells, ?_, ?_⟩
        · refine hK.unblocked hS hn (hF.begun n hn ?_).1
          rw [hs]
          exact ⟨by decide, by decide⟩
        · obtain ⟨ids, hfate, hall⟩ := hF.stored n hn r hr
          exact ⟨ids, hfate, fun m hm hid => hT.skips m hm (hall m hm hid)⟩
      exact Spread.tells (T := []) (q := False) promoteReady_spread hy hdone
  | dies => exact tells_append [] hT.tells (by simp) (by simp)

/-- **Every step tells the fates.** -/
theorem step_tells (hF : Foretold c h fates s.core) (hfit : Fitting c h fates s.core)
    (hS : Setting c h fates) (hA : Advancing c s) (hK : LedgerKept c s.core)
    (hT : Told c fates s.core) (hy : Foretold c h fates s'.core) (hs : step c s l = some s') :
    Justified (Tells c fates) (ledgerOf s'.core.trace) := by
  have hnd := hS.graph.distinct
  by_cases hl : ∃ i a, l = .worker i a
  · obtain ⟨i, a, rfl⟩ := hl
    exact ((workerStep_move hs).work hnd hS.keys hA.sound hA.tidy).tells hF hS hK hT hy
  · push Not at hl
    obtain ⟨x₁, x₂, T, q, hact, -, hsp, hlast⟩ := step_core hA.sound hnd hs
    have hJ := hact.tells hF hfit hS hA.sound.core hK hl hT.tells
    rcases hlast with he | ⟨id, st, -, he⟩
    · rw [he] at hy ⊢
      exact hsp.tells hy hJ
    · rw [he] at hy ⊢
      have hx₂ : Foretold c h fates x₂ := hy.congr (fun _ => rfl) rfl rfl rfl
      simp only [Core.observe_trace, ledgerOf_append, ledgerOf_illegal, ledgerOf_nil,
        List.append_nil]
      exact hsp.tells hx₂ hJ

theorem HasSkipped.trace {obs : List Obs} {id : NodeId} (h : HasSkipped (ledgerOf x.trace) id)
    (hobs : y.trace = x.trace ++ obs) : HasSkipped (ledgerOf y.trace) id :=
  h.grow (by rw [hobs, ledgerOf_append]; exact List.subset_append_left _ _)

/-- A touch that skips a node says so. -/
theorem Touch.skips {T : List NodeId} {q : Prop} (ht : Touch c T q x y)
    (hx : ∀ n ∈ c.graph, x.status n.id = .skipped → HasSkipped (ledgerOf x.trace) n.id) :
    ∀ n ∈ c.graph, y.status n.id = .skipped → HasSkipped (ledgerOf y.trace) n.id := by
  intro n hn hy
  obtain ⟨e, he⟩ := ht.trace
  by_cases hold : x.status n.id = .skipped
  · exact (hx n hn hold).trace he
  · cases ht with
    | @skip m reason hm hp why =>
        rw [Core.put_status] at hy
        split_ifs at hy with hid
        · exact ⟨reason, by rw [hid]; simp⟩
        · exact absurd hy hold
    | prepare | cancel =>
        rw [Core.put_status] at hy
        split_ifs at hy
        exact absurd hy hold
    | note => exact absurd hy hold

theorem Spread.skips {T : List NodeId} {q : Prop} (hsp : Spread c T q x y)
    (hx : ∀ n ∈ c.graph, x.status n.id = .skipped → HasSkipped (ledgerOf x.trace) n.id) :
    ∀ n ∈ c.graph, y.status n.id = .skipped → HasSkipped (ledgerOf y.trace) n.id := by
  induction hsp with
  | refl => exact hx
  | tail _ ht ih => exact ht.skips ih

/-- Whatever is skipped, is skipped in the ledger. -/
theorem step_skips_told (hnd : (c.graph.map (·.id)).Nodup) (hS : State.Sound c s)
    (hk : ∀ n ∈ c.graph, s.core.status n.id = .skipped → HasSkipped (ledgerOf s.core.trace) n.id)
    (hs : step c s l = some s') :
    ∀ n ∈ c.graph, s'.core.status n.id = .skipped → HasSkipped (ledgerOf s'.core.trace) n.id := by
  refine (step_core hS hnd hs).keeps (I := fun z => ∀ n ∈ c.graph, z.status n.id = .skipped →
      HasSkipped (ledgerOf z.trace) n.id) hnd hS.core (fun z ha n hn hz => ?_)
    (fun z z' T q _ _ hz ht => ht.skips hz) fun z id st _ hz n hn hz' => (hz n hn hz').trace rfl
  rcases ha.moved hS.core n.id with he | ⟨-, hw⟩
  · obtain ⟨obs, hobs⟩ := ha.trace
    exact (hk n hn (he ▸ hz)).trace hobs
  · rw [hz] at hw
    exact hw.elim

theorem Told.step (hT : Told c fates s.core) (hF : Foretold c h fates s.core)
    (hfit : Fitting c h fates s.core) (hS : Setting c h fates) (hA : Advancing c s)
    (hK : LedgerKept c s.core) (hy : Foretold c h fates s'.core) (hs : step c s l = some s') :
    Told c fates s'.core :=
  ⟨step_tells hF hfit hS hA hK hT hy hs, step_skips_told hS.graph.distinct hA.sound hT.skips hs⟩

end Steps

end AgentKernel.Orchestrator
