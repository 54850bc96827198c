/-
  File:      AgentKernel/Orchestrator/Replayed.lean
  Subject:   The state of a resolved run is the replay of its ledger, node by node.

  `Mirror` relates three things of one node: its record, the snapshot its ledger events leave, and
  the place its execution awaits at. Every stretch of the node's own code moves the three together,
  with one exception: an attempt whose approval request was denied finds the node FAILED, and where
  the policy asks for another attempt FAIL is refused. The node stays FAILED and no event says so
  (`RetriesDenied`). A terminal node of a resolved run is rebuilt as it was, and not executed again
  by `resume`, if and only if no step of the run was of that kind (**`replayed_iff`**).
-/
import AgentKernel.Orchestrator.Attempts
import AgentKernel.Orchestrator.Finish
import AgentKernel.Orchestrator.Mixed

namespace AgentKernel.Orchestrator

open Lib

/-! ## 1. The property and its condition -/

/-- Two records agree in what a terminal node is rebuilt with. -/
structure SameRecord (live rebuilt : InternalNode) : Prop where
  status : rebuilt.status = live.status
  result : rebuilt.result = live.result
  error : rebuilt.error = live.error
  attempt : rebuilt.attempt = live.attempt

/-- The ledger shows the end of the node. A fresh executor that hydrates it has the node as it was,
    and never calls its forward action, whatever jobs the queue still holds. -/
def ReplaysTo (c : Context) (s : Core) (n : WorkflowNode) : Prop :=
  HasEnded (ledgerOf s.trace) n.id ∧
  ∀ w, ∃ core, hydrate c.toOptions w ((ledgerOf s.trace).map .event)
      (ledgerEvents c (ledgerOf s.trace)) = .ok (c, core) ∧
    SameRecord (s.nodes n.id) (core.nodes n.id) ∧
    ∀ jobs ls s', JobsOf c jobs → Run (step c) (fun _ _ => True) (.launch core jobs) ls s' →
      NotCalled s'.core.trace n.id

/-- The attempt of `n` has failed on a denied request, and the policy asks for another one. -/
def RetriesDenied (n : WorkflowNode) (s : State) : Label → Prop
  | .flight key .tick => ∃ f e, s.core.store.inFlight key = some f ∧ f.node.id = n.id ∧
      f.pc = .threw e ∧ s.core.status n.id = .failed ∧
      willRetry s.core f.node f.job.attempt e = true
  | _ => False

/-! ## 2. Record, snapshot and place -/

/-- Between a denied request and the end of its attempt. -/
def Denying (pc : Option FlightPc) : Prop :=
  (∃ req, pc = some (.answered req false)) ∨ ∃ e, pc = some (.threw e)

/-- How the record of a node, the snapshot its events leave and the place of its execution go
    together. -/
structure Mirror (nd : InternalNode) (snap : NodeSnapshot) (pc : Option FlightPc) : Prop where
  attempt : snap.attempt = nd.attempt
  result : snap.result = nd.result
  unfinished : nd.status ≠ .completed → nd.result = none
  atWork : nd.status.isTerminal = false → snap.status.isTerminal = false
  clean : nd.status.isTerminal = false → nd.status ≠ .compensating →
    nd.error = none ∧ snap.error = none
  told : ∀ thrown error p, pc = some (.failing thrown error p) → nd.error = some error
  owed : nd.status = .failed → Denying pc → snap.status.isTerminal = false
  ended : nd.status.isTerminal = true → ¬ (nd.status = .failed ∧ Denying pc) →
    snap.status = nd.status ∧ snap.error = nd.error
  spared : nd.status = .completed ∨ nd.status = .skipped → nd.error = none

section Mirror

variable {nd nd' : InternalNode} {snap snap' : NodeSnapshot} {pc pc' : Option FlightPc}

/-- A place that tells of no error. -/
def Untold (pc : Option FlightPc) : Prop := ∀ thrown error p, pc ≠ some (.failing thrown error p)

theorem Mirror.count (h : Mirror nd snap pc) (k : Nat) :
    Mirror { nd with failureCount := k } snap pc :=
  ⟨h.attempt, h.result, h.unfinished, h.atWork, h.clean, h.told, h.owed, h.ended, h.spared⟩

/-- The code goes on, and neither the record nor the snapshot is written. -/
theorem Mirror.goesOn (h : Mirror nd snap pc) (hpc : Untold pc')
    (hd : nd.status = .failed → (Denying pc ↔ Denying pc')) : Mirror nd snap pc' :=
  ⟨h.attempt, h.result, h.unfinished, h.atWork, h.clean, fun _ _ _ he => absurd he (hpc _ _ _),
    fun hf hden => h.owed hf ((hd hf).mpr hden),
    fun ht hno => h.ended ht fun ⟨hf, hden⟩ => hno ⟨hf, (hd hf).mp hden⟩, h.spared⟩

/-- The node is at work before and after. -/
theorem Mirror.works (h : Mirror nd snap pc) (ho : nd.status.isTerminal = false)
    (hc : nd.status ≠ .compensating) (ho' : nd'.status.isTerminal = false)
    (hsnap : snap'.status.isTerminal = false) (hattempt : snap'.attempt = nd'.attempt)
    (hresult : nd'.result = nd.result) (hresult' : snap'.result = snap.result)
    (herror : nd'.error = nd.error) (herror' : snap'.error = snap.error) (hpc : Untold pc') :
    Mirror nd' snap' pc' := by
  have hnone : nd'.result = none := by
    rw [hresult]
    refine h.unfinished fun hd => ?_
    rw [hd] at ho
    cases ho
  obtain ⟨hlive, hread⟩ := h.clean ho hc
  refine ⟨hattempt, ?_, fun _ => hnone, fun _ => hsnap, fun _ _ => ⟨by rw [herror, hlive],
    by rw [herror', hread]⟩, fun _ _ _ he => absurd he (hpc _ _ _), fun hf => ?_, fun ht => ?_,
    fun _ => ?_⟩
  · rw [hresult', h.result, hresult]
  · rw [hf] at ho'
    cases ho'
  · rw [ho'] at ht
    cases ht
  · rw [herror, hlive]

/-- A request is denied. -/
theorem Mirror.denies {req : ApprovalRequest} (h : Mirror nd snap pc)
    (ho : nd.status.isTerminal = false) :
    Mirror { nd with status := .failed } snap (some (.answered req false)) := by
  refine ⟨h.attempt, h.result, fun _ => h.unfinished fun hd => ?_, nofun, nofun, nofun,
    fun _ _ => h.atWork ho, fun _ hno => absurd ⟨rfl, .inl ⟨req, rfl⟩⟩ hno, fun hd => ?_⟩
  · rw [hd] at ho
    cases ho
  · rcases hd with hd | hd <;> cases hd

/-- The node fails for good: its record holds the error its code goes on with, and so does its
    snapshot as soon as it has ended. -/
theorem Mirror.fails {thrown error : String} {p : FailPc} (h : Mirror nd snap pc)
    (hs : nd.status ≠ .completed) (hfail : nd'.status = .compensating ∨ nd'.status = .failed ∨
      nd'.status = .rolledBack ∨ nd'.status = .quarantined)
    (hstatus : snap'.status = nd'.status) (hattempt : nd'.attempt = nd.attempt)
    (hattempt' : snap'.attempt = snap.attempt) (hresult : nd'.result = nd.result)
    (hresult' : snap'.result = snap.result) (herror : nd'.error = some error)
    (herror' : nd'.status ≠ .compensating → snap'.error = some error) :
    Mirror nd' snap' (some (.failing thrown error p)) := by
  have hne : nd'.status ≠ .completed ∧ nd'.status ≠ .skipped := by
    rcases hfail with hf | hf | hf | hf <;> rw [hf] <;> exact ⟨by decide, by decide⟩
  have hopen : nd'.status.isTerminal = false → nd'.status = .compensating := by
    intro ht
    rcases hfail with hf | hf | hf | hf
    · exact hf
    · rw [hf] at ht
      cases ht
    · rw [hf] at ht
      cases ht
    · rw [hf] at ht
      cases ht
  refine ⟨by rw [hattempt', h.attempt, hattempt], by rw [hresult', h.result, hresult],
    fun _ => by rw [hresult, h.unfinished hs], fun ht => by rw [hstatus, ht],
    fun ht hc => absurd (hopen ht) hc, fun _ _ _ he => ?_, fun _ hden => ?_,
    fun ht _ => ⟨hstatus, ?_⟩, fun hd => ?_⟩
  · cases he
    exact herror
  · rcases hden with ⟨_, he⟩ | ⟨_, he⟩ <;> cases he
  · rw [herror, herror' fun hc => by rw [hc] at ht; cases ht]
  · exact absurd hd (not_or.mpr hne)

/-- A node that is not at work ends without an error. -/
theorem Mirror.ends (h : Mirror nd snap pc) (ho : nd.status.isTerminal = false)
    (hc : nd.status ≠ .compensating) (ht' : nd'.status.isTerminal = true)
    (hf : nd'.status ≠ .failed) (hstatus : snap'.status = nd'.status) (hattempt : nd'.attempt = nd.attempt)
    (hattempt' : snap'.attempt = snap.attempt) (hresult : snap'.result = nd'.result)
    (hnone : nd'.status ≠ .completed → nd'.result = none)
    (herror : nd'.error = nd.error) (herror' : snap'.error = snap.error) (hpc : Untold pc') :
    Mirror nd' snap' pc' := by
  obtain ⟨hlive, hread⟩ := h.clean ho hc
  have hopen : ¬ nd'.status.isTerminal = false := by simp [ht']
  exact ⟨by rw [hattempt', h.attempt, hattempt], hresult, hnone, fun ho' => absurd ho' hopen,
    fun ho' => absurd ho' hopen, fun _ _ _ he => absurd he (hpc _ _ _), fun hf' => absurd hf' hf,
    fun _ _ => ⟨hstatus, by rw [herror', hread, herror, hlive]⟩, fun _ => by rw [herror, hlive]⟩

/-- **What a mirrored node is restored to**, once its end has been told. -/
theorem Mirror.restored (h : Mirror nd snap pc) (ht : nd.status.isTerminal = true)
    (hd : ¬ Denying pc) : SameRecord nd (restored {} snap) := by
  obtain ⟨hstatus, herror⟩ := h.ended ht fun hno => hd hno.2
  unfold Orchestrator.restored
  split
  · rename_i r hs hr
    exact ⟨hs.symm.trans hstatus, by rw [← h.result, hr],
      (h.spared (.inl (hstatus ▸ hs))).symm, h.attempt⟩
  · rename_i hno
    have hnone : nd.result = none := by
      by_cases hs : nd.status = .completed
      · cases hr : nd.result with
        | none => rfl
        | some r => exact absurd (h.result.trans hr) (hno r (hstatus.trans hs))
      · exact h.unfinished hs
    split_ifs with hskip hterm
    · have hspared := h.spared (.inr (hstatus ▸ hskip))
      exact ⟨hskip.symm.trans hstatus, hnone.symm, hspared.symm, h.attempt⟩
    · exact ⟨hstatus, hnone.symm, herror, h.attempt⟩
    · rw [hstatus, ht] at hterm
      exact absurd rfl hterm

end Mirror

/-! ## 3. Snapshots that stay -/

section Snapshots

variable {c : Context} {x y : Core} {id : NodeId} {L : List WorkflowEvent}

theorem snapStep_elsewhere {e : WorkflowEvent} (snap : NodeSnapshot) (h : Elsewhere id e) :
    snapStep id snap e = snap := by
  unfold snapStep
  split_ifs with hid
  · obtain ⟨hw, hend⟩ := h
    cases e with
    | nodeRunning | nodeVerified | nodeRetrying | nodeCompensating => exact absurd hid hw
    | nodeCompleted | nodeFailed | nodeRolledBack | nodeQuarantined | nodeCancelled | nodeSkipped =>
        exact absurd hid hend
    | _ => rfl
  · rfl

theorem snapOf_elsewhere : ∀ {es : List WorkflowEvent}, (∀ e ∈ es, Elsewhere id e) →
    snapOf id (L ++ es) = snapOf id L := by
  intro es
  induction es using List.reverseRecOn with
  | nil => exact fun _ => by simp
  | append_singleton es e ih =>
      intro h
      rw [← List.append_assoc, snapOf_snoc, snapStep_elsewhere _ (h e (by simp)),
        ih fun x hx => h x (List.mem_append_left _ hx)]

theorem Adds.snapOf {P : Obs → Prop} (h : Adds P x y) (hP : ∀ e, P (.event e) → Elsewhere id e) :
    snapOf id (ledgerOf y.trace) = snapOf id (ledgerOf x.trace) := by
  obtain ⟨obs, hobs, hall⟩ := h
  rw [hobs, ledgerOf_append]
  exact snapOf_elsewhere fun e he => hP e (hall _ (mem_ledgerOf.mp he))

end Snapshots

/-! ## 4. Every stretch of the node's own code -/

section Rows

variable {c : Context} {x y : Core} {n : WorkflowNode} {f : Flight} {a : Answer}

/-- The snapshot the ledger leaves for `n`. -/
def Core.snap (s : Core) (n : WorkflowNode) : NodeSnapshot := snapOf n.id (ledgerOf s.trace)

/-- What an event about `n` writes. -/
theorem snap_told {e : WorkflowEvent} {snap : NodeSnapshot} (ht : y.trace = x.trace ++ [.event e])
    (he : e.payload.nodeId = some n.id)
    (hw : snapshotWrite e.type e.payload (x.snap n) = some snap) : y.snap n = snap := by
  rw [Core.snap, ht, ledgerOf_snoc, snapOf_snoc, snapStep, if_pos he]
  exact Option.getD_eq_iff.mpr (.inl hw)

theorem snap_event {nd : InternalNode} {e : WorkflowEvent} {snap : NodeSnapshot}
    (he : e.payload.nodeId = some n.id)
    (hw : snapshotWrite e.type e.payload (x.snap n) = some snap) :
    (x.put n.id nd [.event e]).snap n = snap := snap_told rfl he hw

/-- Events about other nodes, or that `hydrate` passes over. -/
theorem snap_trace {obs : List Obs} (ht : y.trace = x.trace ++ obs)
    (h : ∀ e ∈ ledgerOf obs, Elsewhere n.id e) : y.snap n = x.snap n := by
  rw [Core.snap, ht, ledgerOf_append]
  exact snapOf_elsewhere h

theorem snap_put {id : NodeId} {nd : InternalNode} {obs : List Obs}
    (h : ∀ e ∈ ledgerOf obs, Elsewhere n.id e) : (x.put id nd obs).snap n = x.snap n :=
  snap_trace rfl h

theorem Adds.snap {P : Obs → Prop} (h : Adds P x y) (hP : ∀ e, P (.event e) → Elsewhere n.id e) :
    y.snap n = x.snap n := h.snapOf hP

/-- The head of `failNode`, from a node at work or denied. -/
theorem Mirror.head {thrown error : String} {q : Bool} {p : FailPc} {pc : Option FlightPc}
    (h : Mirror (x.nodes n.id) (x.snap n) pc) (hs : x.status n.id ≠ .completed)
    (hd : headStatus (x.status n.id) = .failed) (hrow : HeadRow c x n error q y (some p)) :
    Mirror (y.nodes n.id) (y.snap n) (some (.failing thrown error p)) := by
  cases hrow with
  | failed hw ha =>
      rw [Core.put_nodes_self, snap_event rfl rfl]
      exact h.fails hs (.inr (.inl hd)) hd.symm rfl rfl rfl rfl rfl fun _ => rfl
  | compensates hs' ha =>
      rw [Core.put_nodes_self, snap_event rfl rfl]
      exact h.fails hs (.inl rfl) rfl rfl rfl rfl rfl rfl fun hno => absurd rfl hno
  | quarantines hs' =>
      rw [Core.put_nodes_self, snap_event rfl rfl]
      exact h.fails hs (.inr (.inr (.inr rfl))) rfl rfl rfl rfl rfl rfl fun _ => rfl

theorem sweepNext_nodes {failed : NodeId} {ids : List NodeId} {pc : FailPc}
    (h : sweepNext c x failed ids = (y, pc)) : y.nodes = x.nodes := by
  rcases sweepNext_cases h with ⟨rfl, -⟩ | ⟨_, _, _, _, rfl, _⟩ <;> rfl

theorem HeadRow.not_waiting {error : String} {q : Bool} {p : FailPc}
    (h : HeadRow c x n error q y (some p)) : x.status n.id ≠ .waiting := by
  cases h with
  | failed hw => exact hw
  | compensates hs | quarantines hs =>
      intro hw
      rw [hw] at hs
      cases hs

/-- The rest of `failNode`. -/
theorem Mirror.tail {thrown error : String} {p p' : FailPc}
    (h : Mirror (x.nodes n.id) (x.snap n) (some (.failing thrown error p)))
    (hrow : FailRow c x n error p a y p') :
    Mirror (y.nodes n.id) (y.snap n) (some (.failing thrown error p')) := by
  have herror : (x.nodes n.id).error = some error := h.told _ _ _ rfl
  -- a stretch that writes nothing of the node
  have hstay : ∀ z : Core, z.nodes n.id = x.nodes n.id → z.snap n = x.snap n →
      Mirror (z.nodes n.id) (z.snap n) (some (.failing thrown error p')) := by
    intro z hnodes hsnap
    rw [hnodes, hsnap]
    refine ⟨h.attempt, h.result, h.unfinished, h.atWork, h.clean, fun _ _ _ he => ?_,
      fun _ hden => ?_, fun ht _ => h.ended ht fun hno => ?_, h.spared⟩
    · cases he
      exact herror
    · rcases hden with ⟨_, he⟩ | ⟨_, he⟩ <;> cases he
    · rcases hno.2 with ⟨_, he⟩ | ⟨_, he⟩ <;> cases he
  cases hrow with
  | undoes => exact hstay _ rfl (by simp [Core.snap, Core.invoke])
  | @rollsBack spec call o s' pc hs hsweep =>
      have hrolled : Mirror
          ((x.put n.id { x.nodes n.id with status := .rolledBack }
            [.settled call n.id .compensation o, .event (.nodeRolledBack n.id error)]).nodes n.id)
          ((x.put n.id { x.nodes n.id with status := .rolledBack }
            [.settled call n.id .compensation o, .event (.nodeRolledBack n.id error)]).snap n)
          (some (.failing thrown error p')) := by
        have hsnap : (x.put n.id { x.nodes n.id with status := .rolledBack }
            [.settled call n.id .compensation o, .event (.nodeRolledBack n.id error)]).snap n =
            { x.snap n with status := .rolledBack, error := some error } := by
          rw [Core.snap, Core.put_trace, ledgerOf_append, ledgerOf_settled]
          exact (snapOf_snoc).trans (if_pos rfl)
        rw [Core.put_nodes_self, hsnap]
        refine h.fails (fun hc => ?_) (.inr (.inr (.inl rfl))) rfl rfl rfl rfl rfl herror fun _ => rfl
        rw [← Core.status_eq, hs] at hc
        cases hc
      have hsnap : y.snap n = (x.put n.id { x.nodes n.id with status := .rolledBack }
          [.settled call n.id .compensation o, .event (.nodeRolledBack n.id error)]).snap n := by
        rw [Core.snap, sweepNext_ledger hsweep, Core.snap]
      rw [hsnap, sweepNext_nodes hsweep]
      exact hrolled
  | @swept id spec call rest o s' pc hsweep =>
      refine hstay y (congrFun (sweepNext_nodes hsweep) n.id) ?_
      have hswept : Elsewhere n.id (.nodeCompensated id spec.action) := by
        simp [Elsewhere, WorkflowEvent.works, WorkflowEvent.ends]
      rw [Core.snap, sweepNext_ledger hsweep, Core.emit, Core.observe_trace, ledgerOf_snoc, snapOf_snoc,
        snapStep_elsewhere _ hswept]
      simp [Core.snap]

/-- **A stretch of `executeWithRetry` keeps it**, unless it is refused another attempt after a
    denied request. -/
theorem Mirror.row {pc' : FlightPc} (hrow : Row c x f f.pc a y pc')
    (hag : Agrees f.pc (x.status f.node.id))
    (h : Mirror (x.nodes f.node.id) (x.snap f.node) (some f.pc))
    (hok : ∀ e, f.pc = .threw e → x.status f.node.id = .failed →
      willRetry x f.node f.job.attempt e = false) :
    Mirror (y.nodes f.node.id) (y.snap f.node) (some pc') := by
  have hs := (hag.not_completed hrow.going).1
  -- neither the record nor the ledger is written, and the code goes on
  have hgoes : ∀ z : Core, z.nodes f.node.id = x.nodes f.node.id → z.snap f.node = x.snap f.node →
      Untold (some pc') →
      (x.status f.node.id = .failed → Denying (some f.pc) ∧ Denying (some pc')) →
      Mirror (z.nodes f.node.id) (z.snap f.node) (some pc') := by
    intro z hnodes hsnap hpc hden
    rw [hnodes, hsnap]
    exact h.goesOn hpc fun hf => iff_of_true (hden hf).1 (hden hf).2
  have hrun : x.status f.node.id = .running → x.status f.node.id ≠ .failed := fun hr hf => by
    rw [hr] at hf
    cases hf
  have hopen : x.status f.node.id = .running →
      (x.nodes f.node.id).status.isTerminal = false ∧ (x.nodes f.node.id).status ≠ .compensating := by
    intro hr
    rw [← Core.status_eq, hr]
    exact ⟨rfl, by simp⟩
  have hwait : x.status f.node.id = .waiting → x.status f.node.id ≠ .failed := fun hr hf => by
    rw [hr] at hf
    cases hf
  have hcount : (x.countFailure f.node.id).nodes f.node.id = { x.nodes f.node.id with
      failureCount := (x.nodes f.node.id).failureCount + 1 } := by
    simp [Core.countFailure, Core.setNode]
  generalize hpc : f.pc = pc at hrow hag h hok hgoes
  cases hrow with
  | throws hpc' =>
      refine hgoes x rfl rfl (by simp [Untold]) fun hf => ⟨?_, .inr ⟨_, rfl⟩⟩
      rcases hpc' with rfl | ⟨_, rfl⟩ | ⟨req, granted, rfl⟩
      · exact absurd hf (hrun hag)
      · exact absurd hf (hwait hag)
      · cases granted with
        | true => exact absurd hf (hrun hag)
        | false => exact .inl ⟨req, rfl⟩
  | calls hgate =>
      refine hgoes _ rfl (by simp [Core.snap, Core.invoke]) (by simp [Untold]) fun hf => absurd hf (hrun ?_)
      rcases hgate with ⟨rfl, -⟩ | ⟨_, rfl, -⟩ <;> exact hag
  | concludes hkind hcond hsrc hpc' =>
      have hr : x.status f.node.id = .running := by
        rcases hsrc with ⟨rfl, -⟩ | ⟨_, _, _, rfl, -⟩ <;> exact hag
      refine hgoes _ (Core.put_nodes_self ..) ?_ ?_ fun hf => absurd hf (hrun hr)
      · rcases hsrc with ⟨-, -, rfl, -⟩ | ⟨_, _, _, -, -, rfl⟩ <;> simp [Core.snap]
      · rcases hpc' with rfl | ⟨_, rfl⟩ <;> simp [Untold]
  | asks hr =>
      rw [Core.put_nodes_self, snap_put fun e he => by
        rw [List.mem_singleton.mp he]
        simp [Elsewhere, WorkflowEvent.works, WorkflowEvent.ends]]
      exact h.works (hopen hr).1 (hopen hr).2 rfl (h.atWork (hopen hr).1) h.attempt rfl rfl rfl rfl
        (by simp [Untold])
  | @answers req granted hw =>
      have ho : (x.nodes f.node.id).status.isTerminal = false := by rw [← Core.status_eq, hw]; rfl
      rw [Core.put_nodes_self, snap_put fun e he => by
        rw [List.mem_singleton.mp he]
        cases granted <;> simp [Elsewhere, WorkflowEvent.works, WorkflowEvent.ends]]
      cases granted with
      | true =>
          have hc : (x.nodes f.node.id).status ≠ .compensating := by
            rw [← Core.status_eq, hw]
            simp
          exact h.works ho hc rfl (h.atWork ho) h.attempt rfl rfl rfl rfl (by simp [Untold])
      | false => exact h.denies ho
  | approved => exact hgoes x rfl rfl (by simp [Untold]) fun hf => absurd hf (hrun hag)
  | settles hpc' =>
      refine hgoes _ (Core.put_nodes_self ..) (snap_put (by simp)) ?_ fun hf => absurd hf (hrun hag)
      rcases hpc' with ⟨_, -, -, rfl, -⟩ | ⟨_, -, -, rfl, -⟩ | ⟨_, -, rfl⟩ <;> simp [Untold]
  | timesOut => exact hgoes _ rfl rfl (by simp [Untold]) fun hf => absurd hf (hrun hag)
  | verifies hr =>
      rw [Core.put_nodes_self, snap_event rfl rfl]
      exact h.works (hopen hr).1 (hopen hr).2 rfl rfl h.attempt rfl rfl rfl rfl (by simp [Untold])
  | retries hagain hr =>
      rw [Core.put_nodes_self, snap_event rfl rfl]
      exact h.works (hopen hr).1 (hopen hr).2 rfl rfl h.attempt rfl rfl rfl rfl (by simp [Untold])
  | @retryRefused e message hagain hr =>
      have hf : x.status f.node.id ≠ .failed := fun hf => by
        rw [hok e rfl hf] at hagain
        cases hagain
      rw [Core.put_nodes_self, snap_put (by simp)]
      exact (h.count _).goesOn (by simp [Untold]) fun hfail => absurd hfail hf
  | @fails e reported q s' pc'' hagain hq hhead =>
      have hst := countFailure_status x f.node.id f.node.id
      have hcounted : Mirror ((x.countFailure f.node.id).nodes f.node.id)
          ((x.countFailure f.node.id).snap f.node) (some (.threw e)) := by
        rw [hcount]
        exact h.count _
      refine hcounted.head ?_ ?_ hhead
      · rw [hst]
        exact hs
      · rw [hst, headStatus_eq_failed]
        rcases hag with hr | hw | hf
        · exact .inl hr
        · exact absurd (hst.trans hw) hhead.not_waiting
        · exact .inr (.inr (.inr hf))
  | @failRefused e reported message q s' hagain hhead =>
      have hst := countFailure_status x f.node.id f.node.id
      cases hhead with
      | waits hw =>
          rw [Core.put_nodes_self, snap_put (by simp), hcount]
          exact (h.count _).goesOn (by simp [Untold]) fun hf => absurd hf (hwait (hst.symm.trans hw))
      | refused hw hs' =>
          rw [hst] at hw hs'
          rcases hag with hr | hr | hr
          · exact absurd (headStatus_eq_failed.mpr (.inl hr)) hs'
          · exact absurd hr hw
          · exact absurd (headStatus_eq_failed.mpr (.inr (.inr (.inr hr)))) hs'
  | resumes hr =>
      have ho : (x.nodes f.node.id).status.isTerminal = false := by rw [← Core.status_eq, hr]; rfl
      rw [Core.put_nodes_self, snap_event rfl rfl]
      exact h.works ho (by rw [← Core.status_eq, hr]; decide) rfl rfl rfl rfl rfl rfl rfl (by simp [Untold])
  | ending hfail => exact h.tail hfail
  | ended =>
      refine h.goesOn (by simp [Untold]) fun _ => iff_of_false (fun hden => ?_) fun hden => ?_ <;>
        rcases hden with ⟨_, he⟩ | ⟨_, he⟩ <;> cases he

end Rows

/-! ## 5. What an act does to one node -/

/-- The record of `n`, what the ledger says of it and its execution are left alone. -/
structure LeftAlone (c : Context) (n : WorkflowNode) (x y : Core) : Prop where
  nodes : y.nodes n.id = x.nodes n.id
  snap : y.snap n = x.snap n
  flight : y.store.inFlight (keyOf c n) = x.store.inFlight (keyOf c n)

/-- The acts of the code of `n` in a tidy process. -/
inductive OwnAct (c : Context) (s : State) (n : WorkflowNode) : Label → Core → Prop where
  | row {f : Flight} {a : Answer} {z : Core} {pc : FlightPc}
      (hf : s.core.store.inFlight (keyOf c n) = some f) (hnode : f.node = n)
      (hag : Agrees f.pc (s.core.status n.id)) (hrow : Row c s.core f f.pc a z pc) :
      OwnAct c s n (.flight (keyOf c n) a)
        (z.setFlight (keyOf c n) { f with job := nextJob f, pc := pc })
  | settles {f : Flight} {r : NodeResult} (hf : s.core.store.inFlight (keyOf c n) = some f)
      (hpc : f.pc = .verified r) (hs : s.core.status n.id = .verifying) :
      OwnAct c s n (.flight (keyOf c n) .tick)
        { s.core with store := s.core.store.settle (keyOf c n) r }
  | completes {i : Nat} {r : NodeResult} (hr : s.core.store.completed (keyOf c n) = some r)
      (hs : s.core.status n.id = .running ∨ s.core.status n.id = .verifying) :
      OwnAct c s n (.worker i .tick) (doneCore c s.core n r)
  | begins {i : Nat} {job : WorkflowJob} (hs : s.core.status n.id = .ready) :
      OwnAct c s n (.worker i .tick)
        ((s.core.put n.id { s.core.nodes n.id with status := .running, attempt := job.attempt }
          [.event (.nodeRunning n.id job.id job.attempt job.operationId)]).setFlight (keyOf c n)
            ⟨n, job, .ran⟩)

section Acts

variable {c : Context} {s s' : State} {x y : Core} {n : WorkflowNode} {l : Label}

theorem LeftAlone.refl (c : Context) (n : WorkflowNode) (x : Core) : LeftAlone c n x x :=
  ⟨rfl, rfl, rfl⟩

/-- **An act belongs to the code of `n`, or leaves `n` alone.** -/
theorem Act.own_or_leftAlone (hnd : (c.graph.map (·.id)).Nodup) (hk : DistinctKeys c)
    (hS : State.Sound c s) (ht : State.Tidy c s) (hn : n ∈ c.graph) (ha : Act c s l y) :
    OwnAct c s n l y ∨ LeftAlone c n s.core y := by
  have hkeys : ∀ {m : WorkflowNode}, m ∈ c.graph → n.id ≠ m.id → keyOf c n ≠ keyOf c m :=
    fun hm hid hkey => hid (congrArg (·.id) (hk n hn _ hm hkey))
  cases ha with
  | idle => exact .inr (.refl c n _)
  | world => exact .inr ⟨rfl, rfl, rfl⟩
  | late => exact .inr ⟨rfl, snap_trace rfl (by simp), rfl⟩
  | ending hw | endRefused hw => exact absurd (List.mem_of_getElem? hw) (ht.calm _ _ _ _)
  | @flight key f a z pc hf hrow =>
      obtain ⟨hfn, rfl, hag⟩ := hS.core.flight key f hf
      by_cases hid : n.id = f.node.id
      · obtain rfl := eq_of_id_eq hnd hn hfn hid
        exact .inl (.row hf rfl hag hrow)
      · refine .inr ⟨hrow.own.nodes n.id hid,
          hrow.adds.snap (n := n) fun e he => he.elsewhere hid, ?_⟩
        rw [Core.setFlight_inFlight, if_neg (hkeys hfn hid), hrow.own.store]
  | @settles key f r hf hpc =>
      obtain ⟨hfn, rfl, hag⟩ := hS.core.flight key f hf
      rw [hpc] at hag
      by_cases hid : n.id = f.node.id
      · obtain rfl := eq_of_id_eq hnd hn hfn hid
        exact .inl (.settles hf hpc hag)
      · refine .inr ⟨rfl, rfl, ?_⟩
        simp only [IdempotencyStore.settle, if_neg (hkeys hfn hid)]
  | @completes i m r hm hr hs =>
      by_cases hid : n.id = m.id
      · obtain rfl := eq_of_id_eq hnd hn hm hid
        exact .inl (.completes hr hs)
      · refine .inr ⟨if_neg hid, snap_trace rfl fun e he => ?_, rfl⟩
        rw [List.mem_singleton.mp he]
        exact ⟨by simp [WorkflowEvent.works], fun hend => hid (Option.some.inj hend).symm⟩
  | @begins i m job s₀ hh hm hid hkey hc hf =>
      have hnot : ¬ Known s.core (keyOf c m) := by
        rw [← hkey]
        rintro (⟨r, hr⟩ | ⟨g, hg⟩)
        · rw [hc] at hr
          cases hr
        · rw [hf] at hg
          cases hg
      have hready := ht.begins hS hh hm hid hnot
      rw [beginAttempt_ok (.inl hready), hkey]
      by_cases hmn : n.id = m.id
      · obtain rfl := eq_of_id_eq hnd hn hm hmn
        exact .inl (.begins hready)
      · refine .inr ⟨?_, snap_trace (x := s.core) rfl fun e he => ?_, ?_⟩
        · rw [Core.setFlight_nodes, Core.put_nodes, if_neg hmn]
        · rw [List.mem_singleton.mp he]
          exact ⟨fun hw => hmn (Option.some.inj hw).symm, by simp [WorkflowEvent.ends]⟩
        · rw [Core.setFlight_inFlight, if_neg (hkeys hm hmn)]
          rfl
  | @givesUp i job m d stored error core z pc hw hm hend hopen hcore hcaught hrow =>
      obtain ⟨rfl, -, hwait⟩ := hcaught.waiting hk hS ht.core (List.mem_of_getElem? hw) hopen
      obtain ⟨-, rfl⟩ := hrow.of_waiting hwait
      refine .inr ⟨?_, snap_put (by simp), rfl⟩
      rw [Core.put_nodes]
      split_ifs with hid
      · rw [hid]
      · rfl

/-- An event about another node. -/
theorem leftAlone_put {m : WorkflowNode} {nd : InternalNode} {e : WorkflowEvent} (hid : n.id ≠ m.id)
    (hworks : e.works = none) (hends : e.ends = some m.id ∨ e.ends = none) :
    LeftAlone c n x (x.put m.id nd [.event e]) := by
  refine ⟨if_neg hid, snap_put fun e' he' => ?_, rfl⟩
  rw [List.mem_singleton.mp he', Elsewhere, hworks]
  refine ⟨nofun, fun hend => ?_⟩
  rcases hends with he | he
  · exact hid (Option.some.inj (he.symm.trans hend)).symm
  · rw [he] at hend
    cases hend

theorem leftAlone_note {e : WorkflowEvent} (he : IsNote e) : LeftAlone c n x (x.emit e) := by
  refine ⟨rfl, snap_trace rfl fun e' he' => ?_, rfl⟩
  rw [List.mem_singleton.mp he']
  cases e with
  | jobEnqueued | runCompleted | runCancelled | runFailed => exact ⟨nofun, nofun⟩
  | _ => exact he.elim

theorem leftAlone_refused {id : NodeId} {st : NodeStatus} {e : NodeEvent} :
    LeftAlone c n x (x.observe (.illegal id st e)) := ⟨rfl, snap_trace rfl (by simp), rfl⟩

end Acts

/-! ## 6. Every step keeps it -/

/-- The record of `n`, its snapshot and the place of its execution go together. -/
def Mirrored (c : Context) (n : WorkflowNode) (s : Core) : Prop :=
  Mirror (s.nodes n.id) (s.snap n) ((s.store.inFlight (keyOf c n)).map (·.pc))

section Steps

variable {c : Context} {s s' : State} {x y : Core} {n : WorkflowNode} {l : Label}

theorem Mirrored.leftAlone (h : Mirrored c n x) (ha : LeftAlone c n x y) : Mirrored c n y := by
  unfold Mirrored
  rw [ha.nodes, ha.snap, ha.flight]
  exact h

theorem Row.tick {f : Flight} {e : String} {a : Answer} {pc : FlightPc}
    (h : Row c x f (.threw e) a y pc) : a = .tick := by
  cases h with
  | throws hpc => rcases hpc with hpc | ⟨_, hpc⟩ | ⟨_, _, hpc⟩ <;> cases hpc
  | concludes _ _ hsrc => rcases hsrc with ⟨hpc, -⟩ | ⟨_, _, _, hpc, -⟩ <;> cases hpc
  | _ => rfl

theorem Mirrored.own (hS : Core.Sound c s.core) (h : Mirrored c n s.core)
    (hok : ¬ RetriesDenied n s l) (ha : OwnAct c s n l y) : Mirrored c n y := by
  unfold Mirrored at h ⊢
  cases ha with
  | @row f a z pc hf hnode hag hrow =>
      subst hnode
      rw [hf] at h
      rw [Core.setFlight_inFlight, if_pos rfl]
      show Mirror (z.nodes f.node.id) (z.snap f.node) (some pc)
      refine h.row hrow hag fun e hpc hfail => ?_
      by_contra hno
      rw [Bool.not_eq_false] at hno
      rw [hpc] at hrow
      obtain rfl := hrow.tick
      exact hok ⟨f, e, hf, rfl, hpc, hfail, hno⟩
  | settles hf hpc hs =>
      refine h.goesOn ?_ fun hfail => ?_
      · simp only [IdempotencyStore.settle, if_pos]
        simp [Untold]
      · rw [← Core.status_eq, hs] at hfail
        cases hfail
  | @completes i r hr hs =>
      have hnone : s.core.store.inFlight (keyOf c n) = none := by
        cases hf : s.core.store.inFlight (keyOf c n) with
        | none => rfl
        | some f =>
            rw [hS.excl _ f hf] at hr
            cases hr
      have hopen : (s.core.nodes n.id).status.isTerminal = false ∧
          (s.core.nodes n.id).status ≠ .compensating := by
        rcases hs with hs | hs <;> (rw [← Core.status_eq, hs]; exact ⟨rfl, by decide⟩)
      have hnodes : (doneCore c s.core n r).nodes n.id =
          { s.core.nodes n.id with status := .completed, result := some r } := if_pos rfl
      have hsnap : (doneCore c s.core n r).snap n =
          { s.core.snap n with status := .completed, result := some r } :=
        snap_told (x := s.core) rfl rfl rfl
      have hstore : (doneCore c s.core n r).store.inFlight (keyOf c n) = none := hnone
      rw [hnodes, hsnap, hstore]
      exact h.ends hopen.1 hopen.2 rfl (by simp) rfl rfl rfl rfl (fun hne => absurd rfl hne) rfl rfl
        (by simp [Untold])
  | @begins i job hs =>
      have hopen : (s.core.nodes n.id).status.isTerminal = false := by
        rw [← Core.status_eq, hs]
        rfl
      have hsnap : ((s.core.put n.id
          { s.core.nodes n.id with status := .running, attempt := job.attempt }
          [.event (.nodeRunning n.id job.id job.attempt job.operationId)]).setFlight (keyOf c n)
            ⟨n, job, .ran⟩).snap n =
          { s.core.snap n with status := .running, attempt := job.attempt } :=
        snap_told (x := s.core) rfl rfl rfl
      rw [Core.setFlight_inFlight, if_pos rfl, Core.setFlight_nodes, Core.put_nodes_self, hsnap]
      exact h.works hopen (by rw [← Core.status_eq, hs]; decide) rfl rfl rfl rfl rfl rfl rfl
        (by simp [Untold])

/-- The execution of a node that has not begun, if it has any, is not inside `failNode`. -/
theorem untold_of_unbegun (hk : DistinctKeys c) (hn : n ∈ c.graph) (hS : Core.Sound c x)
    (hs : x.status n.id = .planned ∨ x.status n.id = .ready) :
    Untold ((x.store.inFlight (keyOf c n)).map (·.pc)) := by
  intro thrown error p hpc
  obtain ⟨f, hf, hfpc⟩ := Option.map_eq_some_iff.mp hpc
  obtain ⟨hfn, hfk, hag⟩ := hS.flight _ f hf
  obtain rfl := hk _ hfn _ hn hfk
  rw [hfpc] at hag
  rcases hs with hs | hs <;> rw [hs] at hag <;> cases p <;> simp [Agrees] at hag

/-- A touch; a node is cancelled before an execution of it has begun. -/
theorem Mirrored.touch {T : List NodeId} {q : Prop} (hnd : (c.graph.map (·.id)).Nodup)
    (hk : DistinctKeys c) (hn : n ∈ c.graph) (hq : q → Untouched (x.status n.id))
    (hS : Core.Sound c x) (h : Mirrored c n x) (ht : Touch c T q x y) : Mirrored c n y := by
  have hopen : ∀ {st}, x.status n.id = st → st.isTerminal = false →
      (x.nodes n.id).status.isTerminal = false := fun hst ho => by rw [← Core.status_eq, hst]; exact ho
  have hwork : ∀ {st}, x.status n.id = st → st ≠ .compensating →
      (x.nodes n.id).status ≠ .compensating := fun hst hne => by rw [← Core.status_eq, hst]; exact hne
  have hnone : (x.nodes n.id).status.isTerminal = false → (x.nodes n.id).result = none := fun ho =>
    h.unfinished fun hd => by rw [hd] at ho; cases ho
  cases ht with
  | @skip m reason hm hp why =>
      by_cases hid : n.id = m.id
      · obtain rfl := eq_of_id_eq hnd hn hm hid
        unfold Mirrored
        rw [Core.put_nodes_self, snap_event rfl rfl]
        exact h.ends (hopen hp rfl) (hwork hp (by decide)) rfl nofun rfl rfl rfl
          (h.result) (fun _ => hnone (hopen hp rfl)) rfl rfl (untold_of_unbegun (x := x) hk hn hS (.inl hp))
      · exact h.leftAlone (leftAlone_put hid rfl (.inl rfl))
  | @prepare m hm hp hd =>
      by_cases hid : n.id = m.id
      · obtain rfl := eq_of_id_eq hnd hn hm hid
        unfold Mirrored
        rw [Core.put_nodes_self, snap_put fun e he => by
          rw [List.mem_singleton.mp he]
          exact ⟨nofun, nofun⟩]
        exact h.works (hopen hp rfl) (hwork hp (by decide)) rfl (h.atWork (hopen hp rfl)) h.attempt
          rfl rfl rfl rfl (untold_of_unbegun (x := x) hk hn hS (.inl hp))
      · exact h.leftAlone (leftAlone_put hid rfl (.inr rfl))
  | @cancel m reason hm hq' hterm =>
      by_cases hid : n.id = m.id
      · obtain rfl := eq_of_id_eq hnd hn hm hid
        obtain ⟨st, hst, ho, hne, hs⟩ : ∃ st, x.status n.id = st ∧ st.isTerminal = false ∧
            st ≠ .compensating ∧ (x.status n.id = .planned ∨ x.status n.id = .ready) := by
          rcases hq hq' with hp | hr | ht
          · exact ⟨_, hp, rfl, by decide, .inl hp⟩
          · exact ⟨_, hr, rfl, by decide, .inr hr⟩
          · rw [hterm] at ht
            cases ht
        unfold Mirrored
        rw [Core.put_nodes_self, snap_event rfl rfl]
        exact h.ends (hopen hst ho) (hwork hst hne) rfl nofun rfl rfl rfl
          (h.result) (fun _ => hnone (hopen hst ho)) rfl rfl (untold_of_unbegun (x := x) hk hn hS hs)
      · exact h.leftAlone (leftAlone_put hid rfl (.inl rfl))
  | note he => exact h.leftAlone (leftAlone_note he)

theorem Mirrored.step (hnd : (c.graph.map (·.id)).Nodup) (hk : DistinctKeys c)
    (hS : State.Sound c s) (ht : State.Tidy c s) (hu : Unlost c s) (hn : n ∈ c.graph)
    (h : Mirrored c n s.core) (hok : ¬ RetriesDenied n s l) (hs : step c s l = some s') :
    Mirrored c n s'.core := by
  refine ((step_core hS hnd hs).keeps (I := fun z => Mirrored c n z ∧
    ((∀ w ∈ s.workers, w = .finished) → l = .drive → Untouched (z.status n.id))) hnd hS.core
    (fun z ha => ⟨(ha.own_or_leftAlone hnd hk hS ht hn).elim (h.own hS.core hok) h.leftAlone,
      fun hall hl => ?_⟩)
    (fun z z' T q hSz hq hz htouch => ⟨hz.1.touch hnd hk hn (fun hq' => ?_) hSz htouch,
      fun hall hl => (hz.2 hall hl).touch (htouch.status n.id)⟩)
    fun z id st _ hz => ⟨hz.1.leftAlone leftAlone_refused, hz.2⟩).1
  · subst hl
    cases ha with
    | idle => exact hu.settled hk hS ht hall hn
  · obtain ⟨-, hl, hall⟩ := hq hq'
    exact hz.2 hall hl

end Steps

/-! ## 7. A failure that is never told -/

/-- The node is FAILED, its snapshot is not terminal, and its execution has rejected. -/
structure Lost (c : Context) (n : WorkflowNode) (s : Core) : Prop where
  failed : s.status n.id = .failed
  snap : (s.snap n).status.isTerminal = false
  still : Still s (keyOf c n)

section Lost

variable {c : Context} {s s' : State} {x y : Core} {n : WorkflowNode} {l : Label}

theorem Lost.leftAlone (h : Lost c n x) (ha : LeftAlone c n x y) : Lost c n y := by
  refine ⟨?_, ?_, fun f hf => h.still f (ha.flight ▸ hf)⟩
  · rw [Core.status_eq, ha.nodes]
    exact h.failed
  · rw [ha.snap]
    exact h.snap

/-- A lost node has no code left that could act. -/
theorem Lost.no_own (h : Lost c n s.core) : ¬ OwnAct c s n l y := by
  intro ha
  cases ha with
  | row hf _ _ hrow =>
      obtain ⟨e, he⟩ := h.still _ hf
      exact hrow.going e he
  | settles hf hpc hs =>
      rw [h.failed] at hs
      cases hs
  | completes hr hs => rcases hs with hs | hs <;> (rw [h.failed] at hs; cases hs)
  | begins hs =>
      rw [h.failed] at hs
      cases hs

theorem Lost.touch {T : List NodeId} {q : Prop} (h : Lost c n x) (ht : Touch c T q x y) :
    Lost c n y := by
  -- a touched node was not terminal
  have hne : ∀ {m : WorkflowNode}, (x.status m.id).isTerminal = false → n.id ≠ m.id := by
    intro m ho hid
    rw [← hid, h.failed] at ho
    cases ho
  cases ht with
  | skip hm hp => exact h.leftAlone (leftAlone_put (hne (by rw [hp]; rfl)) rfl (.inl rfl))
  | prepare hm hp => exact h.leftAlone (leftAlone_put (hne (by rw [hp]; rfl)) rfl (.inr rfl))
  | cancel hm _ ho => exact h.leftAlone (leftAlone_put (hne ho) rfl (.inl rfl))
  | note he => exact h.leftAlone (leftAlone_note he)

theorem Lost.step (hnd : (c.graph.map (·.id)).Nodup) (hk : DistinctKeys c) (hS : State.Sound c s)
    (ht : State.Tidy c s) (hn : n ∈ c.graph) (h : Lost c n s.core) (hs : step c s l = some s') :
    Lost c n s'.core :=
  (step_core hS hnd hs).keeps hnd hS.core
    (fun _ ha => h.leftAlone ((ha.own_or_leftAlone hnd hk hS ht hn).resolve_left h.no_own))
    (fun _ _ _ _ _ _ hz htouch => hz.touch htouch) fun _ _ _ _ hz => hz.leftAlone leftAlone_refused

/-- **The refused attempt**: the step after which the failure of the node is never told. -/
theorem RetriesDenied.lost (hnd : (c.graph.map (·.id)).Nodup) (hS : State.Sound c s) (hn : n ∈ c.graph)
    (h : Mirrored c n s.core) (hbad : RetriesDenied n s l) (hs : step c s l = some s') :
    Lost c n s'.core := by
  unfold RetriesDenied at hbad
  split at hbad
  · rename_i key
    obtain ⟨f, e, hf, hid, hpc, hfail, hagain⟩ := hbad
    obtain ⟨hfn, rfl, hag⟩ := hS.core.flight key f hf
    obtain rfl := eq_of_id_eq hnd hfn hn hid
    obtain ⟨z, hz, rfl⟩ := Option.map_eq_some_iff.mp hs
    unfold flightStep at hz
    rw [hf] at hz
    dsimp only at hz
    rw [hpc] at hz hag
    obtain ⟨⟨z₁, pc⟩, hnext, rfl⟩ := Option.map_eq_some_iff.mp hz
    obtain ⟨z₂, hrow, hend⟩ := flightNext_ends hag hnext
    obtain rfl : z₂ = z₁ := by
      rcases hend with rfl | ⟨cond, source, -, -, hsrc, -⟩
      · rfl
      · cases hsrc
    have hden : (s.core.snap f.node).status.isTerminal = false := by
      refine h.owed hfail (.inr ⟨e, ?_⟩)
      rw [hf, Option.map_some, hpc]
    cases hrow with
    | throws hpc' => rcases hpc' with hpc' | ⟨_, hpc'⟩ | ⟨_, _, hpc'⟩ <;> cases hpc'
    | calls hgate => rcases hgate with ⟨hpc', -⟩ | ⟨_, hpc', -⟩ <;> cases hpc'
    | concludes _ _ hsrc => rcases hsrc with ⟨hpc', -⟩ | ⟨_, _, _, hpc', -⟩ <;> cases hpc'
    | retries _ hr =>
        rw [hfail] at hr
        cases hr
    | retryRefused =>
        refine ⟨?_, ?_, fun g hg => ?_⟩
        · rw [Core.setFlight_status, Core.put_status_self]
          exact hfail
        · simpa [Core.snap] using hden
        · rw [Core.setFlight_inFlight, if_pos rfl] at hg
          cases hg
          exact ⟨_, rfl⟩
    | fails hno | failRefused hno =>
        rw [hagain] at hno
        cases hno
  · exact hbad.elim

end Lost

/-! ## 8. The complete ledger, hydrated -/

/-- The ledger of a run begins with its creation, and creates no other one. -/
def CreatedOnce (c : Context) (s : Core) : Prop :=
  ∃ rest, ledgerOf s.trace = .runCreated c.runId c.taskId c.graph :: rest ∧
    ∀ e ∈ rest, e.type ≠ .runCreated

section Hydrating

variable {c : Context} {s s₀ : State} {x y : Core} {n : WorkflowNode} {l : Label} {w : World}

theorem ActObs.not_created {e : WorkflowEvent} (h : ActObs c s l (.event e)) :
    e.type ≠ .runCreated := by
  cases h with
  | row hf hrow =>
      cases hrow with
      | head hhead => cases hhead <;> exact nofun
      | tail htail => cases htail <;> exact nofun
      | _ => exact nofun
  | head hn hhead => cases hhead <;> exact nofun
  | tail hn htail => cases htail <;> exact nofun
  | _ => exact nofun

theorem TouchObs.not_created {q : Prop} {e : WorkflowEvent} (h : TouchObs q (.event e)) :
    e.type ≠ .runCreated := by
  cases h with
  | note he =>
      cases e with
      | runCreated => exact he.elim
      | _ => exact nofun
  | _ => exact nofun

theorem CreatedOnce.adds {P : Obs → Prop} (h : CreatedOnce c x) (ha : Adds P x y)
    (hP : ∀ e, P (.event e) → e.type ≠ .runCreated) : CreatedOnce c y := by
  obtain ⟨rest, hrest, hno⟩ := h
  obtain ⟨obs, hobs, hall⟩ := ha
  refine ⟨rest ++ ledgerOf obs, by rw [hobs, ledgerOf_append, hrest]; rfl, fun e he => ?_⟩
  rcases List.mem_append.mp he with he | he
  · exact hno e he
  · exact hP e (hall _ (mem_ledgerOf.mp he))

theorem CreatedOnce.step {s' : State} (hnd : (c.graph.map (·.id)).Nodup) (hS : State.Sound c s)
    (h : CreatedOnce c s.core) (hs : step c s l = some s') : CreatedOnce c s'.core :=
  h.adds (step_adds hnd hS hs) fun _ he => he.elim ActObs.not_created TouchObs.not_created

theorem createdOnce_initial (w : World) : CreatedOnce c (State.initial c w).core :=
  ⟨[], rfl, fun _ he => absurd he List.not_mem_nil⟩

theorem run_createdOnce {ok : State → Label → Prop} {ls : List Label}
    (hnd : (c.graph.map (·.id)).Nodup) (h : Run (step c) ok (.initial c w) ls s) :
    CreatedOnce c s.core :=
  (Run.invariant (I := fun s => State.Sound c s ∧ CreatedOnce c s.core)
    ⟨initial_sound w, createdOnce_initial w⟩
    (fun _ _ _ hI _ hs => ⟨hI.1.step hnd hs, hI.2.step hnd hI.1 hs⟩) h).2

/-- **The complete ledger of a run hydrates**, to the run itself. -/
theorem CreatedOnce.hydrates (hv : validateGraph c.graph = .ok ()) (h : CreatedOnce c x) (w : World)
    (trace : List Obs) : ∃ core, hydrate c.toOptions w trace (ledgerEvents c (ledgerOf x.trace)) =
      .ok (c, core) := by
  obtain ⟨rest, hrest, hno⟩ := h
  have hlast : CreatedLast c.runId c.taskId c.graph (ledgerEvents c (ledgerOf x.trace)) := by
    refine ⟨[], ledgerEvents c rest, by rw [hrest]; rfl, fun e he => ?_⟩
    obtain ⟨e', he', rfl⟩ := List.mem_map.mp he
    exact hno e' he'
  refine hlast.hydrates (o := c.toOptions) hv fun e he hp => ?_
  obtain ⟨e', -, rfl⟩ := List.mem_map.mp he
  cases hp

theorem Spread.nodes_terminal {T : List NodeId} {q : Prop} {id : NodeId} (h : Spread c T q x y)
    (ht : (x.status id).isTerminal = true) : y.nodes id = x.nodes id := by
  induction h with
  | refl => rfl
  | @tail z z' hsp htouch ih =>
      have hz : (z.status id).isTerminal = true := Spread.isTerminal hsp ht
      have hne : ∀ {m : WorkflowNode}, (z.status m.id).isTerminal = false → id ≠ m.id := by
        rintro m ho rfl
        rw [hz] at ho
        cases ho
      rw [← ih]
      cases htouch with
      | skip hm hp => exact if_neg (hne (by rw [hp]; rfl))
      | prepare hm hp => exact if_neg (hne (by rw [hp]; rfl))
      | cancel hm _ ho => exact if_neg (hne ho)
      | note => rfl

/-- Touches that cancel nothing fail nothing. -/
theorem Spread.not_failed {T : List NodeId} {id : NodeId} (h : Spread c T False x y)
    (hs : x.status id ≠ .failed) : y.status id ≠ .failed := by
  induction h with
  | refl => exact hs
  | tail _ htouch ih =>
      rcases htouch.status id with hsame | ⟨-, hst | hst⟩ | ⟨-, -, hq⟩
      · rw [hsame]
        exact ih
      · rw [hst]
        decide
      · rw [hst]
        decide
      · exact hq.elim

theorem hasEnded_of_snap : ∀ {L : List WorkflowEvent} {id : NodeId},
    (snapOf id L).status.isTerminal = true → HasEnded L id := by
  intro L id
  induction L using List.reverseRecOn with
  | nil => exact nofun
  | append_singleton past e ih =>
      intro ht
      by_cases hend : e.ends = some id
      · exact ⟨e, by simp, hend⟩
      · rw [snapOf_snoc] at ht
        rcases snapStep_status (snapOf id past) hend with hsame | ⟨-, hopen⟩
        · rw [hsame] at ht
          exact hasEnded_append.mpr (.inl (ih ht))
        · rw [ht] at hopen
          cases hopen

end Hydrating

/-! ## 9. Every run -/

section Runs

variable {c : Context} {s : State} {ls : List Label} {w : World} {n : WorkflowNode}

theorem mirrored_initial (w : World) : Mirrored c n (State.initial c w).core := by
  have hsnap : (State.initial c w).core.snap n = { nodeId := n.id } := rfl
  unfold Mirrored
  rw [hsnap]
  exact ⟨rfl, rfl, fun _ => rfl, fun _ => rfl, fun _ _ => ⟨rfl, rfl⟩, nofun, nofun, nofun, fun _ => rfl⟩

/-- The node is mirrored as long as no attempt of it is refused after a denied request. -/
theorem run_mirrored (hnd : (c.graph.map (·.id)).Nodup) (hk : DistinctKeys c) (hn : n ∈ c.graph)
    (h : Run (step c) (fun s l => ¬ RetriesDenied n s l) (.initial c w) ls s) :
    State.Sound c s ∧ State.Tidy c s ∧ Mirrored c n s.core := by
  have ha := alone_initial (c := c) w
  have hall := Run.invariant (I := fun s => (State.Sound c s ∧ State.Tidy c s ∧ Unlost c s) ∧
    Mirrored c n s.core) ⟨⟨ha.1.sound hnd, ha.tidy hnd hk, .initial w⟩, mirrored_initial w⟩
    (fun s l s' hI hok hs => ?_) h
  · exact ⟨hall.1.1, hall.1.2.1, hall.2⟩
  · obtain ⟨⟨hS, ht, hu⟩, hm⟩ := hI
    exact ⟨⟨hS.step hnd hs, ht.step hnd hk hS hs, hu.step hnd hk hS ht hs⟩,
      hm.step hnd hk hS ht hu hn hok hs⟩

/-- A terminal node is rebuilt from the complete ledger as it was, and is not executed again. -/
theorem Mirrored.replaysTo {x : Core} (hv : validateGraph c.graph = .ok ()) (hn : n ∈ c.graph)
    (hid : n.id ≠ "") (h : Mirrored c n x) (hcreated : CreatedOnce c x)
    (ht : (x.status n.id).isTerminal = true)
    (hd : ¬ Denying ((x.store.inFlight (keyOf c n)).map (·.pc))) : ReplaysTo c x n := by
  have hnd := validateGraph_nodup hv
  have hsnap : (x.snap n).status.isTerminal = true := by
    rw [(h.ended ht fun hno => hd hno.2).1]
    exact ht
  refine ⟨hasEnded_of_snap hsnap, fun w => ?_⟩
  obtain ⟨core, hcore⟩ := hcreated.hydrates hv w ((ledgerOf x.trace).map .event)
  obtain ⟨mid, hsp, -, -, hnodes⟩ := hydrate_own hnd hcore
  have hrec : SameRecord (x.nodes n.id) (mid.nodes n.id) := by
    rw [hnodes n hn hid]
    exact h.restored ht hd
  have hterm : (mid.status n.id).isTerminal = true := by
    rw [Core.status_eq, hrec.status]
    exact ht
  refine ⟨core, hcore, ?_, fun jobs ls s' hjobs hr => ?_⟩
  · rw [hsp.nodes_terminal hterm]
    exact hrec
  · have hs₀ : State.resumed c w (ledgerOf x.trace) jobs (.launch core jobs) := ⟨core, hcore, rfl⟩
    have hb := hs₀.begins hjobs
    exact (run_buried hnd (hb.sound hnd) hn (hb.buried hnd (hsp.isTerminal hterm)) hr).uncalled

/-- A lost node is not rebuilt as it was. -/
theorem Lost.not_replaysTo {x : Core} (hnd : (c.graph.map (·.id)).Nodup) (hn : n ∈ c.graph)
    (hid : n.id ≠ "") (h : Lost c n x) : ¬ ReplaysTo c x n := by
  intro ⟨_, hall⟩
  obtain ⟨core, hcore, hrec, -⟩ := hall ⟨fun _ => false, fun _ _ _ => none⟩
  obtain ⟨mid, hsp, -, -, hnodes⟩ := hydrate_own hnd hcore
  have hopen : (snapOf n.id (ledgerOf x.trace)).status.isTerminal = false := h.snap
  refine hsp.not_failed (fun hf => ?_) (hrec.status.trans h.failed)
  rw [Core.status_eq, hnodes n hn hid, restored_open hopen] at hf
  cases hf

/-- **State = replay(events).** In a resolved run a terminal node is what the complete ledger is
    replayed to, if and only if no attempt of it was refused after a denied request. -/
theorem replayed_iff (hv : validateGraph c.graph = .ok ()) (hk : NoCollision c)
    (h : Run (step c) (fun _ _ => True) (.initial c w) ls s) (hd : s.drive = .resolved)
    (hn : n ∈ c.graph) (hid : n.id ≠ "") (ht : (s.status n.id).isTerminal = true) :
    ReplaysTo c s.core n ↔
      Run (step c) (fun s l => ¬ RetriesDenied n s l) (.initial c w) ls s := by
  have hnd := validateGraph_nodup hv
  have hdk := hk.distinctKeys hnd
  constructor
  · intro hrep
    rcases h.and_or_bad (fun s l => ¬ RetriesDenied n s l) with
      hall | ⟨ls₁, l, ls₂, s₁, s₂, -, hr, -, hbad, hs, hrest⟩
    · exact hall.mono fun _ _ => And.right
    · exfalso
      obtain ⟨hS₁, ht₁, hm₁⟩ := run_mirrored hnd hdk hn (hr.mono fun _ _ => And.right)
      have hlost : Lost c n s₂.core := (not_not.mp hbad).lost hnd hS₁ hn hm₁ hs
      have hend := Run.invariant (I := fun s => (State.Sound c s ∧ State.Tidy c s) ∧ Lost c n s.core)
        ⟨⟨hS₁.step hnd hs, ht₁.step hnd hdk hS₁ hs⟩, hlost⟩
        (fun s l s' hI _ hs => ⟨⟨hI.1.1.step hnd hs, hI.1.2.step hnd hdk hI.1.1 hs⟩,
          hI.2.step hnd hdk hI.1.1 hI.1.2 hn hs⟩) hrest
      exact hend.2.not_replaysTo hnd hn hid hrep
  · intro hr
    obtain ⟨hS, -, hm⟩ := run_mirrored hnd hdk hn hr
    have hquiet := hS.quiescent (hS.orderly.rest hd (by simp) (by simp))
    refine hm.replaysTo hv hn hid (run_createdOnce hnd hr) ht fun hden => ?_
    -- an execution of a resolved run has rejected
    have hrejected : ∀ pc, (s.core.store.inFlight (keyOf c n)).map (·.pc) = some pc →
        ∃ e, pc = .rejected e := by
      intro pc hpc
      obtain ⟨f, hf, rfl⟩ := Option.map_eq_some_iff.mp hpc
      exact hquiet _ f hf
    rcases hden with ⟨req, hpc⟩ | ⟨e, hpc⟩
    · obtain ⟨_, he⟩ := hrejected _ hpc
      cases he
    · obtain ⟨_, he⟩ := hrejected _ hpc
      cases he

end Runs

/-- A node that asks for approval. -/
def signNode (retry : Option RetryPolicy) : WorkflowNode :=
  { id := "sign", kind := .approval, deps := [], retry := retry
    approval := some ⟨"release", "sign-off"⟩ }

/-- A graph of one node. -/
def signContext (retry : Option RetryPolicy) : Context :=
  { limits := defaultBulkhead, compensations := .empty, sha256 := fun s => s
    runId := "run", taskId := "task", graph := [signNode retry] }

/-- The request is denied, the attempt ends with `rest`, and the run comes to its end. -/
def signDenied (retry : Option RetryPolicy) (rest : List Answer) : List Label :=
  [.drive, .drive, .drive, .worker 0 .tick] ++
    (Answer.tick :: .approval false :: .tick :: rest).map
      (.flight (keyOf (signContext retry) (signNode retry))) ++
    [.worker 0 .tick] ++ (List.range 8).map (.worker · .tick) ++ [.drive, .drive]

theorem replayed_iff_sign : ∃ s, Run (step (signContext none)) (fun _ _ => True)
      (.initial (signContext none) openWorld) (signDenied none [.tick, .tick]) s ∧
    (ReplaysTo (signContext none) s.core (signNode none) ↔
      Run (step (signContext none)) (fun s l => ¬ RetriesDenied (signNode none) s l)
        (.initial (signContext none) openWorld) (signDenied none [.tick, .tick]) s) := by
  obtain ⟨s, hs, hend⟩ := Option.map_eq_some_iff.mp (show (exec (step (signContext none))
    (.initial (signContext none) openWorld) (signDenied none [.tick, .tick])).map
      (fun s => (s.drive, s.core.status "sign")) = some (.resolved, .failed) by rfl)
  obtain ⟨hd, hst⟩ := Prod.mk.inj hend
  have hrun : Run (step (signContext none)) (fun _ _ => True) _ _ s :=
    run_of_exec (fun _ _ => trivial) hs
  refine ⟨s, hrun, replayed_iff (by rfl) (fun _ _ _ _ h => h) hrun hd List.mem_cons_self (by decide) ?_⟩
  show (s.core.status "sign").isTerminal = true
  rw [hst]
  rfl

/-- The policy asks for a second attempt; the node ends FAILED and no event says so. -/
theorem denied_failure_untold : ∃ c w ls s n, validateGraph c.graph = .ok () ∧ NoCollision c ∧
    Run (step c) (fun _ _ => True) (.initial c w) ls s ∧ s.drive = .resolved ∧ n ∈ c.graph ∧
    n.id ≠ "" ∧ s.status n.id = .failed ∧ ¬ ReplaysTo c s.core n := by
  obtain ⟨s, hs, hend⟩ := Option.map_eq_some_iff.mp (show
    (exec (step (signContext (some ⟨2, ["*"]⟩))) (.initial (signContext (some ⟨2, ["*"]⟩)) openWorld)
      (signDenied (some ⟨2, ["*"]⟩) [.tick])).map (fun s => (s.drive, s.core.status "sign",
        (s.core.snap (signNode (some ⟨2, ["*"]⟩))).status)) = some (.resolved, .failed, .running) by rfl)
  obtain ⟨hd, hrest⟩ := Prod.mk.inj hend
  obtain ⟨hst, hsnap⟩ := Prod.mk.inj hrest
  have hrun : Run (step (signContext (some ⟨2, ["*"]⟩))) (fun _ _ => True) _ _ s :=
    run_of_exec (fun _ _ => trivial) hs
  have hnd : ((signContext (some ⟨2, ["*"]⟩)).graph.map (·.id)).Nodup := by decide
  have hS := run_sound hnd (initial_sound _) hrun
  have hlost : Lost (signContext (some ⟨2, ["*"]⟩)) (signNode (some ⟨2, ["*"]⟩)) s.core :=
    ⟨hst, by rw [hsnap]; rfl, fun f hf => hS.quiescent (hS.orderly.rest hd (by simp) (by simp)) _ f hf⟩
  exact ⟨_, _, _, s, _, by rfl, fun _ _ _ _ h => h, hrun, hd, List.mem_cons_self, by decide, hst,
    hlost.not_replaysTo hnd List.mem_cons_self (by decide)⟩

end AgentKernel.Orchestrator
