/-
  File:      AgentKernel/Orchestrator/UndoOrder.lean
  Subject:   The order in which a failing node undoes the completed ones, over all lives of a run
             (executor.ts `compensateUpstream`, `completeNode` and `hydrate`).

  A live executor lists a node when it completes. A rebuilt one lists the completed nodes as their
  snapshots come, and those come by the first event of each node (`scan_firstSeen`).

  * `Filed`: the list is in the order of the ledger. Every step keeps it (`step_filed`), and so it
    is again behind a restart whose ledger is `InStep` (`State.resumed.filed`);
  * `Sweeping.step`: a sweep goes through the reverse of the list as it was at its start;
  * **`undone_in_reverse`**: if all restarts are from such a ledger, whatever is undone is undone in
    the reverse of the order in which the ledger completes it.
-/
import AgentKernel.Orchestrator.LedgerOrder
import AgentKernel.Orchestrator.SweptOnce

namespace AgentKernel.Orchestrator

open Lib

/-! ## 1. The property and its condition -/

/-- The nodes a ledger completes, in its order. -/
def completions (ledger : List WorkflowEvent) : List NodeId := ledger.filterMap (·.completes)

/-- `compensateUpstream` has something to call for the node. -/
def undoable (c : Context) (id : NodeId) : Bool :=
  ((nodeById c.graph id).bind c.compensations.actionFor).isSome

/-- The upstream compensation that the code of a failing node has called, and those that its loop
    has still to call. -/
def upstreamCalls (c : Context) (x : Core) (failed : WorkflowNode) : FailPc → List NodeId
  | .sweeping id _ _ rest =>
      id :: rest.filter fun d => d ≠ failed.id && x.status d = .completed && undoable c d
  | _ => []

/-- **The property**: wherever a failing node is in its sweep, it goes backwards through the
    completions of the ledger. -/
def UndoneInReverse (c : Context) (s : State) : Prop :=
  ∀ p n pc, s.failPc p = some (n, pc) →
    (upstreamCalls c s.core n pc).Sublist (completions (ledgerOf s.core.trace)).reverse

/-- The nodes with a snapshot, in the order of their first events. -/
def firstSeen (ledger : List WorkflowEvent) : List NodeId :=
  (ledger.filterMap fun e => truthy (e.works.or e.ends)).eraseDups

/-- **The condition on a restart**: those nodes that have completed and can be undone have had
    their first events in the order of their completions. -/
def InStep (c : Context) (ledger : List WorkflowEvent) : Prop :=
  ((firstSeen ledger).filter fun id => undoable c id && (completions ledger).contains id).Sublist
    (completions ledger)

/-- The lives of a run with all restarts from a ledger that has `P`. -/
inductive LivesFrom (c : Context) (P : List WorkflowEvent → Prop) : State → Prop where
  | first {w : World} {ls : List Label} {s : State}
      (h : Run (step c) (fun _ _ => True) (.initial c w) ls s) : LivesFrom c P s
  | again {s s₀ s' : State} {w : World} {cut : List WorkflowEvent} {jobs : List WorkflowJob}
      {ls : List Label} (hl : LivesFrom c P s) (hcut : cut <+: ledgerOf s.core.trace) (hP : P cut)
      (hjobs : JobsOf c jobs) (hs₀ : State.resumed c w cut jobs s₀)
      (h : Run (step c) (fun _ _ => True) s₀ ls s') : LivesFrom c P s'

/-! ## 2. The list of completed nodes -/

/-- What can be undone is listed in the order of the ledger. -/
def Filed (c : Context) (x : Core) : Prop :=
  (x.completionOrder.filter (undoable c)).Sublist (completions (ledgerOf x.trace))

section Live

variable {c : Context} {s s' : State} {x y : Core} {l : Label}

theorem completions_grow {obs : List Obs} (h : y.trace = x.trace ++ obs) :
    completions (ledgerOf y.trace) =
      completions (ledgerOf x.trace) ++ completions (ledgerOf obs) := by
  unfold completions
  rw [h, ledgerOf_append, List.filterMap_append]

theorem Filed.grow (h : Filed c x) (ho : y.completionOrder = x.completionOrder)
    (ht : ∃ obs, y.trace = x.trace ++ obs) : Filed c y := by
  obtain ⟨obs, hobs⟩ := ht
  unfold Filed
  rw [ho, completions_grow hobs]
  exact h.trans (List.sublist_append_left _ _)

theorem Act.filed (h : Filed c s.core) (ha : Act c s l y) : Filed c y := by
  have htrace := ha.trace
  cases ha with
  | idle | settles | late | endRefused | world => exact h.grow rfl htrace
  | flight hf hrow => exact h.grow hrow.own.completionOrder htrace
  | begins => exact h.grow beginAttempt_own.completionOrder htrace
  | ending hw hn hend hrow => exact h.grow hrow.own.completionOrder htrace
  | givesUp hw hn hend ht hcore hcaught hrow =>
      rcases hcore with rfl | rfl <;> exact h.grow hrow.own.completionOrder htrace
  | @completes i n r hn hr hs =>
      -- the node is listed and recorded at once
      have hdone : (doneCore c s.core n r).trace = s.core.trace ++
          [.event (.nodeCompleted n.id r (operationId c n) (keyOf c n))] := rfl
      have hgrow : completions (ledgerOf (doneCore c s.core n r).trace) =
          completions (ledgerOf s.core.trace) ++ [n.id] := completions_grow hdone
      have horder : (doneCore c s.core n r).completionOrder = s.core.completionOrder ++ [n.id] := rfl
      unfold Filed
      rw [hgrow, horder, List.filter_append]
      exact List.Sublist.append h List.filter_sublist

theorem step_filed (hnd : (c.graph.map (·.id)).Nodup) (hS : State.Sound c s) (h : Filed c s.core)
    (hs : step c s l = some s') : Filed c s'.core := by
  refine (step_core hS hnd hs).keeps (I := Filed c) hnd hS.core (fun z ha => ha.filed h)
    (fun z z' T q _ _ hz ht => ?_) fun z _ _ _ hz => hz.grow rfl ⟨_, rfl⟩
  obtain ⟨e, he⟩ := ht.trace
  exact hz.grow ht.sameRest.completionOrder ⟨_, he⟩

end Live

/-! ## 3. Sweeps -/

/-- What a sweep has called and can still call. -/
def FailPc.undoes (c : Context) : FailPc → List NodeId
  | .sweeping id _ _ rest => id :: rest.filter (undoable c)
  | _ => []

/-- Every sweep goes backwards through the completions. -/
def Sweeping (c : Context) (s : State) : Prop :=
  ∀ p n pc, s.failPc p = some (n, pc) →
    (pc.undoes c).Sublist (completions (ledgerOf s.core.trace)).reverse

section Sweeps

variable {c : Context} {s s' : State} {x y : Core} {l : Label} {n : WorkflowNode}
  {failed : NodeId} {pc pc' : FailPc}

theorem sweepNext_undoes : ∀ {ids : List NodeId}, sweepNext c x failed ids = (y, pc) →
    (pc.undoes c).Sublist (ids.filter (undoable c))
  | [], h => by
      cases h
      exact List.nil_sublist _
  | id :: rest, h => by
      unfold sweepNext at h
      split at h
      · rename_i spec hspec
        cases h
        split_ifs at hspec with hskip
        have hundo : undoable c id = true := by
          unfold undoable
          rw [hspec]
          rfl
        rw [List.filter_cons_of_pos hundo]
        exact List.Sublist.refl _
      · refine (sweepNext_undoes h).trans ?_
        exact (List.sublist_cons_self id rest).filter _

/-- **The step of a sweep**: it starts at the end of the list, and goes on in what is left. -/
theorem FailRow.backwards {error : String} {a : Answer} (hfiled : Filed c x)
    (h : FailRow c x n error pc a y pc')
    (hpc : (pc.undoes c).Sublist (completions (ledgerOf x.trace)).reverse) :
    (pc'.undoes c).Sublist (completions (ledgerOf x.trace)).reverse := by
  cases h with
  | undoes => exact List.nil_sublist _
  | rollsBack hs hsweep =>
      have hlist := sweepNext_undoes hsweep
      rw [List.filter_reverse] at hlist
      exact hlist.trans hfiled.reverse
  | swept hsweep =>
      exact ((sweepNext_undoes hsweep).trans (List.sublist_cons_self _ _)).trans hpc

/-- A process that begins is inside no `failNode`. -/
theorem Sweeping.start (hnd : (c.graph.map (·.id)).Nodup) (hb : Begins c s) : Sweeping c s := by
  intro p n pc hp
  cases p with
  | flight key =>
      dsimp only [State.failPc] at hp
      rw [hb.still hnd key] at hp
      cases hp
  | worker i =>
      dsimp only [State.failPc] at hp
      rw [hb.workers] at hp
      cases hp

theorem Sweeping.step (hnd : (c.graph.map (·.id)).Nodup) (hS : State.Sound c s)
    (hfiled : Filed c s.core) (h : Sweeping c s) (hs : step c s l = some s') : Sweeping c s' := by
  obtain ⟨obs, hobs⟩ := step_trace hnd hS hs
  have hgrow : (completions (ledgerOf s.core.trace)).reverse.Sublist
      (completions (ledgerOf s'.core.trace)).reverse := by
    rw [completions_grow hobs]
    exact (List.sublist_append_left _ _).reverse
  cases step_sweeps hS hs with
  | quiet hadds hsweep hl =>
      intro p n pc hp
      rcases hsweep p with hsame | ⟨-, hnone⟩
      · exact (h p n pc (hsame ▸ hp)).trans hgrow
      · rw [State.sweep_eq hp] at hnone
        cases pc <;> first | exact List.nil_sublist _ | cases hnone
  | @goes p n error pc pc' a y hn hrow htrace hp hp' hother hl =>
      intro q m pc₁ hq
      by_cases hqp : q = p
      · subst hqp
        cases hp'.symm.trans hq
        exact (hrow.backwards hfiled (h q n pc hp)).trans hgrow
      · exact (h q m pc₁ ((hother q hqp).symm.trans hq)).trans hgrow

theorem Sweeping.undoneInReverse (h : Sweeping c s) : UndoneInReverse c s := by
  intro p n pc hp
  refine List.Sublist.trans ?_ (h p n pc hp)
  cases pc with
  | sweeping id spec call rest =>
      refine List.Sublist.cons_cons id (List.monotone_filter_right rest fun d hd => ?_)
      simp only [Bool.and_eq_true] at hd
      exact hd.2
  | _ => exact List.Sublist.refl _

end Sweeps

/-! ## 4. Restarts -/

section Restarts

variable {c : Context} {events cut : List WorkflowEvent} {w : World} {core : Core}

/-- Whether a restored snapshot completes its node. -/
def NodeSnapshot.completes (c : Context) (snap : NodeSnapshot) : Bool :=
  (nodeById c.graph snap.nodeId).isSome && snap.status = .completed && snap.result.isSome

theorem restoreNode_order (s : Core) (snap : NodeSnapshot) :
    (restoreNode c s snap).completionOrder =
      s.completionOrder ++ if snap.completes c then [snap.nodeId] else [] := by
  unfold restoreNode NodeSnapshot.completes
  cases hn : nodeById c.graph snap.nodeId with
  | none => exact (List.append_nil _).symm
  | some n =>
      obtain ⟨-, hid⟩ := mem_of_nodeById hn
      dsimp only
      split
      · rename_i r hs hr
        rw [hs, hr, hid]
        rfl
      · rename_i hno
        have hfalse : ¬ ((some n).isSome && decide (snap.status = .completed) &&
            snap.result.isSome) = true := by
          rintro h
          simp only [Bool.and_eq_true, decide_eq_true_eq] at h
          obtain ⟨r, hr⟩ := Option.isSome_iff_exists.mp h.2
          exact hno r h.1.2 hr
        rw [if_neg hfalse, List.append_nil]
        split_ifs <;> rfl

theorem restore_order : ∀ (snapshots : Snapshots) (s : Core),
    (restore c snapshots s).completionOrder =
      s.completionOrder ++ (snapshots.filter (·.completes c)).map (·.nodeId)
  | [], s => (List.append_nil _).symm
  | snap :: rest, s => by
      have hrest := restore_order rest (restoreNode c s snap)
      rw [restoreNode_order, List.append_assoc] at hrest
      refine hrest.trans (congrArg _ ?_)
      rw [List.filter_cons]
      split_ifs <;> rfl

theorem set_ids : ∀ (m : Snapshots) (snap : NodeSnapshot), (m.set snap).map (·.nodeId) =
    if snap.nodeId ∈ m.map (·.nodeId) then m.map (·.nodeId) else m.map (·.nodeId) ++ [snap.nodeId]
  | [], snap => rfl
  | s :: rest, snap => by
      unfold Snapshots.set
      by_cases hs : s.nodeId = snap.nodeId
      · rw [if_pos (beq_iff_eq.mpr hs), List.map_cons, List.map_cons, hs,
          if_pos List.mem_cons_self]
      · have hmem : snap.nodeId ∈ s.nodeId :: rest.map (·.nodeId) ↔
            snap.nodeId ∈ rest.map (·.nodeId) := by
          rw [List.mem_cons]
          exact or_iff_right (Ne.symm hs)
        rw [if_neg (by simpa using hs), List.map_cons, List.map_cons, set_ids rest snap]
        simp only [hmem]
        split_ifs <;> rfl

/-- An event with a node id is one that is folded into its snapshot, or it is passed over. -/
theorem snapshotWrite_seen (e : WorkflowEvent) (snap : NodeSnapshot) :
    (e.works.or e.ends = e.payload.nodeId ∧
      ∃ snap', snapshotWrite e.type e.payload snap = some snap') ∨
    (e.works.or e.ends = none ∧ snapshotWrite e.type e.payload snap = none) := by
  cases e <;> first | exact .inl ⟨rfl, _, rfl⟩ | exact .inr ⟨rfl, rfl⟩

theorem firstSeen_none {e : WorkflowEvent} {past : List WorkflowEvent}
    (h : truthy (e.works.or e.ends) = none) : firstSeen (past ++ [e]) = firstSeen past := by
  simp [firstSeen, h]

theorem firstSeen_some {e : WorkflowEvent} {past : List WorkflowEvent} {id : NodeId}
    (h : truthy (e.works.or e.ends) = some id) : firstSeen (past ++ [e]) =
      if id ∈ firstSeen past then firstSeen past else firstSeen past ++ [id] := by
  have hsnoc : (past ++ [e]).filterMap (fun e => truthy (e.works.or e.ends)) =
      past.filterMap (fun e => truthy (e.works.or e.ends)) ++ [id] := by
    simp [h]
  unfold firstSeen
  rw [hsnoc, eraseDups_snoc]
  simp only [List.mem_eraseDups]

theorem scanEvent_seen {sc sc' : Scan} {e : WorkflowEvent} {past : List WorkflowEvent}
    (h : sc.snapshots.map (·.nodeId) = firstSeen past)
    (hs : scanEvent sc (e.toLedger c.taskId c.runId) = .ok sc') :
    sc'.snapshots.map (·.nodeId) = firstSeen (past ++ [e]) := by
  unfold scanEvent WorkflowEvent.toLedger at hs
  dsimp only at hs
  split_ifs at hs with hcreated
  · cases hs
    have hnone : truthy (e.works.or e.ends) = none := by
      cases e <;> first | rfl | cases hcreated
    rw [firstSeen_none hnone]
    exact h
  · cases hid : truthy e.payload.nodeId with
    | none =>
        rw [hid] at hs
        cases hs
        have hnone : truthy (e.works.or e.ends) = none := by
          rcases snapshotWrite_seen e { nodeId := "" } with ⟨he, -⟩ | ⟨he, -⟩
          · rw [he, hid]
          · rw [he]
            rfl
        rw [firstSeen_none hnone]
        exact h
    | some id =>
        rw [hid] at hs
        cases hs
        unfold applyEventToSnapshot
        dsimp only
        have hbase : ((sc.snapshots.get id).getD { nodeId := id }).nodeId = id := by
          cases hg : sc.snapshots.get id with
          | none => rfl
          | some snap => simpa using List.find?_some hg
        rcases snapshotWrite_seen e ((sc.snapshots.get id).getD { nodeId := id }) with
          ⟨he, snap, hsnap⟩ | ⟨he, hno⟩
        · have hnode : snap.nodeId = id := (snapshotWrite_nodeId hsnap).trans hbase
          rw [hsnap, firstSeen_some (he ▸ hid)]
          dsimp only
          rw [set_ids, hnode, h]
        · have hnone : truthy (e.works.or e.ends) = none := by
            rw [he]
            rfl
          rw [hno, firstSeen_none hnone]
          exact h

/-- **Snapshots come by the first event of their nodes.** -/
theorem scan_firstSeen : ∀ {sc : Scan}, scan (ledgerEvents c events) = .ok sc →
    sc.snapshots.map (·.nodeId) = firstSeen events := by
  induction events using List.reverseRecOn with
  | nil =>
      intro sc h
      cases h
      rfl
  | append_singleton past e ih =>
      intro sc h
      unfold scan ledgerEvents at h
      rw [List.map_append, List.foldlM_append] at h
      cases hpast : (past.map (WorkflowEvent.toLedger c.taskId c.runId)).foldlM scanEvent {} with
      | error m =>
          rw [hpast] at h
          cases h
      | ok sc₁ =>
          rw [hpast] at h
          have hlast : scanEvent sc₁ (e.toLedger c.taskId c.runId) >>= pure = .ok sc := h
          rw [bind_pure] at hlast
          exact scanEvent_seen (ih hpast) hlast

theorem mem_completions {id : NodeId} :
    id ∈ completions events ↔ ∃ e ∈ events, e.completes = some id :=
  List.mem_filterMap

/-- A snapshot is completed by an event of its node. -/
theorem completes_mem {sc : Scan} {snap : NodeSnapshot}
    (h : scan (ledgerEvents c events) = .ok sc) (hsnap : snap ∈ sc.snapshots)
    (hs : snap.status = .completed) : snap.nodeId ∈ completions events := by
  refine scan_all (P := fun snap => snap.status = .completed → snap.nodeId ∈ completions events)
    nofun (fun e he snap snap' hid _ hwrite hs => ?_) h snap hsnap hs
  rw [snapshotWrite_nodeId hwrite, mem_completions]
  refine ⟨e, he, ?_⟩
  cases e <;> cases hwrite <;> first | exact hid | cases hs

/-- **What a restart lists** is in the order of the ledger if the ledger is `InStep`. -/
theorem State.resumed.filed {s₀ : State} {jobs : List WorkflowJob} (hcut : InStep c cut)
    (h : State.resumed c w cut jobs s₀) : Filed c s₀.core := by
  obtain ⟨core, hh, rfl⟩ := h
  obtain ⟨sc, hsc, -, hsp⟩ := hydrate_spread hh
  obtain ⟨es, hes⟩ := hsp.trace
  have hfiled : Filed c (restore c sc.snapshots (Core.fresh w (cut.map .event))) := by
    unfold Filed
    rw [(restore_frame _ _).trace, restore_order]
    have hledger : ledgerOf (Core.fresh w (cut.map .event)).trace = cut := ledgerOf_map_event cut
    have hempty : (Core.fresh w (cut.map .event)).completionOrder = [] := rfl
    rw [hledger, hempty, List.nil_append]
    refine List.Sublist.trans ?_ hcut
    rw [← scan_firstSeen hsc, List.filter_map, List.filter_map, List.filter_filter]
    refine List.Sublist.map _ (filter_sublist_filter fun snap hsnap hp => ?_)
    simp only [NodeSnapshot.completes, Function.comp_apply, Bool.and_eq_true,
      decide_eq_true_eq] at hp
    have hmem : snap.nodeId ∈ completions cut := completes_mem hsc hsnap hp.2.1.2
    simp only [Function.comp_apply, hp.1, Bool.true_and, List.contains_iff_mem]
    exact hmem
  exact hfiled.grow hsp.sameRest.completionOrder ⟨_, hes⟩

/-- A completed snapshot has a result. -/
theorem completed_result {sc : Scan} {snap : NodeSnapshot}
    (h : scan (ledgerEvents c events) = .ok sc) (hsnap : snap ∈ sc.snapshots)
    (hs : snap.status = .completed) : snap.result.isSome = true := by
  refine scan_all (P := fun snap => snap.status = .completed → snap.result.isSome = true)
    nofun (fun e he snap snap' _ _ hwrite hs => ?_) h snap hsnap hs
  cases e <;> cases hwrite <;> first | rfl | cases hs

/-- **What a restart lists**, of the nodes that can be undone: those that the ledger completes, by
    their first events. -/
theorem State.resumed.order {s₀ : State} {jobs : List WorkflowJob}
    (hid : ∀ n ∈ c.graph, n.id ≠ "") (hcut : Justified (Follows c) cut)
    (h : State.resumed c w cut jobs s₀) : s₀.core.completionOrder.filter (undoable c) =
      (firstSeen cut).filter fun id => undoable c id && (completions cut).contains id := by
  obtain ⟨core, hh, rfl⟩ := h
  obtain ⟨sc, hsc, -, hsp⟩ := hydrate_spread hh
  obtain ⟨sc', hsc', hunique, hsnaps⟩ := scan_own (c := c) cut
  obtain rfl : sc = sc' := Except.ok.inj (hsc.symm.trans hsc')
  have horder : (State.launch core jobs).core.completionOrder =
      (sc.snapshots.filter (·.completes c)).map (·.nodeId) := by
    refine hsp.sameRest.completionOrder.trans ?_
    rw [restore_order]
    exact List.nil_append _
  rw [horder, ← scan_firstSeen hsc, List.filter_map, List.filter_map, List.filter_filter]
  refine congrArg _ (List.filter_congr fun snap hsnap => ?_)
  simp only [Function.comp_apply]
  cases hundo : undoable c snap.nodeId with
  | false => rfl
  | true =>
      obtain ⟨n, hn⟩ : ∃ n, nodeById c.graph snap.nodeId = some n := by
        cases hn : nodeById c.graph snap.nodeId with
        | none => simp [undoable, hn] at hundo
        | some n => exact ⟨n, rfl⟩
      obtain ⟨hmem, hname⟩ := mem_of_nodeById hn
      have hsnap' : snapOf snap.nodeId cut = snap := by
        rw [← hsnaps _ (hname ▸ hid n hmem), Snapshots.get_of_mem hunique hsnap]
        rfl
      have hstatus := (snapOf_ended snap.nodeId hcut).2
      rw [hsnap', ← mem_completions] at hstatus
      rw [Bool.true_and, Bool.true_and, Bool.eq_iff_iff, List.contains_iff_mem, ← hstatus]
      unfold NodeSnapshot.completes
      rw [hn]
      simp only [Option.isSome_some, Bool.true_and, Bool.and_eq_true, decide_eq_true_eq]
      exact and_iff_left_of_imp (completed_result hsc hsnap)

end Restarts

/-! ## 5. Every life -/

section Lives

variable {c : Context} {s : State}

/-- **The undoing is in reverse of the ledger**, before and behind every restart from a ledger that
    is `InStep`. -/
theorem undone_in_reverse (hv : validateGraph c.graph = .ok ()) (h : LivesFrom c (InStep c) s) :
    UndoneInReverse c s := by
  have hnd := validateGraph_nodup hv
  have hrun : ∀ {s₀ ls s}, State.Sound c s₀ ∧ Filed c s₀.core ∧ Sweeping c s₀ →
      Run (step c) (fun _ _ => True) s₀ ls s → State.Sound c s ∧ Filed c s.core ∧ Sweeping c s := by
    intro s₀ ls s hI hr
    refine Run.invariant (I := fun s => State.Sound c s ∧ Filed c s.core ∧ Sweeping c s) hI
      (fun s l s' ⟨hS, hfiled, hsweeps⟩ _ hs => ?_) hr
    exact ⟨hS.step hnd hs, step_filed hnd hS hfiled hs, hsweeps.step hnd hS hfiled hs⟩
  have hall : State.Sound c s ∧ Filed c s.core ∧ Sweeping c s := by
    induction h with
    | @first w ls s h =>
        exact hrun ⟨initial_sound w, List.nil_sublist _, .start hnd (.inl ⟨w, rfl⟩)⟩ h
    | @again s s₀ s' w cut jobs ls hl hcut hP hjobs hs₀ h ih =>
        have hb := hs₀.begins hjobs
        exact hrun ⟨hb.sound hnd, hs₀.filed hP, .start hnd hb⟩ h
  exact hall.2.2.undoneInReverse

/-- **The condition is exact for a restart**: without it the list is out of order. -/
theorem restart_in_order_iff (hv : validateGraph c.graph = .ok ()) (hid : ∀ n ∈ c.graph, n.id ≠ "")
    (h : Lives c (fun _ _ => True) (JobsOf c) s) {w : World} {cut : List WorkflowEvent}
    {jobs : List WorkflowJob} {s₀ : State} (hcut : cut <+: ledgerOf s.core.trace)
    (hs₀ : State.resumed c w cut jobs s₀) :
    (s₀.core.completionOrder.filter (undoable c)).Sublist (completions cut) ↔ InStep c cut := by
  have hfollows : Justified (Follows c) cut := by
    obtain ⟨rest, hrest⟩ := hcut
    have hall := (ledger_kept hv hid h).follows
    rw [← hrest] at hall
    exact hall.cut
  rw [hs₀.order hid hfollows]
  rfl

end Lives

/-! ## 6. Two nodes at once, and one behind them -/

/-- A node that can be undone. -/
def undoneNode (id : NodeId) (deps : List NodeId) : WorkflowNode :=
  { id := id, kind := .action, action := some ("do." ++ id), deps := deps
    compensation := some (.action ("undo." ++ id) none) }

/-- Two of them side by side, and one behind both. -/
def forkContext : Context :=
  { limits := defaultBulkhead, compensations := .empty, sha256 := fun s => s
    runId := "run", taskId := "task"
    graph := [undoneNode "a" [], undoneNode "b" [], undoneNode "c" ["a", "b"]] }

/-- The key of such a node. -/
def forkKey (id : NodeId) (deps : List NodeId) : String := keyOf forkContext (undoneNode id deps)

/-- The node of worker `i` completes. -/
def forkCompletes (i : Nat) (id : NodeId) : List Label :=
  [.tick, succeeded, .tick, .tick].map (.flight (forkKey id [])) ++ [.worker i .tick]

/-- Both nodes start, first "a", and complete one after the other. -/
def forkBoth (first second : List Label) : List Label :=
  [.drive, .drive, .drive, .drive, .worker 0 .tick, .worker 1 .tick] ++ first ++ second

/-- "c" starts, fails and is rolled back, and its sweep calls for the first time. -/
def forkFails : List Label :=
  [.drive, .drive, .drive, .worker 0 .tick] ++
    [.tick, .run (.rejected "failed"), .tick, .tick, succeeded].map
      (.flight (forkKey "c" ["a", "b"]))

/-- The ledger of a process that ends when both have completed. -/
def forkLedger (first second : List Label) : List WorkflowEvent :=
  ledgerAfter forkContext calmWorld (forkBoth first second)

theorem forkBoth_exec (first second : List Label) (h : (exec (step forkContext)
      (.initial forkContext calmWorld) (forkBoth first second)).isSome = true) :
    ∃ s, exec (step forkContext) (.initial forkContext calmWorld) (forkBoth first second) = some s ∧
      ledgerOf s.core.trace = forkLedger first second :=
  exec_ledgerAfter h

/-- What the sweep of "c" calls. -/
def forkCalls (s : State) : Option (List NodeId) :=
  (s.failPc (.flight (forkKey "c" ["a", "b"]))).map fun q =>
    upstreamCalls forkContext s.core q.1 q.2

/-- What the next process is rebuilt to. -/
def forkRebuilt (first second : List Label) : State :=
  .launch (rebuilt forkContext calmWorld (forkLedger first second)) []

theorem forkContext_noJobs : JobsOf forkContext [] := fun _ hjob => by cases hjob

/-- "a" completes first, the process crashes, and "c" fails in the next one. -/
theorem undone_in_reverse_fork : ∃ s, LivesFrom forkContext (InStep forkContext) s ∧
    UndoneInReverse forkContext s ∧ forkCalls s = some ["b", "a"] := by
  obtain ⟨s₁, hs₁, hledger⟩ := forkBoth_exec (forkCompletes 0 "a") (forkCompletes 1 "b") (by rfl)
  obtain ⟨s₂, hs₂, hcalls⟩ := Option.map_eq_some_iff.mp (show (exec (step forkContext)
    (forkRebuilt (forkCompletes 0 "a") (forkCompletes 1 "b")) forkFails).map forkCalls =
      some (some ["b", "a"]) by rfl)
  have hstep : InStep forkContext (forkLedger (forkCompletes 0 "a") (forkCompletes 1 "b")) := by
    unfold InStep
    decide
  have hlives : LivesFrom forkContext (InStep forkContext) s₂ :=
    .again (.first (run_of_exec (fun _ _ => trivial) hs₁)) (hledger ▸ List.prefix_refl _) hstep
      forkContext_noJobs (rebuilt_resumed [] rfl) (run_of_exec (fun _ _ => trivial) hs₂)
  exact ⟨s₂, hlives, undone_in_reverse rfl hlives, hcalls⟩

/-- "b" completes first; behind the crash its compensation is called first as well. -/
theorem undone_forwards : ∃ c s, validateGraph c.graph = .ok () ∧
    Lives c (fun _ _ => True) (JobsOf c) s ∧ ¬ UndoneInReverse c s := by
  obtain ⟨s₁, hs₁, hledger⟩ := forkBoth_exec (forkCompletes 1 "b") (forkCompletes 0 "a") (by rfl)
  obtain ⟨s₂, hs₂, hall⟩ := Option.map_eq_some_iff.mp (show (exec (step forkContext)
    (forkRebuilt (forkCompletes 1 "b") (forkCompletes 0 "a")) forkFails).map
      (fun s => (forkCalls s, completions (ledgerOf s.core.trace))) =
      some (some ["b", "a"], ["b", "a"]) by rfl)
  obtain ⟨hcalls, hcompletions⟩ := Prod.mk.inj hall
  refine ⟨forkContext, s₂, rfl, .again (.first (run_of_exec (fun _ _ => trivial) hs₁))
    (hledger ▸ List.prefix_refl _) forkContext_noJobs (rebuilt_resumed [] rfl)
    (run_of_exec (fun _ _ => trivial) hs₂), fun h => ?_⟩
  obtain ⟨⟨n, pc⟩, hp, hundone⟩ := Option.map_eq_some_iff.mp hcalls
  have hsub := h _ n pc hp
  rw [hundone, hcompletions] at hsub
  exact absurd hsub (by decide)

end AgentKernel.Orchestrator
