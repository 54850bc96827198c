/-
  File:      AgentKernel/Orchestrator/Recovery.lean
  Subject:   Crash recovery: a process that hydrates any initial part of the ledger and resumes
             ends where the run ends that was never interrupted.

  `Faithful` is what a process by the handler keeps, whether it began the run or resumed it. The
  ledger tells the fates at every event, so an initial part of it, wherever the crash has cut it,
  rebuilds an executor whose nodes are as foretold (`Foretold.restored`), and the process is
  faithful again (`Faithful.resumed`). At rest a faithful process has come to the fates, and these
  are the same for all processes of the graph.
-/
import AgentKernel.Orchestrator.Decided
import AgentKernel.Orchestrator.Replayed
import AgentKernel.Orchestrator.Retold
import AgentKernel.Orchestrator.SweptOnce
import AgentKernel.Orchestrator.UndoOrder

namespace AgentKernel.Orchestrator

open Lib

/-! ## 1. At rest behind the last body -/

/-- Behind the last body of the drive loop the run is at rest. -/
def Rested (c : Context) (s : State) : Prop := Over s → AtRest c s.core

section Rested

variable {c : Context} {s s' : State} {l : Label}

/-- A body of an uncancelled run that finds nothing ready ends at rest. -/
theorem Rested.head (hv : validateGraph c.graph = .ok ()) (hclosed : Closed c s.core)
    (hu : ∀ n ∈ c.graph, Untouched (s.core.status n.id)) (hdue : ∀ n ∈ c.graph, ¬ Due s.core n)
    (hc : s.cancelled = none) : Rested c (loopHead c s) := by
  intro ho
  rcases loopHead_uncancelled (c := c) hc with ⟨e, hcore, -, hready, -, -⟩ | ⟨-, hno⟩
  · refine (atRest_of_untouched hv hclosed hu hdue hready).congr fun id => ?_
    rw [hcore]
    rfl
  · exact absurd ho hno

theorem Rested.step (hv : validateGraph c.graph = .ok ()) (hk : DistinctKeys c)
    (hS : State.Sound c s) (ht : State.Tidy c s) (hu : Unlost c s) (h : Rested c s)
    (hc : s.cancelled = none) (hs : step c s l = some s') : Rested c s' := by
  by_cases ho : Over s
  · obtain ⟨hnodes, -, -⟩ := step_over hS ho hs
    exact fun _ => (h ho).congr fun id => by rw [Core.status_eq, hnodes, Core.status_eq]
  · have hother : s'.drive = s.drive → Rested c s' := fun hd ho' => by
      unfold Over at ho ho'
      rw [hd] at ho'
      exact absurd ho' ho
    cases l with
    | worker i a =>
        obtain ⟨-, -, -, -, -, -, -, hd, -⟩ := (workerStep_move hs).frame
        exact hother hd
    | flight key a | late call o =>
        obtain ⟨y, -, rfl⟩ := Option.map_eq_some_iff.mp hs
        exact hother rfl
    | redeliver j at_ =>
        obtain ⟨job, -, rfl⟩ := Option.map_eq_some_iff.mp hs
        exact hother rfl
    | cancel reason | world w =>
        cases hs
        exact hother rfl
    | drive =>
        rcases driveStep_head hs with ⟨hd, rfl⟩ | ⟨hd, hall, rfl⟩ | hno
        · have hsp : Spread c [] False s.core (promoteReady c s.core) := promoteReady_spread
          have hall := hS.orderly.rest hd (by simp) (by simp)
          exact .head hv (hu.closed.spread hsp)
            (fun n hn => .spread hsp (hu.settled hk hS ht hall hn)) promoteReady_waits hc
        · exact .head hv hu.closed (fun n hn => hu.settled hk hS ht hall hn)
            (hu.waits (by rw [hd]; simp)) hc
        · have hm := driveStep_move hs
          cases hm with
          | starts hd => exact absurd (.inl hd) hno
          | loops hd hall => exact absurd (.inr ⟨hd, hall⟩) hno
          | aborts | dispatches | emits | enqueues =>
              intro ho'
              rcases ho' with ho' | ho' <;> cases ho'
          | resolves hd => exact absurd (.inl hd) ho

end Rested

/-! ## 2. A process by the handler -/

section Calls

variable {c : Context} {h : Handler} {fates : NodeId → Fate} {s s' : State} {l : Label}

/-- **A step that is foretold calls no compensation.** -/
theorem step_quiet (hF : Foretold c h fates s.core) (hS : State.Sound c s) (ht : State.Tidy c s)
    (hs : step c s l = some s') : Adds (·.isUndo = false) s.core s'.core := by
  cases step_sweeps hS hs with
  | quiet hadds => exact hadds
  | @goes p n error pc pc' a y hn hrow htrace hp =>
      cases p with
      | worker i =>
          obtain ⟨w, hw, hpc⟩ := Option.bind_eq_some_iff.mp hp
          unfold Worker.failPc at hpc
          split at hpc
          · exact absurd (List.mem_of_getElem? hw) (ht.calm _ _ _ _)
          · cases hpc
      | flight key =>
          obtain ⟨f, hf, hpc⟩ := Option.bind_eq_some_iff.mp hp
          obtain ⟨hfn, -, hag⟩ := hS.core.flight key f hf
          have hnative := hF.native _ hfn
          unfold Flight.failPc at hpc
          split at hpc
          · rename_i thrown error' p hfpc
            cases hpc
            rw [hfpc] at hag
            -- no execution compensates
            cases hrow <;> (rw [show s.core.status f.node.id = _ from hag] at hnative
                            exact absurd trivial hnative)
          · cases hpc

end Calls

/-- What a process by the handler keeps, whether it began the run or resumed it. -/
structure Faithful (c : Context) (h : Handler) (fates : NodeId → Fate) (s : State) : Prop where
  advancing : Advancing c s
  foretold : Foretold c h fates s.core
  fitting : Fitting c h fates s.core
  uncancelled : s.cancelled = none
  rested : Rested c s
  kept : LedgerKept c s.core
  told : Told c fates s.core
  created : CreatedOnce c s.core
  quiet : ∀ o ∈ s.core.trace, o.isUndo = false

section Faithful

variable {c : Context} {h : Handler} {fates : NodeId → Fate} {s s₀ s' : State} {l : Label}
  {ls : List Label}

theorem Faithful.initial (hnd : (c.graph.map (·.id)).Nodup) (hk : DistinctKeys c) :
    Faithful c h fates (.initial c h.world) where
  advancing := .initial hnd hk _
  foretold := .initial
  fitting := .initial
  uncancelled := rfl
  rested ho := by rcases ho with ho | ho <;> cases ho
  kept := .initial _
  told := ⟨justified_snoc.mpr ⟨.nil, trivial⟩, fun _ _ hs => by cases hs⟩
  created := createdOnce_initial _
  quiet o ho := by
    rw [List.mem_singleton.mp ho]
    rfl

/-- **An obedient step keeps a process faithful.** -/
theorem Faithful.step (hv : validateGraph c.graph = .ok ()) (hS : Setting c h fates)
    (hI : Faithful c h fates s) (hok : Obeys h s l) (hs : step c s l = some s') :
    Faithful c h fates s' := by
  have hA := hI.advancing
  obtain ⟨hF, hfit⟩ := step_foretold hI.foretold hI.fitting hS hA hI.uncancelled hok hs
  have hc : s'.cancelled = none := by
    rcases step_cancelled hs with he | ⟨reason, rfl, -⟩
    · exact he.trans hI.uncancelled
    · exact hok.elim
  exact ⟨hA.step hS.graph.distinct hS.keys hI.fitting.not_catches hs, hF, hfit, hc,
    hI.rested.step hv hS.keys hA.sound hA.tidy hA.unlost hI.uncancelled hs,
    hI.kept.step hv hA.sound hs, hI.told.step hI.foretold hI.fitting hS hA hI.kept hF hs,
    hI.created.step hS.graph.distinct hA.sound hs, fun o ho =>
      ((step_quiet hI.foretold hA.sound hA.tidy hs).mem ho).elim (hI.quiet o) id⟩

/-- **A run by the handler keeps its process faithful**, and spends what there is to do. -/
theorem run_faithful (hv : validateGraph c.graph = .ok ()) (hS : Setting c h fates)
    (h₀ : Faithful c h fates s₀) (hr : Run (step c) (Obeys h) s₀ ls s) : Faithful c h fates s ∧
      potential c s + occurrences (step c) (works c) s₀ ls ≤
        potential c s₀ + 4 * occurrences (step c) redelivers s₀ ls :=
  hr.occurrences_spent h₀ fun _ _ _ hI hok hs => ⟨hI.step hv hS hok hs,
    step_spends hS.graph.distinct hS.keys hI.advancing.sound hI.advancing.tidy
      hI.advancing.fed hI.advancing.answered hI.advancing.brief hs⟩

end Faithful

/-! ## 3. What an initial part of the ledger is rebuilt to -/

/-- What the snapshot of a node that has ended says of its fate. -/
structure Recalls (c : Context) (fates : NodeId → Fate) (past : List WorkflowEvent) (id : NodeId)
    (snap : NodeSnapshot) : Prop where
  completed : snap.status = .completed →
    Unblocked c past id ∧ ∃ r, snap.result = some r ∧ Concluded c fates past id r
  failed : snap.status = .failed → Unblocked c past id ∧ fates id = .failed
  skipped : snap.status = .skipped → HasSkipped past id ∧ fates id = .skipped
  native : snap.status.isTerminal = true → ¬ Foreign snap.status

section Recalling

variable {c : Context} {fates : NodeId → Fate} {past later cut : List WorkflowEvent} {id : NodeId}
  {snap : NodeSnapshot}

theorem Recalls.grow (h : Recalls c fates past id snap) (hsub : past ⊆ later) :
    Recalls c fates later id snap := by
  refine ⟨fun hs => ?_, fun hs => ?_, fun hs => ?_, h.native⟩
  · obtain ⟨hfree, r, hr, hdone⟩ := h.completed hs
    exact ⟨hfree.grow hsub, r, hr, hdone.grow hsub⟩
  · exact (h.failed hs).imp_left fun hfree => hfree.grow hsub
  · exact (h.skipped hs).imp_left fun hskip => hskip.grow hsub

/-- A snapshot that has not ended says nothing. -/
theorem recalls_open (h : snap.status.isTerminal = false) : Recalls c fates past id snap := by
  refine ⟨fun hs => ?_, fun hs => ?_, fun hs => ?_, fun ht => ?_⟩
  · rw [hs] at h
    cases h
  · rw [hs] at h
    cases h
  · rw [hs] at h
    cases h
  · rw [h] at ht
    cases ht

/-- **The snapshot of a node recalls its fate**, wherever the ledger has been cut. -/
theorem snapOf_recalls (hJ : Justified (Tells c fates) cut) :
    Recalls c fates cut id (snapOf id cut) := by
  induction cut using List.reverseRecOn with
  | nil => exact recalls_open rfl
  | append_singleton past e ih =>
      obtain ⟨hpast, he⟩ := justified_snoc.mp hJ
      have hsub : past ⊆ past ++ [e] := List.subset_append_left _ _
      have hold := (ih hpast).grow hsub
      rw [snapOf_snoc]
      unfold snapStep
      split_ifs with hid
      · cases e with
        | nodeCompleted x r =>
            cases hid
            exact ⟨fun _ => ⟨he.1.grow hsub, r, rfl, he.2.grow hsub⟩, (fun hs => by cases hs),
              (fun hs => by cases hs), fun _ hf => hf⟩
        | nodeFailed x =>
            cases hid
            exact ⟨(fun hs => by cases hs), fun _ => ⟨he.1.grow hsub, he.2⟩, (fun hs => by cases hs),
              fun _ hf => hf⟩
        | nodeSkipped x reason =>
            cases hid
            exact ⟨(fun hs => by cases hs), (fun hs => by cases hs), fun _ => ⟨⟨reason, by simp⟩, he⟩,
              fun _ hf => hf⟩
        | nodeRolledBack | nodeQuarantined | nodeCancelled => exact he.elim
        | nodeRunning | nodeVerified | nodeRetrying | nodeCompensating => exact recalls_open rfl
        | _ => exact hold
      · exact hold

end Recalling

/-- What the snapshots of a cut ledger have been restored to, before the cascades and the
    promotions of `hydrate`. -/
structure Restores (c : Context) (cut : List WorkflowEvent) (x : Core) : Prop where
  rebuilt : Rebuilt x
  recorded : Recorded c x
  nodes : ∀ n ∈ c.graph, x.nodes n.id = restored {} (snapOf n.id cut)
  ledger : ledgerOf x.trace = cut

section Restoring

variable {c : Context} {h : Handler} {fates : NodeId → Fate} {cut : List WorkflowEvent} {x : Core}
  {n : WorkflowNode} {r : NodeResult}

theorem Restores.status (hR : Restores c cut x) (hn : n ∈ c.graph)
    (ht : (x.status n.id).isTerminal = true) : (snapOf n.id cut).status = x.status n.id := by
  rw [Core.status_eq, hR.nodes n hn] at ht ⊢
  rcases restored_status {} (snapOf n.id cut) with he | ⟨he, -⟩
  · rw [he] at ht
    cases ht
  · exact he.symm

/-- What has ended is restored with its status. -/
theorem Restores.ended (hR : Restores c cut x) (hn : n ∈ c.graph)
    (ht : (snapOf n.id cut).status.isTerminal = true) :
    x.status n.id = (snapOf n.id cut).status := by
  rw [Core.status_eq, hR.nodes n hn, restored_terminal ht]

/-- A node that has ended recalls its fate. -/
theorem Restores.recalls (hR : Restores c cut x) (hJ : Justified (Tells c fates) cut)
    (hn : n ∈ c.graph) {st : NodeStatus} (hs : x.status n.id = st) (ht : st.isTerminal = true) :
    (snapOf n.id cut).status = st ∧ Recalls c fates cut n.id (snapOf n.id cut) :=
  ⟨(hR.status hn (hs ▸ ht)).trans hs, snapOf_recalls hJ⟩

theorem Restores.completed (hR : Restores c cut x) (hfol : Justified (Follows c) cut)
    (hn : n ∈ c.graph) (hc : HasCompleted cut n.id) : x.status n.id = .completed := by
  have hs := (snapOf_ended n.id hfol).2.mpr hc
  rw [hR.ended hn (by rw [hs]; rfl), hs]

/-- What has been skipped is restored so: its fate is to be skipped. -/
theorem Restores.skipped (hR : Restores c cut x) (hfol : Justified (Follows c) cut)
    (hJ : Justified (Tells c fates) cut) (hn : n ∈ c.graph) (hs : HasSkipped cut n.id) :
    x.status n.id = .skipped := by
  obtain ⟨reason, hmem⟩ := hs
  have hfate : fates n.id = .skipped := by
    obtain ⟨A, B, hcut⟩ := List.append_of_mem hmem
    exact hJ A _ B hcut
  have ht : (snapOf n.id cut).status.isTerminal = true :=
    (snapOf_ended n.id hfol).1.mpr ⟨_, hmem, rfl⟩
  have hrec : Recalls c fates cut n.id (snapOf n.id cut) := snapOf_recalls hJ
  rw [hR.ended hn ht]
  cases hst : (snapOf n.id cut).status with
  | skipped => rfl
  | completed =>
      obtain ⟨-, r, -, ids, hr, -⟩ := hrec.completed hst
      rw [hfate] at hr
      cases hr
  | failed =>
      obtain ⟨-, hf⟩ := hrec.failed hst
      rw [hfate] at hf
      cases hf
  | rolledBack | quarantined | cancelled =>
      have hno := hrec.native ht
      rw [hst] at hno
      exact absurd trivial hno
  | _ =>
      rw [hst] at ht
      cases ht

/-- **A restored result is the one the ledger tells.** -/
theorem Restores.result (hR : Restores c cut x) (hfol : Justified (Follows c) cut)
    (hJ : Justified (Tells c fates) cut) (hn : n ∈ c.graph) (hr : (x.nodes n.id).result = some r) :
    x.status n.id = .completed ∧ Settled c fates x n r := by
  rw [hR.nodes n hn] at hr
  rcases restored_result {} (snapOf n.id cut) with ⟨r₁, hs, hr₁, hres⟩ | ⟨-, hres⟩
  · obtain rfl := Option.some.inj (hres.symm.trans hr)
    obtain ⟨-, r₂, hr₂, ids, hfate, hall⟩ := (snapOf_recalls hJ).completed hs
    obtain rfl := Option.some.inj (hr₁.symm.trans hr₂)
    refine ⟨by rw [hR.ended hn (by rw [hs]; rfl), hs], ids, hfate, fun m hm hid => ?_⟩
    exact hR.skipped hfol hJ hm (hall m hm hid)
  · rw [hres] at hr
    cases hr

/-- A node that is restored as completed has its result. -/
theorem Restores.has_result (hR : Restores c cut x) (hJ : Justified (Tells c fates) cut)
    (hn : n ∈ c.graph) (hc : x.status n.id = .completed) : ∃ r, (x.nodes n.id).result = some r := by
  obtain ⟨hs, hrec⟩ := hR.recalls hJ hn hc rfl
  obtain ⟨-, r, hr, -⟩ := hrec.completed hs
  rcases restored_result {} (snapOf n.id cut) with ⟨r', -, -, hres⟩ | ⟨hno, -⟩
  · exact ⟨r', by rw [hR.nodes n hn, hres]⟩
  · rcases hno with hno | hno
    · exact absurd hs hno
    · rw [hr] at hno
      cases hno

/-- What the fates rest on is restored. -/
theorem Restores.unblocked (hR : Restores c cut x) (hS : Setting c h fates)
    (hfol : Justified (Follows c) cut) (hn : n ∈ c.graph) (hfree : Unblocked c cut n.id) :
    ∀ d ∈ n.deps, x.status d = .completed := by
  obtain ⟨o, ho, hid, hall⟩ := hfree
  obtain rfl := eq_of_id_eq hS.graph.distinct ho hn hid
  intro d hd
  obtain ⟨m, hm, rfl⟩ := hS.graph.known o hn d hd
  exact hR.completed hfol hm (hall _ hd)

theorem Restores.begun (hR : Restores c cut x) (hS : Setting c h fates)
    (hfol : Justified (Follows c) cut) (hJ : Justified (Tells c fates) cut) (hn : n ∈ c.graph)
    (hb : Begun (x.status n.id)) :
    (∀ d ∈ n.deps, x.status d = .completed) ∧ fates n.id ≠ .skipped := by
  rcases hR.rebuilt.status n.id with hp | ht
  · exact absurd hp hb.1
  · obtain ⟨hs, hrec⟩ := hR.recalls hJ hn rfl ht
    cases hst : x.status n.id with
    | completed =>
        obtain ⟨hfree, r, -, ids, hfate, -⟩ := hrec.completed (hs.trans hst)
        exact ⟨hR.unblocked hS hfol hn hfree, by simp [hfate]⟩
    | failed =>
        obtain ⟨hfree, hfate⟩ := hrec.failed (hs.trans hst)
        exact ⟨hR.unblocked hS hfol hn hfree, by simp [hfate]⟩
    | skipped => exact absurd hst hb.2
    | rolledBack | quarantined | cancelled =>
        have hno := hrec.native (hs ▸ ht)
        rw [hs, hst] at hno
        exact absurd trivial hno
    | _ =>
        rw [hst] at ht
        cases ht

/-- **What is restored is as foretold.** -/
theorem Restores.foretold (hR : Restores c cut x) (hS : Setting c h fates)
    (hfol : Justified (Follows c) cut) (hJ : Justified (Tells c fates) cut)
    (hw : x.world = h.world) : Foretold c h fates x where
  world := hw
  native n hn hfor := by
    rcases hR.rebuilt.status n.id with hp | ht
    · rw [hp] at hfor
      exact hfor
    · obtain ⟨hs, hrec⟩ := hR.recalls hJ hn rfl ht
      exact hrec.native (hs ▸ ht) (hs ▸ hfor)
  begun n hn := hR.begun hS hfol hJ hn
  done n hn hc := by
    obtain ⟨r, hr⟩ := hR.has_result hJ hn hc
    exact ⟨r, (hR.result hfol hJ hn hr).2, by rw [hR.recorded.results, hr]⟩
  results id hne := by
    rw [hR.recorded.results] at hne
    obtain ⟨r, hr⟩ := Option.ne_none_iff_exists'.mp hne
    by_cases hin : ∃ n ∈ c.graph, n.id = id
    · obtain ⟨n, hn, rfl⟩ := hin
      exact (hR.result hfol hJ hn hr).1
    · push Not at hin
      rw [hR.recorded.outside id hin] at hr
      cases hr
  failed n hn hf := by
    obtain ⟨hs, hrec⟩ := hR.recalls hJ hn hf rfl
    exact (hrec.failed hs).2
  skipped n hn hk := by
    obtain ⟨hs, hrec⟩ := hR.recalls hJ hn hk rfl
    exact (hrec.skipped hs).2
  stored n hn r hr := by
    rw [hR.recorded.stored n hn] at hr
    exact (hR.result hfol hJ hn hr).2

end Restoring

/-! ## 4. A process that resumes -/

section Resuming

variable {c : Context} {h : Handler} {fates : NodeId → Fate} {cut : List WorkflowEvent} {w : World}
  {sc : Scan} {s₀ : State}

/-- The snapshots of the run's own ledger are what it is restored to. -/
theorem State.resumed.restores {jobs : List WorkflowJob} (hnd : (c.graph.map (·.id)).Nodup)
    (hk : DistinctKeys c) (hid : ∀ n ∈ c.graph, n.id ≠ "") (h : State.resumed c w cut jobs s₀) :
    ∃ sc, scan (ledgerEvents c cut) = .ok sc ∧
      Restores c cut (restore c sc.snapshots (Core.fresh w (cut.map .event))) ∧
      Spread c [] False (restore c sc.snapshots (Core.fresh w (cut.map .event))) s₀.core := by
  obtain ⟨core, hh, rfl⟩ := h
  obtain ⟨sc, hsc, hsp, hnodes⟩ := hydrate_restored hnd hh
  refine ⟨sc, hsc, ⟨(rebuilt_fresh w _).restore _, (recorded_fresh w _).restore hnd hk _,
    fun n hn => hnodes n hn (hid n hn), ?_⟩, hsp⟩
  rw [(restore_frame _ _).trace]
  exact ledgerOf_map_event cut

/-- What has been restored as completed is listed, each node once. -/
theorem Restores.listed (hnd : (c.graph.map (·.id)).Nodup) (hid : ∀ n ∈ c.graph, n.id ≠ "")
    (hsc : scan (ledgerEvents c cut) = .ok sc) (hJ : Justified (Tells c fates) cut)
    (hR : Restores c cut (restore c sc.snapshots (Core.fresh w (cut.map .event)))) :
    Listed (restore c sc.snapshots (Core.fresh w (cut.map .event))) ∧
      Enlisted c (restore c sc.snapshots (Core.fresh w (cut.map .event))) := by
  obtain ⟨sc', hsc', hunique, hsnaps⟩ := scan_own (c := c) cut
  obtain rfl : sc = sc' := Except.ok.inj (hsc.symm.trans hsc')
  have horder : (restore c sc.snapshots (Core.fresh w (cut.map .event))).completionOrder =
      (sc.snapshots.filter (·.completes c)).map (·.nodeId) :=
    (restore_order _ _).trans (List.nil_append _)
  -- a listed snapshot is that of a node of the graph
  have hmem : ∀ id ∈ (sc.snapshots.filter (·.completes c)).map (·.nodeId), ∃ n ∈ c.graph,
      n.id = id ∧ (snapOf n.id cut).status = .completed := by
    intro id hin
    obtain ⟨snap, hsnap, rfl⟩ := List.mem_map.mp hin
    obtain ⟨hsnap, hcomp⟩ := List.mem_filter.mp hsnap
    simp only [NodeSnapshot.completes, Bool.and_eq_true, decide_eq_true_eq] at hcomp
    obtain ⟨n, hn⟩ := Option.isSome_iff_exists.mp hcomp.1.1
    obtain ⟨hng, hnid⟩ := mem_of_nodeById hn
    refine ⟨n, hng, hnid, ?_⟩
    rw [← hsnaps n.id (hid n hng), hnid, Snapshots.get_of_mem hunique hsnap]
    exact hcomp.1.2
  refine ⟨⟨?_, fun id => ⟨fun hin => ?_, fun hc => ?_⟩⟩, fun id hin => ?_⟩
  · rw [horder]
    exact hunique.sublist (List.filter_sublist.map _)
  · rw [horder] at hin
    obtain ⟨n, hn, rfl, hs⟩ := hmem id hin
    rw [hR.ended hn (by rw [hs]; rfl), hs]
  · obtain ⟨n, hn, rfl⟩ := hR.recorded.inside (by rw [hc]; decide)
    obtain ⟨hs, hrec⟩ := hR.recalls hJ hn hc rfl
    obtain ⟨-, r, hr, -⟩ := hrec.completed hs
    rw [← hsnaps n.id (hid n hn)] at hs hr
    cases hget : sc.snapshots.get n.id with
    | none =>
        rw [hget] at hs
        cases hs
    | some snap =>
        rw [hget, Option.getD_some] at hs hr
        have hnode : snap.nodeId = n.id := by simpa using List.find?_some hget
        have hby : nodeById c.graph snap.nodeId = some n := by
          rw [hnode]
          exact nodeById_of_mem hnd hn
        rw [horder]
        refine List.mem_map.mpr ⟨snap, List.mem_filter.mpr ⟨List.mem_of_find?_eq_some hget, ?_⟩,
          hnode⟩
        simp [NodeSnapshot.completes, hby, hs, hr]
  · rw [horder] at hin
    obtain ⟨n, hn, rfl, -⟩ := hmem id hin
    exact List.mem_map_of_mem hn

/-- **A process that resumes from an initial part of a told ledger is faithful**, and has at most
    the whole run to do. -/
theorem Faithful.resumed (hS : Setting c h fates) (hid : ∀ n ∈ c.graph, n.id ≠ "")
    (hfol : Justified (Follows c) cut) (hJ : Justified (Tells c fates) cut)
    (hcreated : CreatedOnce c (Core.fresh h.world (cut.map .event)))
    (hs₀ : State.resumed c h.world cut [] s₀) :
    Faithful c h fates s₀ ∧ potential c s₀ ≤ runWork c := by
  have hnd := hS.graph.distinct
  have hjobs : JobsOf c [] := fun _ hj => absurd hj List.not_mem_nil
  obtain ⟨sc, hsc, hR, hsp⟩ := hs₀.restores hnd hS.keys hid
  obtain ⟨hlisted, henlisted⟩ := hR.listed hnd hid hsc hJ
  have hF : Foretold c h fates s₀.core :=
    (hR.foretold hS hfol hJ (restore_world _ _)).spread hS
      (fun _ _ hm => absurd hm List.not_mem_nil) hsp
  have hb := hs₀.begins hjobs
  have hkept := LedgerKept.resumed hnd hid hfol hs₀
  have htold : Told c fates s₀.core := by
    refine ⟨hsp.tells hF (hR.ledger.symm ▸ hJ), hsp.skips fun n hn hs => ?_⟩
    obtain ⟨hsnap, hrec⟩ := hR.recalls hJ hn hs rfl
    rw [hR.ledger]
    exact (hrec.skipped hsnap).1
  have hstill := hb.still hnd
  obtain ⟨core, hh, rfl⟩ := hs₀
  refine ⟨⟨.launch hnd hS.keys hb (hydrate_closed hnd hS.keys hh).1 ?_ ?_, hF, fun key f hf => ?_,
    rfl, fun ho => ?_, hkept, htold, ?_, fun o ho => ?_⟩, potential_launch hstill⟩
  · exact hlisted.congr hsp.sameRest.completionOrder fun id => hsp.completed
  · exact henlisted.congr hsp.sameRest.completionOrder
  · rw [hstill key] at hf
    cases hf
  · rcases ho with ho | ho <;> cases ho
  · exact hcreated.adds ((Adds.none (restore_frame _ _).trace).trans hsp.adds)
      fun _ he => he.not_created
  · obtain ⟨e, rfl⟩ := hb.events o ho
    rfl

end Resuming

/-! ## 5. Every crash -/

/-- The processes of one run by the handler: the first one begins it, each further one is a fresh
    executor that resumes from an initial part of the ledger the one before it has left. -/
inductive Recoveries (c : Context) (h : Handler) : State → Prop where
  | first {ls : List Label} {s : State}
      (hr : Run (step c) (Obeys h) (.initial c h.world) ls s) : Recoveries c h s
  | again {s s₀ s' : State} {cut : List WorkflowEvent} {ls : List Label} (hp : Recoveries c h s)
      (hcut : cut <+: ledgerOf s.core.trace) (hs₀ : State.resumed c h.world cut [] s₀)
      (hr : Run (step c) (Obeys h) s₀ ls s') : Recoveries c h s'

/-- The process that has resumed with `s₀` goes on until its run is resolved, and then every node
    and the results are as in every run that was not interrupted. It calls nothing for a node that
    has completed in `cut`. -/
structure Recovers (c : Context) (h : Handler) (cut : List WorkflowEvent) (s₀ : State)
    (ls : List Label) (s : State) : Prop where
  enabled : c.limits.Positive → s.drive ≠ .resolved →
    ∃ l s', works c s l = true ∧ Obeys h s l ∧ step c s l = some s'
  ends : occurrences (step c) (works c) s₀ ls ≤
    runWork c + 4 * occurrences (step c) redelivers s₀ ls
  agrees : s.drive = .resolved → ∀ ls' s', Run (step c) (Obeys h) (.initial c h.world) ls' s' →
    s'.drive = .resolved →
    (∀ n ∈ c.graph, s.status n.id = s'.status n.id) ∧ s.core.results = s'.core.results
  uncalled : ∀ n ∈ c.graph, HasCompleted cut n.id → ∀ call purpose action input gate,
    .called call n.id purpose action input gate ∉ s.core.trace

/-- A crash that has left `cut` of the ledger is made good: `hydrate` accepts it, and every run of
    the process that resumes recovers. -/
def Recoverable (c : Context) (h : Handler) (cut : List WorkflowEvent) : Prop :=
  (∃ s₀, State.resumed c h.world cut [] s₀) ∧ ∀ s₀ ls s, State.resumed c h.world cut [] s₀ →
    Run (step c) (Obeys h) s₀ ls s → Recovers c h cut s₀ ls s

section Crashes

variable {c : Context} {h : Handler} {fates : NodeId → Fate} {cut : List WorkflowEvent} {w : World}
  {s s₀ s' : State} {ls : List Label} {x : Core} {n : WorkflowNode}

/-- An initial part of the ledger begins with the creation of the run, or is empty. -/
theorem CreatedOnce.kept (hx : CreatedOnce c x) (hcut : cut <+: ledgerOf x.trace) (hne : cut ≠ []) :
    CreatedOnce c (Core.fresh w (cut.map .event)) := by
  obtain ⟨rest, hrest, hno⟩ := hx
  obtain ⟨later, hlater⟩ := hcut
  cases cut with
  | nil => exact absurd rfl hne
  | cons e past =>
      rw [hrest, List.cons_append] at hlater
      obtain ⟨rfl, rfl⟩ := List.cons.inj hlater
      exact ⟨past, ledgerOf_map_event _, fun x hx => hno x (List.mem_append_left _ hx)⟩

/-- Nothing is resumed from nothing. -/
theorem State.resumed.nonempty {jobs : List WorkflowJob} (hs₀ : State.resumed c w cut jobs s₀) :
    cut ≠ [] := by
  rintro rfl
  obtain ⟨core, hh, -⟩ := hs₀
  cases hh

theorem Faithful.again (hS : Setting c h fates) (hid : ∀ n ∈ c.graph, n.id ≠ "")
    (hI : Faithful c h fates s) (hcut : cut <+: ledgerOf s.core.trace)
    (hs₀ : State.resumed c h.world cut [] s₀) :
    Faithful c h fates s₀ ∧ potential c s₀ ≤ runWork c := by
  have hcreated : CreatedOnce c (Core.fresh h.world (cut.map .event)) :=
    hI.created.kept hcut hs₀.nonempty
  obtain ⟨later, hlater⟩ := hcut
  have hfol := hI.kept.follows
  have hJ := hI.told.tells
  rw [← hlater] at hfol hJ
  exact Faithful.resumed hS hid hfol.cut hJ.cut hcreated hs₀

/-- **Every process of the run is faithful.** -/
theorem Recoveries.faithful (hv : validateGraph c.graph = .ok ()) (hS : Setting c h fates)
    (hid : ∀ n ∈ c.graph, n.id ≠ "") (hp : Recoveries c h s) : Faithful c h fates s := by
  induction hp with
  | first hr => exact (run_faithful hv hS (.initial hS.graph.distinct hS.keys) hr).1
  | again _ hcut hs₀ hr ih => exact (run_faithful hv hS (ih.again hS hid hcut hs₀).1 hr).1

/-- **A resolved process has come to the fates.** -/
theorem Faithful.resolved (hv : validateGraph c.graph = .ok ()) (hS : Setting c h fates)
    (hother : ∀ id, id ∉ c.graph.map (·.id) → (fates id).result = none)
    (hI : Faithful c h fates s) (hd : s.drive = .resolved) :
    (∀ n ∈ c.graph, s.status n.id = (fates n.id).status) ∧
      ∀ id, s.core.results id = (fates id).result := by
  have hA := hI.advancing
  have hstatus : ∀ n ∈ c.graph, s.status n.id = (fates n.id).status := fun n hn =>
    hI.foretold.status_eq hS hv hA.unlost.closed (hA.unlost.waits (by rw [hd]; simp))
      (hI.rested (.inr hd)) hn
  exact ⟨hstatus, hI.foretold.results_eq hA.listed hA.enlisted hother hstatus⟩

/-- What has completed in the ledger that a process resumes from is buried in it. -/
theorem State.resumed.buried_completed (hnd : (c.graph.map (·.id)).Nodup) (hk : DistinctKeys c)
    (hid : ∀ n ∈ c.graph, n.id ≠ "") (hfol : Justified (Follows c) cut)
    (hs₀ : State.resumed c w cut [] s₀) (hn : n ∈ c.graph) (hc : HasCompleted cut n.id) :
    Buried n s₀.core := by
  refine (hs₀.begins fun _ hj => absurd hj List.not_mem_nil).buried hnd ?_
  obtain ⟨sc, -, hR, hsp⟩ := hs₀.restores hnd hk hid
  exact hsp.isTerminal (by rw [hR.completed hfol hn hc]; rfl)

/-- **A process that resumes recovers**, from wherever the ledger of a faithful one was cut. -/
theorem recovers_of_faithful (hv : validateGraph c.graph = .ok ()) (hS : Setting c h fates)
    (hother : ∀ id, id ∉ c.graph.map (·.id) → (fates id).result = none)
    (hid : ∀ n ∈ c.graph, n.id ≠ "") (hI : Faithful c h fates s)
    (hcut : cut <+: ledgerOf s.core.trace) (hs₀ : State.resumed c h.world cut [] s₀)
    (hr : Run (step c) (Obeys h) s₀ ls s') : Recovers c h cut s₀ ls s' := by
  have hnd := hS.graph.distinct
  obtain ⟨h₀, hwork⟩ := hI.again hS hid hcut hs₀
  obtain ⟨hI', hends⟩ := run_faithful hv hS h₀ hr
  have hA := hI'.advancing
  refine ⟨fun hpos hd => step_enabled h hA.sound hA.tidy hA.standing hA.housed hpos hd, by omega,
    fun hd ls₁ s₁ hr₁ hd₁ => ?_, fun n hn hc call purpose action input gate hm => ?_⟩
  · have hI₁ := (run_faithful hv hS (.initial hnd hS.keys) hr₁).1
    obtain ⟨hstatus, hresults⟩ := hI'.resolved hv hS hother hd
    obtain ⟨hstatus₁, hresults₁⟩ := hI₁.resolved hv hS hother hd₁
    refine ⟨fun n hn => (hstatus n hn).trans (hstatus₁ n hn).symm, funext fun id => ?_⟩
    rw [hresults, hresults₁]
  · have hfol := hI.kept.follows
    obtain ⟨later, hlater⟩ := hcut
    rw [← hlater] at hfol
    have hburied := hs₀.buried_completed hnd hS.keys hid hfol.cut hn hc
    -- every call of the process is a forward call
    have hforward : purpose = .forward := by simpa [Obs.isUndo] using hI'.quiet _ hm
    exact (run_buried hnd h₀.advancing.sound hn hburied hr).uncalled _ _ _ _ (hforward ▸ hm)

/-- The fates of a grounded graph, by one of its topological orders. -/
theorem exists_setting (h : Handler) (hv : validateGraph c.graph = .ok ()) (hk : NoCollision c)
    (hplain : ∀ n ∈ c.graph, c.compensations.actionFor n = none ∧ n.timeoutMs = none)
    (hg : Grounded c.graph) : ∃ fates, Setting c h fates ∧
      ∀ id, id ∉ c.graph.map (·.id) → (fates id).result = none := by
  have hw := validateGraph_iff.mp hv
  obtain ⟨layers, -, hsched, -⟩ := topologicalLayers_schedule hv
  have ht := hsched.topological hw
  refine ⟨evaluate h c.graph layers.flatten,
    ⟨hw, hk.distinctKeys hw.distinct, hg, fun n hn => evaluate_eq hw hg ht hn, hplain⟩,
    fun id hid => ?_⟩
  rw [evaluate_other ht hid]
  rfl

/-- **Crash recovery refines the uninterrupted run**: for every graph without an empty node id,
    every handler, every crash point and every number of crashes before it. -/
theorem recovery_refines (hv : validateGraph c.graph = .ok ()) (hk : NoCollision c)
    (hplain : ∀ n ∈ c.graph, c.compensations.actionFor n = none ∧ n.timeoutMs = none)
    (hg : Grounded c.graph) (hid : ∀ n ∈ c.graph, n.id ≠ "") (hp : Recoveries c h s)
    (hcut : cut <+: ledgerOf s.core.trace) (hin : ∃ e ∈ cut, e.type = .runCreated) :
    Recoverable c h cut := by
  obtain ⟨fates, hS, hother⟩ := exists_setting h hv hk hplain hg
  have hI := hp.faithful hv hS hid
  have hne : cut ≠ [] := by
    rintro rfl
    obtain ⟨e, he, -⟩ := hin
    cases he
  refine ⟨?_, fun s₀ ls s' hs₀ hr => recovers_of_faithful hv hS hother hid hI hcut hs₀ hr⟩
  obtain ⟨core, hh⟩ := (hI.created.kept (w := h.world) hcut hne).hydrates hv h.world (cut.map .event)
  rw [show ledgerOf (Core.fresh h.world (cut.map .event)).trace = cut from
    ledgerOf_map_event cut] at hh
  exact ⟨_, core, hh, rfl⟩

end Crashes

/-- A step that meets the condition. -/
def handledStep (c : Context) (s : State) (l : Label) : Option State :=
  if handledCheck s l then step c s l else none

/-- What a process by the handler of the pipeline has left in the ledger. -/
def handledRecord (c : Context) (ls : List Label) : List WorkflowEvent :=
  ((exec (handledStep c) (.initial c pipelineHandler.world) ls).map fun s =>
    ledgerOf s.core.trace).getD []

theorem handledStep_run {c : Context} {s₀ s : State} {ls : List Label}
    (h : exec (handledStep c) s₀ ls = some s) : Run (step c) (Obeys pipelineHandler) s₀ ls s :=
  run_of_exec_check (c := handledCheck) obeys_of_handledCheck h

theorem recoveries_handled (c : Context) (ls : List Label)
    (h : (exec (handledStep c) (.initial c pipelineHandler.world) ls).isSome = true) :
    ∃ s, Recoveries c pipelineHandler s ∧ ledgerOf s.core.trace = handledRecord c ls := by
  obtain ⟨s, hs⟩ := Option.isSome_iff_exists.mp h
  exact ⟨s, .first (handledStep_run hs), by rw [handledRecord, hs]; rfl⟩

/-- The process crashes while the gate and the lint run. -/
theorem recovery_refines_pipeline :
    HasCompleted (handledRecord pipelineContext (pipelineBuilt ++ pipelineForked)) "build" ∧
    Recoverable pipelineContext pipelineHandler
      (handledRecord pipelineContext (pipelineBuilt ++ pipelineForked)) := by
  obtain ⟨s, hp, hs⟩ := recoveries_handled pipelineContext
    (pipelineBuilt ++ pipelineForked) (by rfl)
  have hdone : (handledRecord pipelineContext (pipelineBuilt ++ pipelineForked)).any
      (fun e => e.completes = some "build") = true := by rfl
  have hbegun : (handledRecord pipelineContext (pipelineBuilt ++ pipelineForked)).any
      (fun e => e.type = .runCreated) = true := by rfl
  exact ⟨by simpa [HasCompleted] using hdone, recovery_refines (by rfl) noCollision_pipeline
    (by decide) grounded_pipeline (by decide) hp (hs ▸ List.prefix_refl _) (by simpa using hbegun)⟩

/-- There is no conditional, and no input. -/
theorem grounded_solo (id : NodeId) : Grounded [soloNode id] := by
  refine ⟨fun m hm hkind => ?_, fun m hm ref href => ?_, fun m hm hkind => ?_⟩ <;>
    obtain rfl := List.mem_singleton.mp hm
  · cases hkind
  · cases href
  · cases hkind

/-- A node with an empty id is called again although it has completed. -/
theorem empty_id_called_again : ∃ c h s cut, validateGraph c.graph = .ok () ∧ NoCollision c ∧
    (∀ n ∈ c.graph, c.compensations.actionFor n = none ∧ n.timeoutMs = none) ∧
    Grounded c.graph ∧ Recoveries c h s ∧ cut <+: ledgerOf s.core.trace ∧
    (∃ e ∈ cut, e.type = .runCreated) ∧ ¬ Recoverable c h cut := by
  obtain ⟨s, hp, hs⟩ := recoveries_handled (soloContext "") (soloLabels "") (by rfl)
  have hbegun : (handledRecord (soloContext "") (soloLabels "")).any
      (fun e => e.type = .runCreated) = true := by rfl
  refine ⟨soloContext "", pipelineHandler, s, handledRecord (soloContext "") (soloLabels ""), by rfl,
    fun _ _ _ _ h => h, by decide, grounded_solo "", hp, hs ▸ List.prefix_refl _,
    by simpa using hbegun, fun hrec => ?_⟩
  have hany : (handledRecord (soloContext "") (soloLabels "")).any
      (fun e => e.completes = some "") = true := by rfl
  have hdone : HasCompleted (handledRecord (soloContext "") (soloLabels "")) "" := by
    simpa [HasCompleted] using hany
  obtain ⟨s', hs', hcalls⟩ := Option.map_eq_some_iff.mp (show (exec (handledStep (soloContext ""))
    (.launch (rebuilt (soloContext "") pipelineHandler.world
      (handledRecord (soloContext "") (soloLabels ""))) []) ((soloLabels "").take 5)).map
        (fun s => s.core.trace.any (calledCheck "")) = some true by rfl)
  have hno := (hrec.2 _ _ s' (rebuilt_resumed [] rfl) (handledStep_run hs')).uncalled
    (soloNode "") List.mem_cons_self hdone
  obtain ⟨o, ho, hcalled⟩ := List.any_eq_true.mp hcalls
  unfold calledCheck at hcalled
  split at hcalled
  · cases of_decide_eq_true hcalled
    exact hno _ _ _ _ _ ho
  · cases hcalled

end AgentKernel.Orchestrator
