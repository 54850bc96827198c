/-
  File:      AgentKernel/Orchestrator/Attempts.lean
  Subject:   The attempts of a node over all the processes of its run: the number an attempt
             starts with, the retry budget, and what the failure guard is told.

  Within one process the three agree (`Counted`): the execution of a node has one number for each
  failed attempt the ledger records and one for the attempt that goes on, and `failureCount` is
  the number of the recorded ones. `hydrate` restores neither. It takes the number of an attempt
  from `WorkflowNodeRunning` and passes over the `nextAttempt` of `WorkflowNodeRetrying`, and
  `failureCount` starts at zero again.

  **`budget_kept`**: the run keeps its budget over every sequence of crashes, where each crash has
  left the terminal event of every node whose failed attempts are recorded.
-/
import AgentKernel.Orchestrator.Cancel
import AgentKernel.Orchestrator.Decided
import AgentKernel.Orchestrator.Tidy

namespace AgentKernel.Orchestrator

open Lib

/-! ## 1. The property and its condition -/

/-- The node an attempt of which has failed. -/
def WorkflowEvent.fails : WorkflowEvent → Option NodeId
  | .nodeRetrying id .. | .nodeFailed id .. | .nodeCompensating id _ | .nodeQuarantined id _ =>
      some id
  | _ => none

/-- The failed attempts of the node that the ledger records. -/
def failures (id : NodeId) (ledger : List WorkflowEvent) : Nat :=
  ledger.countP fun e => e.fails = some id

/-- The number the catch of an attempt hands to `failureGuard.assess`. -/
def guardCount (s : Core) (id : NodeId) : Nat := ((s.countFailure id).nodes id).failureCount

/-- An attempt behind a retry has the number the retry has announced. -/
def Announced (past : List WorkflowEvent) : WorkflowEvent → Prop
  | .nodeRunning id _ attempt _ => ∀ k next error,
      lastOf id past = some (.nodeRetrying id k next error) → attempt = next
  | _ => True

/-- Every retry is announced, and no node fails more often than its policy has attempts. -/
structure BudgetKept (c : Context) (s : State) : Prop where
  announced : Justified Announced (ledgerOf s.core.trace)
  budget : ∀ n ∈ c.graph,
    failures n.id (ledgerOf s.core.trace) ≤ max 1 (retryPolicy n).maxAttempts
  guard : ∀ key f e, s.core.store.inFlight key = some f → f.pc = .threw e →
    guardCount s.core f.node.id = failures f.node.id (ledgerOf s.core.trace) + 1

/-- The processes of one run on schedulers of their own: each but the first is rebuilt from an
    initial part of the ledger its predecessor has left, one that is `good`. -/
inductive Cycles (c : Context) (good : List WorkflowEvent → Prop) : State → Prop where
  | first {w : World} {ls : List Label} {s : State}
      (h : Run (step c) (fun _ _ => True) (.initial c w) ls s) : Cycles c good s
  | again {s s₀ s' : State} {w : World} {cut : List WorkflowEvent} {ls : List Label}
      (hl : Cycles c good s) (hcut : cut <+: ledgerOf s.core.trace) (hgood : good cut)
      (hs₀ : State.resumed c w cut [] s₀) (h : Run (step c) (fun _ _ => True) s₀ ls s') :
      Cycles c good s'

/-- Every node with a recorded failed attempt has ended, and `hydrate` reads it: the node's id is
    not empty. -/
def Accounted (c : Context) (cut : List WorkflowEvent) : Prop :=
  ∀ n ∈ c.graph, failures n.id cut ≠ 0 →
    n.id ≠ "" ∧ ∃ e, lastOf n.id cut = some e ∧ e.ends = some n.id

/-! ## 2. Counting -/

section Counting

variable {id : NodeId} {L : List WorkflowEvent} {e : WorkflowEvent}

theorem failures_snoc :
    failures id (L ++ [e]) = failures id L + if e.fails = some id then 1 else 0 := by
  unfold failures
  rw [List.countP_append]
  split_ifs with h <;> simp [h]

theorem failures_snoc_none (h : e.fails ≠ some id) : failures id (L ++ [e]) = failures id L := by
  rw [failures_snoc, if_neg h, Nat.add_zero]

theorem failures_snoc_some (h : e.fails = some id) :
    failures id (L ++ [e]) = failures id L + 1 := by
  rw [failures_snoc, if_pos h]

theorem failures_initial {L' : List WorkflowEvent} (h : L' <+: L) : failures id L' ≤ failures id L :=
  List.Sublist.countP_le h.sublist

/-- A node that is retrying has a recorded failed attempt. -/
theorem failures_ne_zero {k next : Nat} {error : String}
    (h : lastOf id L = some (.nodeRetrying id k next error)) : failures id L ≠ 0 := by
  have hmem : WorkflowEvent.nodeRetrying id k next error ∈ L :=
    (List.mem_filter.mp (List.mem_of_getLast? h)).1
  have hpos : 0 < failures id L := List.countP_pos_iff.mpr ⟨_, hmem, by simp [WorkflowEvent.fails]⟩
  omega

/-- An event that shows a failed attempt is about its node. -/
theorem WorkflowEvent.about_of_fails (h : e.fails = some id) :
    e.works = some id ∨ e.ends = some id := by
  cases e with
  | nodeRetrying | nodeCompensating => exact .inl h
  | nodeFailed | nodeQuarantined => exact .inr h
  | _ => cases h

theorem guardCount_eq (s : Core) (id : NodeId) :
    guardCount s id = (s.nodes id).failureCount + 1 := by
  simp [guardCount, Core.countFailure, Core.setNode]

end Counting

/-! ## 3. What others leave of a node's count -/

/-- The event is about another node. -/
def Elsewhere (id : NodeId) (e : WorkflowEvent) : Prop := e.works ≠ some id ∧ e.ends ≠ some id

/-- Nothing has been counted for the node, and if it is retrying its last event is what it was. -/
structure Uncounted (id : NodeId) (x y : Core) : Prop where
  failures : failures id (ledgerOf y.trace) = failures id (ledgerOf x.trace)
  count : (y.nodes id).failureCount = (x.nodes id).failureCount
  last : y.status id = .retrying → x.status id = .retrying ∧
    lastOf id (ledgerOf y.trace) = lastOf id (ledgerOf x.trace)
  ended : (x.status id).isTerminal = true → (y.status id).isTerminal = true

section Uncounted

variable {c : Context} {x y : Core} {id : NodeId}

theorem uncounted_of_ledger (hnodes : y.nodes id = x.nodes id)
    (hl : ledgerOf y.trace = ledgerOf x.trace) : Uncounted id x y := by
  have hst : y.status id = x.status id := by rw [Core.status_eq, hnodes, Core.status_eq]
  exact ⟨by rw [hl], by rw [hnodes], fun hs => ⟨hst ▸ hs, by rw [hl]⟩, fun ht => by rwa [hst]⟩

theorem Uncounted.setFlight (h : Uncounted id x y) (key : String) (f : Flight) :
    Uncounted id x (y.setFlight key f) := ⟨h.failures, h.count, h.last, h.ended⟩

theorem elsewhere_append {L : List WorkflowEvent} : ∀ {es : List WorkflowEvent},
    (∀ e ∈ es, Elsewhere id e) →
      failures id (L ++ es) = failures id L ∧ lastOf id (L ++ es) = lastOf id L := by
  intro es
  induction es using List.reverseRecOn with
  | nil => exact fun _ => by simp
  | append_singleton es e ih =>
      intro h
      obtain ⟨hF, hl⟩ := ih fun x hx => h x (List.mem_append_left _ hx)
      have he := h e (by simp)
      rw [← List.append_assoc]
      constructor
      · rw [failures_snoc_none, hF]
        intro hf
        rcases WorkflowEvent.about_of_fails hf with hw | hend
        · exact he.1 hw
        · exact he.2 hend
      · rw [lastOf_snoc, if_neg (not_or.mpr he), hl]

/-- Code of other nodes counts nothing. -/
theorem Adds.uncounted {P : Obs → Prop} (h : Adds P x y)
    (hP : ∀ e, P (.event e) → Elsewhere id e) (hnodes : y.nodes id = x.nodes id) :
    Uncounted id x y := by
  obtain ⟨obs, hobs, hall⟩ := h
  have helse : ∀ e ∈ ledgerOf obs, Elsewhere id e := fun e he => hP e (hall _ (mem_ledgerOf.mp he))
  obtain ⟨hF, hl⟩ := elsewhere_append (L := ledgerOf x.trace) helse
  rw [← ledgerOf_append, ← hobs] at hF hl
  have hst : y.status id = x.status id := by rw [Core.status_eq, hnodes, Core.status_eq]
  exact ⟨hF, by rw [hnodes], fun hs => ⟨hst ▸ hs, hl⟩, fun ht => by rwa [hst]⟩

theorem HeadObs.elsewhere {n : WorkflowNode} {e : WorkflowEvent} (h : HeadObs n (.event e))
    (hid : id ≠ n.id) : Elsewhere id e := by
  have hne : some n.id ≠ some id := fun he => hid (Option.some.inj he).symm
  cases h with
  | failed | quarantined => exact ⟨nofun, hne⟩
  | compensating => exact ⟨hne, nofun⟩

theorem TailObs.elsewhere {n : WorkflowNode} {e : WorkflowEvent} (h : TailObs n (.event e))
    (hid : id ≠ n.id) : Elsewhere id e := by
  have hne : some n.id ≠ some id := fun he => hid (Option.some.inj he).symm
  cases h with
  | rolledBack => exact ⟨nofun, hne⟩
  | compensated => exact ⟨nofun, nofun⟩

theorem RowObs.elsewhere {f : Flight} {pc : FlightPc} {a : Answer} {e : WorkflowEvent}
    (h : RowObs c x f pc a (.event e)) (hid : id ≠ f.node.id) : Elsewhere id e := by
  have hne : some f.node.id ≠ some id := fun he => hid (Option.some.inj he).symm
  cases h with
  | asks | granted | denied => exact ⟨nofun, nofun⟩
  | verifies | retries | resumes => exact ⟨hne, nofun⟩
  | head h => exact h.elsewhere hid
  | tail h => exact h.elsewhere hid

/-- Touches count nothing; the node they touch is not retrying. -/
theorem Touch.uncounted {T : List NodeId} {q : Prop} (h : Touch c T q x y) : Uncounted id x y := by
  have hended : (x.status id).isTerminal = true → (y.status id).isTerminal = true := fun ht => by
    rw [h.terminal ht]
    exact ht
  have hput : ∀ {n : WorkflowNode} {d : InternalNode} {e : WorkflowEvent},
      y = x.put n.id d [.event e] → e.works = none → (e.ends = none ∨ e.ends = some n.id) →
      e.fails = none → d.status ≠ .retrying → d.failureCount = (x.nodes n.id).failureCount →
      Uncounted id x y := by
    intro n d e hy hworks hends hfails hd hcount
    subst hy
    by_cases hid : id = n.id
    · refine ⟨?_, ?_, fun hs => ?_, hended⟩
      · rw [Core.put_trace, ledgerOf_snoc, failures_snoc_none (by rw [hfails]; exact nofun)]
      · rw [hid, Core.put_nodes_self, hcount]
      · rw [hid, Core.put_status_self] at hs
        exact absurd hs hd
    · have hadd : Adds (fun o => o = .event e) x (x.put n.id d [.event e]) := .one rfl rfl
      refine hadd.uncounted (fun e' he' => ?_) (by rw [Core.put_nodes, if_neg hid])
      obtain rfl : e' = e := Obs.event.inj he'
      refine ⟨by rw [hworks]; exact nofun, fun hend => ?_⟩
      rcases hends with hnone | hsome
      · rw [hnone] at hend
        cases hend
      · rw [hsome] at hend
        exact hid (Option.some.inj hend).symm
  cases h with
  | skip | cancel => exact hput rfl rfl (.inr rfl) rfl (by simp) rfl
  | prepare => exact hput rfl rfl (.inl rfl) rfl (by simp) rfl
  | @note e he hq =>
      have hadd : Adds (fun o => o = .event e) x (x.emit e) := .one rfl rfl
      refine hadd.uncounted (fun e' he' => ?_) rfl
      obtain rfl : e' = e := Obs.event.inj he'
      cases e' with
      | runCreated | jobEnqueued | runCompleted | runCancelled | runFailed => exact ⟨nofun, nofun⟩
      | _ => exact he.elim

end Uncounted

/-! ## 4. What an execution knows of its attempts -/

/-- Places at which an attempt goes on. -/
def Trying : FlightPc → Prop
  | .retrying | .failing .. | .rejected _ => False
  | _ => True

/-- The failed attempts of the node are counted, and the number of the attempt is above them. -/
structure Stage (s : Core) (f : Flight) : Prop where
  trying : Trying f.pc →
    (s.nodes f.node.id).failureCount = failures f.node.id (ledgerOf s.trace) ∧
    failures f.node.id (ledgerOf s.trace) + 1 ≤ f.job.attempt ∧
    (failures f.node.id (ledgerOf s.trace) = 0 ∨ f.job.attempt ≤ (retryPolicy f.node).maxAttempts)
  retrying : f.pc = .retrying →
    (s.nodes f.node.id).failureCount = failures f.node.id (ledgerOf s.trace) ∧
    failures f.node.id (ledgerOf s.trace) ≤ f.job.attempt ∧
    f.job.attempt + 1 ≤ (retryPolicy f.node).maxAttempts ∧
    (s.status f.node.id = .retrying → ∃ error, lastOf f.node.id (ledgerOf s.trace) =
      some (.nodeRetrying f.node.id f.job.attempt (f.job.attempt + 1) error))

section Stage

variable {c : Context} {s y : Core} {f : Flight} {pc' : FlightPc} {a : Answer}

theorem Stage.uncounted (h : Stage s f) (hu : Uncounted f.node.id s y) : Stage y f := by
  refine ⟨fun ht => ?_, fun hr => ?_⟩
  · rw [hu.failures, hu.count]
    exact h.trying ht
  · obtain ⟨hcount, hle, hmax, hlast⟩ := h.retrying hr
    rw [hu.failures, hu.count]
    refine ⟨hcount, hle, hmax, fun hs => ?_⟩
    obtain ⟨hs', heq⟩ := hu.last hs
    rw [heq]
    exact hlast hs'

/-- An execution that has come to its end counts no more. -/
theorem Stage.over {job : WorkflowJob} (hno : ¬ Trying pc') (hr : pc' ≠ .retrying) :
    Stage y { f with job := job, pc := pc' } :=
  ⟨fun ht => absurd ht hno, fun h => absurd h hr⟩

/-- An attempt goes on, and nothing is counted. -/
theorem Stage.goesOn (h : Stage s f) (ht : Trying f.pc)
    (hF : failures f.node.id (ledgerOf y.trace) = failures f.node.id (ledgerOf s.trace))
    (hc : (y.nodes f.node.id).failureCount = (s.nodes f.node.id).failureCount)
    (hr : pc' ≠ .retrying) : Stage y { f with job := nextJob f, pc := pc' } := by
  have hjob : nextJob f = f.job := by
    unfold nextJob
    split
    · rename_i hpc
      rw [hpc] at ht
      exact ht.elim
    · rfl
  rw [hjob]
  refine ⟨fun _ => ?_, fun h => absurd h hr⟩
  rw [hF, hc]
  exact h.trying ht

theorem HeadRow.failures {n : WorkflowNode} {error : String} {q : Bool} {pc : Option FailPc}
    (h : HeadRow c s n error q y pc) : (pc = none ∧ failures n.id (ledgerOf y.trace) =
        failures n.id (ledgerOf s.trace)) ∨
      failures n.id (ledgerOf y.trace) = failures n.id (ledgerOf s.trace) + 1 := by
  cases h with
  | failed | compensates | quarantines =>
      refine .inr ?_
      rw [Core.put_trace, ledgerOf_snoc]
      exact failures_snoc_some rfl
  | waits | refused => exact .inl ⟨rfl, by simp⟩

theorem FailRow.failures {n : WorkflowNode} {error : String} {pc pc' : FailPc}
    (h : FailRow c s n error pc a y pc') :
    failures n.id (ledgerOf y.trace) = failures n.id (ledgerOf s.trace) := by
  cases h with
  | undoes => simp [Core.invoke]
  | rollsBack hs hx =>
      rw [sweepNext_ledger hx, Core.put_trace, ledgerOf_append]
      exact failures_snoc_none (by simp [WorkflowEvent.fails])
  | @swept id spec call rest o s' pc' hx =>
      have hno : (WorkflowEvent.nodeCompensated id spec.action).fails ≠ some n.id := by
        simp [WorkflowEvent.fails]
      rw [sweepNext_ledger hx, Core.emit, Core.observe_trace, ledgerOf_snoc, failures_snoc_none hno]
      simp

/-- **What a stretch of `executeWithRetry` counts**: it keeps the stage and the budget. -/
theorem Row.stage (h : Row c s f f.pc a y pc') (hst : Stage s f)
    (hbudget : failures f.node.id (ledgerOf s.trace) ≤ max 1 (retryPolicy f.node).maxAttempts) :
    Stage y { f with job := nextJob f, pc := pc' } ∧
      failures f.node.id (ledgerOf y.trace) ≤ max 1 (retryPolicy f.node).maxAttempts := by
  -- stretches that record no failed attempt and begin none
  have hquiet : failures f.node.id (ledgerOf y.trace) = failures f.node.id (ledgerOf s.trace) →
      (y.nodes f.node.id).failureCount = (s.nodes f.node.id).failureCount → Trying f.pc →
      pc' ≠ .retrying → Stage y { f with job := nextJob f, pc := pc' } ∧
        failures f.node.id (ledgerOf y.trace) ≤ max 1 (retryPolicy f.node).maxAttempts :=
    fun hF hc ht hr => ⟨hst.goesOn ht hF hc hr, by rw [hF]; exact hbudget⟩
  generalize hpc : f.pc = pc at h
  have hstage : pc = .retrying ∨ nextJob f = f.job := by
    unfold nextJob
    split
    · rename_i hr
      exact .inl (hpc.symm.trans hr)
    · exact .inr rfl
  cases h with
  | throws hpc' =>
      refine hquiet rfl rfl ?_ (by simp)
      rw [hpc]
      rcases hpc' with rfl | ⟨_, rfl⟩ | ⟨_, _, rfl⟩ <;> trivial
  | calls hgate =>
      refine hquiet (by simp [Core.invoke]) rfl ?_ (by simp)
      rw [hpc]
      rcases hgate with ⟨rfl, -⟩ | ⟨_, rfl, -⟩ <;> trivial
  | concludes hkind hcond hsrc hpc' =>
      refine hquiet ?_ (by simp) ?_ ?_
      · rcases hsrc with ⟨-, -, rfl, -⟩ | ⟨_, _, _, -, -, rfl⟩ <;> simp
      · rw [hpc]
        rcases hsrc with ⟨rfl, -⟩ | ⟨_, _, _, rfl, -⟩ <;> trivial
      · rcases hpc' with rfl | ⟨_, rfl⟩ <;> simp
  | asks =>
      refine hquiet ?_ (by simp) (by rw [hpc]; trivial) (by simp)
      rw [Core.put_trace, ledgerOf_snoc]
      exact failures_snoc_none (by simp [WorkflowEvent.fails])
  | @answers req granted =>
      refine hquiet ?_ (by simp) (by rw [hpc]; trivial) (by simp)
      rw [Core.put_trace, ledgerOf_append]
      refine failures_snoc_none ?_
      cases granted <;> simp [WorkflowEvent.fails]
  | approved => exact hquiet rfl rfl (by rw [hpc]; trivial) (by simp)
  | settles hpc' =>
      refine hquiet (by simp) (by simp) (by rw [hpc]; trivial) ?_
      rcases hpc' with ⟨_, -, -, rfl, -⟩ | ⟨_, -, -, rfl, -⟩ | ⟨_, -, rfl⟩ <;> simp
  | timesOut => exact hquiet rfl rfl (by rw [hpc]; trivial) (by simp)
  | verifies =>
      refine hquiet ?_ (by simp) (by rw [hpc]; trivial) (by simp)
      rw [Core.put_trace, ledgerOf_snoc]
      exact failures_snoc_none (by simp [WorkflowEvent.fails])
  | @retries e hagain hs =>
      obtain ⟨hcount, hnumber, -⟩ := hst.trying (by rw [hpc]; trivial)
      have hjob : nextJob f = f.job := hstage.resolve_left (by simp)
      have hmax : f.job.attempt < (retryPolicy f.node).maxAttempts := by
        have hretry : retryable f.node f.job.attempt e = true := (Bool.and_eq_true_iff.mp hagain).1
        exact of_decide_eq_true (Bool.and_eq_true_iff.mp hretry).1
      have hF : failures f.node.id (ledgerOf s.trace ++
          [.nodeRetrying f.node.id f.job.attempt (f.job.attempt + 1) e]) =
          failures f.node.id (ledgerOf s.trace) + 1 := failures_snoc_some rfl
      rw [hjob, Core.put_trace, ledgerOf_snoc]
      refine ⟨⟨fun ht => ht.elim, fun _ => ?_⟩, ?_⟩
      · rw [Core.put_nodes_self, Core.put_trace, ledgerOf_snoc, hF]
        refine ⟨congrArg (· + 1) hcount, hnumber, hmax, fun _ => ⟨e, ?_⟩⟩
        rw [lastOf_snoc, if_pos (.inl rfl)]
      · rw [hF]
        omega
  | retryRefused =>
      have hF : ledgerOf (s.trace ++ [.illegal f.node.id (s.status f.node.id) .fail]) =
          ledgerOf s.trace := by simp
      rw [Core.put_trace, hF]
      exact ⟨.over (fun h => h) (by simp), hbudget⟩
  | fails hagain hq hhead =>
      obtain ⟨-, hnumber, hmax⟩ := hst.trying (by rw [hpc]; trivial)
      have hF : failures f.node.id (ledgerOf y.trace) ≤ failures f.node.id (ledgerOf s.trace) + 1 := by
        have htrace : (s.countFailure f.node.id).trace = s.trace := rfl
        rcases hhead.failures with ⟨hnone, -⟩ | hsome
        · cases hnone
        · rw [htrace] at hsome
          omega
      refine ⟨.over (fun h => h) (by simp), ?_⟩
      rcases hmax with hzero | hle <;> omega
  | failRefused hagain hhead =>
      refine ⟨.over (fun h => h) (by simp), ?_⟩
      have htrace : (s.countFailure f.node.id).trace = s.trace := rfl
      cases hhead with
      | waits | refused =>
          rw [Core.put_trace, htrace, ledgerOf_append]
          simpa using hbudget
  | resumes hs =>
      obtain ⟨hcount, hle, hmax, -⟩ := hst.retrying hpc
      have hjob : (nextJob f).attempt = f.job.attempt + 1 := by
        unfold nextJob
        rw [hpc]
      have hF : failures f.node.id (ledgerOf s.trace ++ [.nodeRunning f.node.id f.job.id
          (f.job.attempt + 1) f.job.operationId]) = failures f.node.id (ledgerOf s.trace) :=
        failures_snoc_none (by simp [WorkflowEvent.fails])
      refine ⟨⟨fun _ => ?_, by simp⟩, ?_⟩
      · rw [Core.put_nodes_self, Core.put_trace, ledgerOf_snoc, hF, hjob]
        exact ⟨hcount, by omega, .inr hmax⟩
      · rw [Core.put_trace, ledgerOf_snoc, hF]
        exact hbudget
  | ending hfail =>
      refine ⟨.over (fun h => h) (by simp), ?_⟩
      rw [hfail.failures]
      exact hbudget
  | ended => exact ⟨.over (fun h => h) (by simp), hbudget⟩

end Stage

/-! ## 5. Attempts are numbered from one -/

/-- No node has, and no execution has started with, the number zero. -/
structure Core.Numbered (s : Core) : Prop where
  nodes : ∀ id, 1 ≤ (s.nodes id).attempt
  ledger : ∀ id job attempt operation,
    .nodeRunning id job attempt operation ∈ ledgerOf s.trace → 1 ≤ attempt

/-- Nor has a job. -/
structure State.Numbered (s : State) : Prop where
  core : Core.Numbered s.core
  jobs : ∀ job, job ∈ s.enqueued ∨ job ∈ s.drive.jobs → 1 ≤ job.attempt

section Numbered

variable {c : Context} {s s' : State} {x y : Core} {l : Label}

theorem HeadRow.attempt {n : WorkflowNode} {error : String} {q : Bool} {pc : Option FailPc}
    (h : HeadRow c x n error q y pc) : (y.nodes n.id).attempt = (x.nodes n.id).attempt := by
  cases h <;> simp

theorem FailRow.attempt {n : WorkflowNode} {error : String} {pc pc' : FailPc} {a : Answer}
    (h : FailRow c x n error pc a y pc') : (y.nodes n.id).attempt = (x.nodes n.id).attempt := by
  have hsweep : ∀ {z z' : Core} {failed : NodeId} {ids : List NodeId} {pc' : FailPc},
      sweepNext c z failed ids = (z', pc') → z'.nodes = z.nodes := by
    intro z z' failed ids pc' hx
    rcases sweepNext_cases hx with ⟨rfl, -⟩ | ⟨_, _, _, _, rfl, _⟩ <;> rfl
  cases h with
  | undoes => rfl
  | rollsBack hs hx =>
      rw [hsweep hx]
      simp
  | swept hx =>
      rw [hsweep hx]
      rfl

theorem Row.attempt {f : Flight} {pc pc' : FlightPc} {a : Answer} (h : Row c x f pc a y pc')
    (hx : 1 ≤ (x.nodes f.node.id).attempt) : 1 ≤ (y.nodes f.node.id).attempt := by
  have hcount : ((x.countFailure f.node.id).nodes f.node.id).attempt =
      (x.nodes f.node.id).attempt := by simp [Core.countFailure, Core.setNode]
  cases h with
  | throws | calls | approved | timesOut | ended => exact hx
  | concludes | asks | answers | settles | verifies | retries | retryRefused => simpa using hx
  | fails _ _ hhead | failRefused _ hhead =>
      rw [hhead.attempt, hcount]
      exact hx
  | resumes => simp
  | ending hfail =>
      rw [hfail.attempt]
      exact hx

theorem Core.Numbered.act (h : Core.Numbered s.core)
    (hjob : ∀ i job n s₀, InHand c s i job n s₀ → 1 ≤ job.attempt) (ha : Act c s l y) :
    Core.Numbered y := by
  have hown : ∀ {id : NodeId}, (∀ k, k ≠ id → y.nodes k = s.core.nodes k) →
      1 ≤ (y.nodes id).attempt → ∀ k, 1 ≤ (y.nodes k).attempt := by
    intro id ho hid k
    by_cases hk : k = id
    · rw [hk]
      exact hid
    · rw [ho k hk]
      exact h.nodes k
  refine ⟨?_, fun id job attempt operation hm => ?_⟩
  · cases ha with
    | idle | settles | late | world => exact h.nodes
    | flight hf hrow => exact hown hrow.own.nodes (hrow.attempt (h.nodes _))
    | @begins i n job s₀ hh =>
        refine hown beginAttempt_own.nodes ?_
        rw [Core.setFlight_nodes]
        by_cases hs : s.core.status n.id = .ready ∨ s.core.status n.id = .retrying
        · rw [beginAttempt_ok hs, Core.put_nodes_self]
          exact hjob _ _ _ _ hh
        · simp only [not_or] at hs
          obtain ⟨_, he⟩ := beginAttempt_refused job hs.1 hs.2
          rw [he, Core.put_nodes_self]
          exact hjob _ _ _ _ hh
    | @completes i n r =>
        refine @hown n.id (fun k hk => if_neg hk) ?_
        have hkeep : ((doneCore c s.core n r).nodes n.id).attempt =
            (s.core.nodes n.id).attempt := by simp [doneCore, Core.put]
        rw [hkeep]
        exact h.nodes n.id
    | givesUp hw hn hend ht hcore hcaught hrow =>
        rcases hcore with rfl | rfl
        · exact hown hrow.own.nodes (by rw [hrow.attempt]; exact h.nodes _)
        · exact hown hrow.own.nodes (by rw [hrow.attempt]; exact h.nodes _)
    | ending hw hn hend hrow =>
        exact hown hrow.own.nodes (by rw [hrow.attempt]; exact h.nodes _)
    | @endRefused i job n =>
        exact hown (Own.put ..).nodes (by rw [Core.put_nodes_self]; exact h.nodes n.id)
  · rcases ha.adds.mem (mem_ledgerOf.mp hm) with hold | hobs
    · exact h.ledger _ _ _ _ (mem_ledgerOf.mpr hold)
    · cases hobs with
      | begins hh => exact hjob _ _ _ _ hh
      | row hf hrow =>
          cases hrow with
          | resumes => omega
          | head hhead => cases hhead
          | tail htail => cases htail
      | head _ hhead => cases hhead
      | tail _ htail => cases htail

theorem Touch.attempt {T : List NodeId} {q : Prop} {id : NodeId} (h : Touch c T q x y) :
    (y.nodes id).attempt = (x.nodes id).attempt := by
  cases h with
  | skip | prepare | cancel =>
      rw [Core.put_nodes]
      split_ifs with hid
      · rw [hid]
      · rfl
  | note => rfl

theorem Core.Numbered.touch {T : List NodeId} {q : Prop} (h : Core.Numbered x)
    (ht : Touch c T q x y) : Core.Numbered y := by
  refine ⟨fun id => ht.attempt ▸ h.nodes id, fun id job attempt operation hm => ?_⟩
  rcases ht.adds.mem (mem_ledgerOf.mp hm) with hold | hobs
  · exact h.ledger _ _ _ _ (mem_ledgerOf.mpr hold)
  · cases hobs with
    | note he => exact he.elim

theorem Core.Numbered.spread {T : List NodeId} {q : Prop} (h : Core.Numbered x)
    (hsp : Spread c T q x y) : Core.Numbered y := by
  induction hsp with
  | refl => exact h
  | tail _ ht ih => exact ih.touch ht

theorem State.Numbered.step (hnd : (c.graph.map (·.id)).Nodup) (hS : State.Sound c s)
    (ht : State.Tidy c s) (h : State.Numbered s) (hs : step c s l = some s') :
    State.Numbered s' := by
  have hcore := step_core hS hnd hs
  refine ⟨?_, fun job hj => ?_⟩
  · refine hcore.keeps hnd hS.core (fun z ha => h.core.act (fun i job n s₀ hh => ?_) ha)
      (fun z z' T q _ _ hz ht => hz.touch ht) fun z _ _ _ hz => ⟨hz.nodes, fun id job k op hm => ?_⟩
    · exact h.jobs job (.inl (ht.inHand hS hh).1)
    · refine hz.ledger id job k op ?_
      simpa using hm
  · refine step_handed (P := fun job => 1 ≤ job.attempt) hs (fun n x hx => ?_) h.jobs hj
    rcases hx with rfl | rfl
    · exact h.core.nodes n.id
    · exact (h.core.spread (promoteReady_spread (T := []) (q := False))).nodes n.id

end Numbered

/-! ## 6. The invariant -/

/-- What guarded lives keep: no budget is overspent, and what is under way has been counted. -/
structure Counted (c : Context) (s : Core) : Prop where
  announced : Justified Announced (ledgerOf s.trace)
  budget : ∀ n ∈ c.graph, failures n.id (ledgerOf s.trace) ≤ max 1 (retryPolicy n).maxAttempts
  unbegun : ∀ n ∈ c.graph, ¬ Known s (keyOf c n) → (s.status n.id).isTerminal = true ∨
    (failures n.id (ledgerOf s.trace) = 0 ∧ (s.nodes n.id).failureCount = 0)
  stages : ∀ key f, s.store.inFlight key = some f → Stage s f

section Counted

variable {c : Context} {s s' : State} {x y : Core} {l : Label}

theorem announced_append {L E : List WorkflowEvent} (h : Justified Announced L)
    (hE : ∀ e ∈ E, e.type ≠ .nodeRunning) : Justified Announced (L ++ E) := by
  refine h.append fun e he past => ?_
  have ht := hE e he
  cases e with
  | nodeRunning => exact absurd rfl ht
  | _ => trivial

/-- **The rule**: each node is left alone, or its key is known and it has kept its budget; and so
    for the executions in flight. -/
theorem Counted.frame (h : Counted c x) (hann : Justified Announced (ledgerOf y.trace))
    (hknown : ∀ key, Known x key → Known y key)
    (hnode : ∀ n ∈ c.graph, Uncounted n.id x y ∨ (Known y (keyOf c n) ∧
      failures n.id (ledgerOf y.trace) ≤ max 1 (retryPolicy n).maxAttempts))
    (hflight : ∀ key f, y.store.inFlight key = some f →
      (x.store.inFlight key = some f ∧ Uncounted f.node.id x y) ∨ Stage y f) : Counted c y := by
  refine ⟨hann, fun n hn => ?_, fun n hn hk => ?_, fun key f hf => ?_⟩
  · rcases hnode n hn with hu | ⟨-, hle⟩
    · rw [hu.failures]
      exact h.budget n hn
    · exact hle
  · rcases hnode n hn with hu | ⟨hk', -⟩
    · rw [hu.failures, hu.count]
      exact (h.unbegun n hn fun hold => hk (hknown _ hold)).imp_left hu.ended
    · exact absurd hk' hk
  · rcases hflight key f hf with ⟨hold, hu⟩ | hst
    · exact (h.stages key f hold).uncounted hu
    · exact hst

/-- Neither the ledger nor a node is written. -/
theorem Counted.quiet (h : Counted c x) (hnodes : ∀ id, y.nodes id = x.nodes id)
    (hl : ledgerOf y.trace = ledgerOf x.trace) (hknown : ∀ key, Known x key → Known y key)
    (hflight : ∀ key f, y.store.inFlight key = some f → x.store.inFlight key = some f) :
    Counted c y := by
  have hu : ∀ id, Uncounted id x y := fun id => uncounted_of_ledger (hnodes id) hl
  refine h.frame ?_ hknown (fun n _ => .inl (hu n.id)) fun key f hf => .inl ⟨hflight key f hf, hu _⟩
  rw [hl]
  exact h.announced

theorem Counted.touch {T : List NodeId} {q : Prop} (h : Counted c x) (ht : Touch c T q x y) :
    Counted c y := by
  have hstore := ht.sameRest.store
  obtain ⟨obs, hobs, hall⟩ := ht.adds
  refine h.frame ?_ (fun key hk => ?_) (fun n _ => .inl ht.uncounted) fun key f hf => ?_
  · rw [hobs, ledgerOf_append]
    refine announced_append h.announced fun e he => ?_
    have hobs := hall _ (mem_ledgerOf.mp he)
    intro hrun
    cases hobs with
    | skipped | ready | cancelled => cases hrun
    | note hnote =>
        cases e with
        | nodeRunning => exact hnote.elim
        | _ => cases hrun
  · unfold Known at hk ⊢
    rw [hstore]
    exact hk
  · rw [hstore] at hf
    exact .inl ⟨hf, ht.uncounted⟩

theorem Counted.spread {T : List NodeId} {q : Prop} (h : Counted c x) (hsp : Spread c T q x y) :
    Counted c y := by
  induction hsp with
  | refl => exact h
  | tail _ ht ih => exact ih.touch ht

/-- A stretch of `executeWithRetry`. -/
theorem Counted.row (hnd : (c.graph.map (·.id)).Nodup) (hS : Core.Sound c x) (h : Counted c x)
    {key : String} {f : Flight} {a : Answer} {pc : FlightPc} (hf : x.store.inFlight key = some f)
    (hrow : Row c x f f.pc a y pc) :
    Counted c (y.setFlight key { f with job := nextJob f, pc := pc }) := by
  obtain ⟨hn, hkey, -⟩ := hS.flight key f hf
  obtain ⟨hstage, hbudget⟩ := hrow.stage (h.stages key f hf) (h.budget f.node hn)
  have hother : ∀ id, id ≠ f.node.id →
      Uncounted id x (y.setFlight key { f with job := nextJob f, pc := pc }) := fun id hid =>
    (hrow.adds.uncounted (fun e he => he.elsewhere hid) (hrow.own.nodes id hid)).setFlight ..
  have hann : Justified Announced (ledgerOf y.trace) := by
    by_cases hretry : f.pc = .retrying
    · rw [hretry] at hrow
      cases hrow with
      | resumes hs =>
          obtain ⟨-, -, -, hlast⟩ := (h.stages key f hf).retrying hretry
          obtain ⟨e, he⟩ := hlast hs
          rw [Core.put_trace, ledgerOf_snoc]
          refine justified_snoc.mpr ⟨h.announced, fun k next error hk => ?_⟩
          rw [he] at hk
          cases hk
          rfl
      | throws hpc => rcases hpc with hpc | ⟨_, hpc⟩ | ⟨_, _, hpc⟩ <;> cases hpc
      | calls hgate => rcases hgate with ⟨hpc, -⟩ | ⟨_, hpc, -⟩ <;> cases hpc
      | concludes _ _ hsrc => rcases hsrc with ⟨hpc, -⟩ | ⟨_, _, _, hpc, -⟩ <;> cases hpc
    · obtain ⟨obs, hobs, hall⟩ := hrow.adds
      rw [hobs, ledgerOf_append]
      refine announced_append h.announced fun e he => ?_
      have hobs := hall _ (mem_ledgerOf.mp he)
      intro hrun
      cases hobs with
      | resumes hpc => exact hretry hpc
      | head hhead => cases hhead <;> cases hrun
      | tail htail => cases htail <;> cases hrun
      | _ => cases hrun
  refine h.frame hann (fun k hk => hk.setFlight hrow.own.store) (fun n hn' => ?_) fun k g hg => ?_
  · by_cases hid : n.id = f.node.id
    · obtain rfl := eq_of_id_eq hnd hn' hn hid
      refine .inr ⟨?_, hbudget⟩
      rw [hkey]
      exact known_setFlight ..
    · exact .inl (hother n.id hid)
  · rw [Core.setFlight_inFlight] at hg
    split_ifs at hg with hk
    · cases hg
      exact .inr ⟨hstage.trying, hstage.retrying⟩
    · rw [hrow.own.store] at hg
      exact .inl ⟨hg, hother _ (hS.flight_ne hg hf hk hnd)⟩

/-- A worker begins the execution of a ready node. -/
theorem Counted.begin (hnd : (c.graph.map (·.id)).Nodup) (hS : Core.Sound c x) (h : Counted c x)
    {n : WorkflowNode} {job : WorkflowJob} (hn : n ∈ c.graph) (hkey : job.idempotencyKey = keyOf c n)
    (hnot : ¬ Known x (keyOf c n)) (hs : x.status n.id = .ready) (hjob : 1 ≤ job.attempt) :
    Counted c ((beginAttempt x n job).1.setFlight job.idempotencyKey
      ⟨n, job, (beginAttempt x n job).2⟩) := by
  obtain ⟨hzero, hcount⟩ : failures n.id (ledgerOf x.trace) = 0 ∧ (x.nodes n.id).failureCount = 0 := by
    rcases h.unbegun n hn hnot with ht | hz
    · rw [hs] at ht
      cases ht
    · exact hz
  have hF : failures n.id (ledgerOf x.trace ++
      [.nodeRunning n.id job.id job.attempt job.operationId]) = 0 := by
    rw [← hzero]
    exact failures_snoc_none nofun
  rw [beginAttempt_ok (.inl hs), hkey]
  have hother : ∀ id, id ≠ n.id → Uncounted id x ((x.put n.id
      { x.nodes n.id with status := .running, attempt := job.attempt }
      [.event (.nodeRunning n.id job.id job.attempt job.operationId)]).setFlight (keyOf c n)
        ⟨n, job, .ran⟩) := by
    intro id hid
    have hadd : Adds (fun o => o = .event (.nodeRunning n.id job.id job.attempt job.operationId)) x
        (x.put n.id { x.nodes n.id with status := .running, attempt := job.attempt }
          [.event (.nodeRunning n.id job.id job.attempt job.operationId)]) := .one rfl rfl
    refine (hadd.uncounted (fun e he => ?_) (by rw [Core.put_nodes, if_neg hid])).setFlight ..
    obtain rfl : e = _ := Obs.event.inj he
    exact ⟨fun hw => hid (Option.some.inj hw).symm, nofun⟩
  refine h.frame ?_ (fun k hk => hk.setFlight rfl) (fun m hm => ?_) fun k g hg => ?_
  · rw [Core.setFlight_trace, Core.put_trace, ledgerOf_snoc]
    -- a ready node has failed no attempt, so it is not retrying
    exact justified_snoc.mpr ⟨h.announced, fun k next error hk => absurd hzero (failures_ne_zero hk)⟩
  · by_cases hid : m.id = n.id
    · obtain rfl := eq_of_id_eq hnd hm hn hid
      refine .inr ⟨known_setFlight .., ?_⟩
      rw [Core.setFlight_trace, Core.put_trace, ledgerOf_snoc, hF]
      exact Nat.zero_le _
    · exact .inl (hother m.id hid)
  · rw [Core.setFlight_inFlight] at hg
    split_ifs at hg with hk
    · cases hg
      refine .inr ⟨fun _ => ?_, nofun⟩
      rw [Core.setFlight_nodes, Core.put_nodes_self, Core.setFlight_trace, Core.put_trace,
        ledgerOf_snoc, hF]
      exact ⟨hcount, hjob, .inl rfl⟩
    · obtain ⟨hgn, hgk, -⟩ := hS.flight k g hg
      refine .inl ⟨hg, hother _ fun hid => hk ?_⟩
      rw [← hgk, eq_of_id_eq hnd hgn hn hid]

/-- A worker completes a node. -/
theorem Counted.complete (hnd : (c.graph.map (·.id)).Nodup) (hS : Core.Sound c x) (h : Counted c x)
    {n : WorkflowNode} {r : NodeResult} (hn : n ∈ c.graph)
    (hr : x.store.completed (keyOf c n) = some r) : Counted c (doneCore c x n r) := by
  have hl : ledgerOf (doneCore c x n r).trace = ledgerOf x.trace ++
      [.nodeCompleted n.id r (operationId c n) (keyOf c n)] := ledgerOf_snoc _ _
  have hother : ∀ id, id ≠ n.id → Uncounted id x (doneCore c x n r) := by
    intro id hid
    have hadd : Adds (fun o => o = .event (.nodeCompleted n.id r (operationId c n) (keyOf c n))) x
        (doneCore c x n r) := .one rfl rfl
    refine hadd.uncounted (fun e he => ?_) (if_neg hid)
    obtain rfl : e = _ := Obs.event.inj he
    exact ⟨nofun, fun hend => hid (Option.some.inj hend).symm⟩
  refine h.frame ?_ (fun _ hk => hk) (fun m hm => ?_) fun k g hg => ?_
  · rw [hl]
    refine announced_append h.announced fun e he => ?_
    rw [List.mem_singleton.mp he]
    exact nofun
  · by_cases hid : m.id = n.id
    · obtain rfl := eq_of_id_eq hnd hm hn hid
      have hF : failures m.id (ledgerOf x.trace ++
          [.nodeCompleted m.id r (operationId c m) (keyOf c m)]) = failures m.id (ledgerOf x.trace) :=
        failures_snoc_none nofun
      refine .inr ⟨.inl ⟨r, hr⟩, ?_⟩
      rw [hl, hF]
      exact h.budget m hm
    · exact .inl (hother m.id hid)
  · exact .inl ⟨hg, hother _ (hS.stored_ne hg hn hr hnd).symm⟩

/-- **Every act of a tidy process keeps it.** -/
theorem Counted.act (hnd : (c.graph.map (·.id)).Nodup) (hk : DistinctKeys c)
    (hS : State.Sound c s) (ht : State.Tidy c s) (hnum : State.Numbered s) (h : Counted c s.core)
    (ha : Act c s l y) : Counted c y := by
  have hgrows := ha.grows hS.core
  cases ha with
  | idle => exact h
  | world => exact h.quiet (fun _ => rfl) rfl (fun _ hk => hk) fun _ _ hf => hf
  | late => exact h.quiet (fun _ => rfl) (by simp) (fun _ hk => hk) fun _ _ hf => hf
  | ending hw | endRefused hw => exact absurd (List.mem_of_getElem? hw) (ht.calm _ _ _ _)
  | flight hf hrow => exact h.row hnd hS.core hf hrow
  | settles hf hpc =>
      refine h.quiet (fun _ => rfl) rfl hgrows.known fun k g hg => ?_
      simp only [IdempotencyStore.settle] at hg
      split_ifs at hg
      exact hg
  | completes hn hr => exact h.complete hnd hS.core hn hr
  | @begins i n job s₀ hh hn hid hkey hc hf =>
      have hnot : ¬ Known s.core (keyOf c n) := by
        rw [← hkey]
        rintro (⟨r, hr⟩ | ⟨f, hf'⟩)
        · rw [hc] at hr
          cases hr
        · rw [hf] at hf'
          cases hf'
      exact h.begin hnd hS.core hn hkey hnot (ht.begins hS hh hn hid hnot)
        (hnum.jobs job (.inl (ht.inHand hS hh).1))
  | givesUp hw hn hend hopen hcore hcaught hrow =>
      obtain ⟨rfl, -, hwait⟩ := hcaught.waiting hk hS ht.core (List.mem_of_getElem? hw) hopen
      obtain ⟨-, rfl⟩ := hrow.of_waiting hwait
      refine h.quiet (fun id => ?_) (by simp) (fun _ hk => hk) fun _ _ hf => hf
      rw [Core.put_nodes]
      split_ifs with hid
      · rw [hid]
      · rfl

theorem Counted.step (hnd : (c.graph.map (·.id)).Nodup) (hk : DistinctKeys c)
    (hS : State.Sound c s) (ht : State.Tidy c s) (hnum : State.Numbered s) (h : Counted c s.core)
    (hs : step c s l = some s') : Counted c s'.core :=
  (step_core hS hnd hs).keeps hnd hS.core (fun _ ha => h.act hnd hk hS ht hnum ha)
    (fun _ _ _ _ _ _ hz ht => hz.touch ht)
    fun z _ _ _ hz => hz.quiet (fun _ => rfl) (by simp) (fun _ hk => hk) fun _ _ hf => hf

end Counted

/-! ## 7. The beginning of a process -/

section Beginning

variable {c : Context} {s s₀ : State} {w : World} {cut : List WorkflowEvent}

theorem restored_fresh {nd : InternalNode} {snap : NodeSnapshot} (hcount : nd.failureCount = 0)
    (hsnap : 1 ≤ snap.attempt) :
    (restored nd snap).failureCount = 0 ∧ 1 ≤ (restored nd snap).attempt := by
  unfold restored
  split
  · exact ⟨hcount, hsnap⟩
  · split_ifs <;> exact ⟨hcount, hsnap⟩

/-- No failed attempt is restored. -/
theorem restore_fresh : ∀ {snapshots : Snapshots} {x : Core}, (∀ snap ∈ snapshots, 1 ≤ snap.attempt) →
    (∀ id, (x.nodes id).failureCount = 0 ∧ 1 ≤ (x.nodes id).attempt) → ∀ id,
      ((restore c snapshots x).nodes id).failureCount = 0 ∧
        1 ≤ ((restore c snapshots x).nodes id).attempt
  | [], x, _, hx => hx
  | snap :: rest, x, hall, hx => by
      refine restore_fresh (x := restoreNode c x snap)
        (fun snap' h => hall snap' (List.mem_cons_of_mem _ h)) fun id => ?_
      cases hn : nodeById c.graph snap.nodeId with
      | none =>
          rw [restoreNode_skip hn]
          exact hx id
      | some n =>
          rw [restoreNode_nodes hn]
          split_ifs
          · exact restored_fresh (hx n.id).1 (hall snap List.mem_cons_self)
          · exact hx id

theorem initial_counted (w : World) :
    State.Numbered (.initial c w) ∧ Counted c (State.initial c w).core := by
  refine ⟨⟨⟨fun _ => Nat.le_refl 1, fun id job k op hm => ?_⟩, fun job hj => ?_⟩,
    ⟨justified_snoc.mpr ⟨.nil, trivial⟩, fun n _ => Nat.zero_le _, fun n _ _ => .inr ⟨rfl, rfl⟩,
      fun key f hf => ?_⟩⟩
  · cases List.mem_singleton.mp hm
  · rcases hj with hj | hj <;> cases hj
  · cases hf

/-- **A process that is rebuilt** from a ledger in which every failed node has ended. -/
theorem State.resumed.counted (hnd : (c.graph.map (·.id)).Nodup)
    (hs₀ : State.resumed c w cut [] s₀) (hacc : Accounted c cut) (hann : Justified Announced cut)
    (hnum : ∀ id job k op, .nodeRunning id job k op ∈ cut → 1 ≤ k)
    (hbudget : ∀ n ∈ c.graph, failures n.id cut ≤ max 1 (retryPolicy n).maxAttempts) :
    State.Numbered s₀ ∧ Counted c s₀.core := by
  obtain ⟨core, hh, rfl⟩ := hs₀
  obtain ⟨sc, hsc, hsp, hnodes⟩ := hydrate_restored hnd hh
  have hsnaps : ∀ snap ∈ sc.snapshots, 1 ≤ snap.attempt := by
    refine scan_all (fun _ => Nat.le_refl 1) (fun e he snap snap' _ hsnap hwrite => ?_) hsc
    cases e with
    | nodeRunning id job k op =>
        cases hwrite
        exact hnum _ _ _ _ he
    | _ => cases hwrite <;> exact hsnap
  have hfresh := restore_fresh (c := c) (x := Core.fresh w (cut.map .event)) hsnaps
    fun _ => ⟨rfl, Nat.le_refl 1⟩
  have hrebuilt := (rebuilt_fresh w (cut.map .event)).restore (c := c) sc.snapshots
  have hl : ledgerOf (restore c sc.snapshots (Core.fresh w (cut.map .event))).trace = cut := by
    rw [(restore_frame _ _).trace]
    exact ledgerOf_map_event cut
  refine ⟨⟨Core.Numbered.spread ⟨fun id => (hfresh id).2, ?_⟩ hsp, fun job hj => ?_⟩,
    Counted.spread ⟨?_, ?_, fun n hn _ => ?_, fun key f hf => ?_⟩ hsp⟩
  · rw [hl]
    exact hnum
  · rcases hj with hj | hj <;> cases hj
  · rw [hl]
    exact hann
  · rw [hl]
    exact hbudget
  · rw [hl]
    by_cases hF : failures n.id cut = 0
    · exact .inr ⟨hF, (hfresh n.id).1⟩
    · obtain ⟨hid, e, hlast, hend⟩ := hacc n hn hF
      have ht := snapOf_lastOf hlast hend
      refine .inl ?_
      rw [Core.status_eq, hnodes n hn hid, restored_terminal ht]
      exact ht
  · rw [hrebuilt.still key] at hf
    cases hf

theorem run_counted {ok : State → Label → Prop} {ls : List Label}
    (hnd : (c.graph.map (·.id)).Nodup) (hk : DistinctKeys c) (ha : Alone c s₀)
    (h₀ : State.Numbered s₀ ∧ Counted c s₀.core) (h : Run (step c) ok s₀ ls s) :
    State.Numbered s ∧ Counted c s.core := by
  refine (Run.invariant (I := fun s => (State.Sound c s ∧ State.Tidy c s) ∧
    State.Numbered s ∧ Counted c s.core) ⟨⟨ha.1.sound hnd, ha.tidy hnd hk⟩, h₀⟩ ?_ h).2
  intro s l s' ⟨⟨hS, ht⟩, hnum, hc⟩ _ hs
  exact ⟨⟨hS.step hnd hs, ht.step hnd hk hS hs⟩, hnum.step hnd hS ht hs, hc.step hnd hk hS ht hnum hs⟩

/-- **Every process of the run counts its attempts.** -/
theorem Cycles.counted (hnd : (c.graph.map (·.id)).Nodup) (hk : DistinctKeys c)
    (h : Cycles c (Accounted c) s) : State.Numbered s ∧ Counted c s.core := by
  induction h with
  | first h => exact run_counted hnd hk (alone_initial _) (initial_counted _) h
  | again _ hcut hgood hs₀ h ih =>
      obtain ⟨hnum, hc⟩ := ih
      have hbegins := hs₀.begins fun _ hj => absurd hj List.not_mem_nil
      have halone : Alone c _ := ⟨hbegins, by obtain ⟨core, -, rfl⟩ := hs₀; rfl⟩
      refine run_counted hnd hk halone (hs₀.counted hnd hgood ?_ ?_ fun n hn => ?_) h
      · obtain ⟨rest, hrest⟩ := hcut
        have hann := hc.announced
        rw [← hrest] at hann
        exact hann.cut
      · exact fun id job k op hm => hnum.core.ledger id job k op (hcut.subset hm)
      · exact Nat.le_trans (failures_initial hcut) (hc.budget n hn)

end Beginning

/-! ## 8. Every sequence of crashes -/

/-- **The retry budget and the failure guard over all the processes of a run**: for every handler,
    and wherever the processes crash, if each crash has left the terminal event of every node of
    which it has left a failed attempt. -/
theorem budget_kept {c : Context} {s : State} (hv : validateGraph c.graph = .ok ())
    (hk : NoCollision c) (h : Cycles c (Accounted c) s) : BudgetKept c s := by
  have hnd := validateGraph_nodup hv
  have hc := (h.counted hnd (hk.distinctKeys hnd)).2
  refine ⟨hc.announced, hc.budget, fun key f e hf hpc => ?_⟩
  obtain ⟨hcount, -⟩ := (hc.stages key f hf).trying (by rw [hpc]; trivial)
  rw [guardCount_eq, hcount]

/-- Both attempts of the mail are refused. -/
def sendRefused : List Label :=
  sendBefore ++ sendAfter ++
    [.run (.rejected "refused"), .tick].map (.flight (keyOf sendContext sendNode))

/-- The ledger after some labels. -/
def sendLedger (ls : List Label) : List WorkflowEvent := ledgerAfter sendContext idleWorld ls

theorem noCollision_send : NoCollision sendContext := fun _ _ _ _ h => h

/-- The process dies behind the second attempt; the one that resumes comes to its end. -/
theorem budget_kept_send : ∃ s, Cycles sendContext (Accounted sendContext) s ∧
    failures "send" (ledgerOf s.core.trace) = 2 ∧ BudgetKept sendContext s := by
  obtain ⟨s₁, hs₁, hcut⟩ : ∃ s, exec (step sendContext) (.initial sendContext idleWorld) sendRefused =
      some s ∧ ledgerOf s.core.trace = sendLedger sendRefused := exec_ledgerAfter (by decide)
  obtain ⟨s, hs, htwo⟩ := Option.map_eq_some_iff.mp (show (exec (step sendContext)
    (.launch (rebuilt sendContext idleWorld (sendLedger sendRefused)) []) [.drive, .drive]).map
      (fun s => failures "send" (ledgerOf s.core.trace)) = some 2 by decide)
  have hcycles : Cycles sendContext (Accounted sendContext) s := by
    refine .again (.first (run_of_exec (fun _ _ => trivial) hs₁)) (hcut ▸ List.prefix_refl _)
      (fun n hn _ => ?_) (rebuilt_resumed [] rfl) (run_of_exec (fun _ _ => trivial) hs)
    cases List.mem_singleton.mp hn
    exact ⟨by decide, .nodeFailed "send" "refused" false, by rfl, rfl⟩
  exact ⟨s, hcycles, htwo, budget_kept (by rfl) noCollision_send hcycles⟩

/-- The process dies in the backoff behind the first attempt; the one that resumes tries the mail
    twice more. -/
theorem three_attempts_of_two : ∃ c s, validateGraph c.graph = .ok () ∧ NoCollision c ∧
    Cycles c (fun _ => True) s ∧ ¬ BudgetKept c s := by
  obtain ⟨s₁, hs₁, hcut⟩ : ∃ s, exec (step sendContext) (.initial sendContext idleWorld) sendBefore =
      some s ∧ ledgerOf s.core.trace = sendLedger sendBefore := exec_ledgerAfter (by decide)
  obtain ⟨s, hs, hthree⟩ := Option.map_eq_some_iff.mp (show (exec (step sendContext)
    (.launch (rebuilt sendContext idleWorld (sendLedger sendBefore)) []) sendRefused).map
      (fun s => failures "send" (ledgerOf s.core.trace)) = some 3 by decide)
  refine ⟨sendContext, s, rfl, noCollision_send,
    .again (.first (run_of_exec (fun _ _ => trivial) hs₁)) (hcut ▸ List.prefix_refl _) trivial
      (rebuilt_resumed [] rfl) (run_of_exec (fun _ _ => trivial) hs), fun hkept => ?_⟩
  have hle := hkept.budget sendNode List.mem_cons_self
  rw [show sendNode.id = "send" from rfl, hthree] at hle
  exact absurd hle (by decide)

end AgentKernel.Orchestrator
