/-
  File:      AgentKernel/Orchestrator/Finish.lean
  Subject:   The terminal event of a run, and the status the outcome reports.

  The run status is computed twice: `finalize` chooses the terminal event, `deriveStatus` the
  status of the outcome. On a run at rest without cancelled nodes the two agree. A cancelled run
  gets two terminal events, one from `cancelAll` and one from `finalize`. So a resolved run has
  exactly one terminal event, and one that agrees with the outcome, if and only if no head of the
  drive loop has found the run cancelled (**`one_end_iff`**).
-/
import AgentKernel.Orchestrator.Rest
import AgentKernel.Orchestrator.LedgerOrder
import AgentKernel.Orchestrator.Trace

namespace AgentKernel.Orchestrator

open Lib

/-! ## 1. The property and its condition -/

/-- The events that end a run. -/
def WorkflowEvent.endsRun : WorkflowEvent → Bool
  | .runCompleted _ | .runCancelled .. | .runFailed .. => true
  | _ => false

/-- A terminal event agrees with a status of the outcome. -/
def WorkflowEvent.announces : WorkflowEvent → WorkflowRunStatus → Prop
  | .runCompleted _, status => status = .completed
  | .runCancelled .., status => status = .cancelled
  | .runFailed .., status => status = .failed ∨ status = .quarantined
  | _, _ => False

/-- The terminal events of a trace. -/
def runEnds (trace : List Obs) : List WorkflowEvent := (ledgerOf trace).filter (·.endsRun)

/-- The ledger has one terminal event, and it agrees with the outcome. -/
def OneEnd (c : Context) (s : State) : Prop :=
  ∃ e, runEnds s.core.trace = [e] ∧ e.announces (outcome c s).status

/-- The drive loop is about to run its body. -/
def AtHead (s : State) : Prop :=
  s.drive = .starting ∨ (s.drive = .dispatching ∧ ∀ w ∈ s.workers, w = .finished)

/-- The body of the drive loop does not find the run cancelled. -/
def HeadUncancelled (s : State) : Label → Prop
  | .drive => AtHead s → s.cancelled = none
  | _ => True

/-! ## 2. No step but the head of the drive loop emits a terminal event -/

/-- Only observations are added, and among them no terminal event. -/
def Extends (x y : Core) : Prop :=
  ∃ obs, y.trace = x.trace ++ obs ∧ ∀ e, .event e ∈ obs → e.endsRun = false

section Extension

variable {c : Context} {s : State} {x y z : Core} {l : Label} {n : WorkflowNode}

theorem Extends.runEnds (h : Extends x y) : runEnds y.trace = runEnds x.trace := by
  obtain ⟨obs, hobs, hq⟩ := h
  have hnone : (ledgerOf obs).filter (·.endsRun) = [] := by
    refine List.filter_eq_nil_iff.mpr fun e he => ?_
    rw [hq e (mem_ledgerOf.mp he)]
    decide
  rw [Orchestrator.runEnds, hobs, ledgerOf_append, List.filter_append, hnone, List.append_nil,
    Orchestrator.runEnds]

theorem Adds.extends {P : Obs → Prop} (h : Adds P x y)
    (hP : ∀ e, P (.event e) → e.endsRun = false) : Extends x y := by
  obtain ⟨obs, hobs, hall⟩ := h
  exact ⟨obs, hobs, fun e he => hP e (hall _ he)⟩

/-- No act emits a terminal event. -/
theorem ActObs.endsRun {e : WorkflowEvent} (h : ActObs c s l (.event e)) : e.endsRun = false := by
  cases h with
  | row hf hrow =>
      cases hrow with
      | head hhead => cases hhead <;> rfl
      | tail htail => cases htail <;> rfl
      | _ => rfl
  | head hn hhead => cases hhead <;> rfl
  | tail hn htail => cases htail <;> rfl
  | _ => rfl

/-- Nor does a touch that is not the drive loop's. -/
theorem TouchObs.endsRun {q : Prop} {e : WorkflowEvent} (h : TouchObs q (.event e)) (hq : ¬ q) :
    e.endsRun = false := by
  cases h with
  | skipped | ready => rfl
  | cancelled hq' | note he hq' => exact absurd hq' hq

theorem Spread.extends {T : List NodeId} {q : Prop} (h : Spread c T q x y) (hq : ¬ q) :
    Extends x y :=
  h.adds.extends fun _ ho => ho.endsRun hq

/-- **Away from the drive loop the ledger gets no terminal event.** -/
theorem CoreStep.extends (h : CoreStep c s l y) (hl : l ≠ .drive) : Extends s.core y :=
  h.adds.extends fun _ ho => ho.elim ActObs.endsRun fun ht => ht.endsRun hl

end Extension

/-! ## 3. Behind the last head nothing moves -/

/-- The drive loop has run its last body. -/
def Over (s : State) : Prop := s.drive = .finalizing ∨ s.drive = .resolved

section Over

variable {c : Context} {s s' : State} {l : Label}

/-- **A finished run is frozen**: no node, no result and no terminal event changes. -/
theorem step_over (hS : State.Sound c s) (ho : Over s) (hs : step c s l = some s') :
    s'.core.nodes = s.core.nodes ∧ runEnds s'.core.trace = runEnds s.core.trace ∧ Over s' := by
  have hall : ∀ w ∈ s.workers, w = .finished := by
    rcases ho with hd | hd
    · exact hS.orderly.rest hd (by simp) (by simp)
    · exact hS.orderly.rest hd (by simp) (by simp)
  cases l with
  | drive =>
      have hm := driveStep_move hs
      have hne : ∀ d, s.drive = d → d = .finalizing ∨ d = .resolved := by
        rintro d rfl
        exact ho
      cases hm with
      | starts hd | loops hd | aborts hd | emits hd | enqueues hd | dispatches hd =>
          rcases hne _ hd with h | h <;> cases h
      | resolves => exact ⟨rfl, rfl, .inr rfl⟩
  | worker i a =>
      obtain ⟨old, new, hw, hne, -⟩ := (workerStep_move hs).frame
      exact absurd (hall old (List.mem_of_getElem? hw)) hne
  | flight key a =>
      obtain ⟨y, hy, rfl⟩ := Option.map_eq_some_iff.mp hs
      unfold flightStep at hy
      split at hy
      · cases hy
      · rename_i f hf
        obtain ⟨e, he⟩ := hS.quiescent hall key f hf
        rw [he] at hy
        cases hy
  | late call o =>
      obtain ⟨y, hy, rfl⟩ := Option.map_eq_some_iff.mp hs
      unfold lateStep at hy
      split at hy
      · cases hy
      · cases hy
        exact ⟨rfl, by simp [runEnds], ho⟩
  | redeliver j at_ =>
      obtain ⟨job, -, rfl⟩ := Option.map_eq_some_iff.mp hs
      exact ⟨rfl, rfl, ho⟩
  | cancel reason =>
      cases hs
      exact ⟨rfl, rfl, ho⟩
  | world w =>
      cases hs
      exact ⟨rfl, rfl, ho⟩

end Over

/-! ## 4. The head of the drive loop -/

section Head

variable {c : Context} {s s' : State} {l : Label}

theorem finalize_ends (s : State) : ∃ e, finalize c s = s.emit e ∧ e.endsRun = true ∧
    e.announces (finalStatus c s.core) := by
  unfold finalize
  split
  · rename_i hst
    exact ⟨_, rfl, rfl, hst⟩
  · rename_i hst
    exact ⟨_, rfl, rfl, hst⟩
  · rename_i hne hne'
    refine ⟨_, rfl, rfl, ?_⟩
    show finalStatus c s.core = .failed ∨ finalStatus c s.core = .quarantined
    cases hst : finalStatus c s.core with
    | completed => exact absurd hst hne
    | cancelled => exact absurd hst hne'
    | failed => exact .inl rfl
    | quarantined => exact .inr rfl

/-- A body that finds the run cancelled emits two terminal events. -/
theorem loopHead_cancelled (h : s.cancelled ≠ none) :
    2 ≤ (runEnds (loopHead c s).core.trace).length := by
  obtain ⟨reason, hr⟩ := Option.ne_none_iff_exists'.mp h
  obtain ⟨e, he, hends, -⟩ := finalize_ends (c := c) { s with core := cancelAll c s.core reason }
  have hcore : (loopHead c s).core = (cancelAll c s.core reason).emit e := by
    rw [loopHead_cancels hr, he]
    rfl
  have htrace : ((cancelAll c s.core reason).emit e).trace =
      (c.graph.foldl (cancelNode reason) s.core).trace ++
        [.event (.runCancelled c.runId reason), .event e] := by
    simp [cancelAll, Core.emit, Core.observe]
  have htwo : runEnds [.event (.runCancelled c.runId reason), .event e] =
      [.runCancelled c.runId reason, e] := by
    have hcut : (WorkflowEvent.runCancelled c.runId reason).endsRun = true := rfl
    simp [runEnds, hcut, hends]
  rw [hcore, htrace, runEnds, ledgerOf_append, List.filter_append, List.length_append]
  refine Nat.le_trans ?_ (Nat.le_add_left _ _)
  show 2 ≤ (runEnds _).length
  rw [htwo]
  exact Nat.le_refl 2

/-- The statuses the outcome lists are those of the nodes. -/
theorem outcome_any (p : NodeStatus → Bool) : ((outcome c s).nodes.any fun n => p n.status) =
    c.graph.any fun n => p (s.core.status n.id) := by
  simp only [outcome, List.any_map]
  rfl

/-- `deriveStatus`, on the nodes of the graph. -/
theorem outcome_status : (outcome c s).status =
    if c.graph.any fun n => s.core.status n.id = .quarantined then .quarantined
    else if c.graph.any fun n => s.core.status n.id = .failed ∨ s.core.status n.id = .rolledBack then
      .failed
    else if c.graph.any fun n => s.core.status n.id = .cancelled then .cancelled
    else .completed := by
  rw [← outcome_any (s := s) (p := fun st => st = .quarantined),
    ← outcome_any (s := s) (p := fun st => st = .failed ∨ st = .rolledBack),
    ← outcome_any (s := s) (p := fun st => st = .cancelled)]
  rfl

/-- At rest, where nothing ended badly, everything is completed or skipped. -/
theorem AtRest.finished (hv : validateGraph c.graph = .ok ()) (hr : AtRest c s.core)
    (hno : ∀ n ∈ c.graph, ¬ BadEnd (s.core.status n.id)) :
    ∀ n ∈ c.graph, s.core.status n.id = .completed ∨ s.core.status n.id = .skipped := by
  intro n hn
  rcases hr n hn with hterm | ⟨-, d, hd, hb⟩
  · have hbad := hno n hn
    revert hterm hbad
    cases s.core.status n.id <;> simp [BadEnd, NodeStatus.isTerminal]
  · obtain ⟨b, -, m, hm, -, hdm⟩ := Relation.TransGen.tail'_iff.mp hd
    obtain ⟨m', hm', rfl⟩ := List.mem_map.mp (validateGraph_deps hv m hm d hdm)
    exact absurd hb (hno m' hm')

/-- The two run statuses agree at rest. -/
theorem finalStatus_eq (hv : validateGraph c.graph = .ok ()) (hr : AtRest c s.core)
    (hc : ∀ n ∈ c.graph, s.core.status n.id ≠ .cancelled) :
    finalStatus c s.core = (outcome c s).status := by
  have hcan : (c.graph.any fun n => s.core.status n.id = .cancelled) = false := by
    simpa [List.any_eq_false] using hc
  rw [outcome_status]
  unfold finalStatus
  simp only [List.any_map, List.all_map, Function.comp_def, hcan]
  by_cases hq : (c.graph.any fun n => s.core.status n.id = .quarantined) = true
  · rw [if_pos hq, if_pos hq]
  by_cases hf : (c.graph.any fun n => s.core.status n.id = .failed ∨ s.core.status n.id = .rolledBack) = true
  · rw [if_neg hq, if_neg hq, if_pos hf, if_pos hf]
  -- nothing ended badly, so nothing is left planned
  have hbad : ∀ n ∈ c.graph, ¬ BadEnd (s.core.status n.id) := by
    intro n hn hb
    simp only [List.any_eq_true, decide_eq_true_eq, not_exists, not_and, not_or] at hq hf
    rcases hb with h | h | h | h
    · exact (hf n hn).1 h
    · exact (hf n hn).2 h
    · exact hq n hn h
    · exact hc n hn h
  have hall : (c.graph.all fun n => s.core.status n.id = .completed ∨ s.core.status n.id = .skipped ∨
      s.core.status n.id = .cancelled) = true := by
    refine List.all_eq_true.mpr fun n hn => decide_eq_true ?_
    exact (hr.finished hv hbad n hn).imp_right .inl
  rw [if_neg hq, if_neg hq, if_neg hf, if_neg hf, if_pos hall]

end Head

/-! ## 5. Runs that no head has found cancelled -/

/-- What a run keeps that nobody cancels. -/
structure Uncut (c : Context) (s : State) : Prop where
  alive : ∀ id, s.core.status id ≠ .cancelled
  before : ¬ Over s → runEnds s.core.trace = []
  after : Over s → OneEnd c s ∧ AtRest c s.core

section Uncut

variable {c : Context} {s s' : State} {l : Label}

theorem Spread.alive {T : List NodeId} {x y : Core} {id : NodeId} (h : Spread c T False x y)
    (ha : x.status id ≠ .cancelled) : y.status id ≠ .cancelled := by
  induction h with
  | refl => exact ha
  | tail _ ht ih =>
      rcases ht.status id with he | ⟨-, he | he⟩ | ⟨-, -, hq⟩
      · rw [he]
        exact ih
      · rw [he]
        decide
      · rw [he]
        decide
      · exact hq.elim

/-- Only the drive loop cancels nodes. -/
theorem CoreStep.alive {y : Core} {id : NodeId} (hnd : (c.graph.map (·.id)).Nodup)
    (hS : Core.Sound c s.core) (h : CoreStep c s l y) (hl : l ≠ .drive)
    (ha : s.core.status id ≠ .cancelled) : y.status id ≠ .cancelled := by
  refine h.keeps (I := fun z => z.status id ≠ .cancelled) hnd hS (fun z hact => ?_)
    (fun z z' T q _ hq hz ht => ?_) fun z _ _ _ hz => hz
  · rcases hact.moved hS id with he | ⟨-, hw⟩
    · rw [he]
      exact ha
    · intro hc
      rw [hc] at hw
      exact hw
  · rcases ht.status id with he | ⟨-, he | he⟩ | ⟨-, -, hq'⟩
    · rw [he]
      exact hz
    · rw [he]
      decide
    · rw [he]
      decide
    · exact absurd (hq hq').2.1 hl

/-- A body that does not find the run cancelled stops, or hands jobs to the queue. -/
theorem loopHead_uncancelled (h : s.cancelled = none) :
    (∃ e, (loopHead c s).core = s.core.emit e ∧ Over (loopHead c s) ∧
      (∀ n ∈ c.graph, s.core.status n.id ≠ .ready) ∧ e.endsRun = true ∧
      e.announces (finalStatus c s.core)) ∨
    ((loopHead c s).core = s.core ∧ ¬ Over (loopHead c s)) := by
  unfold loopHead
  split
  · rename_i reason hc
    rw [h] at hc
    cases hc
  · split
    · rename_i hmap
      obtain ⟨e, he, hends, hst⟩ := finalize_ends (c := c) s
      refine .inl ⟨e, by rw [he]; rfl, .inl rfl, fun n hn hs => ?_, hends, hst⟩
      have hmem : n ∈ c.graph.filter fun n => s.status n.id = .ready := by
        simp [hn, show s.status n.id = .ready from hs]
      rw [List.map_eq_nil_iff.mp hmap] at hmem
      cases hmem
    · refine .inr ⟨rfl, ?_⟩
      rintro (hd | hd) <;> cases hd

/-- A body of an uncancelled run ends it with one event that agrees, or not at all. -/
theorem Uncut.head (hv : validateGraph c.graph = .ok ()) (hclosed : Closed c s.core)
    (hu : ∀ n ∈ c.graph, Untouched (s.core.status n.id)) (hdue : ∀ n ∈ c.graph, ¬ Due s.core n)
    (hc : s.cancelled = none) (ha : ∀ id, s.core.status id ≠ .cancelled)
    (hb : runEnds s.core.trace = []) : Uncut c (loopHead c s) := by
  rcases loopHead_uncancelled (c := c) hc with ⟨e, hcore, ho, hready, hends, hann⟩ | ⟨hcore, hno⟩
  · have hnodes : (loopHead c s).core.nodes = s.core.nodes := by
      rw [hcore]
      rfl
    have hrest := atRest_of_untouched hv hclosed hu hdue hready
    refine ⟨fun id => ?_, fun hno => absurd ho hno, fun _ => ⟨⟨e, ?_, ?_⟩, ?_⟩⟩
    · rw [Core.status_eq, hnodes]
      exact ha id
    · rw [hcore]
      show runEnds (s.core.trace ++ [.event e]) = [e]
      rw [runEnds, ledgerOf_append, List.filter_append]
      show runEnds s.core.trace ++ _ = [e]
      rw [hb]
      simp [hends]
    · have hsame : (outcome c (loopHead c s)).status = (outcome c s).status := by
        simp only [outcome, hnodes]
      rw [hsame, ← finalStatus_eq hv hrest fun n _ => ha n.id]
      exact hann
    · exact hrest.congr fun id => by rw [Core.status_eq, hnodes, Core.status_eq]
  · refine ⟨fun id => ?_, fun _ => ?_, fun ho => absurd ho hno⟩
    · rw [hcore]
      exact ha id
    · rw [hcore]
      exact hb

theorem driveStep_head (hs : driveStep c s = some s') :
    (s.drive = .starting ∧ s' = loopHead c { s with core := promoteReady c s.core }) ∨
    (s.drive = .dispatching ∧ (∀ w ∈ s.workers, w = .finished) ∧ s' = loopHead c s) ∨
    ¬ AtHead s := by
  unfold driveStep at hs
  split at hs
  · rename_i hd
    cases hs
    exact .inl ⟨hd, rfl⟩
  · rename_i hd
    exact .inr (.inr (by rintro (h | ⟨h, -⟩) <;> (rw [hd] at h; cases h)))
  · rename_i hd
    exact .inr (.inr (by rintro (h | ⟨h, -⟩) <;> (rw [hd] at h; cases h)))
  · rename_i hd
    split at hs
    · rename_i e he
      refine .inr (.inr ?_)
      rintro (h | ⟨-, hall⟩)
      · rw [hd] at h
        cases h
      · cases hall _ (firstDeath_mem he)
    · split_ifs at hs with hall
      cases hs
      refine .inr (.inl ⟨hd, fun w hw => ?_, rfl⟩)
      have := List.all_eq_true.mp hall w hw
      cases w <;> simp [isFinished] at this ⊢
  · rename_i hd
    exact .inr (.inr (by rintro (h | ⟨h, -⟩) <;> (rw [hd] at h; cases h)))
  · rename_i hd
    exact .inr (.inr (by rintro (h | ⟨h, -⟩) <;> (rw [hd] at h; cases h)))
  · cases hs

theorem Uncut.step (hv : validateGraph c.graph = .ok ()) (hk : DistinctKeys c)
    (hS : State.Sound c s) (ht : State.Tidy c s) (hu : Unlost c s) (h : Uncut c s)
    (hok : HeadUncancelled s l) (hs : step c s l = some s') : Uncut c s' := by
  have hnd := validateGraph_nodup hv
  by_cases ho : Over s
  · -- frozen
    obtain ⟨hnodes, hends, ho'⟩ := step_over hS ho hs
    refine ⟨fun id => ?_, fun hno => absurd ho' hno, fun _ => ?_⟩
    · rw [Core.status_eq, hnodes]
      exact h.alive id
    · obtain ⟨⟨e, he, hann⟩, hrest⟩ := h.after ho
      have hsame : (outcome c s').status = (outcome c s).status := by simp only [outcome, hnodes]
      exact ⟨⟨e, hends.trans he, by rw [hsame]; exact hann⟩,
        hrest.congr fun id => by rw [Core.status_eq, hnodes, Core.status_eq]⟩
  · have hcore := step_core hS hnd hs
    have hother : l ≠ .drive → s'.drive = s.drive → Uncut c s' := fun hl hd => by
      have hno : ¬ Over s' := by
        unfold Over at ho ⊢
        rw [hd]
        exact ho
      exact ⟨fun id => hcore.alive hnd hS.core hl (h.alive id),
        fun _ => (hcore.extends hl).runEnds.trans (h.before ho), fun ho' => absurd ho' hno⟩
    cases l with
    | worker i a =>
        obtain ⟨-, -, -, -, -, -, -, hd, -⟩ := (workerStep_move hs).frame
        exact hother (by simp) hd
    | flight key a =>
        obtain ⟨y, -, rfl⟩ := Option.map_eq_some_iff.mp hs
        exact hother (by simp) rfl
    | late call o =>
        obtain ⟨y, -, rfl⟩ := Option.map_eq_some_iff.mp hs
        exact hother (by simp) rfl
    | redeliver j at_ =>
        obtain ⟨job, -, rfl⟩ := Option.map_eq_some_iff.mp hs
        exact hother (by simp) rfl
    | cancel reason =>
        cases hs
        exact hother (by simp) rfl
    | world w =>
        cases hs
        exact hother (by simp) rfl
    | drive =>
        rcases driveStep_head hs with ⟨hd, rfl⟩ | ⟨hd, hall, rfl⟩ | hno
        · have hsp : Spread c [] False s.core (promoteReady c s.core) := promoteReady_spread
          have hall := hS.orderly.rest hd (by simp) (by simp)
          refine .head hv (hu.closed.spread hsp)
            (fun n hn => .spread hsp (hu.settled hk hS ht hall hn)) promoteReady_waits
            (hok (.inl hd)) (fun id => hsp.alive (h.alive id)) ?_
          exact (hsp.extends id).runEnds.trans (h.before ho)
        · exact .head hv hu.closed (fun n hn => hu.settled hk hS ht hall hn)
            (hu.waits (by rw [hd]; simp)) (hok (.inr ⟨hd, hall⟩)) h.alive (h.before ho)
        · have hm := driveStep_move hs
          cases hm with
          | starts hd => exact absurd (.inl hd) hno
          | loops hd hall => exact absurd (.inr ⟨hd, hall⟩) hno
          | aborts hd | dispatches hd =>
              refine ⟨h.alive, fun _ => h.before ho, ?_⟩
              rintro (h' | h') <;> cases h'
          | emits hd | enqueues hd =>
              refine ⟨h.alive, fun _ => ?_, ?_⟩
              · rw [← h.before ho]
                simp [runEnds, State.emit, Core.emit, WorkflowEvent.endsRun]
              · rintro (h' | h') <;> cases h'
          | resolves hd => exact absurd (.inl hd) ho

theorem Uncut.initial (w : World) : Uncut c (.initial c w) := by
  refine ⟨fun id hc => ?_, fun _ => rfl, ?_⟩
  · cases hc
  · rintro (h | h) <;> cases h

theorem run_uncut {ls : List Label} {w : World} (hv : validateGraph c.graph = .ok ())
    (hk : DistinctKeys c) (h : Run (step c) HeadUncancelled (.initial c w) ls s) :
    (State.Sound c s ∧ State.Tidy c s ∧ Unlost c s) ∧ Uncut c s := by
  have hnd := validateGraph_nodup hv
  have ha := alone_initial (c := c) w
  refine Run.invariant (I := fun s => (State.Sound c s ∧ State.Tidy c s ∧ Unlost c s) ∧ Uncut c s)
    ⟨⟨ha.1.sound hnd, ha.tidy hnd hk, .initial w⟩, .initial w⟩ ?_ h
  intro s l s' ⟨⟨hS, ht, hu⟩, hcut⟩ hok hs
  exact ⟨⟨hS.step hnd hs, ht.step hnd hk hS hs, hu.step hnd hk hS ht hs⟩,
    hcut.step hv hk hS ht hu hok hs⟩

/-- No step takes a terminal event back. -/
theorem runEnds_mono {ok : State → Label → Prop} {ls : List Label}
    (hnd : (c.graph.map (·.id)).Nodup) (hS : State.Sound c s) (h : Run (step c) ok s ls s') :
    (runEnds s.core.trace).length ≤ (runEnds s'.core.trace).length := by
  obtain ⟨obs, hobs⟩ := run_trace hnd hS h
  rw [hobs, runEnds, runEnds, ledgerOf_append, List.filter_append, List.length_append]
  exact Nat.le_add_right _ _

end Uncut

/-! ## 6. One terminal event -/

/-- **A resolved run has one terminal event, agreeing with its outcome, if and only if no head of
    the drive loop found it cancelled.** -/
theorem one_end_iff {c : Context} {s : State} {ls : List Label} {w : World}
    (hv : validateGraph c.graph = .ok ()) (hk : NoCollision c)
    (h : Run (step c) (fun _ _ => True) (.initial c w) ls s) (hd : s.drive = .resolved) :
    OneEnd c s ↔ Run (step c) HeadUncancelled (.initial c w) ls s := by
  have hnd := validateGraph_nodup hv
  have hdk := hk.distinctKeys hnd
  constructor
  · intro ⟨e, hone, _⟩
    rcases h.and_or_bad HeadUncancelled with hall | ⟨ls₁, l, ls₂, s₁, s₂, -, hr, -, hbad, hs, hrest⟩
    · exact hall.mono fun _ _ => And.right
    · exfalso
      obtain ⟨hS₁, -, -⟩ := run_unlost hnd hdk hr
      have htwo : 2 ≤ (runEnds s₂.core.trace).length := by
        unfold HeadUncancelled at hbad
        split at hbad
        · push Not at hbad
          obtain ⟨hhead, hc⟩ := hbad
          rcases driveStep_head hs with ⟨-, rfl⟩ | ⟨-, -, rfl⟩ | hno
          · exact loopHead_cancelled hc
          · exact loopHead_cancelled hc
          · exact absurd hhead hno
        · exact absurd trivial hbad
      have hle := runEnds_mono hnd (hS₁.step hnd hs) hrest
      rw [hone] at hle
      exact absurd (Nat.le_trans htwo hle) (by simp)
  · intro hr
    exact ((run_uncut hv hdk hr).2.after (.inr hd)).1

theorem noCollision_pipeline : NoCollision pipelineContext := fun _ _ _ _ h => h

theorem one_end_iff_pipeline : ∃ s, Run (step pipelineContext) (fun _ _ => True)
      (.initial pipelineContext quietWorld) pipelineRun s ∧ s.drive = .resolved ∧
    (OneEnd pipelineContext s ↔ Run (step pipelineContext) HeadUncancelled
      (.initial pipelineContext quietWorld) pipelineRun s) := by
  obtain ⟨s, hs, hd⟩ := Option.map_eq_some_iff.mp (show (exec (step pipelineContext)
    (.initial pipelineContext quietWorld) pipelineRun).map (·.drive) = some .resolved by rfl)
  have hrun : Run (step pipelineContext) (fun _ _ => True) _ _ s := run_of_exec (fun _ _ => trivial) hs
  exact ⟨s, hrun, hd, one_end_iff (by rfl) noCollision_pipeline hrun hd⟩

/-- Cancelled before the first body: `cancelAll` and `finalize` both announce the end. -/
theorem cancelled_twice : ∃ c s ls w, validateGraph c.graph = .ok () ∧ NoCollision c ∧
    Run (step c) (fun _ _ => True) (.initial c w) ls s ∧ s.drive = .resolved ∧ ¬ OneEnd c s := by
  obtain ⟨s, hs, hpair⟩ := Option.map_eq_some_iff.mp (show (exec (step pipelineContext)
    (.initial pipelineContext quietWorld) [.cancel "stop", .drive, .drive]).map
      (fun s => (s.drive, (runEnds s.core.trace).length)) = some (.resolved, 2) by rfl)
  obtain ⟨hd, hlen⟩ := Prod.mk.inj hpair
  refine ⟨pipelineContext, s, _, quietWorld, rfl, noCollision_pipeline, run_of_exec (fun _ _ => trivial) hs, hd, ?_⟩
  intro ⟨e, he, _⟩
  rw [he] at hlen
  cases hlen

end AgentKernel.Orchestrator
