/-
  File:      AgentKernel/Orchestrator/LedgerOrder.lean
  Subject:   The order of the events in a run's ledger, over all its lives: a node runs after its
             dependencies have completed and before its terminal event, and completes once.

  The invariant `LedgerKept` ties the ledger to the statuses. A crash keeps an initial part of the
  ledger; `Follows`, what every event is justified by, is such that the last event of a node still
  tells whether the node has ended, so the process rebuilt from it satisfies the invariant again
  (`LedgerKept.resumed`). The events of a node whose id is empty are not read back, hence the
  hypothesis of **`ledger_ordered`**.
-/
import AgentKernel.Orchestrator.Replay

namespace AgentKernel.Orchestrator

open Lib

/-! ## 1. The property -/

/-- The node an event ends. -/
def WorkflowEvent.ends : WorkflowEvent → Option NodeId
  | .nodeCompleted id .. | .nodeFailed id .. | .nodeRolledBack id _ | .nodeQuarantined id _
  | .nodeCancelled id _ | .nodeSkipped id _ => some id
  | _ => none

/-- The node an event completes. -/
def WorkflowEvent.completes : WorkflowEvent → Option NodeId
  | .nodeCompleted id .. => some id
  | _ => none

/-- A node runs after its dependencies have completed and not after its terminal event, and it
    completes once. -/
def Ordered (c : Context) (past : List WorkflowEvent) : WorkflowEvent → Prop
  | .nodeRunning id .. =>
      (∀ n ∈ c.graph, n.id = id → ∀ d ∈ n.deps, ∃ e ∈ past, e.completes = some d) ∧
      ∀ e ∈ past, e.ends ≠ some id
  | .nodeCompleted id .. => ∀ e ∈ past, e.completes ≠ some id
  | _ => True

/-! ## 2. What every event follows -/

/-- The node an event shows at work. -/
def WorkflowEvent.works : WorkflowEvent → Option NodeId
  | .nodeRunning id .. | .nodeVerified id .. | .nodeRetrying id .. | .nodeCompensating id _ =>
      some id
  | _ => none

/-- A node is at work before its terminal event, a node that has completed has no other one, and a
    node runs after its dependencies. -/
structure Follows (c : Context) (past : List WorkflowEvent) (e : WorkflowEvent) : Prop where
  works : ∀ id, e.works = some id → ∀ x ∈ past, x.ends ≠ some id
  ends : ∀ id, e.ends = some id → ∀ x ∈ past, x.completes ≠ some id
  deps : e.type = .nodeRunning → ∀ n ∈ c.graph, e.works = some n.id →
    ∀ d ∈ n.deps, ∃ x ∈ past, x.completes = some d

/-- An event that neither ends a node nor shows it at work. -/
def WorkflowEvent.Plain (e : WorkflowEvent) : Prop := e.works = none ∧ e.ends = none

/-- The places of an execution before the terminal event of its node. -/
def Unended : FlightPc → Prop
  | .rejected _ | .failing _ _ (.sweeping ..) | .failing _ _ .persisting => False
  | _ => True

/-- A node has ended in the ledger. -/
def HasEnded (ledger : List WorkflowEvent) (id : NodeId) : Prop := ∃ e ∈ ledger, e.ends = some id

/-- Every event has its reasons before it, and the ledger says of each node what the executor
    knows. -/
structure LedgerKept (c : Context) (s : Core) : Prop where
  follows : Justified (Follows c) (ledgerOf s.trace)
  done : ∀ n ∈ c.graph, (∃ e ∈ ledgerOf s.trace, e.completes = some n.id) ↔
    s.status n.id = .completed
  unended : ∀ key f, s.store.inFlight key = some f → Unended f.pc →
    ¬ HasEnded (ledgerOf s.trace) f.node.id
  ended : ∀ n ∈ c.graph, HasEnded (ledgerOf s.trace) n.id →
    (s.status n.id).isTerminal = true ∨ Known s (keyOf c n)
  undone : ∀ n ∈ c.graph, HasEnded (ledgerOf s.trace) n.id →
    (s.status n.id).isTerminal = false → c.compensations.actionFor n = none

section Events

variable {c : Context} {past es : List WorkflowEvent} {e : WorkflowEvent} {id : NodeId}

theorem WorkflowEvent.ends_of_completes (h : e.completes = some id) : e.ends = some id := by
  cases e <;> first | exact h | cases h

theorem Follows.ordered (h : Follows c past e) : Ordered c past e := by
  cases e with
  | nodeRunning x => exact ⟨fun n hn hid => h.deps rfl n hn (hid ▸ rfl), h.works x rfl⟩
  | nodeCompleted x => exact h.ends x rfl
  | _ => trivial

theorem WorkflowEvent.Plain.follows (h : e.Plain) (past : List WorkflowEvent) : Follows c past e := by
  refine ⟨fun id hw => ?_, fun id he => ?_, fun ht n _ hw => ?_⟩
  · rw [h.1] at hw
    cases hw
  · rw [h.2] at he
    cases he
  · rw [h.1] at hw
    cases hw

theorem hasEnded_append : HasEnded (past ++ es) id ↔ HasEnded past id ∨ HasEnded es id := by
  simp [HasEnded, or_and_right, exists_or]

theorem not_hasEnded_nil : ¬ HasEnded [] id := by simp [HasEnded]

/-- Every event is about the node `id`, or plain. -/
def AllAbout (id : NodeId) (es : List WorkflowEvent) : Prop :=
  ∀ e ∈ es, ∀ x, e.ends = some x → x = id

theorem AllAbout.hasEnded {x : NodeId} (h : AllAbout id es) (hx : x ≠ id) : ¬ HasEnded es x := by
  intro ⟨e, he, hend⟩
  exact hx (h e he x hend)

end Events

/-! ## 3. Writing one node keeps it -/

section Keeps

variable {c : Context} {s y : Core} {n : WorkflowNode} {E : List WorkflowEvent}

/-- Code of the node `n` ran and appended the events `E` about it. -/
theorem LedgerKept.own (hnd : (c.graph.map (·.id)).Nodup) (h : LedgerKept c s) (hn : n ∈ c.graph)
    (hst : ∀ x, x ≠ n.id → y.status x = s.status x)
    (hl : ledgerOf y.trace = ledgerOf s.trace ++ E) (habout : AllAbout n.id E)
    (hfollow : Justified (Follows c) (ledgerOf s.trace ++ E))
    (hdone : (∃ e ∈ ledgerOf s.trace ++ E, e.completes = some n.id) ↔ y.status n.id = .completed)
    (hflight : ∀ key f, y.store.inFlight key = some f → Unended f.pc →
      (f.node.id ≠ n.id ∧ s.store.inFlight key = some f) ∨
        (f.node.id = n.id ∧ ¬ HasEnded (ledgerOf s.trace ++ E) n.id))
    (hknown : ∀ key, Known s key → Known y key)
    (hended : HasEnded (ledgerOf s.trace ++ E) n.id →
      (y.status n.id).isTerminal = true ∨ Known y (keyOf c n))
    (hundone : HasEnded (ledgerOf s.trace ++ E) n.id → (y.status n.id).isTerminal = false →
      c.compensations.actionFor n = none) : LedgerKept c y := by
  have hother : ∀ x, x ≠ n.id → (HasEnded (ledgerOf s.trace ++ E) x ↔ HasEnded (ledgerOf s.trace) x) :=
    fun x hx => by simp [hasEnded_append, habout.hasEnded hx]
  refine ⟨by rw [hl]; exact hfollow, fun m hm => ?_, fun key f hf hu => ?_, fun m hm he => ?_,
    fun m hm he ht => ?_⟩
  · rw [hl]
    by_cases hid : m.id = n.id
    · rw [hid]
      exact hdone
    · rw [hst m.id hid, ← h.done m hm]
      refine ⟨fun ⟨e, he, hc⟩ => ?_, fun ⟨e, he, hc⟩ => ⟨e, List.mem_append_left _ he, hc⟩⟩
      rcases List.mem_append.mp he with he | he
      · exact ⟨e, he, hc⟩
      · exact absurd (habout e he _ (WorkflowEvent.ends_of_completes hc)) hid
  · rw [hl]
    rcases hflight key f hf hu with ⟨hid, hf⟩ | ⟨hid, hno⟩
    · rw [hother _ hid]
      exact h.unended key f hf hu
    · rw [hid]
      exact hno
  · rw [hl] at he
    by_cases hid : m.id = n.id
    · obtain rfl := eq_of_id_eq hnd hm hn hid
      exact hended he
    · rw [hst m.id hid]
      exact (h.ended m hm ((hother _ hid).mp he)).imp_right (hknown _)
  · rw [hl] at he
    by_cases hid : m.id = n.id
    · obtain rfl := eq_of_id_eq hnd hm hn hid
      exact hundone he ht
    · rw [hst m.id hid] at ht
      exact h.undone m hm ((hother _ hid).mp he) ht

/-- Plain events, and no status written. -/
theorem LedgerKept.plain (h : LedgerKept c s) (hst : ∀ x, y.status x = s.status x)
    (hl : ledgerOf y.trace = ledgerOf s.trace ++ E) (hE : ∀ e ∈ E, e.Plain)
    (hflight : ∀ key f, y.store.inFlight key = some f → Unended f.pc →
      ∃ f₀, s.store.inFlight key = some f₀ ∧ Unended f₀.pc ∧ f₀.node = f.node)
    (hknown : ∀ key, Known s key → Known y key) : LedgerKept c y := by
  have hsame : ∀ x, HasEnded (ledgerOf s.trace ++ E) x ↔ HasEnded (ledgerOf s.trace) x := fun x => by
    rw [hasEnded_append, or_iff_left]
    intro ⟨e, he, hend⟩
    rw [(hE e he).2] at hend
    cases hend
  refine ⟨?_, fun m hm => ?_, fun key f hf hu => ?_, fun m hm he => ?_, fun m hm he ht => ?_⟩
  · rw [hl]
    exact h.follows.append fun e he past => (hE e he).follows past
  · rw [hl, hst, ← h.done m hm]
    refine ⟨fun ⟨e, he, hc⟩ => ?_, fun ⟨e, he, hc⟩ => ⟨e, List.mem_append_left _ he, hc⟩⟩
    rcases List.mem_append.mp he with he | he
    · exact ⟨e, he, hc⟩
    · have hend := WorkflowEvent.ends_of_completes hc
      rw [(hE e he).2] at hend
      cases hend
  · obtain ⟨f₀, hf₀, hu₀, hnode⟩ := hflight key f hf hu
    rw [hl, hsame, ← hnode]
    exact h.unended key f₀ hf₀ hu₀
  · rw [hl, hsame] at he
    rw [hst]
    exact (h.ended m hm he).imp_right (hknown _)
  · rw [hl, hsame] at he
    rw [hst] at ht
    exact h.undone m hm he ht

end Keeps

/-! ## 4. The events of each act -/

section Rows

variable {c : Context} {s y : Core} {n : WorkflowNode} {error : String}

/-- An event that ends the node without completing it. -/
def Closing (id : NodeId) (e : WorkflowEvent) : Prop :=
  e.ends = some id ∧ e.works = none ∧ e.completes = none

/-- An event that shows the node at work, other than its start. -/
def Working (id : NodeId) (e : WorkflowEvent) : Prop :=
  e.works = some id ∧ e.ends = none ∧ e.type ≠ .nodeRunning

theorem headRow_ledger {q : Bool} {pc : Option FailPc} (h : HeadRow c s n error q y pc) :
    (ledgerOf y.trace = ledgerOf s.trace ∧ pc = none ∧ y.status n.id = s.status n.id) ∨
    (∃ e, ledgerOf y.trace = ledgerOf s.trace ++ [e] ∧ Closing n.id e ∧ pc = some .persisting ∧
      ((y.status n.id).isTerminal = true ∨ c.compensations.actionFor n = none)) ∨
    ∃ e, ledgerOf y.trace = ledgerOf s.trace ++ [e] ∧ Working n.id e ∧
      (∃ spec, pc = some (.compensating spec)) ∧ c.compensations.actionFor n ≠ none := by
  cases h with
  | failed hw ha => exact .inr (.inl ⟨_, ledgerOf_snoc _ _, ⟨rfl, rfl, rfl⟩, rfl, .inr ha⟩)
  | compensates hs ha =>
      exact .inr (.inr ⟨_, ledgerOf_snoc _ _, ⟨rfl, rfl, by simp [WorkflowEvent.type]⟩, ⟨_, rfl⟩,
        by simp [ha]⟩)
  | quarantines hs =>
      refine .inr (.inl ⟨_, ledgerOf_snoc _ _, ⟨rfl, rfl, rfl⟩, rfl, .inl ?_⟩)
      rw [Core.put_status_self]
      rfl
  | waits | refused => exact .inl ⟨by simp, rfl, Core.put_status_self ..⟩

theorem sweepNext_ledger {failed : NodeId} {ids : List NodeId} {pc : FailPc}
    (h : sweepNext c s failed ids = (y, pc)) : ledgerOf y.trace = ledgerOf s.trace := by
  rcases sweepNext_cases h with ⟨rfl, -⟩ | ⟨_, _, _, _, rfl, _⟩
  · rfl
  · simp [Core.invoke]

theorem failRow_ledger {pc pc' : FailPc} {a : Answer} (h : FailRow c s n error pc a y pc') :
    (ledgerOf y.trace = ledgerOf s.trace ∧ y.status n.id = s.status n.id ∧
      ∃ spec, pc = .compensating spec) ∨
    (∃ e, ledgerOf y.trace = ledgerOf s.trace ++ [e] ∧ Closing n.id e ∧
      s.status n.id = .compensating ∧ y.status n.id = .rolledBack ∧
      ∀ thrown, ¬ Unended (.failing thrown error pc')) ∨
    ∃ e, ledgerOf y.trace = ledgerOf s.trace ++ [e] ∧ e.Plain ∧
      y.status n.id = s.status n.id ∧ ∀ thrown, ¬ Unended (.failing thrown error pc') := by
  have hpast : ∀ {x y failed ids pc'}, sweepNext c x failed ids = (y, pc') →
      ∀ thrown, ¬ Unended (.failing thrown error pc') := by
    intro x y failed ids pc' hx thrown
    rcases sweepNext_pc hx with rfl | ⟨_, _, _, _, rfl⟩ <;> exact False.elim
  cases h with
  | undoes => exact .inl ⟨by simp [Core.invoke], rfl, _, rfl⟩
  | rollsBack hs hx =>
      refine .inr (.inl ⟨.nodeRolledBack n.id error, ?_, ⟨rfl, rfl, rfl⟩, hs, ?_, hpast hx⟩)
      · rw [sweepNext_ledger hx]
        simp
      · rw [sweepNext_status hx, Core.put_status_self]
  | @swept id spec call rest o s' pc' hx =>
      refine .inr (.inr ⟨.nodeCompensated id spec.action, ?_, ⟨rfl, rfl⟩,
        (sweepNext_status hx).trans rfl, hpast hx⟩)
      rw [sweepNext_ledger hx]
      simp [Core.emit]

end Rows

/-! ## 5. Every act keeps it -/

section Acts

variable {c : Context} {s y : Core} {n : WorkflowNode}

theorem LedgerKept.not_completes (h : LedgerKept c s) (hn : n ∈ c.graph)
    (hs : s.status n.id ≠ .completed) : ∀ e ∈ ledgerOf s.trace, e.completes ≠ some n.id :=
  fun e he hc => hs ((h.done n hn).mp ⟨e, he, hc⟩)

/-- A closing event follows, unless the node has completed. -/
theorem LedgerKept.closing {e : WorkflowEvent} (h : LedgerKept c s) (hn : n ∈ c.graph)
    (he : Closing n.id e) (hs : s.status n.id ≠ .completed) :
    Justified (Follows c) (ledgerOf s.trace ++ [e]) := by
  refine justified_snoc.mpr ⟨h.follows, fun id hw => ?_, fun id hend => ?_, fun _ m _ hw => ?_⟩
  · rw [he.2.1] at hw
    cases hw
  · rw [he.1] at hend
    cases hend
    exact h.not_completes hn hs
  · rw [he.2.1] at hw
    cases hw

/-- A working event follows, unless the node has ended. -/
theorem LedgerKept.working {e : WorkflowEvent} (h : LedgerKept c s) (he : Working n.id e)
    (hno : ¬ HasEnded (ledgerOf s.trace) n.id) :
    Justified (Follows c) (ledgerOf s.trace ++ [e]) := by
  refine justified_snoc.mpr ⟨h.follows, fun id hw x hx hend => ?_, fun id hend => ?_,
    fun ht => absurd ht he.2.2⟩
  · rw [he.1] at hw
    cases hw
    exact hno ⟨x, hx, hend⟩
  · rw [he.2.1] at hend
    cases hend

/-- The start of a node follows, once its dependencies have completed. -/
theorem LedgerKept.running {jobId operationId : String} {attempt : Nat} (h : LedgerKept c s)
    (hv : validateGraph c.graph = .ok ()) (hn : n ∈ c.graph)
    (hdeps : ∀ d ∈ n.deps, s.status d = .completed) (hno : ¬ HasEnded (ledgerOf s.trace) n.id) :
    Justified (Follows c)
      (ledgerOf s.trace ++ [.nodeRunning n.id jobId attempt operationId]) := by
  refine justified_snoc.mpr ⟨h.follows, fun id hw x hx hend => ?_, fun id hend => ?_,
    fun _ m hm hw d hd => ?_⟩
  · cases hw
    exact hno ⟨x, hx, hend⟩
  · cases hend
  · obtain rfl := eq_of_id_eq (validateGraph_nodup hv) hn hm (Option.some.inj hw)
    obtain ⟨m, hm, rfl⟩ := List.mem_map.mp (validateGraph_deps hv n hn d hd)
    exact (h.done m hm).mpr (hdeps m.id hd)

theorem Closing.about {e : WorkflowEvent} (h : Closing n.id e) : AllAbout n.id [e] := by
  intro x hx id hend
  rw [List.mem_singleton.mp hx, h.1] at hend
  exact (Option.some.inj hend).symm

theorem allAbout_of_ends_none {e : WorkflowEvent} (h : e.ends = none) : AllAbout n.id [e] := by
  intro x hx id hend
  rw [List.mem_singleton.mp hx, h] at hend
  cases hend

theorem hasEnded_snoc_none {past : List WorkflowEvent} {e : WorkflowEvent} {id : NodeId}
    (h : e.ends = none) : HasEnded (past ++ [e]) id ↔ HasEnded past id := by
  simp [HasEnded, or_and_right, exists_or, h]

/-- **A stretch of `executeWithRetry` keeps it.** -/
theorem LedgerKept.row (hv : validateGraph c.graph = .ok ()) {key : String} {f : Flight}
    {job : WorkflowJob} {pc pc' : FlightPc} {a : Answer} (hS : Core.Sound c s) (h : LedgerKept c s)
    (hf : s.store.inFlight key = some f) (hpc : f.pc = pc) (hrow : Row c s f pc a y pc') :
    LedgerKept c (y.setFlight key { f with job := job, pc := pc' }) := by
  have hnd := validateGraph_nodup hv
  obtain ⟨hn, hkey, hag⟩ := hS.flight key f hf
  rw [hpc] at hag
  have hgo := hrow.going
  have hs := (hag.not_completed hgo).1
  have hs' := hrow.not_completed hag hgo
  have hun : Unended pc → ¬ HasEnded (ledgerOf s.trace) f.node.id := fun hu =>
    h.unended key f hf (by rw [hpc]; exact hu)
  have hknown : ∀ k, Known s k →
      Known (y.setFlight key { f with job := job, pc := pc' }) k :=
    fun k hk => hk.setFlight hrow.own.store
  -- the other executions are of other nodes
  have hother : ∀ k g, (y.setFlight key { f with job := job, pc := pc' }).store.inFlight k = some g →
      (k = key ∧ g = { f with job := job, pc := pc' }) ∨
        (g.node.id ≠ f.node.id ∧ s.store.inFlight k = some g) := by
    intro k g hg
    rw [Core.setFlight_inFlight] at hg
    split_ifs at hg with hk
    · exact .inl ⟨hk, (Option.some.inj hg).symm⟩
    · rw [hrow.own.store] at hg
      obtain ⟨hm, hkeym, -⟩ := hS.flight k g hg
      exact .inr ⟨fun hid => hk (by rw [← hkeym, ← hkey, eq_of_id_eq hnd hm hn hid]), hg⟩
  have hmain : ∀ {e : WorkflowEvent}, ledgerOf y.trace = ledgerOf s.trace ++ [e] →
      AllAbout f.node.id [e] → e.completes = none →
      Justified (Follows c) (ledgerOf s.trace ++ [e]) →
      (Unended pc' → ¬ HasEnded (ledgerOf s.trace ++ [e]) f.node.id) →
      (HasEnded (ledgerOf s.trace ++ [e]) f.node.id → (y.status f.node.id).isTerminal = false →
        c.compensations.actionFor f.node = none) →
      LedgerKept c (y.setFlight key { f with job := job, pc := pc' }) := by
    intro e hl habout hc hfollow hopen hundone
    refine h.own hnd hn (fun x hx => hrow.own.status hx) hl habout hfollow ?_
      (fun k g hg hu => ?_) hknown (fun _ => .inr (by rw [hkey]; exact known_setFlight _ _ _)) hundone
    · refine ⟨fun ⟨x, hx, hcx⟩ => ?_, fun hcomp => absurd hcomp hs'⟩
      rcases List.mem_append.mp hx with hx | hx
      · exact absurd hcx (h.not_completes hn hs x hx)
      · rw [List.mem_singleton.mp hx, hc] at hcx
        cases hcx
    · rcases hother k g hg with ⟨-, rfl⟩ | ⟨hid, hg⟩
      · exact .inr ⟨rfl, hopen hu⟩
      · exact .inl ⟨hid, hg⟩
  -- a stretch before the node's end that appends no event of the node
  have hquiet : ∀ es : List WorkflowEvent, Unended pc → ledgerOf y.trace = ledgerOf s.trace ++ es →
      (∀ e ∈ es, e.Plain) → LedgerKept c (y.setFlight key { f with job := job, pc := pc' }) := by
    intro es hu hl hes
    have hno : ¬ HasEnded (ledgerOf s.trace ++ es) f.node.id := by
      rw [hasEnded_append, not_or]
      refine ⟨hun hu, fun ⟨e, he, hend⟩ => ?_⟩
      rw [(hes e he).2] at hend
      cases hend
    refine h.own hnd hn (fun x hx => hrow.own.status hx) hl (fun e he x hend => ?_)
      (h.follows.append fun e he past => (hes e he).follows past) ?_ (fun k g hg _ => ?_) hknown
      (fun hend => absurd hend hno) fun hend => absurd hend hno
    · rw [(hes e he).2] at hend
      cases hend
    · refine ⟨fun ⟨x, hx, hcx⟩ => ?_, fun hcomp => absurd hcomp hs'⟩
      exact absurd ⟨x, hx, WorkflowEvent.ends_of_completes hcx⟩ hno
    · rcases hother k g hg with ⟨-, rfl⟩ | ⟨hid, hg⟩
      · exact .inr ⟨rfl, hno⟩
      · exact .inl ⟨hid, hg⟩
  have hwork : ∀ {e : WorkflowEvent}, Unended pc → ledgerOf y.trace = ledgerOf s.trace ++ [e] →
      e.ends = none → Justified (Follows c) (ledgerOf s.trace ++ [e]) →
      LedgerKept c (y.setFlight key { f with job := job, pc := pc' }) := by
    intro e hu hl hend hfollow
    have hno : ¬ HasEnded (ledgerOf s.trace ++ [e]) f.node.id := by
      rw [hasEnded_snoc_none hend]
      exact hun hu
    refine hmain hl (allAbout_of_ends_none hend) ?_ hfollow (fun _ => hno) fun he => absurd he hno
    cases hc : e.completes with
    | none => rfl
    | some x =>
        rw [WorkflowEvent.ends_of_completes hc] at hend
        cases hend
  -- no status written, at or behind the node's end
  have hsame : ∀ es : List WorkflowEvent, ¬ Unended pc' → ledgerOf y.trace = ledgerOf s.trace ++ es →
      (∀ e ∈ es, e.Plain) → y.status f.node.id = s.status f.node.id →
      LedgerKept c (y.setFlight key { f with job := job, pc := pc' }) := by
    intro es hu' hl hes hst
    refine h.plain (fun x => ?_) hl hes (fun k g hg hu => ?_) hknown
    · by_cases hx : x = f.node.id
      · rw [hx]
        exact hst
      · exact hrow.own.status hx
    · rcases hother k g hg with ⟨-, rfl⟩ | ⟨-, hg⟩
      · exact absurd hu hu'
      · exact ⟨g, hg, hu, rfl⟩
  cases hrow with
  | throws hpc' =>
      refine hquiet [] ?_ (by simp) (by simp)
      rcases hpc' with rfl | ⟨_, rfl⟩ | ⟨_, _, rfl⟩ <;> trivial
  | calls hgate =>
      refine hquiet [] ?_ (by simp [Core.invoke]) (by simp)
      rcases hgate with ⟨rfl, -⟩ | ⟨_, rfl, -⟩ <;> trivial
  | concludes hkind hcond hsrc =>
      rcases hsrc with ⟨rfl, -, rfl, -⟩ | ⟨_, _, _, rfl, -, rfl⟩
      · exact hquiet [] trivial (by simp) (by simp)
      · exact hquiet [] trivial (by simp) (by simp)
  | asks => 
      exact hquiet _ trivial (ledgerOf_snoc _ _)
        (by simp [WorkflowEvent.Plain, WorkflowEvent.works, WorkflowEvent.ends])
  | @answers req granted =>
      refine hquiet [if granted then .approvalGranted req else .approvalDenied req] trivial
        (by simp) ?_
      cases granted <;> simp [WorkflowEvent.Plain, WorkflowEvent.works, WorkflowEvent.ends]
  | approved | settles | timesOut => exact hquiet [] trivial (by simp) (by simp)
  | @verifies r hst =>
      have he : Working f.node.id (.nodeVerified f.node.id r.status r.evidence) :=
        ⟨rfl, rfl, by simp [WorkflowEvent.type]⟩
      exact hwork trivial (by simp) rfl (h.working he (hun trivial))
  | @retries e hagain hst =>
      have he : Working f.node.id (.nodeRetrying f.node.id f.job.attempt (f.job.attempt + 1) e) :=
        ⟨rfl, rfl, by simp [WorkflowEvent.type]⟩
      exact hwork trivial (by simp) rfl (h.working he (hun trivial))
  | retryRefused => exact hquiet [] trivial (by simp) (by simp)
  | fails hagain hq hhead =>
      have htr : ledgerOf (s.countFailure f.node.id).trace = ledgerOf s.trace := rfl
      rcases headRow_ledger hhead with ⟨-, hnone, -⟩ | ⟨e, hl, he, hpc', hend⟩ |
        ⟨e, hl, he, ⟨spec, hpc'⟩, -⟩
      · cases hnone
      · cases hpc'
        refine hmain (hl.trans (by rw [htr])) he.about he.2.2 (h.closing hn he hs)
          (fun hu => hu.elim) fun _ ht => ?_
        rcases hend with hend | hend
        · rw [hend] at ht
          cases ht
        · exact hend
      · exact hwork trivial (hl.trans (by rw [htr])) he.2.1 (h.working he (hun trivial))
  | failRefused hagain hhead =>
      rcases headRow_ledger hhead with ⟨hl, -, -⟩ | ⟨e, -, -, hpc', -⟩ | ⟨e, -, -, ⟨spec, hpc'⟩, -⟩
      · exact hquiet [] trivial (by rw [hl, List.append_nil]; rfl) (by simp)
      · cases hpc'
      · cases hpc'
  | resumes hst =>
      refine hwork trivial (ledgerOf_snoc _ _) rfl (h.running hv hn ?_ (hun trivial))
      exact hS.working key f hf (by rw [hpc]; exact hgo)
  | ending hfail =>
      rcases failRow_ledger hfail with ⟨hl, -, spec, rfl⟩ | ⟨e, hl, he, -, hroll, hpast⟩ |
        ⟨e, hl, he, hst, hpast⟩
      · exact hquiet [] trivial (by rw [hl, List.append_nil]) (by simp)
      · refine hmain hl he.about he.2.2 (h.closing hn he hs) (fun hu => absurd hu (hpast _))
          fun _ ht => ?_
        rw [hroll] at ht
        cases ht
      · refine hsame _ (hpast _) hl (fun x hx => ?_) hst
        rw [List.mem_singleton.mp hx]
        exact he
  | ended => exact hsame [] id (by simp) (by simp) rfl

/-- Code of a node runs whose execution cannot go on. -/
theorem LedgerKept.worker {e : WorkflowEvent} (hnd : (c.graph.map (·.id)).Nodup)
    (hS : Core.Sound c s) (h : LedgerKept c s) (hn : n ∈ c.graph) (hend : Ended c s n)
    (hown : Own n.id s y) (hs : s.status n.id ≠ .completed) (hs' : y.status n.id ≠ .completed)
    (hl : ledgerOf y.trace = ledgerOf s.trace ++ [e]) (habout : AllAbout n.id [e])
    (hc : e.completes = none) (hfollow : Justified (Follows c) (ledgerOf s.trace ++ [e]))
    (hundone : HasEnded (ledgerOf s.trace ++ [e]) n.id → (y.status n.id).isTerminal = false →
      c.compensations.actionFor n = none) : LedgerKept c y := by
  have hknown : ∀ key, Known s key → Known y key := fun key hk => by
    unfold Known at hk ⊢
    rw [hown.store]
    exact hk
  refine h.own hnd hn (fun x hx => hown.status hx) hl habout hfollow ?_ (fun key g hg hu => ?_)
    hknown (fun _ => .inr (hknown _ hend.1)) hundone
  · refine ⟨fun ⟨x, hx, hcx⟩ => ?_, fun hcomp => absurd hcomp hs'⟩
    rcases List.mem_append.mp hx with hx | hx
    · exact absurd hcx (h.not_completes hn hs x hx)
    · rw [List.mem_singleton.mp hx, hc] at hcx
      cases hcx
  · rw [hown.store] at hg
    obtain ⟨hm, hkey, -⟩ := hS.flight key g hg
    refine .inl ⟨fun hid => ?_, hg⟩
    obtain ⟨err, he⟩ := hend.2 g (by rw [← eq_of_id_eq hnd hm hn hid, hkey]; exact hg)
    rw [he] at hu
    exact hu

/-- No event appended, no status written, the store as it is. -/
theorem LedgerKept.idle (h : LedgerKept c s) (hst : ∀ x, y.status x = s.status x)
    (hl : ledgerOf y.trace = ledgerOf s.trace) (hstore : y.store = s.store) : LedgerKept c y := by
  refine h.plain hst (E := []) (by rw [hl, List.append_nil]) (by simp) (fun key f hf hu => ?_)
    fun key hk => ?_
  · exact ⟨f, hstore ▸ hf, hu, rfl⟩
  · unfold Known at hk ⊢
    rw [hstore]
    exact hk

theorem LedgerKept.head {core : Core} {error : String} {q : Bool} {pc : Option FailPc}
    (hnd : (c.graph.map (·.id)).Nodup) (hS : Core.Sound c s) (h : LedgerKept c s)
    (hn : n ∈ c.graph) (hend : Ended c s n) (ht : (s.status n.id).isTerminal = false)
    (hown : Own n.id s core) (hst : core.status n.id = s.status n.id)
    (hl : ledgerOf core.trace = ledgerOf s.trace) (hrow : HeadRow c core n error q y pc) :
    LedgerKept c y := by
  have hs : s.status n.id ≠ .completed := fun hc => by
    rw [hc] at ht
    cases ht
  have hs' := hrow.not_completed (by rw [hst]; exact hs)
  have hall := hown.trans hrow.own
  rcases headRow_ledger hrow with ⟨hly, -, hsty⟩ | ⟨e, hly, he, -, hclose⟩ | ⟨e, hly, he, -, hact⟩
  · refine h.idle (fun x => ?_) (hly.trans hl) hall.store
    by_cases hx : x = n.id
    · rw [hx, hsty, hst]
    · exact hall.status hx
  · rw [hl] at hly
    refine h.worker hnd hS hn hend hall hs hs' hly he.about he.2.2 (h.closing hn he hs) fun _ hty => ?_
    rcases hclose with hclose | hclose
    · rw [hclose] at hty
      cases hty
    · exact hclose
  · rw [hl] at hly
    have hno : ¬ HasEnded (ledgerOf s.trace) n.id := fun hended => hact (h.undone n hn hended ht)
    have hno' : ¬ HasEnded (ledgerOf s.trace ++ [e]) n.id := by
      rw [hasEnded_snoc_none he.2.1]
      exact hno
    refine h.worker hnd hS hn hend hall hs hs' hly (allAbout_of_ends_none he.2.1) ?_ (h.working he hno)
      fun hended => absurd hended hno'
    cases hc : e.completes with
    | none => rfl
    | some x =>
        have hx := WorkflowEvent.ends_of_completes hc
        rw [he.2.1] at hx
        cases hx

theorem LedgerKept.tail {error : String} {pc pc' : FailPc} {a : Answer}
    (hnd : (c.graph.map (·.id)).Nodup) (hS : Core.Sound c s) (h : LedgerKept c s)
    (hn : n ∈ c.graph) (hend : Ended c s n) (hrow : FailRow c s n error pc a y pc') :
    LedgerKept c y := by
  have hst : ∀ {x}, y.status n.id = s.status n.id → y.status x = s.status x := fun {x} hsame => by
    by_cases hx : x = n.id
    · rw [hx, hsame]
    · exact hrow.own.status hx
  rcases failRow_ledger hrow with ⟨hl, hsame, -⟩ | ⟨e, hl, he, hs, hs', -⟩ | ⟨e, hl, he, hsame, -⟩
  · exact h.idle (fun x => hst hsame) hl hrow.own.store
  · refine h.worker hnd hS hn hend hrow.own (by rw [hs]; decide) (by rw [hs']; decide) hl he.about
      he.2.2 (h.closing hn he (by rw [hs]; decide)) fun _ ht => ?_
    rw [hs'] at ht
    cases ht
  · refine h.plain (fun x => hst hsame) hl (fun x hx => by rw [List.mem_singleton.mp hx]; exact he)
      (fun key f hf hu => ⟨f, hrow.own.store ▸ hf, hu, rfl⟩) fun key hk => ?_
    unfold Known at hk ⊢
    rw [hrow.own.store]
    exact hk

theorem LedgerKept.begin (hv : validateGraph c.graph = .ok ()) {job : WorkflowJob}
    (hS : Core.Sound c s) (h : LedgerKept c s) (hn : n ∈ c.graph)
    (hkey : job.idempotencyKey = keyOf c n) (hc : s.store.completed job.idempotencyKey = none)
    (hf : s.store.inFlight job.idempotencyKey = none) :
    LedgerKept c ((beginAttempt s n job).1.setFlight job.idempotencyKey
      ⟨n, job, (beginAttempt s n job).2⟩) := by
  have hnd := validateGraph_nodup hv
  have hfresh : ¬ Known s (keyOf c n) := by
    rw [← hkey]
    rintro (⟨r, hr⟩ | ⟨g, hg⟩)
    · rw [hc] at hr
      cases hr
    · rw [hf] at hg
      cases hg
  have hknown : ∀ key, Known s key → Known ((beginAttempt s n job).1.setFlight job.idempotencyKey
      ⟨n, job, (beginAttempt s n job).2⟩) key :=
    fun key hk => hk.setFlight beginAttempt_own.store
  have hother : ∀ key g, ((beginAttempt s n job).1.setFlight job.idempotencyKey
      ⟨n, job, (beginAttempt s n job).2⟩).store.inFlight key = some g →
      g = ⟨n, job, (beginAttempt s n job).2⟩ ∨ s.store.inFlight key = some g := by
    intro key g hg
    rw [Core.setFlight_inFlight] at hg
    split_ifs at hg with hk
    · exact .inl (Option.some.inj hg).symm
    · rw [beginAttempt_own.store] at hg
      exact .inr hg
  by_cases hs : s.status n.id = .ready ∨ s.status n.id = .retrying
  · have hno : ¬ HasEnded (ledgerOf s.trace) n.id := fun hended => by
      rcases h.ended n hn hended with ht | hk
      · rcases hs with hs | hs <;> (rw [hs] at ht; cases ht)
      · exact hfresh hk
    have hl : ledgerOf (beginAttempt s n job).1.trace =
        ledgerOf s.trace ++ [.nodeRunning n.id job.id job.attempt job.operationId] := by
      rw [beginAttempt_ok hs]
      exact ledgerOf_snoc _ _
    have hno' : ¬ HasEnded (ledgerOf s.trace ++
        [.nodeRunning n.id job.id job.attempt job.operationId]) n.id := by
      rw [hasEnded_snoc_none rfl]
      exact hno
    have hdeps := hS.live n hn (by rcases hs with hs | hs <;> rw [hs] <;> trivial)
    refine h.own hnd hn (fun x hx => beginAttempt_own.status hx) hl (allAbout_of_ends_none rfl)
      (h.running hv hn hdeps hno) ?_ (fun key g hg hu => ?_) hknown (fun he => absurd he hno')
      fun he => absurd he hno'
    · refine ⟨fun ⟨x, hx, hcx⟩ => absurd ⟨x, hx, WorkflowEvent.ends_of_completes hcx⟩ hno',
        fun hcomp => ?_⟩
      rw [Core.setFlight_status, beginAttempt_ok hs, Core.put_status_self] at hcomp
      cases hcomp
    · rcases hother key g hg with rfl | hg
      · exact .inr ⟨rfl, hno'⟩
      · obtain ⟨hm, hkeym, -⟩ := hS.flight key g hg
        refine .inl ⟨fun hid => hfresh (.inr ⟨g, ?_⟩), hg⟩
        rw [← eq_of_id_eq hnd hm hn hid, hkeym]
        exact hg
  · simp only [not_or] at hs
    obtain ⟨m, he⟩ := beginAttempt_refused job hs.1 hs.2
    refine h.plain (E := []) (fun x => ?_) ?_ (by simp) (fun key g hg hu => ?_) hknown
    · by_cases hx : x = n.id
      · rw [hx, Core.setFlight_status, he, Core.put_status_self]
        rfl
      · exact beginAttempt_own.status hx
    · rw [Core.setFlight_trace, he]
      simp
    · rcases hother key g hg with rfl | hg
      · rw [he] at hu
        exact hu.elim
      · exact ⟨g, hg, hu, rfl⟩

theorem LedgerKept.complete {r : NodeResult} (hnd : (c.graph.map (·.id)).Nodup)
    (hS : Core.Sound c s) (h : LedgerKept c s) (hn : n ∈ c.graph)
    (hr : s.store.completed (keyOf c n) = some r)
    (hs : s.status n.id = .running ∨ s.status n.id = .verifying) :
    LedgerKept c (doneCore c s n r) := by
  have hne : s.status n.id ≠ .completed := by rcases hs with hs | hs <;> rw [hs] <;> decide
  refine h.own (E := [.nodeCompleted n.id r (operationId c n) (keyOf c n)]) hnd hn
    (fun x hx => by rw [doneCore_status, if_neg hx]) (ledgerOf_snoc _ _)
    (fun e he x hend => ?_) ?_ ?_ (fun key g hg hu => .inl ⟨fun hid => ?_, hg⟩) (fun _ hk => hk)
    (fun _ => .inl ?_) fun _ ht => ?_
  · rw [List.mem_singleton.mp he] at hend
    exact (Option.some.inj hend).symm
  · refine justified_snoc.mpr ⟨h.follows, fun id hw => ?_, fun id hend => ?_, fun ht => ?_⟩
    · cases hw
    · cases hend
      exact h.not_completes hn hne
    · cases ht
  · rw [doneCore_status, if_pos rfl]
    exact ⟨fun _ => rfl, fun _ => ⟨_, List.mem_append_right _ List.mem_cons_self, rfl⟩⟩
  · obtain ⟨hm, hkey, -⟩ := hS.flight key g hg
    have hnone := hS.excl key g hg
    rw [← hkey, eq_of_id_eq hnd hm hn hid, hr] at hnone
    cases hnone
  · rw [doneCore_status, if_pos rfl]
    rfl
  · rw [doneCore_status, if_pos rfl] at ht
    cases ht

/-- **Every act keeps it.** -/
theorem LedgerKept.act {x : State} {l : Label} (hv : validateGraph c.graph = .ok ())
    (hS : Core.Sound c x.core) (h : LedgerKept c x.core) (ha : Act c x l y) : LedgerKept c y := by
  have hnd := validateGraph_nodup hv
  cases ha with
  | idle => exact h
  | flight hf hrow => exact h.row hv hS hf rfl hrow
  | @settles key f r hf hpc =>
      refine h.plain (fun _ => rfl) (E := []) (List.append_nil _).symm (by simp) (fun k g hg hu => ?_)
        fun k hk => (Act.settles (c := c) hf hpc).grows hS |>.known k hk
      simp only [IdempotencyStore.settle] at hg
      split_ifs at hg
      exact ⟨g, hg, hu, rfl⟩
  | begins hh hn hid hkey hc hf => exact h.begin hv hS hn hkey hc hf
  | completes hn hr hs => exact h.complete hnd hS hn hr hs
  | givesUp hw hn hend ht hcore hcaught hrow =>
      rcases hcore with rfl | rfl
      · exact h.head hnd hS hn hend ht (.refl _ _) rfl rfl hrow
      · exact h.head hnd hS hn hend ht (.observe _ _ _) rfl (by simp) hrow
  | ending hw hn hend hrow => exact h.tail hnd hS hn hend hrow
  | @endRefused i job n error spec call o hw hn hs =>
      refine h.idle (fun z => ?_) (by simp) rfl
      rw [Core.put_status]
      split_ifs with hz
      · rw [hz]
        rfl
      · rfl
  | late => exact h.idle (fun _ => rfl) (by simp) rfl
  | world => exact h.idle (fun _ => rfl) rfl rfl

end Acts

/-! ## 6. Touches keep it -/

section Touches

variable {c : Context} {s y : Core} {T : List NodeId} {q : Prop}

/-- A node that has not ended is skipped or cancelled. -/
theorem LedgerKept.close {n : WorkflowNode} {e : WorkflowEvent}
    (hnd : (c.graph.map (·.id)).Nodup) (h : LedgerKept c s) (hn : n ∈ c.graph)
    (he : Closing n.id e) (ht : (s.status n.id).isTerminal = false) (ht' : (y.status n.id).isTerminal = true)
    (hne : y.status n.id ≠ .completed) (hst : ∀ x, x ≠ n.id → y.status x = s.status x)
    (hl : ledgerOf y.trace = ledgerOf s.trace ++ [e]) (hstore : y.store = s.store)
    (hflight : ∀ key f, s.store.inFlight key = some f → Unended f.pc → f.node.id ≠ n.id) :
    LedgerKept c y := by
  have hs : s.status n.id ≠ .completed := fun hc => by
    rw [hc] at ht
    cases ht
  refine h.own hnd hn hst hl he.about (h.closing hn he hs) ?_ (fun key f hf hu => ?_)
    (fun key hk => ?_) (fun _ => .inl ht') fun _ hf => ?_
  · refine ⟨fun ⟨x, hx, hcx⟩ => ?_, fun hcomp => absurd hcomp hne⟩
    rcases List.mem_append.mp hx with hx | hx
    · exact absurd hcx (h.not_completes hn hs x hx)
    · rw [List.mem_singleton.mp hx, he.2.2] at hcx
      cases hcx
  · rw [hstore] at hf
    exact .inl ⟨hflight key f hf hu, hf⟩
  · unfold Known at hk ⊢
    rw [hstore]
    exact hk
  · rw [ht'] at hf
    cases hf

theorem Unended.going {pc : FlightPc} (h : Unended pc) : Going pc := by
  rintro e rfl
  exact h

theorem LedgerKept.touch (hnd : (c.graph.map (·.id)).Nodup) (hS : Core.Sound c s)
    (hq : q → Quiescent s) (h : LedgerKept c s) (ht : Touch c T q s y) : LedgerKept c y := by
  cases ht with
  | @skip n reason hn hp why =>
      refine h.close (e := .nodeSkipped n.id reason) hnd hn ⟨rfl, rfl, rfl⟩ (by rw [hp]; rfl)
        (by rw [Core.put_status_self]; rfl) (by rw [Core.put_status_self]; exact fun h => by cases h)
        (fun x hx => by rw [Core.put_status, if_neg hx]) (ledgerOf_snoc _ _) rfl fun key f hf hu hid => ?_
      exact ((hS.flight key f hf).2.2.not_completed hu.going).2 (by rw [hid]; exact hp)
  | @prepare n hn hp hd =>
      -- a planned node has not ended, or the store knows it
      have hst : ∀ x, x ≠ n.id → (s.put n.id { s.nodes n.id with status := .ready }
          [.event (.nodeReady n.id)]).status x = s.status x := fun x hx => by
        rw [Core.put_status, if_neg hx]
      have hl : ledgerOf (s.put n.id { s.nodes n.id with status := .ready }
          [.event (.nodeReady n.id)]).trace = ledgerOf s.trace ++ [.nodeReady n.id] :=
        ledgerOf_snoc _ _
      have hplain : (WorkflowEvent.nodeReady n.id).Plain := ⟨rfl, rfl⟩
      have hs : s.status n.id ≠ .completed := by
        rw [hp]
        decide
      refine h.own hnd hn hst hl (allAbout_of_ends_none rfl)
        (justified_snoc.mpr ⟨h.follows, hplain.follows _⟩) ?_ (fun key f hf hu => .inl ⟨fun hid => ?_, hf⟩)
        (fun _ hk => hk) (fun he => ?_) fun he _ => ?_
      · rw [Core.put_status_self]
        refine ⟨fun ⟨x, hx, hcx⟩ => ?_, fun hcomp => by cases hcomp⟩
        rcases List.mem_append.mp hx with hx | hx
        · exact absurd hcx (h.not_completes hn hs x hx)
        · rw [List.mem_singleton.mp hx] at hcx
          cases hcx
      · exact ((hS.flight key f hf).2.2.not_completed hu.going).2 (by rw [hid]; exact hp)
      · rw [hasEnded_snoc_none rfl] at he
        rcases h.ended n hn he with ht | hk
        · rw [hp] at ht
          cases ht
        · exact .inr hk
      · rw [hasEnded_snoc_none rfl] at he
        exact h.undone n hn he (by rw [hp]; rfl)
  | @cancel n reason hn hq' ht =>
      refine h.close (e := .nodeCancelled n.id reason) hnd hn ⟨rfl, rfl, rfl⟩ ht
        (by rw [Core.put_status_self]; rfl) (by rw [Core.put_status_self]; exact fun h => by cases h)
        (fun x hx => by rw [Core.put_status, if_neg hx]) (ledgerOf_snoc _ _) rfl fun key f hf hu _ => ?_
      obtain ⟨err, he⟩ := hq hq' key f hf
      exact hu.going err he
  | @note e he =>
      refine h.plain (fun _ => rfl) (E := [e]) (ledgerOf_snoc _ _) (fun x hx => ?_)
        (fun key f hf hu => ⟨f, hf, hu, rfl⟩) fun _ hk => hk
      rw [List.mem_singleton.mp hx]
      cases e <;> first | exact ⟨rfl, rfl⟩ | exact he.elim

theorem LedgerKept.spread (hnd : (c.graph.map (·.id)).Nodup) (hS : Core.Sound c s)
    (h : LedgerKept c s) (hsp : Spread c T False s y) : LedgerKept c y := by
  have hall : Core.Sound c y ∧ LedgerKept c y := by
    induction hsp with
    | refl => exact ⟨hS, h⟩
    | tail _ ht ih => exact ⟨ih.1.touch False.elim hnd ht, ih.2.touch hnd ih.1 False.elim ht⟩
  exact hall.2

end Touches

/-! ## 7. Every life -/

section Lives

variable {c : Context} {cut : List WorkflowEvent} {n : WorkflowNode}

theorem ends_status {id : NodeId} (snap : NodeSnapshot) {e : WorkflowEvent} (h : e.ends = some id) :
    (snapStep id snap e).status.isTerminal = true ∧
      ((snapStep id snap e).status = .completed ↔ e.completes = some id) := by
  cases e <;> simp only [WorkflowEvent.ends, Option.some.injEq, reduceCtorEq] at h <;> subst h <;>
    simp [snapStep, WorkflowEvent.payload, WorkflowEvent.type, snapshotWrite, NodeStatus.isTerminal,
      WorkflowEvent.completes]

theorem snapStep_status {id : NodeId} (snap : NodeSnapshot) {e : WorkflowEvent}
    (h : e.ends ≠ some id) : (snapStep id snap e).status = snap.status ∨
      (e.works = some id ∧ (snapStep id snap e).status.isTerminal = false) := by
  by_cases hid : e.payload.nodeId = some id
  · cases e <;> simp_all [snapStep, WorkflowEvent.payload, WorkflowEvent.type, snapshotWrite,
      WorkflowEvent.ends, WorkflowEvent.works, NodeStatus.isTerminal]
  · rw [snapStep, if_neg hid]
    exact .inl rfl

/-- **The last event of a node tells whether it has ended**, and whether it has completed. -/
theorem snapOf_ended (id : NodeId) : ∀ {cut : List WorkflowEvent}, Justified (Follows c) cut →
    ((snapOf id cut).status.isTerminal = true ↔ HasEnded cut id) ∧
    ((snapOf id cut).status = .completed ↔ ∃ e ∈ cut, e.completes = some id) := by
  intro cut
  induction cut using List.reverseRecOn with
  | nil =>
      intro _
      simp [snapOf, NodeStatus.isTerminal, not_hasEnded_nil]
  | append_singleton past e ih =>
      intro h
      obtain ⟨hpast, he⟩ := justified_snoc.mp h
      obtain ⟨iht, ihc⟩ := ih hpast
      rw [snapOf_snoc]
      by_cases hend : e.ends = some id
      · obtain ⟨ht, hc⟩ := ends_status (snapOf id past) hend
        refine ⟨⟨fun _ => ⟨e, by simp, hend⟩, fun _ => ht⟩, ?_⟩
        rw [hc]
        refine ⟨fun hcomp => ⟨e, by simp, hcomp⟩, ?_⟩
        rintro ⟨x, hx, hcx⟩
        rcases List.mem_append.mp hx with hx | hx
        · exact absurd hcx (he.ends id hend x hx)
        · rw [List.mem_singleton.mp hx] at hcx
          exact hcx
      · have hne : e.completes ≠ some id := fun hc => hend (WorkflowEvent.ends_of_completes hc)
        have hmem : (∃ x ∈ past ++ [e], x.completes = some id) ↔ ∃ x ∈ past, x.completes = some id := by
          simp [or_and_right, exists_or, hne]
        have hended : HasEnded (past ++ [e]) id ↔ HasEnded past id := by
          simp [HasEnded, or_and_right, exists_or, hend]
        rw [hended, hmem, ← iht, ← ihc]
        rcases snapStep_status (snapOf id past) hend with hsame | ⟨hw, ht⟩
        · rw [hsame]
          exact ⟨Iff.rfl, Iff.rfl⟩
        · -- an event at work comes before every terminal one
          have hno : ¬ HasEnded past id := by
            rintro ⟨x, hx, hxe⟩
            exact he.works id hw x hx hxe
          have hopen : (snapOf id past).status.isTerminal = false := by
            rw [← Bool.not_eq_true, iht]
            exact hno
          refine ⟨by rw [ht, hopen], fun hc => ?_, fun hc => ?_⟩
          · rw [hc] at ht
            cases ht
          · rw [hc] at hopen
            cases hopen

theorem LedgerKept.initial (w : World) : LedgerKept c (State.initial c w).core := by
  have hl : ledgerOf (State.initial c w).core.trace = [.runCreated c.runId c.taskId c.graph] := rfl
  have hno : ∀ id, ¬ HasEnded (ledgerOf (State.initial c w).core.trace) id := by
    intro id ⟨e, he, hend⟩
    rw [hl] at he
    cases List.mem_singleton.mp he
    cases hend
  refine ⟨?_, fun n hn => ?_, fun key f hf => ?_, fun n hn he => absurd he (hno _),
    fun n hn he => absurd he (hno _)⟩
  · rw [hl]
    exact justified_snoc.mpr ⟨.nil, WorkflowEvent.Plain.follows ⟨rfl, rfl⟩ _⟩
  · refine ⟨fun ⟨e, he, hc⟩ => absurd ⟨e, he, WorkflowEvent.ends_of_completes hc⟩ (hno _),
      fun hc => by cases hc⟩
  · cases hf

/-- **What is rebuilt from an initial part of a kept ledger keeps it.** -/
theorem LedgerKept.resumed {s₀ : State} {w : World} {jobs : List WorkflowJob}
    (hnd : (c.graph.map (·.id)).Nodup) (hid : ∀ n ∈ c.graph, n.id ≠ "")
    (hcut : Justified (Follows c) cut) (h : State.resumed c w cut jobs s₀) : LedgerKept c s₀.core := by
  obtain ⟨core, hh, rfl⟩ := h
  obtain ⟨mid, hsp, hmid, htrace, hnodes⟩ := hydrate_own hnd hh
  have hl : ledgerOf mid.trace = cut := by rw [htrace, ledgerOf_map_event]
  have hst : ∀ n ∈ c.graph, mid.status n.id = (restored {} (snapOf n.id cut)).status := fun n hn => by
    rw [Core.status_eq, hnodes n hn (hid n hn)]
  have hended : ∀ n ∈ c.graph, HasEnded cut n.id → (mid.status n.id).isTerminal = true := by
    intro n hn he
    have ht := (snapOf_ended n.id hcut).1.mpr he
    rw [hst n hn, restored_terminal ht]
    exact ht
  refine LedgerKept.spread hnd hmid.sound ⟨by rw [hl]; exact hcut, fun n hn => ?_, fun key f hf => ?_,
    fun n hn he => .inl (hended n hn (hl ▸ he)), fun n hn he hf => ?_⟩ hsp
  · rw [hl, ← (snapOf_ended n.id hcut).2, hst n hn]
    by_cases ht : (snapOf n.id cut).status.isTerminal = true
    · rw [restored_terminal ht]
    · rw [Bool.not_eq_true] at ht
      rw [restored_open ht]
      refine ⟨fun hc => ?_, fun hc => by cases hc⟩
      rw [hc] at ht
      cases ht
  · rw [hmid.still key] at hf
    cases hf
  · rw [hended n hn (hl ▸ he)] at hf
    cases hf

/-- **Every step keeps it.** -/
theorem LedgerKept.step {s s' : State} {l : Label} (hv : validateGraph c.graph = .ok ())
    (hS : State.Sound c s) (h : LedgerKept c s.core) (hs : step c s l = some s') :
    LedgerKept c s'.core := by
  have hnd := validateGraph_nodup hv
  exact (step_core hS hnd hs).keeps hnd hS.core (fun z ha => h.act hv hS.core ha)
    (fun z z' T q hSz hq hz ht => hz.touch hnd hSz (fun h => (hq h).1) ht)
    (fun z id st _ hz => hz.idle (fun _ => rfl) (by simp) rfl)

/-- **Every life keeps it.** -/
theorem ledger_kept (hv : validateGraph c.graph = .ok ()) (hid : ∀ n ∈ c.graph, n.id ≠ "")
    {s : State} (h : Lives c (fun _ _ => True) (JobsOf c) s) : LedgerKept c s.core := by
  have hnd := validateGraph_nodup hv
  refine (h.invariant (I := fun s => State.Sound c s ∧ LedgerKept c s.core)
    (fun w => ⟨initial_sound w, .initial w⟩) (fun hI hr => ?_) fun hI hcut hjobs hs₀ => ?_).2
  · exact Run.invariant (I := fun s => State.Sound c s ∧ LedgerKept c s.core) hI
      (fun s l s' hI _ hs => ⟨hI.1.step hnd hs, hI.2.step hv hI.1 hs⟩) hr
  · obtain ⟨rest, hrest⟩ := hcut
    refine ⟨(hs₀.begins hjobs).sound hnd, .resumed hnd hid ?_ hs₀⟩
    have hall := hI.2.follows
    rw [← hrest] at hall
    exact hall.cut

/-- **The order of the ledger**, over every run, every crash and every redelivery, of a graph
    without an empty node id. -/
theorem ledger_ordered (hv : validateGraph c.graph = .ok ()) (hid : ∀ n ∈ c.graph, n.id ≠ "")
    {s : State} (h : Lives c (fun _ _ => True) (JobsOf c) s) :
    Justified (Ordered c) (ledgerOf s.core.trace) :=
  (ledger_kept hv hid h).follows.mono fun _ _ he => he.ordered

end Lives

/-- The first node. -/
def buildNode : WorkflowNode := { id := "build", kind := .action, action := some "build", deps := [] }

/-- It goes one way if the build has succeeded, and the other way if not. -/
def gateNode : WorkflowNode :=
  { id := "gate", kind := .conditional, deps := ["build"]
    condition := some ⟨.verdict "build" .success, ["publish"], some ["revert"]⟩ }

/-- A second node behind the build. -/
def lintNode : WorkflowNode :=
  { id := "lint", kind := .action, action := some "lint", deps := ["build"] }

/-- The one way. -/
def publishNode : WorkflowNode :=
  { id := "publish", kind := .action, action := some "publish", deps := ["gate", "lint"] }

/-- The other way. -/
def revertNode : WorkflowNode :=
  { id := "revert", kind := .action, action := some "revert", deps := ["gate"] }

/-- A diamond: behind the build a gate and a lint, side by side, and behind both the publication.
    What the gate does not choose is skipped. -/
def pipelineContext : Context :=
  { limits := defaultBulkhead, compensations := .empty, sha256 := fun s => s
    runId := "run", taskId := "task"
    graph := [buildNode, gateNode, lintNode, publishNode, revertNode] }

/-- Nothing needs approval, and no guard stops anything. -/
def quietWorld : World := ⟨fun _ => false, fun _ _ _ => none⟩

/-- An answer to the operation of a node. -/
def pipelineFlight (n : WorkflowNode) (a : Answer) : Label := .flight (keyOf pipelineContext n) a

/-- The build, from its enqueueing up to the end of its dispatch. -/
def pipelineBuilt : List Label :=
  [.drive, .drive, .drive, .worker 0 .tick] ++
    [.tick, .run (.resolved ⟨.success, .obj [], []⟩), .tick, .tick].map (pipelineFlight buildNode) ++
    [.worker 0 .tick] ++ (List.range 8).map (.worker · .tick)

/-- Two workers take the gate and the lint. -/
def pipelineForked : List Label :=
  [.drive, .drive, .drive, .drive, .worker 0 .tick, .worker 1 .tick]

/-- The gate passes while the lint fails, and the run comes to its end. -/
def pipelineEnds : List Label :=
  [pipelineFlight lintNode .tick, pipelineFlight gateNode .tick,
    pipelineFlight lintNode (.run (.rejected "unused import")), pipelineFlight gateNode .tick,
    pipelineFlight lintNode .tick, pipelineFlight gateNode .tick, pipelineFlight lintNode .tick,
    .worker 1 .tick, .worker 0 .tick] ++ (List.range 8).map (.worker · .tick) ++ [.drive, .drive]

/-- The run to its end. -/
def pipelineRun : List Label := pipelineBuilt ++ pipelineForked ++ pipelineEnds

/-- What the ledger has by then. -/
def pipelineLedger : List WorkflowEvent :=
  ledgerAfter pipelineContext quietWorld (pipelineBuilt ++ pipelineForked)

/-- A process that crashes while the gate and the lint run, and one that resumes and comes to the
    end. -/
theorem ledger_ordered_pipeline : ∃ s, Lives pipelineContext (fun _ _ => True)
      (JobsOf pipelineContext) s ∧ s.drive = .resolved ∧
    Justified (Ordered pipelineContext) (ledgerOf s.core.trace) := by
  obtain ⟨s₁, hs₁, hcut⟩ : ∃ s, exec (step pipelineContext) (.initial pipelineContext quietWorld)
      (pipelineBuilt ++ pipelineForked) = some s ∧ ledgerOf s.core.trace = pipelineLedger :=
    exec_ledgerAfter (by decide)
  obtain ⟨s, hs, hd⟩ := Option.map_eq_some_iff.mp (show (exec (step pipelineContext)
    (.launch (rebuilt pipelineContext quietWorld pipelineLedger) [])
      (pipelineForked ++ pipelineEnds)).map (·.drive) = some .resolved by rfl)
  have hlife : Lives pipelineContext (fun _ _ => True) (JobsOf pipelineContext) s :=
    .again (.first (run_of_exec (fun _ _ => trivial) hs₁)) (hcut ▸ List.prefix_refl _)
      (fun _ hj => by cases hj) (rebuilt_resumed [] rfl) (run_of_exec (fun _ _ => trivial) hs)
  exact ⟨s, hlife, hd, ledger_ordered (by rfl) (by decide) hlife⟩

/-- One action node with the id `id`. -/
def soloNode (id : NodeId) : WorkflowNode :=
  { id := id, kind := .action, action := some "send", deps := [] }

/-- A graph of one node. -/
def soloContext (id : NodeId) : Context :=
  { limits := defaultBulkhead, compensations := .empty, sha256 := fun s => s
    runId := "run", taskId := "task", graph := [soloNode id] }

/-- Enqueue, dispatch, dequeue, and the execution up to the completion of the node. -/
def soloLabels (id : NodeId) : List Label :=
  [.drive, .drive, .drive, .worker 0 .tick] ++
    [.tick, .run (.resolved ⟨.success, .obj [], []⟩), .tick, .tick].map
      (.flight (keyOf (soloContext id) (soloNode id))) ++ [.worker 0 .tick]

/-- What its run has left in the ledger. -/
def soloLedger (id : NodeId) : List WorkflowEvent :=
  ledgerAfter (soloContext id) quietWorld (soloLabels id)

/-- Whether a ledger completes a node a second time. -/
def completesAgain (log : List WorkflowEvent) : Bool :=
  (List.range log.length).any fun i =>
    match log[i]? with
    | some (.nodeCompleted id ..) => (log.take i).any fun e => e.completes = some id
    | _ => false

theorem not_ordered_of_completesAgain {c : Context} {log : List WorkflowEvent}
    (h : completesAgain log = true) : ¬ Justified (Ordered c) log := by
  intro hj
  obtain ⟨i, -, hi⟩ := List.any_eq_true.mp h
  split at hi
  · rename_i hget
    obtain ⟨e, he, hc⟩ := List.any_eq_true.mp hi
    exact hj.get hget e he (of_decide_eq_true hc)
  · cases hi

/-- A node with an empty id runs and completes again after a crash. -/
theorem empty_id_completes_again : ∃ c s, validateGraph c.graph = .ok () ∧
    Lives c (fun _ _ => True) (JobsOf c) s ∧ ¬ Justified (Ordered c) (ledgerOf s.core.trace) := by
  obtain ⟨s₁, hs₁, hcut⟩ : ∃ s, exec (step (soloContext "")) (.initial (soloContext "") quietWorld)
      (soloLabels "") = some s ∧ ledgerOf s.core.trace = soloLedger "" := exec_ledgerAfter (by decide)
  obtain ⟨s, hs, hagain⟩ := Option.map_eq_some_iff.mp (show (exec (step (soloContext ""))
    (.launch (rebuilt (soloContext "") quietWorld (soloLedger "")) []) (soloLabels "")).map
      (fun s => completesAgain (ledgerOf s.core.trace)) = some true by decide)
  refine ⟨soloContext "", s, rfl, ?_, not_ordered_of_completesAgain hagain⟩
  exact .again (.first (run_of_exec (fun _ _ => trivial) hs₁)) (hcut ▸ List.prefix_refl _)
    (fun _ hj => by cases hj) (rebuilt_resumed [] rfl) (run_of_exec (fun _ _ => trivial) hs)

end AgentKernel.Orchestrator
