/-
  File:      AgentKernel/Orchestrator/Replay.lean
  Subject:   Reading the ledger of a run back: the snapshot it leaves for one node, and the lives
             of a run whose process crashes and is resumed.

  `hydrate` folds all events into one map. For a run's own ledger that map is, node by node, the
  fold of that node's events (`snapOf`, `scan_own`), as long as the node's id is not empty:
  `hydrate` takes an empty id for no id. `Lives` are the processes of one run, each resumed from an
  initial part of the ledger the one before it has left.
-/
import AgentKernel.Orchestrator.Start

namespace AgentKernel.Orchestrator

open Lib

/-! ## 1. The ledger of a trace -/

section Ledger

@[simp] theorem ledgerOf_nil : ledgerOf [] = [] := rfl

@[simp] theorem ledgerOf_append (a b : List Obs) :
    ledgerOf (a ++ b) = ledgerOf a ++ ledgerOf b := List.filterMap_append

@[simp] theorem ledgerOf_event (e : WorkflowEvent) (l : List Obs) :
    ledgerOf (.event e :: l) = e :: ledgerOf l := rfl

@[simp] theorem ledgerOf_called (k : Nat) (n : NodeId) (p : Purpose) (a : String) (i : Option Json)
    (b : Bool) (l : List Obs) : ledgerOf (.called k n p a i b :: l) = ledgerOf l := rfl

@[simp] theorem ledgerOf_settled (k : Nat) (n : NodeId) (p : Purpose) (o : RunOutcome)
    (l : List Obs) : ledgerOf (.settled k n p o :: l) = ledgerOf l := rfl

@[simp] theorem ledgerOf_approval (n : NodeId) (a : String) (g : Bool) (l : List Obs) :
    ledgerOf (.approval n a g :: l) = ledgerOf l := rfl

@[simp] theorem ledgerOf_illegal (n : NodeId) (st : NodeStatus) (e : NodeEvent) (l : List Obs) :
    ledgerOf (.illegal n st e :: l) = ledgerOf l := rfl

theorem ledgerOf_snoc (l : List Obs) (e : WorkflowEvent) :
    ledgerOf (l ++ [.event e]) = ledgerOf l ++ [e] := ledgerOf_append _ _

@[simp] theorem ledgerOf_map_event (es : List WorkflowEvent) : ledgerOf (es.map .event) = es := by
  induction es with
  | nil => rfl
  | cons e es ih => rw [List.map_cons, ledgerOf_event, ih]

theorem mem_ledgerOf {e : WorkflowEvent} {trace : List Obs} :
    e ∈ ledgerOf trace ↔ .event e ∈ trace := by
  unfold ledgerOf
  rw [List.mem_filterMap]
  constructor
  · intro ⟨o, ho, he⟩
    split at he
    · cases he
      exact ho
    · cases he
  · exact fun h => ⟨_, h, rfl⟩

end Ledger

/-! ## 2. The snapshot of one node -/

/-- What an event of the run makes of the snapshot of `id`. -/
def snapStep (id : NodeId) (snap : NodeSnapshot) (e : WorkflowEvent) : NodeSnapshot :=
  if e.payload.nodeId = some id then (snapshotWrite e.type e.payload snap).getD snap else snap

/-- The snapshot a ledger leaves for the node `id`. -/
def snapOf (id : NodeId) (events : List WorkflowEvent) : NodeSnapshot :=
  events.foldl (snapStep id) { nodeId := id }

section Snapshot

variable {c : Context} {id : NodeId} {events : List WorkflowEvent} {e : WorkflowEvent}

theorem snapOf_snoc : snapOf id (events ++ [e]) = snapStep id (snapOf id events) e := by
  simp [snapOf]

/-- An event of the run itself is read as it was emitted, unless its node has the empty id. -/
theorem readStep_own {snap : NodeSnapshot} (hid : id ≠ "") :
    readStep id snap (e.toLedger c.taskId c.runId) = snapStep id snap e := by
  have htruthy : truthy e.payload.nodeId = some id ↔ e.payload.nodeId = some id := by
    cases hn : e.payload.nodeId with
    | none => simp [truthy]
    | some x =>
        by_cases hx : x = ""
        · have hne : ¬ x = id := fun h => hid (h ▸ hx)
          simp [truthy, Option.filter, hx, hid.symm]
        · simp [truthy, Option.filter, hx]
  show (if truthy e.payload.nodeId = some id then _ else _) = _
  simp only [htruthy]
  rfl

theorem readSnap_own (hid : id ≠ "") : readSnap id (ledgerEvents c events) = snapOf id events := by
  unfold readSnap ledgerEvents snapOf
  rw [List.foldl_map]
  simp only [readStep_own hid]

theorem scanLoop_own (events : List WorkflowEvent) (sc : Scan) :
    ∃ sc', (ledgerEvents c events).foldlM scanEvent sc = .ok sc' ∧
      ((∀ e ∈ events, e.type ≠ .runCreated) →
        sc'.graph = sc.graph ∧ sc'.runId = sc.runId ∧ sc'.taskId = sc.taskId) := by
  have hpayload : ∀ e ∈ ledgerEvents c events, e.payload ≠ .nullish := by
    intro e he hp
    obtain ⟨x, -, rfl⟩ := List.mem_map.mp he
    cases hp
  obtain ⟨sc', h⟩ := scanLoop_ok sc hpayload
  refine ⟨sc', h, fun hno => (scanLoop_reads h).2 fun e he => ?_⟩
  obtain ⟨x, hx, rfl⟩ := List.mem_map.mp he
  exact hno x hx

/-- **The run's own ledger, read back**: node by node the snapshot is the fold of its events. -/
theorem scan_own (events : List WorkflowEvent) : ∃ sc, scan (ledgerEvents c events) = .ok sc ∧
    sc.snapshots.Unique ∧ ∀ id, id ≠ "" →
      (sc.snapshots.get id).getD { nodeId := id } = snapOf id events := by
  obtain ⟨sc, h, -⟩ := scanLoop_own (c := c) events {}
  obtain ⟨hu, hread⟩ := scan_reads h
  exact ⟨sc, h, hu, fun id hid => by rw [hread, readSnap_own hid]⟩

end Snapshot

/-! ## 3. What every snapshot has -/

section Snapshots

variable {c : Context} {P : NodeSnapshot → Prop}

theorem Snapshots.mem_set {m : Snapshots} {snap x : NodeSnapshot} (h : x ∈ m.set snap) :
    x = snap ∨ x ∈ m := by
  induction m with
  | nil => exact .inl (List.mem_singleton.mp h)
  | cons y rest ih =>
      unfold Snapshots.set at h
      split_ifs at h
      · exact (List.mem_cons.mp h).imp_right (List.mem_cons_of_mem _)
      · rcases List.mem_cons.mp h with rfl | h
        · exact .inr List.mem_cons_self
        · exact (ih h).imp_right (List.mem_cons_of_mem _)

theorem applyEventToSnapshot_all {m : Snapshots} {id : NodeId} {type : EventType} {p : PayloadFields}
    (h₀ : P { nodeId := id }) (h : ∀ snap ∈ m, P snap)
    (hw : ∀ snap snap', snap.nodeId = id → P snap → snapshotWrite type p snap = some snap' → P snap') :
    ∀ snap ∈ applyEventToSnapshot id type p m, P snap := by
  have hbase : ((m.get id).getD { nodeId := id }).nodeId = id ∧ P ((m.get id).getD { nodeId := id }) := by
    cases hg : m.get id with
    | none => exact ⟨rfl, h₀⟩
    | some snap =>
        exact ⟨by simpa using List.find?_some hg, h snap (List.mem_of_find?_eq_some hg)⟩
  unfold applyEventToSnapshot
  split
  · rename_i snap' hwrite
    intro snap hmem
    rcases Snapshots.mem_set hmem with rfl | hmem
    · exact hw _ _ hbase.1 hbase.2 hwrite
    · exact h snap hmem
  · exact h

/-- **The rule for snapshots**: what an empty snapshot has and every event of its node keeps. -/
theorem scanLoop_all (h₀ : ∀ id, P { nodeId := id }) : ∀ {events : List WorkflowEvent} {sc sc' : Scan},
    (∀ e ∈ events, ∀ snap snap', e.payload.nodeId = some snap.nodeId → P snap →
      snapshotWrite e.type e.payload snap = some snap' → P snap') →
    (∀ snap ∈ sc.snapshots, P snap) → (ledgerEvents c events).foldlM scanEvent sc = .ok sc' →
    ∀ snap ∈ sc'.snapshots, P snap
  | [], sc, sc', _, h, hs => by
      cases hs
      exact h
  | e :: rest, sc, sc', hw, h, hs => by
      rw [ledgerEvents, List.map_cons, List.foldlM_cons] at hs
      cases he : scanEvent sc (e.toLedger c.taskId c.runId) with
      | error m =>
          rw [he] at hs
          cases hs
      | ok sc₁ =>
          rw [he] at hs
          refine scanLoop_all h₀ (fun x hx => hw x (List.mem_cons_of_mem _ hx)) ?_ hs
          unfold scanEvent WorkflowEvent.toLedger at he
          dsimp only at he
          split_ifs at he
          · cases he
            exact h
          · split at he
            · cases he
              exact h
            · rename_i id hid
              cases he
              have hnode := (Option.filter_eq_some_iff.mp hid).1
              exact applyEventToSnapshot_all (h₀ id) h fun snap snap' hs hP =>
                hw e List.mem_cons_self snap snap' (hs ▸ hnode) hP

theorem scan_all {events : List WorkflowEvent} {sc : Scan} (h₀ : ∀ id, P { nodeId := id })
    (hw : ∀ e ∈ events, ∀ snap snap', e.payload.nodeId = some snap.nodeId → P snap →
      snapshotWrite e.type e.payload snap = some snap' → P snap')
    (hs : scan (ledgerEvents c events) = .ok sc) : ∀ snap ∈ sc.snapshots, P snap :=
  scanLoop_all h₀ hw (fun _ hx => absurd hx List.not_mem_nil) hs

end Snapshots

/-! ## 4. What is rebuilt of one node -/

section Rebuilding

variable {c : Context} {w : World} {events : List WorkflowEvent} {trace : List Obs} {core : Core}
  {n : WorkflowNode}

/-- **Hydrating the run's own ledger**: every node is what its events make of it, and touches
    follow. -/
theorem hydrate_restored (hnd : (c.graph.map (·.id)).Nodup)
    (h : hydrate c.toOptions w trace (ledgerEvents c events) = .ok (c, core)) :
    ∃ sc, scan (ledgerEvents c events) = .ok sc ∧
      Spread c [] False (restore c sc.snapshots (Core.fresh w trace)) core ∧
      ∀ n ∈ c.graph, n.id ≠ "" →
        (restore c sc.snapshots (Core.fresh w trace)).nodes n.id = restored {} (snapOf n.id events) := by
  obtain ⟨sc, hsc, -, hsp⟩ := hydrate_spread h
  obtain ⟨sc', hsc', hu, hsnap⟩ := scan_own (c := c) events
  obtain rfl : sc = sc' := by
    rw [hsc] at hsc'
    exact Except.ok.inj hsc'
  refine ⟨sc, hsc, hsp, fun n hn hid => ?_⟩
  rw [restore_nodes hnd hn hu, ← hsnap n.id hid]
  cases sc.snapshots.get n.id <;> rfl

/-- Nothing is in flight in what the touches start from. -/
theorem hydrate_own (hnd : (c.graph.map (·.id)).Nodup)
    (h : hydrate c.toOptions w trace (ledgerEvents c events) = .ok (c, core)) :
    ∃ mid, Spread c [] False mid core ∧ Rebuilt mid ∧ mid.trace = trace ∧
      ∀ n ∈ c.graph, n.id ≠ "" → mid.nodes n.id = restored {} (snapOf n.id events) := by
  obtain ⟨sc, -, hsp, hnodes⟩ := hydrate_restored hnd h
  exact ⟨_, hsp, (rebuilt_fresh w trace).restore _, (restore_frame _ _).trace, hnodes⟩

/-- A terminal snapshot is restored with its status. -/
theorem restored_terminal {snap : NodeSnapshot} (ht : snap.status.isTerminal = true) :
    (restored {} snap).status = snap.status := by
  unfold restored
  split
  · rename_i hs _
    exact hs.symm
  · split_ifs with h₁
    · exact h₁.symm
    · rfl

theorem restored_open {snap : NodeSnapshot} (ht : snap.status.isTerminal = false) :
    (restored {} snap).status = .planned := by
  unfold restored
  split
  · rename_i hs _
    rw [hs] at ht
    cases ht
  · split_ifs with h₁ h₂
    · rw [h₁] at ht
      cases ht
    · rw [h₂] at ht
      cases ht
    · rfl

end Rebuilding

/-! ## 5. The lives of a run -/

/-- The processes of one run: the first one starts it, each further one resumes it from an initial
    part of the ledger its predecessor has left. Steps meet `ok`; `old` are the jobs the queue still
    holds when a process resumes. -/
inductive Lives (c : Context) (ok : State → Label → Prop) (old : List WorkflowJob → Prop) :
    State → Prop where
  | first {w : World} {ls : List Label} {s : State} (h : Run (step c) ok (.initial c w) ls s) :
      Lives c ok old s
  | again {s s₀ s' : State} {w : World} {cut : List WorkflowEvent} {jobs : List WorkflowJob}
      {ls : List Label} (hl : Lives c ok old s) (hcut : cut <+: ledgerOf s.core.trace)
      (hjobs : old jobs) (hs₀ : State.resumed c w cut jobs s₀) (h : Run (step c) ok s₀ ls s') :
      Lives c ok old s'

/-- The queue may hold any jobs of the run's nodes. -/
def JobsOf (c : Context) (jobs : List WorkflowJob) : Prop := ∀ job ∈ jobs, ∃ n, JobOf c job n

section Lives

variable {c : Context} {ok : State → Label → Prop} {s s₀ : State} {w : World}
  {cut : List WorkflowEvent} {jobs : List WorkflowJob}

theorem State.resumed.begins (hjobs : JobsOf c jobs) (h : State.resumed c w cut jobs s₀) :
    Begins c s₀ := by
  obtain ⟨core, hh, rfl⟩ := h
  exact .inr ⟨_, w, cut, _, core, jobs, hh, hjobs, rfl⟩

/-- **The rule for lives**: what the first process starts with, every run keeps and every process
    finds again in what it is rebuilt from. -/
theorem Lives.invariant {old : List WorkflowJob → Prop} {I : State → Prop}
    (hfirst : ∀ w, I (.initial c w)) (hrun : ∀ {s₀ ls s}, I s₀ → Run (step c) ok s₀ ls s → I s)
    (hagain : ∀ {s s₀ w cut jobs}, I s → cut <+: ledgerOf s.core.trace → old jobs →
      State.resumed c w cut jobs s₀ → I s₀) (h : Lives c ok old s) : I s := by
  induction h with
  | first h => exact hrun (hfirst _) h
  | again _ hcut hjobs hs₀ h ih => exact hrun (hagain ih hcut hjobs hs₀) h

end Lives

/-! ## 6. Lives that are computed -/

/-- The ledger that the run along `ls` leaves. -/
def ledgerAfter (c : Context) (w : World) (ls : List Label) : List WorkflowEvent :=
  ((exec (step c) (.initial c w) ls).map fun s => ledgerOf s.core.trace).getD []

/-- What `hydrate` makes of the run's own ledger. -/
def rebuilt (c : Context) (w : World) (cut : List WorkflowEvent) : Core :=
  match hydrate c.toOptions w (cut.map .event) (ledgerEvents c cut) with
  | .ok (_, core) => core
  | .error _ => .fresh w []

theorem exec_ledgerAfter {c : Context} {w : World} {ls : List Label}
    (h : (exec (step c) (.initial c w) ls).isSome = true) :
    ∃ s, exec (step c) (.initial c w) ls = some s ∧ ledgerOf s.core.trace = ledgerAfter c w ls := by
  obtain ⟨s, hs⟩ := Option.isSome_iff_exists.mp h
  exact ⟨s, hs, by rw [ledgerAfter, hs]; rfl⟩

theorem rebuilt_resumed {c : Context} {w : World} {cut : List WorkflowEvent}
    (jobs : List WorkflowJob) (h : hydrate c.toOptions w (cut.map .event) (ledgerEvents c cut) =
      .ok (c, rebuilt c w cut)) :
    State.resumed c w cut jobs (.launch (rebuilt c w cut) jobs) := ⟨_, h, rfl⟩

end AgentKernel.Orchestrator
