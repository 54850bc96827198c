/-
  File:      AgentKernel/Orchestrator/Start.lean
  Subject:   How an executor process begins: with `run`, or with `hydrate` and `resume`.

  `restore_nodes` reads one node of a rebuilt executor off that node's snapshot. Whatever ledger
  `hydrate` accepts, the executor it builds satisfies the invariant of every run (`Begins.sound`).
-/
import AgentKernel.Orchestrator.Hydrate
import AgentKernel.Orchestrator.Sound

namespace AgentKernel.Orchestrator

/-! ## 1. The snapshots of a ledger -/

/-- The snapshot map has one entry per node id. -/
def Snapshots.Unique (m : Snapshots) : Prop := (m.map (·.nodeId)).Nodup

section Snapshots

theorem Snapshots.mem_map_set {m : Snapshots} {snap : NodeSnapshot} {id : NodeId} :
    id ∈ (m.set snap).map (·.nodeId) ↔ id = snap.nodeId ∨ id ∈ m.map (·.nodeId) := by
  induction m with
  | nil => simp [Snapshots.set]
  | cons s rest ih =>
      unfold Snapshots.set
      split_ifs with hs
      · have hs' : s.nodeId = snap.nodeId := by simpa using hs
        simp [hs']
      · simp only [List.map_cons, List.mem_cons, ih]
        tauto

theorem Snapshots.Unique.set {m : Snapshots} (h : m.Unique) (snap : NodeSnapshot) :
    (m.set snap).Unique := by
  induction m with
  | nil => simp [Snapshots.Unique, Snapshots.set]
  | cons s rest ih =>
      obtain ⟨hs, hrest⟩ := List.nodup_cons.mp h
      unfold Snapshots.set
      split_ifs with heq
      · have heq' : s.nodeId = snap.nodeId := by simpa using heq
        refine List.nodup_cons.mpr ⟨?_, hrest⟩
        show snap.nodeId ∉ _
        rw [← heq']
        exact hs
      · have hne : s.nodeId ≠ snap.nodeId := by simpa using heq
        refine List.nodup_cons.mpr ⟨fun hmem => ?_, ih hrest⟩
        rcases Snapshots.mem_map_set.mp hmem with he | he
        · exact hne he
        · exact hs he

theorem applyEventToSnapshot_unique {m : Snapshots} (h : m.Unique) (nodeId : NodeId)
    (type : EventType) (p : PayloadFields) : (applyEventToSnapshot nodeId type p m).Unique := by
  unfold applyEventToSnapshot
  split
  · exact h.set _
  · exact h

theorem scanEvent_unique {sc sc' : Scan} {e : LedgerEventLike} (h : sc.snapshots.Unique)
    (hs : scanEvent sc e = .ok sc') : sc'.snapshots.Unique := by
  unfold scanEvent at hs
  split at hs
  · cases hs
  · split_ifs at hs
    · cases hs
      exact h
    · split at hs
      · cases hs
        exact h
      · cases hs
        exact applyEventToSnapshot_unique h _ _ _

theorem scanLoop_unique : ∀ {events : List LedgerEventLike} {sc sc' : Scan},
    sc.snapshots.Unique → events.foldlM scanEvent sc = .ok sc' → sc'.snapshots.Unique
  | [], sc, sc', h, hs => by
      cases hs
      exact h
  | e :: rest, sc, sc', h, hs => by
      rw [List.foldlM_cons] at hs
      cases he : scanEvent sc e with
      | error err =>
          rw [he] at hs
          cases hs
      | ok sc₁ =>
          rw [he] at hs
          exact scanLoop_unique (scanEvent_unique h he) hs

theorem Snapshots.get_of_mem {m : Snapshots} (h : m.Unique) {snap : NodeSnapshot} (hs : snap ∈ m) :
    m.get snap.nodeId = some snap := by
  induction m with
  | nil => cases hs
  | cons s rest ih =>
      obtain ⟨hnot, hrest⟩ := List.nodup_cons.mp h
      rcases List.mem_cons.mp hs with rfl | hs
      · simp [Snapshots.get]
      · have hne : (s.nodeId == snap.nodeId) = false := by
          have : s.nodeId ≠ snap.nodeId := fun e => by
            refine hnot ?_
            show s.nodeId ∈ _
            rw [e]
            exact List.mem_map_of_mem hs
          simpa using this
        simpa [Snapshots.get, List.find?, hne] using ih hrest hs

end Snapshots

/-- What one event of a ledger makes of the snapshot of `id`; an event without a node id, or with
    an empty one, is passed over. -/
def readStep (id : NodeId) (snap : NodeSnapshot) (e : LedgerEventLike) : NodeSnapshot :=
  match e.payload with
  | .nullish => snap
  | .fields p =>
      if truthy p.nodeId = some id then (snapshotWrite e.type p snap).getD snap else snap

/-- The snapshot a ledger leaves for the node `id`. -/
def readSnap (id : NodeId) (events : List LedgerEventLike) : NodeSnapshot :=
  events.foldl (readStep id) { nodeId := id }

section Reading

variable {events : List LedgerEventLike} {sc sc' : Scan} {e : LedgerEventLike}

/-- One event of a ledger, read. -/
theorem scanEvent_reads (h : scanEvent sc e = .ok sc') :
    (∀ id, (sc'.snapshots.get id).getD { nodeId := id } =
      readStep id ((sc.snapshots.get id).getD { nodeId := id }) e) ∧
    (e.type ≠ .runCreated →
      sc'.graph = sc.graph ∧ sc'.runId = sc.runId ∧ sc'.taskId = sc.taskId) := by
  unfold scanEvent at h
  cases hp : e.payload with
  | nullish =>
      rw [hp] at h
      cases h
  | fields p =>
      rw [hp] at h
      dsimp only at h
      simp only [readStep, hp]
      by_cases ht : e.type = .runCreated
      · rw [if_pos ht] at h
        cases h
        exact ⟨fun id => by simp [ht, snapshotWrite], fun hne => absurd ht hne⟩
      · rw [if_neg ht] at h
        cases hid : truthy p.nodeId with
        | none =>
            rw [hid] at h
            cases h
            exact ⟨fun id => by simp, fun _ => ⟨rfl, rfl, rfl⟩⟩
        | some x =>
            rw [hid] at h
            cases h
            refine ⟨fun id => ?_, fun _ => ⟨rfl, rfl, rfl⟩⟩
            rw [get_applyEventToSnapshot, snapshotStep]
            simp only [Option.some.injEq]

theorem scanLoop_reads : ∀ {events : List LedgerEventLike} {sc sc' : Scan},
    events.foldlM scanEvent sc = .ok sc' →
    (∀ id, (sc'.snapshots.get id).getD { nodeId := id } =
      events.foldl (readStep id) ((sc.snapshots.get id).getD { nodeId := id })) ∧
    ((∀ e ∈ events, e.type ≠ .runCreated) →
      sc'.graph = sc.graph ∧ sc'.runId = sc.runId ∧ sc'.taskId = sc.taskId)
  | [], sc, sc', h => by
      cases h
      exact ⟨fun _ => rfl, fun _ => ⟨rfl, rfl, rfl⟩⟩
  | e :: rest, sc, sc', h => by
      rw [List.foldlM_cons] at h
      cases he : scanEvent sc e with
      | error m =>
          rw [he] at h
          cases h
      | ok sc₁ =>
          rw [he] at h
          obtain ⟨hread₁, hkeep₁⟩ := scanEvent_reads he
          obtain ⟨hread₂, hkeep₂⟩ := scanLoop_reads h
          refine ⟨fun id => ?_, fun hno => ?_⟩
          · rw [hread₂ id, hread₁ id, List.foldl_cons]
          · obtain ⟨hg₁, hr₁, ht₁⟩ := hkeep₁ (hno e List.mem_cons_self)
            obtain ⟨hg₂, hr₂, ht₂⟩ := hkeep₂ fun x hx => hno x (List.mem_cons_of_mem _ hx)
            exact ⟨hg₂.trans hg₁, hr₂.trans hr₁, ht₂.trans ht₁⟩

/-- **A ledger, read**: node by node the snapshot is the fold of its events. -/
theorem scan_reads (h : scan events = .ok sc) : sc.snapshots.Unique ∧
    ∀ id, (sc.snapshots.get id).getD { nodeId := id } = readSnap id events :=
  ⟨scanLoop_unique (show Snapshots.Unique [] from List.nodup_nil) h, (scanLoop_reads h).1⟩

/-- Only a payload without properties cannot be read. -/
theorem scanEvent_ok (sc : Scan) (h : e.payload ≠ .nullish) : ∃ sc', scanEvent sc e = .ok sc' := by
  unfold scanEvent
  cases hp : e.payload with
  | nullish => exact absurd hp h
  | fields p =>
      dsimp only
      split_ifs
      · exact ⟨_, rfl⟩
      · cases truthy p.nodeId <;> exact ⟨_, rfl⟩

theorem scanLoop_ok : ∀ {events : List LedgerEventLike} (sc : Scan),
    (∀ e ∈ events, e.payload ≠ .nullish) → ∃ sc', events.foldlM scanEvent sc = .ok sc'
  | [], sc, _ => ⟨sc, rfl⟩
  | e :: rest, sc, h => by
      obtain ⟨sc₁, h₁⟩ := scanEvent_ok sc (h e List.mem_cons_self)
      obtain ⟨sc₂, h₂⟩ := scanLoop_ok sc₁ fun x hx => h x (List.mem_cons_of_mem _ hx)
      refine ⟨sc₂, ?_⟩
      rw [List.foldlM_cons, h₁]
      exact h₂

theorem scanLoop_payloads : ∀ {events : List LedgerEventLike} {sc sc' : Scan},
    events.foldlM scanEvent sc = .ok sc' → ∀ e ∈ events, e.payload ≠ .nullish
  | [], _, _, _, e, he => absurd he List.not_mem_nil
  | x :: rest, sc, sc', h, e, he => by
      rw [List.foldlM_cons] at h
      cases hx : scanEvent sc x with
      | error m =>
          rw [hx] at h
          cases h
      | ok sc₁ =>
          rw [hx] at h
          rcases List.mem_cons.mp he with rfl | he
          · intro hp
            unfold scanEvent at hx
            rw [hp] at hx
            cases hx
          · exact scanLoop_payloads h e he

end Reading

/-! ## 2. Restoring one node -/

/-- What a snapshot makes of a node record. -/
def restored (nd : InternalNode) (snap : NodeSnapshot) : InternalNode :=
  match snap.status, snap.result with
  | .completed, some r =>
      { nd with attempt := snap.attempt, status := .completed, result := some r }
  | status, _ =>
      if status = .skipped then
        { nd with
          attempt := snap.attempt, status := .skipped, skippedReason := snap.skippedReason }
      else if status.isTerminal then
        { nd with attempt := snap.attempt, status := status, error := snap.error }
      else { nd with attempt := snap.attempt }

section Restore

variable {c : Context} {s : Core} {snap : NodeSnapshot} {n : WorkflowNode}

theorem restoreNode_nodes (hn : nodeById c.graph snap.nodeId = some n) (x : NodeId) :
    (restoreNode c s snap).nodes x =
      if x = n.id then restored (s.nodes n.id) snap else s.nodes x := by
  unfold restoreNode restored
  rw [hn]
  by_cases hx : x = n.id
  · subst hx
    dsimp only
    split <;> split_ifs <;> simp_all [Core.setAttempt, Core.setNode]
  · dsimp only
    split <;> split_ifs <;> simp_all [Core.setAttempt, Core.setNode]

theorem restoreNode_skip (hn : nodeById c.graph snap.nodeId = none) :
    restoreNode c s snap = s := by
  unfold restoreNode
  rw [hn]

/-- What restoring one snapshot leaves of the store. -/
theorem restoreNode_store (hn : nodeById c.graph snap.nodeId = some n) :
    (snap.status = .completed ∧ ∃ r, snap.result = some r ∧
      (restoreNode c s snap).store = s.store.seedCompleted (keyOf c n) r ∧
      (restoreNode c s snap).results = fun x => if x = n.id then some r else s.results x) ∨
    ((snap.status ≠ .completed ∨ snap.result = none) ∧ (restoreNode c s snap).store = s.store ∧
      (restoreNode c s snap).results = s.results) := by
  unfold restoreNode
  rw [hn]
  dsimp only
  split
  · rename_i r hs hr
    exact .inl ⟨hs, r, hr, rfl, rfl⟩
  · rename_i hno
    refine .inr ⟨?_, ?_⟩
    · refine or_iff_not_imp_left.mpr fun hs => ?_
      cases hr : snap.result with
      | none => rfl
      | some r => exact absurd hr (hno r (not_not.mp hs))
    · split_ifs <;> exact ⟨rfl, rfl⟩

/-- An executor whose nodes have only been restored: nothing is in flight, and a node is planned
    or terminal. -/
structure Rebuilt (s : Core) : Prop where
  still : ∀ key, s.store.inFlight key = none
  status : ∀ x, s.status x = .planned ∨ (s.status x).isTerminal = true

theorem restored_status (nd : InternalNode) (snap : NodeSnapshot) :
    (restored nd snap).status = nd.status ∨
      ((restored nd snap).status = snap.status ∧ snap.status.isTerminal = true) := by
  unfold restored
  split
  · rename_i r hs hr
    exact .inr ⟨hs.symm, by rw [hs]; rfl⟩
  · split_ifs with h₁ h₂
    · exact .inr ⟨h₁.symm, by rw [h₁]; rfl⟩
    · exact .inr ⟨rfl, h₂⟩
    · exact .inl rfl

theorem Rebuilt.restoreNode (h : Rebuilt s) (snap : NodeSnapshot) :
    Rebuilt (restoreNode c s snap) := by
  cases hn : nodeById c.graph snap.nodeId with
  | none =>
      rw [restoreNode_skip hn]
      exact h
  | some n =>
      refine ⟨fun key => ?_, fun x => ?_⟩
      · rcases restoreNode_store (s := s) hn with ⟨-, r, -, hst, -⟩ | ⟨-, hst, -⟩
        · rw [hst]
          exact h.still key
        · rw [hst]
          exact h.still key
      · rw [Core.status_eq, restoreNode_nodes hn]
        split_ifs with hx
        · rcases restored_status (s.nodes n.id) snap with he | ⟨he, ht⟩
          · rw [he]
            exact h.status n.id
          · rw [he]
            exact .inr ht
        · exact h.status x

theorem Rebuilt.restore : ∀ (snapshots : Snapshots) {s : Core}, Rebuilt s →
    Rebuilt (restore c snapshots s)
  | [], _, h => h
  | snap :: rest, _, h => Rebuilt.restore rest (h.restoreNode snap)

/-- Restoring writes node records, results, the completion order and the store. -/
structure RestoreFrame (s s' : Core) : Prop where
  trace : s'.trace = s.trace
  late : s'.late = s.late
  compensated : s'.compensated = s.compensated

theorem restoreNode_frame (snap : NodeSnapshot) : RestoreFrame s (restoreNode c s snap) := by
  unfold restoreNode
  split
  · exact ⟨rfl, rfl, rfl⟩
  · dsimp only
    split
    · exact ⟨rfl, rfl, rfl⟩
    · split_ifs <;> exact ⟨rfl, rfl, rfl⟩

theorem restore_frame : ∀ (snapshots : Snapshots) (s : Core),
    RestoreFrame s (restore c snapshots s)
  | [], _ => ⟨rfl, rfl, rfl⟩
  | snap :: rest, s => by
      have h := restore_frame rest (restoreNode c s snap)
      have h₀ := restoreNode_frame (c := c) (s := s) snap
      exact ⟨h.trace.trans h₀.trace, h.late.trans h₀.late, h.compensated.trans h₀.compensated⟩

theorem restoreNode_world (snap : NodeSnapshot) : (restoreNode c s snap).world = s.world := by
  unfold restoreNode
  split
  · rfl
  · dsimp only
    split
    · rfl
    · split_ifs <;> rfl

theorem restore_world : ∀ (snapshots : Snapshots) (s : Core),
    (restore c snapshots s).world = s.world
  | [], _ => rfl
  | snap :: rest, s =>
      (restore_world rest (restoreNode c s snap)).trans (restoreNode_world snap)

theorem Rebuilt.sound (h : Rebuilt s) : Core.Sound c s := by
  refine ⟨fun key f hf => ?_, fun key f hf => ?_, fun n hn hl => ?_, fun key f hf => ?_⟩
  · rw [h.still key] at hf
    cases hf
  · rw [h.still key] at hf
    cases hf
  · rcases h.status n.id with hp | ht
    · rw [hp] at hl
      cases hl
    · revert hl ht
      cases s.status n.id <;> simp [Live, NodeStatus.isTerminal]
  · rw [h.still key] at hf
    cases hf

theorem rebuilt_fresh (w : World) (trace : List Obs) : Rebuilt (Core.fresh w trace) :=
  ⟨fun _ => rfl, fun _ => .inl rfl⟩

/-- **One node of a restored executor** is what its snapshot makes of it. -/
theorem restore_nodes (hnd : (c.graph.map (·.id)).Nodup) (hn : n ∈ c.graph) :
    ∀ {snapshots : Snapshots} {s : Core}, snapshots.Unique →
      (restore c snapshots s).nodes n.id =
        ((snapshots.get n.id).map (restored (s.nodes n.id))).getD (s.nodes n.id)
  | [], s, _ => rfl
  | snap :: rest, s, hu => by
      obtain ⟨hnot, hrest⟩ := List.nodup_cons.mp hu
      show (restore c rest (restoreNode c s snap)).nodes n.id = _
      rw [restore_nodes hnd hn hrest]
      by_cases hid : snap.nodeId = n.id
      · have hby : nodeById c.graph snap.nodeId = some n := by
          rw [hid]
          exact nodeById_of_mem hnd hn
        have hno : Snapshots.get rest n.id = none := by
          refine List.find?_eq_none.mpr fun s' hs' he => hnot ?_
          have hs'id : s'.nodeId = n.id := by simpa using he
          show snap.nodeId ∈ _
          rw [hid, ← hs'id]
          exact List.mem_map_of_mem hs'
        rw [hno, restoreNode_nodes hby, if_pos rfl]
        simp [Snapshots.get, List.find?, hid]
      · have hsame : (restoreNode c s snap).nodes n.id = s.nodes n.id := by
          cases hby : nodeById c.graph snap.nodeId with
          | none => rw [restoreNode_skip hby]
          | some m =>
              obtain ⟨-, hm⟩ := mem_of_nodeById hby
              rw [restoreNode_nodes hby, if_neg]
              rw [hm]
              exact fun h => hid h.symm
        have hb : (snap.nodeId == n.id) = false := by simpa using hid
        rw [hsame]
        simp [Snapshots.get, List.find?, hb]

/-- What a restored store knows comes from the snapshot of a completed node. -/
theorem restore_stored {key : String} {r : NodeResult} : ∀ (snapshots : Snapshots) {s : Core},
    (restore c snapshots s).store.completed key = some r →
      s.store.completed key = some r ∨ ∃ snap ∈ snapshots, ∃ n, nodeById c.graph snap.nodeId = some n ∧
        keyOf c n = key ∧ snap.status = .completed ∧ snap.result = some r
  | [], _, h => .inl h
  | snap :: rest, s, h => by
      rcases restore_stored rest h with h | ⟨snap', hmem, hsnap⟩
      · cases hby : nodeById c.graph snap.nodeId with
        | none =>
            rw [restoreNode_skip hby] at h
            exact .inl h
        | some n =>
            rcases restoreNode_store (s := s) hby with ⟨hst, r', hr', hstore, -⟩ | ⟨-, hstore, -⟩
            · rw [hstore, IdempotencyStore.seedCompleted] at h
              dsimp only at h
              split_ifs at h with hk
              · exact .inr ⟨snap, List.mem_cons_self, n, hby, hk.symm, hst, hr'.trans h⟩
              · exact .inl h
            · rw [hstore] at h
              exact .inl h
      · exact .inr ⟨snap', List.mem_cons_of_mem _ hmem, hsnap⟩

end Restore

/-! ## 3. What `hydrate` builds -/

section Hydrate

variable {o : Options} {w : World} {trace : List Obs} {events : List LedgerEventLike}
  {c : Context} {core : Core}

/-- The loop over the skipped nodes is a spread. -/
theorem cascadeSkipped_skips (s : Core) : Skips c [] False s (cascadeSkipped c s) := by
  unfold cascadeSkipped
  refine skips_foldlM (P := fun _ => True) (fun _ _ _ _ => trivial) (fun s n _ _ => ?_) trivial
  split_ifs with h
  · exact cascadeSkip_skips _ h
  · exact Relation.ReflTransGen.refl

/-- **What an accepted ledger becomes**: its snapshots restored, the skipped nodes cascaded, the
    ready nodes promoted. -/
theorem hydrate_eq_ok (h : hydrate o w trace events = .ok (c, core)) :
    ∃ sc graph mid, scan events = .ok sc ∧ sc.graph = some graph ∧
      c = { o with
        graph := graph
        runId := sc.runId.getD "undefined"
        taskId := sc.taskId.getD "undefined" } ∧
      cascadeSkipped c (restore c sc.snapshots (Core.fresh w trace)) = .ok mid ∧
      core = promoteReady c mid := by
  unfold hydrate at h
  cases hs : scan events with
  | error e =>
      rw [hs] at h
      cases h
  | ok sc =>
      rw [hs] at h
      simp only [bind, Except.bind] at h
      split at h
      · cases h
      · rename_i graph hg
        split at h
        · cases h
        · rename_i mid hmid
          cases h
          exact ⟨sc, graph, mid, rfl, hg, rfl, hmid, rfl⟩

/-- Behind the restored snapshots come touches only. -/
theorem hydrate_spread (h : hydrate o w trace events = .ok (c, core)) : ∃ sc, scan events = .ok sc ∧
    sc.graph = some c.graph ∧
    Spread c [] False (restore c sc.snapshots (Core.fresh w trace)) core := by
  obtain ⟨sc, graph, mid, hsc, hg, hc, hmid, rfl⟩ := hydrate_eq_ok h
  refine ⟨sc, hsc, by rw [hg, hc], ?_⟩
  have hsp := cascadeSkipped_skips (c := c) (restore c sc.snapshots (Core.fresh w trace))
  rw [hmid] at hsp
  exact Relation.ReflTransGen.trans hsp promoteReady_spread

theorem hydrate_sound (hnd : (c.graph.map (·.id)).Nodup)
    (h : hydrate o w trace events = .ok (c, core)) :
    Core.Sound c core ∧ ∀ key, core.store.inFlight key = none := by
  obtain ⟨sc, -, -, hall⟩ := hydrate_spread h
  have hr : Rebuilt (restore c sc.snapshots (Core.fresh w trace)) := (rebuilt_fresh w trace).restore _
  have hstill : ∀ key, core.store.inFlight key = none := fun key => by
    rw [hall.sameRest.store]
    exact hr.still key
  refine ⟨?_, hstill⟩
  exact hr.sound.spread False.elim hnd hall

end Hydrate

/-! ## 4. The beginning of a process -/

/-- An executor process begins with `run`, or with `hydrate` on any ledger and `resume`; in the
    second case the queue may still hold jobs of the run. -/
def Begins (c : Context) (s : State) : Prop :=
  (∃ w, s = State.initial c w) ∨
  ∃ o w, ∃ trace : List WorkflowEvent, ∃ events core old,
    hydrate o w (trace.map .event) events = .ok (c, core) ∧
    (∀ job ∈ old, ∃ n, JobOf c job n) ∧ s = State.launch core old

section Beginning

variable {c : Context} {s : State}

theorem launch_sound {core : Core} {old : List WorkflowJob} (hcore : Core.Sound c core)
    (hstill : ∀ key, core.store.inFlight key = none) (hold : ∀ job ∈ old, ∃ n, JobOf c job n) :
    State.Sound c (.launch core old) := by
  refine ⟨hcore, ⟨fun job hj => ?_, fun _ _ w hw => ?_⟩, fun w hw => ?_, fun key f hf => ?_⟩
  · rcases hj with hj | hj | hj
    · cases hj
    · exact hold job hj
    · cases hj
  · cases hw
  · cases hw
  · rw [show (State.launch core old).core = core from rfl, hstill key] at hf
    cases hf

theorem initial_sound (w : World) : State.Sound c (.initial c w) := by
  refine launch_sound ⟨fun key f hf => ?_, fun key f hf => ?_, fun n hn hl => ?_,
    fun key f hf => ?_⟩ (fun _ => rfl) (fun _ hj => absurd hj List.not_mem_nil)
  · cases hf
  · cases hf
  · cases hl
  · cases hf

theorem Begins.sound (hnd : (c.graph.map (·.id)).Nodup) (h : Begins c s) : State.Sound c s := by
  rcases h with ⟨w, rfl⟩ | ⟨o, w, trace, events, core, old, hh, hold, rfl⟩
  · exact initial_sound w
  · obtain ⟨hcore, hstill⟩ := hydrate_sound hnd hh
    exact launch_sound hcore hstill hold

theorem Begins.still (hnd : (c.graph.map (·.id)).Nodup) (h : Begins c s) (key : String) :
    s.core.store.inFlight key = none := by
  rcases h with ⟨w, rfl⟩ | ⟨o, w, trace, events, core, old, hh, hold, rfl⟩
  · rfl
  · exact (hydrate_sound hnd hh).2 key

/-- A process begins with ledger events only in its trace. -/
theorem Begins.events (h : Begins c s) : ∀ o ∈ s.core.trace, ∃ e, o = .event e := by
  rcases h with ⟨w, rfl⟩ | ⟨o, w, trace, events, core, old, hh, hold, rfl⟩
  · intro o ho
    exact ⟨_, List.mem_singleton.mp ho⟩
  · obtain ⟨sc, -, -, hsp⟩ := hydrate_spread hh
    obtain ⟨es, hes⟩ := hsp.trace
    intro ob hob
    rw [show (State.launch core old).core.trace = _ from hes, (restore_frame _ _).trace,
      show (Core.fresh w (trace.map .event)).trace = trace.map .event from rfl,
      ← List.map_append] at hob
    obtain ⟨e, -, he⟩ := List.mem_map.mp hob
    exact ⟨e, he.symm⟩

/-- A process begins with no call under way. -/
theorem Begins.late (h : Begins c s) : s.core.late = [] := by
  rcases h with ⟨w, rfl⟩ | ⟨o, w, trace, events, core, old, hh, hold, rfl⟩
  · rfl
  · obtain ⟨sc, -, -, hsp⟩ := hydrate_spread hh
    exact hsp.sameRest.late.trans (restore_frame _ _).late

theorem Begins.workers (h : Begins c s) : s.workers = [] := by
  rcases h with ⟨w, rfl⟩ | ⟨o, w, trace, events, core, old, hh, hold, rfl⟩ <;> rfl

end Beginning

end AgentKernel.Orchestrator
