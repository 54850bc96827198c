/-
  File:      AgentKernel/Orchestrator/Mixed.lean
  Subject:   A ledger that several runs and other producers have written to (executor.ts `hydrate`
             and `applyEventToSnapshot`).

  `hydrate` takes the graph from the last `WorkflowRunCreated` and folds every event with a node id
  into the snapshots, whatever run it belongs to; `outcome` filters the same ledger by `runId`.

  * `hydrate_status`: the status of a rebuilt node is what the ledger says of it, `SKIPPED` behind
    a skipped dependency, else `READY` or `PLANNED` by its dependencies;
  * `Unmixed`: the whole ledger hydrates, and to the same state as the events of the run alone;
  * **`unmixed_iff`**: so it is just when every event has a payload and, for every node of the run,
    the whole ledger says the same as the run's own events.
-/
import AgentKernel.Orchestrator.Rest
import AgentKernel.Orchestrator.Replay

namespace AgentKernel.Orchestrator

/-! ## 1. What a ledger says of a node -/

/-- The node record that the events about `id` amount to. -/
def told (events : List LedgerEventLike) (id : NodeId) : InternalNode :=
  restored {} (readSnap id events)

/-- The ledger has the node skipped: by an event of its own, or behind a dependency. -/
inductive Dropped (graph : List WorkflowNode) (events : List LedgerEventLike) : NodeId → Prop where
  | here {id : NodeId} (h : (told events id).status = .skipped) : Dropped graph events id
  | behind {n : WorkflowNode} {d : NodeId} (hn : n ∈ graph)
      (ho : (told events n.id).status.isTerminal = false) (hd : d ∈ n.deps)
      (h : Dropped graph events d) : Dropped graph events n.id

/-- Two ledgers say the same of a node: the number of the attempt, and either that it is skipped
    or how far it has come, with the result. -/
def SaysSame (graph : List WorkflowNode) (L L' : List LedgerEventLike) (id : NodeId) : Prop :=
  (told L id).attempt = (told L' id).attempt ∧ (told L id).result = (told L' id).result ∧
    ((Dropped graph L id ∧ Dropped graph L' id) ∨
      (¬ Dropped graph L id ∧ ¬ Dropped graph L' id ∧
        (told L id).status = (told L' id).status))

/-! ## 2. What `hydrate` makes of it -/

/-- What an executor has recorded of results agrees with its nodes. -/
structure Recorded (c : Context) (s : Core) : Prop where
  results : ∀ x, s.results x = (s.nodes x).result
  stored : ∀ n ∈ c.graph, s.store.completed (keyOf c n) = (s.nodes n.id).result
  others : ∀ key, (∀ n ∈ c.graph, keyOf c n ≠ key) → s.store.completed key = none
  outside : ∀ x, (∀ n ∈ c.graph, n.id ≠ x) → s.nodes x = {}

section Restoring

variable {c : Context} {s s' : Core} {T : List NodeId} {q : Prop}

theorem restored_result (nd : InternalNode) (snap : NodeSnapshot) :
    (∃ r, snap.status = .completed ∧ snap.result = some r ∧ (restored nd snap).result = some r) ∨
      ((snap.status ≠ .completed ∨ snap.result = none) ∧ (restored nd snap).result = nd.result) := by
  unfold restored
  split
  · rename_i r hs hr
    exact .inl ⟨r, hs, hr, rfl⟩
  · rename_i hno
    refine .inr ⟨?_, by split_ifs <;> rfl⟩
    refine or_iff_not_imp_left.mpr fun hs => ?_
    cases hr : snap.result with
    | none => rfl
    | some r => exact absurd hr (hno r (not_not.mp hs))

/-- The results and the seeded keys after one snapshot, read off the restored node. -/
theorem Recorded.restore_writes (h : Recorded c s) {snap : NodeSnapshot} {n : WorkflowNode}
    (hn : nodeById c.graph snap.nodeId = some n) :
    (restoreNode c s snap).results = (fun x =>
        if x = n.id then (restored (s.nodes n.id) snap).result else s.results x) ∧
      (restoreNode c s snap).store.completed = fun key =>
        if key = keyOf c n then (restored (s.nodes n.id) snap).result
        else s.store.completed key := by
  obtain ⟨hmem, -⟩ := mem_of_nodeById hn
  rcases restored_result (s.nodes n.id) snap with
    ⟨r, hst, hr, hnew⟩ | ⟨hno, hold⟩
  · rcases restoreNode_store (s := s) hn with ⟨-, r', hr', hstore, hresults⟩ | ⟨hno, -⟩
    · obtain rfl : r = r' := Option.some.inj (hr.symm.trans hr')
      rw [hstore, hresults, hnew]
      exact ⟨rfl, rfl⟩
    · rcases hno with hno | hno
      · exact absurd hst hno
      · rw [hr] at hno
        cases hno
  · rcases restoreNode_store (s := s) hn with ⟨hst, r', hr', -⟩ | ⟨-, hstore, hresults⟩
    · rcases hno with hno | hno
      · exact absurd hst hno
      · rw [hr'] at hno
        cases hno
    · rw [hstore, hresults, hold]
      refine ⟨funext fun x => ?_, funext fun key => ?_⟩
      · split_ifs with hx
        · rw [hx, h.results]
        · rfl
      · split_ifs with hkey
        · rw [hkey, h.stored n hmem]
        · rfl

theorem Recorded.restore_one (hnd : (c.graph.map (·.id)).Nodup) (hk : DistinctKeys c)
    (h : Recorded c s) (snap : NodeSnapshot) : Recorded c (restoreNode c s snap) := by
  cases hn : nodeById c.graph snap.nodeId with
  | none =>
      rw [restoreNode_skip hn]
      exact h
  | some n =>
      obtain ⟨hmem, -⟩ := mem_of_nodeById hn
      have hnodes := restoreNode_nodes (s := s) hn
      obtain ⟨hresults, hstored⟩ := h.restore_writes hn
      refine ⟨fun x => ?_, fun m hm => ?_, fun key hkey => ?_, fun x hx => ?_⟩
      · rw [hresults, hnodes]
        dsimp only
        split_ifs
        · rfl
        · exact h.results x
      · rw [hstored, hnodes]
        dsimp only
        by_cases hid : m = n
        · rw [hid, if_pos rfl, if_pos rfl]
        · have hkey : ¬ keyOf c m = keyOf c n := fun he => hid (hk m hm n hmem he)
          have hname : ¬ m.id = n.id := fun he => hid (eq_of_id_eq hnd hm hmem he)
          rw [if_neg hkey, if_neg hname]
          exact h.stored m hm
      · rw [hstored]
        dsimp only
        rw [if_neg fun he => hkey n hmem he.symm]
        exact h.others key hkey
      · rw [hnodes, if_neg fun he => hx n hmem he.symm]
        exact h.outside x hx

theorem Recorded.restore (hnd : (c.graph.map (·.id)).Nodup) (hk : DistinctKeys c) :
    ∀ (snapshots : Snapshots) {s : Core}, Recorded c s → Recorded c (restore c snapshots s)
  | [], _, h => h
  | snap :: rest, _, h => Recorded.restore hnd hk rest (h.restore_one hnd hk snap)

theorem recorded_fresh (w : World) (trace : List Obs) : Recorded c (Core.fresh w trace) :=
  ⟨fun _ => rfl, fun _ _ => rfl, fun _ _ => rfl, fun _ _ => rfl⟩

/-- What no touch writes of a node. -/
theorem Touch.kept (h : Touch c T q s s') (x : NodeId) :
    (s'.nodes x).result = (s.nodes x).result ∧ (s'.nodes x).attempt = (s.nodes x).attempt ∧
      ((∀ n ∈ c.graph, n.id ≠ x) → s'.nodes x = s.nodes x) := by
  have hput : ∀ {n : WorkflowNode} {nd : InternalNode} {obs : List Obs}, n ∈ c.graph →
      nd.result = (s.nodes n.id).result → nd.attempt = (s.nodes n.id).attempt →
      ((s.put n.id nd obs).nodes x).result = (s.nodes x).result ∧
      ((s.put n.id nd obs).nodes x).attempt = (s.nodes x).attempt ∧
      ((∀ n ∈ c.graph, n.id ≠ x) → (s.put n.id nd obs).nodes x = s.nodes x) := by
    intro n nd obs hn hr ha
    rw [Core.put_nodes]
    split_ifs with hx
    · subst hx
      exact ⟨hr, ha, fun hno => absurd rfl (hno n hn)⟩
    · exact ⟨rfl, rfl, fun _ => rfl⟩
  cases h with
  | skip hn _ _ => exact hput hn rfl rfl
  | prepare hn _ _ => exact hput hn rfl rfl
  | cancel hn _ _ => exact hput hn rfl rfl
  | note _ _ => exact ⟨rfl, rfl, fun _ => rfl⟩

theorem Spread.kept (h : Spread c T q s s') (x : NodeId) :
    (s'.nodes x).result = (s.nodes x).result ∧ (s'.nodes x).attempt = (s.nodes x).attempt ∧
      ((∀ n ∈ c.graph, n.id ≠ x) → s'.nodes x = s.nodes x) := by
  induction h with
  | refl => exact ⟨rfl, rfl, fun _ => rfl⟩
  | tail _ ht ih =>
      obtain ⟨hr, ha, ho⟩ := ht.kept x
      exact ⟨hr.trans ih.1, ha.trans ih.2.1, fun hno => (ho hno).trans (ih.2.2 hno)⟩

theorem Recorded.spread (h : Recorded c s) (hsp : Spread c T q s s') : Recorded c s' := by
  have hrest := hsp.sameRest
  refine ⟨fun x => ?_, fun n hn => ?_, fun key hkey => ?_, fun x hx => ?_⟩
  · rw [hrest.results, (hsp.kept x).1]
    exact h.results x
  · rw [hrest.store, (hsp.kept n.id).1]
    exact h.stored n hn
  · rw [hrest.store]
    exact h.others key hkey
  · rw [(hsp.kept x).2.2 hx]
    exact h.outside x hx

end Restoring

section Cascading

variable {c : Context} {s s' : Core}

/-- **The loop over the skipped nodes closes**: behind it every dependent of a skipped node is
    terminal. -/
theorem cascadeSkipped_loop (hnd : (c.graph.map (·.id)).Nodup) : ∀ {l : List WorkflowNode}
    {s : Core}, (∀ n ∈ l, n ∈ c.graph) → Core.Sound c s →
    ∃ s', l.foldlM (fun s n =>
        if s.status n.id = .skipped then cascadeSkip c c.graph.length s n.id else .ok s) s =
        .ok s' ∧
      Spread c [] False s s' ∧ Closes c s s' ∧
      ∀ n ∈ l, s.status n.id = .skipped → ∀ o ∈ c.graph, n.id ∈ o.deps →
        (s'.status o.id).isTerminal = true
  | [], s, _, _ => ⟨s, rfl, .refl, .refl s, fun _ hn => absurd hn List.not_mem_nil⟩
  | n :: rest, s, hl, hS => by
      obtain ⟨s₁, h₁, hsp₁, hcl₁, hdeps₁⟩ : ∃ s₁,
          (if s.status n.id = .skipped then cascadeSkip c c.graph.length s n.id else .ok s) =
            .ok s₁ ∧
          Spread c [] False s s₁ ∧ Closes c s s₁ ∧
          (s.status n.id = .skipped → ∀ o ∈ c.graph, n.id ∈ o.deps →
            (s₁.status o.id).isTerminal = true) := by
        by_cases hs : s.status n.id = .skipped
        · obtain ⟨s₁, h₁⟩ := cascadeSkip_ok hnd hS c.graph.length hs
          have hsp : Skips c [] False s (cascadeSkip c c.graph.length s n.id) :=
            cascadeSkip_skips _ hs
          rw [h₁] at hsp
          have hlt : unfinished c s < c.graph.length := by
            refine lt_of_le_of_ne List.countP_le_length fun heq => ?_
            have hopen := List.countP_eq_length.mp heq n (hl n List.mem_cons_self)
            rw [hs] at hopen
            cases hopen
          obtain ⟨hdeps, hcl⟩ := cascadeSkip_closed hlt hs h₁
          exact ⟨s₁, by rw [if_pos hs]; exact h₁, hsp, hcl, fun _ => hdeps⟩
        · exact ⟨s, if_neg hs, .refl, .refl s, fun h => absurd h hs⟩
      obtain ⟨s₂, h₂, hsp₂, hcl₂, hdeps₂⟩ := cascadeSkipped_loop hnd
        (fun m hm => hl m (List.mem_cons_of_mem _ hm)) (hS.spread False.elim hnd hsp₁)
      refine ⟨s₂, ?_, hsp₁.trans hsp₂, hcl₁.trans hcl₂ hsp₂, fun m hm hs o ho hd => ?_⟩
      · rw [List.foldlM_cons, h₁]
        exact h₂
      · rcases List.mem_cons.mp hm with rfl | hm
        · exact hsp₂.isTerminal (hdeps₁ hs o ho hd)
        · exact hdeps₂ m hm (hsp₁.skipped hs) o ho hd

theorem cascadeSkipped_closed (hnd : (c.graph.map (·.id)).Nodup) (hS : Core.Sound c s)
    (hin : ∀ m, s.status m = .skipped → ∃ n ∈ c.graph, n.id = m) :
    ∃ s', cascadeSkipped c s = .ok s' ∧ Closed c s' := by
  obtain ⟨s', h, hsp, hcl, hdeps⟩ := cascadeSkipped_loop hnd (fun _ hn => hn) hS
  refine ⟨s', h, fun m hm o ho hd => ?_⟩
  by_cases hold : s.status m = .skipped
  · obtain ⟨n, hn, rfl⟩ := hin m hold
    exact hdeps n hn hold o ho hd
  · exact hcl m hold hm o ho hd

end Cascading

/-- The nodes of a rebuilt executor, as the ledger determines them. -/
structure Landed (c : Context) (events : List LedgerEventLike) (s : Core) : Prop where
  attempt : ∀ n ∈ c.graph, (s.nodes n.id).attempt = (told events n.id).attempt
  result : ∀ n ∈ c.graph, (s.nodes n.id).result = (told events n.id).result
  ended : ∀ n ∈ c.graph, (told events n.id).status.isTerminal = true →
    s.status n.id = (told events n.id).status
  unended : ∀ n ∈ c.graph, (told events n.id).status.isTerminal = false →
    s.status n.id = .planned ∨ s.status n.id = .ready ∨ s.status n.id = .skipped
  dropped : ∀ n ∈ c.graph, s.status n.id = .skipped ↔ Dropped c.graph events n.id
  due : ∀ n ∈ c.graph, (told events n.id).status.isTerminal = false →
    (s.status n.id = .ready ↔ ∀ d ∈ n.deps, s.status d = .completed)

section Hydrating

variable {o : Options} {w : World} {trace : List Obs} {events : List LedgerEventLike}
  {c : Context} {mid core : Core}

theorem told_open {id : NodeId} (h : (told events id).status.isTerminal = false) :
    (told events id).status = .planned := by
  rcases restored_status {} (readSnap id events) with he | ⟨he, ht⟩
  · exact he
  · rw [told, he, ht] at h
    cases h

/-- What is made of a planned node. -/
theorem Spread.of_planned {T : List NodeId} {s s' : Core} {id : NodeId}
    (h : Spread c T False s s') (hp : s.status id = .planned) :
    s'.status id = .planned ∨ s'.status id = .ready ∨ s'.status id = .skipped := by
  induction h with
  | refl => exact .inl hp
  | tail _ ht ih =>
      rcases ht.status id with he | ⟨-, he | he⟩ | ⟨-, -, hq⟩
      · rw [he]
        exact ih
      · exact .inr (.inr he)
      · exact .inr (.inl he)
      · exact hq.elim

/-- Touches skip what the ledger has skipped. -/
theorem Spread.dropped (hmid : ∀ n ∈ c.graph, mid.nodes n.id = told events n.id)
    (hout : ∀ x, mid.status x = .skipped → ∃ n ∈ c.graph, n.id = x)
    (h : Spread c [] False mid core) : ∀ x, core.status x = .skipped → Dropped c.graph events x := by
  induction h with
  | refl =>
      intro x hx
      obtain ⟨n, hn, rfl⟩ := hout x hx
      rw [Core.status_eq, hmid n hn] at hx
      exact .here hx
  | @tail s s' hsp ht ih =>
      intro x hx
      cases ht with
      | @skip n reason hn hp why =>
          by_cases hxn : x = n.id
          · subst hxn
            rcases why with hT | ⟨d, hd, hds⟩
            · cases hT
            · refine .behind hn ?_ hd (ih d hds)
              have hplanned : mid.status n.id = .planned := Spread.planned hsp hp
              rw [Core.status_eq, hmid n hn] at hplanned
              rw [hplanned]
              rfl
          · rw [Core.put_status, if_neg hxn] at hx
            exact ih x hx
      | @prepare n hn hp hd =>
          rw [Core.put_status] at hx
          split_ifs at hx
          exact ih x hx
      | cancel _ hq _ => exact hq.elim
      | note _ hq => exact hq.elim

/-- Only nodes of the graph are restored. -/
theorem Recorded.inside (h : Recorded c mid) {x : NodeId} (hx : mid.status x ≠ .planned) :
    ∃ n ∈ c.graph, n.id = x := by
  by_contra hno
  push Not at hno
  rw [Core.status_eq, h.outside x hno] at hx
  exact hx rfl

/-- **A rebuilt executor has closed its cascades and waits for nothing.** -/
theorem hydrate_closed (hnd : (c.graph.map (·.id)).Nodup) (hk : DistinctKeys c)
    (h : hydrate o w trace events = .ok (c, core)) :
    Closed c core ∧ ∀ n ∈ c.graph, ¬ Due core n := by
  obtain ⟨sc, graph, mid, hsc, -, -, hcasc, rfl⟩ := hydrate_eq_ok h
  refine ⟨?_, promoteReady_waits⟩
  have hrebuilt : Rebuilt (restore c sc.snapshots (Core.fresh w trace)) :=
    (rebuilt_fresh w trace).restore _
  have hrec : Recorded c (restore c sc.snapshots (Core.fresh w trace)) :=
    (recorded_fresh w trace).restore hnd hk _
  obtain ⟨mid', hcasc', hcl⟩ := cascadeSkipped_closed hnd hrebuilt.sound
    fun m hm => hrec.inside (by rw [hm]; decide)
  obtain rfl : mid = mid' := Except.ok.inj (hcasc.symm.trans hcasc')
  exact hcl.spread (promoteReady_spread (T := []) (q := False))

/-- **What `hydrate` makes of any ledger it accepts.** -/
theorem hydrate_landed (hv : validateGraph c.graph = .ok ()) (hk : DistinctKeys c)
    (h : hydrate o w trace events = .ok (c, core)) : Landed c events core ∧ Recorded c core := by
  have hnd := validateGraph_nodup hv
  obtain ⟨sc, hsc, -, hsp⟩ := hydrate_spread h
  obtain ⟨hu, hread⟩ := scan_reads hsc
  obtain ⟨mid, hmid⟩ : ∃ mid, mid = restore c sc.snapshots (Core.fresh w trace) := ⟨_, rfl⟩
  rw [← hmid] at hsp
  have hnodes : ∀ n ∈ c.graph, mid.nodes n.id = told events n.id := by
    intro n hn
    rw [hmid, restore_nodes hnd hn hu, told, ← hread n.id]
    cases sc.snapshots.get n.id <;> rfl
  have hstatus : ∀ n ∈ c.graph, mid.status n.id = (told events n.id).status := fun n hn => by
    rw [Core.status_eq, hnodes n hn]
  have hrec : Recorded c mid := hmid ▸ (recorded_fresh w trace).restore hnd hk _
  have hout : ∀ x, mid.status x = .skipped → ∃ n ∈ c.graph, n.id = x :=
    fun x hx => hrec.inside (by rw [hx]; decide)
  obtain ⟨hclosed, hdue⟩ := hydrate_closed hnd hk h
  have hsound := (hydrate_sound hnd h).1
  have hunended : ∀ n ∈ c.graph, (told events n.id).status.isTerminal = false →
      core.status n.id = .planned ∨ core.status n.id = .ready ∨ core.status n.id = .skipped :=
    fun n hn ho => hsp.of_planned ((hstatus n hn).trans (told_open ho))
  have hdropped : ∀ x, Dropped c.graph events x → (∃ n ∈ c.graph, n.id = x) →
      core.status x = .skipped := by
    intro x hx
    induction hx with
    | here h =>
        rintro ⟨n, hn, rfl⟩
        exact hsp.skipped ((hstatus n hn).trans h)
    | @behind n d hn ho hd _ ih =>
        intro _
        have hdin : ∃ m ∈ c.graph, m.id = d := List.mem_map.mp (validateGraph_deps hv n hn d hd)
        have hterm := hclosed d (ih hdin) n hn hd
        rcases hunended n hn ho with he | he | he
        · rw [he] at hterm
          cases hterm
        · rw [he] at hterm
          cases hterm
        · exact he
  refine ⟨⟨fun n hn => ?_, fun n hn => ?_, fun n hn ht => ?_, hunended, fun n hn => ?_,
    fun n hn ho => ?_⟩, hrec.spread hsp⟩
  · rw [(hsp.kept n.id).2.1, hnodes n hn]
  · rw [(hsp.kept n.id).1, hnodes n hn]
  · rw [hsp.terminal (by rw [hstatus n hn]; exact ht), hstatus n hn]
  · exact ⟨hsp.dropped hnodes hout n.id, fun hd => hdropped n.id hd ⟨n, hn, rfl⟩⟩
  · constructor
    · intro hr
      exact hsound.live n hn (by rw [hr]; trivial)
    · intro hall
      rcases hunended n hn ho with he | he | he
      · exact absurd ⟨he, hall⟩ (hdue n hn)
      · exact he
      · -- a node skipped behind a dependency has a skipped one
        have hd := hsp.dropped hnodes hout n.id he
        generalize hid : n.id = x at hd
        cases hd with
        | here hs =>
            rw [← hid] at hs
            rw [hs] at ho
            cases ho
        | @behind m d hm _ hd' hdrop =>
            obtain rfl := eq_of_id_eq hnd hn hm hid
            have hdin : ∃ m ∈ c.graph, m.id = d := List.mem_map.mp (validateGraph_deps hv n hn d hd')
            have hskip := hdropped d hdrop hdin
            rw [hall d hd'] at hskip
            cases hskip

end Hydrating

/-! ## 3. The ledger of one run among others -/

/-- The options of an executor together with the run `r`. -/
def runContext (o : Options) (r taskId : String) (graph : List WorkflowNode) : Context :=
  { o with runId := r, taskId := taskId, graph := graph }

/-- The run `r` on `graph` is the last one created in the ledger. -/
def CreatedLast (r taskId : String) (graph : List WorkflowNode) (L : List LedgerEventLike) : Prop :=
  ∃ A B, L = A ++ (WorkflowEvent.runCreated r taskId graph).toLedger taskId r :: B ∧
    ∀ e ∈ B, e.type ≠ .runCreated

/-- The events of the run `r`. -/
def ofRun (r : String) (L : List LedgerEventLike) : List LedgerEventLike :=
  L.filter fun e => e.runId = r

/-- Two rebuilt executors of one run are in the same state. -/
structure SameRebuilt (c : Context) (s s' : Core) : Prop where
  status : ∀ n ∈ c.graph, s.status n.id = s'.status n.id
  attempt : ∀ n ∈ c.graph, (s.nodes n.id).attempt = (s'.nodes n.id).attempt
  results : s.results = s'.results
  seeded : s.store.completed = s'.store.completed

/-- The whole ledger and the events of the run alone both hydrate, and to the same state. -/
def Unmixed (o : Options) (w : World) (trace : List Obs) (r : String) (L : List LedgerEventLike) :
    Prop :=
  ∃ c core core', hydrate o w trace L = .ok (c, core) ∧
    hydrate o w trace (ofRun r L) = .ok (c, core') ∧ SameRebuilt c core core'

section Mixed

variable {o : Options} {w : World} {trace : List Obs} {r taskId : String}
  {graph : List WorkflowNode} {L L' : List LedgerEventLike} {c : Context} {core core' : Core}

theorem CreatedLast.ofRun (h : CreatedLast r taskId graph L) :
    CreatedLast r taskId graph (ofRun r L) := by
  obtain ⟨A, B, rfl, hB⟩ := h
  refine ⟨ofRun r A, ofRun r B, ?_, fun e he => hB e (List.mem_of_mem_filter he)⟩
  have hown : ((WorkflowEvent.runCreated r taskId graph).toLedger taskId r).runId = r := rfl
  unfold Orchestrator.ofRun
  rw [List.filter_append, List.filter_cons_of_pos (by simp [hown])]

/-- The scan ends with the graph of the run created last. -/
theorem CreatedLast.scan {sc : Scan} (h : CreatedLast r taskId graph L)
    (hsc : scan L = .ok sc) :
    sc.graph = some graph ∧ sc.runId = some r ∧ sc.taskId = some taskId := by
  obtain ⟨A, B, rfl, hB⟩ := h
  unfold Orchestrator.scan at hsc
  rw [List.foldlM_append] at hsc
  cases hA : A.foldlM scanEvent {} with
  | error m =>
      rw [hA] at hsc
      cases hsc
  | ok sc₁ =>
      rw [hA] at hsc
      exact (@scanLoop_reads B _ _ hsc).2 hB

/-- **A ledger without empty payloads hydrates** to the run created last. -/
theorem CreatedLast.hydrates (hv : validateGraph graph = .ok ()) (h : CreatedLast r taskId graph L)
    (hp : ∀ e ∈ L, e.payload ≠ .nullish) :
    ∃ core, hydrate o w trace L = .ok (runContext o r taskId graph, core) := by
  obtain ⟨sc, hsc⟩ := scanLoop_ok {} hp
  obtain ⟨hg, hr, ht⟩ := h.scan hsc
  have hnd := validateGraph_nodup hv
  have hrebuilt : Rebuilt (restore (runContext o r taskId graph) sc.snapshots (Core.fresh w trace)) :=
    (rebuilt_fresh w trace).restore _
  obtain ⟨mid, hmid, -⟩ := cascadeSkipped_loop hnd (c := runContext o r taskId graph)
    (l := graph) (fun _ hn => hn) hrebuilt.sound
  refine ⟨promoteReady (runContext o r taskId graph) mid, ?_⟩
  unfold hydrate
  rw [show Orchestrator.scan L = .ok sc from hsc]
  simp only [bind, Except.bind, hg, hr, ht, Option.getD_some]
  have hc : cascadeSkipped (runContext o r taskId graph)
      (restore (runContext o r taskId graph) sc.snapshots (Core.fresh w trace)) = .ok mid := hmid
  unfold runContext at hc ⊢
  rw [hc]

theorem CreatedLast.context (h : CreatedLast r taskId graph L)
    (hh : hydrate o w trace L = .ok (c, core)) : c = runContext o r taskId graph := by
  obtain ⟨sc, g, mid, hsc, hg, hc, -, -⟩ := hydrate_eq_ok hh
  obtain ⟨hg', hr, ht⟩ := h.scan hsc
  obtain rfl := Option.some.inj (hg.symm.trans hg')
  rw [hc, hr, ht]
  rfl

/-- What makes two rebuilt executors agree on the results. -/
theorem SameRebuilt.of_nodes (hr : Recorded c core) (hr' : Recorded c core')
    (hs : ∀ n ∈ c.graph, core.status n.id = core'.status n.id)
    (ha : ∀ n ∈ c.graph, (core.nodes n.id).attempt = (core'.nodes n.id).attempt)
    (hres : ∀ n ∈ c.graph, (core.nodes n.id).result = (core'.nodes n.id).result) :
    SameRebuilt c core core' := by
  refine ⟨hs, ha, funext fun x => ?_, funext fun key => ?_⟩
  · rw [hr.results, hr'.results]
    by_cases hx : ∃ n ∈ c.graph, n.id = x
    · obtain ⟨n, hn, rfl⟩ := hx
      exact hres n hn
    · push Not at hx
      rw [hr.outside x hx, hr'.outside x hx]
  · by_cases hkey : ∃ n ∈ c.graph, keyOf c n = key
    · obtain ⟨n, hn, rfl⟩ := hkey
      rw [hr.stored n hn, hr'.stored n hn, hres n hn]
    · push Not at hkey
      rw [hr.others key hkey, hr'.others key hkey]

/-- A node that is not skipped has the status the ledger says, as far as that is terminal. -/
theorem Landed.same_told (h : Landed c L core) (h' : Landed c L' core') {n : WorkflowNode}
    (hn : n ∈ c.graph) (hs : core.status n.id = core'.status n.id)
    (hd : ¬ Dropped c.graph L n.id) : (told L n.id).status = (told L' n.id).status := by
  have hns : core.status n.id ≠ .skipped := fun he => hd ((h.dropped n hn).mp he)
  -- an open node that is not skipped is planned or ready, which a terminal one never is
  have hopen : ∀ {K : List LedgerEventLike} {x : Core}, Landed c K x → x.status n.id ≠ .skipped →
      (told K n.id).status.isTerminal = false → (x.status n.id).isTerminal = false := by
    intro K x hl hx ho
    rcases hl.unended n hn ho with he | he | he
    · rw [he]; rfl
    · rw [he]; rfl
    · exact absurd he hx
  cases ht : (told L n.id).status.isTerminal with
  | true =>
      cases ht' : (told L' n.id).status.isTerminal with
      | true => rw [← h.ended n hn ht, ← h'.ended n hn ht', hs]
      | false =>
          have ho := hopen h' (hs ▸ hns) ht'
          rw [← hs, h.ended n hn ht, ht] at ho
          cases ho
  | false =>
      cases ht' : (told L' n.id).status.isTerminal with
      | true =>
          have ho := hopen h hns ht
          rw [hs, h'.ended n hn ht', ht'] at ho
          cases ho
      | false => rw [told_open ht, told_open ht']

/-- Where the ledgers say the same, the completed nodes are the same. -/
theorem Landed.same_completed (h : Landed c L core) (h' : Landed c L' core') {n : WorkflowNode}
    (hn : n ∈ c.graph) (hsame : SaysSame c.graph L L' n.id) (hc : core.status n.id = .completed) :
    core'.status n.id = .completed := by
  rcases hsame.2.2 with ⟨hd, -⟩ | ⟨-, -, hst⟩
  · rw [(h.dropped n hn).mpr hd] at hc
    cases hc
  · cases ht : (told L n.id).status.isTerminal with
    | true => rw [h'.ended n hn (hst ▸ ht), ← hst, ← h.ended n hn ht, hc]
    | false =>
        rcases h.unended n hn ht with he | he | he <;> rw [he] at hc <;> cases hc

theorem SaysSame.symm {id : NodeId} (h : SaysSame graph L L' id) : SaysSame graph L' L id :=
  ⟨h.1.symm, h.2.1.symm, h.2.2.imp And.symm fun ⟨hd, hd', hs⟩ => ⟨hd', hd, hs.symm⟩⟩

theorem Landed.same_status (hv : validateGraph c.graph = .ok ()) (h : Landed c L core)
    (h' : Landed c L' core') (hsame : ∀ n ∈ c.graph, SaysSame c.graph L L' n.id)
    {n : WorkflowNode} (hn : n ∈ c.graph) : core.status n.id = core'.status n.id := by
  rcases (hsame n hn).2.2 with ⟨hd, hd'⟩ | ⟨hd, hd', hst⟩
  · rw [(h.dropped n hn).mpr hd, (h'.dropped n hn).mpr hd']
  · cases ht : (told L n.id).status.isTerminal with
    | true => rw [h.ended n hn ht, hst, h'.ended n hn (hst ▸ ht)]
    | false =>
        have ht' : (told L' n.id).status.isTerminal = false := hst ▸ ht
        -- ready is decided by the completed dependencies
        have hready : core.status n.id = .ready ↔ core'.status n.id = .ready := by
          rw [h.due n hn ht, h'.due n hn ht']
          refine forall₂_congr fun d hd => ?_
          obtain ⟨m, hm, rfl⟩ := List.mem_map.mp (validateGraph_deps hv n hn d hd)
          exact ⟨h.same_completed h' hm (hsame m hm), h'.same_completed h hm (hsame m hm).symm⟩
        have hns : core.status n.id ≠ .skipped := fun he => hd ((h.dropped n hn).mp he)
        have hns' : core'.status n.id ≠ .skipped := fun he => hd' ((h'.dropped n hn).mp he)
        rcases h.unended n hn ht with he | he | he
        · rcases h'.unended n hn ht' with he' | he' | he'
          · rw [he, he']
          · rw [hready.mpr he', he']
          · exact absurd he' hns'
        · rw [he, hready.mp he]
        · exact absurd he hns

/-- The events of the other runs name no node of the graph. -/
def OthersElsewhere (r : String) (graph : List WorkflowNode) (L : List LedgerEventLike) : Prop :=
  ∀ e ∈ L, e.runId ≠ r → ∀ p, e.payload = .fields p → ∀ n ∈ graph, truthy p.nodeId ≠ some n.id

theorem OthersElsewhere.same_told (h : OthersElsewhere r graph L) {n : WorkflowNode} (hn : n ∈ graph) :
    told L n.id = told (ofRun r L) n.id := by
  unfold told readSnap ofRun
  rw [List.foldl_filter]
  refine congrArg (restored {}) (List.foldl_ext _ _ _ fun snap e he => ?_)
  by_cases hr : e.runId = r
  · simp [hr]
  · have hsame : readStep n.id snap e = snap := by
      unfold readStep
      split
      · rfl
      · rename_i p hp
        exact if_neg (h e he hr p hp n hn)
    simp [hr, hsame]

theorem Dropped.congr (hv : validateGraph graph = .ok ())
    (ht : ∀ n ∈ graph, told L n.id = told L' n.id) {id : NodeId} (h : Dropped graph L id) :
    (∃ n ∈ graph, n.id = id) → Dropped graph L' id := by
  induction h with
  | here hs =>
      rintro ⟨n, hn, rfl⟩
      exact .here (ht n hn ▸ hs)
  | @behind n d hn ho hd _ ih =>
      intro _
      exact .behind hn (ht n hn ▸ ho) hd (ih (List.mem_map.mp (validateGraph_deps hv n hn d hd)))

/-- **Other runs on other node ids have no influence.** -/
theorem OthersElsewhere.saysSame (hv : validateGraph graph = .ok ())
    (h : OthersElsewhere r graph L) :
    ∀ n ∈ graph, SaysSame graph L (ofRun r L) n.id := by
  intro n hn
  have ht : ∀ m ∈ graph, told L m.id = told (ofRun r L) m.id := fun _ hm =>
    h.same_told hm
  have hself : ∃ m ∈ graph, m.id = n.id := ⟨n, hn, rfl⟩
  refine ⟨by rw [ht n hn], by rw [ht n hn], ?_⟩
  by_cases hd : Dropped graph L n.id
  · exact .inl ⟨hd, hd.congr hv ht hself⟩
  · refine .inr ⟨hd, fun hd' => hd ?_, by rw [ht n hn]⟩
    exact hd'.congr hv (fun m hm => (ht m hm).symm) hself

/-- **Hydrating is not influenced by other runs in the ledger just when every event of it has a
    payload and, for every node of the run, the whole ledger says the same as the run's own
    events.** -/
theorem unmixed_iff {o : Options} {w : World} {trace : List Obs} {r taskId : String}
    {graph : List WorkflowNode} {L : List LedgerEventLike} (hv : validateGraph graph = .ok ())
    (hk : NoCollision (runContext o r taskId graph)) (hL : CreatedLast r taskId graph L) :
    Unmixed o w trace r L ↔ (∀ e ∈ L, e.payload ≠ .nullish) ∧
      ∀ n ∈ graph, SaysSame graph L (ofRun r L) n.id := by
  have hkeys := hk.distinctKeys (validateGraph_nodup hv)
  constructor
  · intro ⟨c, core, core', h, h', hsame⟩
    obtain rfl := hL.context h
    obtain ⟨sc, -, -, hsc, -⟩ := hydrate_eq_ok h
    obtain ⟨hl, hrec⟩ := hydrate_landed hv hkeys h
    obtain ⟨hl', hrec'⟩ := hydrate_landed hv hkeys h'
    refine ⟨scanLoop_payloads hsc, fun n hn => ⟨?_, ?_, ?_⟩⟩
    · rw [← hl.attempt n hn, ← hl'.attempt n hn]
      exact hsame.attempt n hn
    · rw [← hl.result n hn, ← hl'.result n hn, ← hrec.results, ← hrec'.results, hsame.results]
    · have hskip : core.status n.id = .skipped ↔ Dropped graph L n.id := hl.dropped n hn
      have hskip' : core'.status n.id = .skipped ↔ Dropped graph (ofRun r L) n.id :=
        hl'.dropped n hn
      have hdrop : Dropped graph L n.id ↔ Dropped graph (ofRun r L) n.id := by
        rw [← hskip, ← hskip', hsame.status n hn]
      by_cases hd : Dropped graph L n.id
      · exact .inl ⟨hd, hdrop.mp hd⟩
      · exact .inr ⟨hd, fun hd' => hd (hdrop.mpr hd'), hl.same_told hl' hn (hsame.status n hn) hd⟩
  · intro ⟨hp, hsame⟩
    obtain ⟨core, h⟩ := hL.hydrates hv hp
    obtain ⟨core', h'⟩ := hL.ofRun.hydrates hv fun e he => hp e (List.mem_of_mem_filter he)
    obtain ⟨hl, hrec⟩ := hydrate_landed hv hkeys h
    obtain ⟨hl', hrec'⟩ := hydrate_landed hv hkeys h'
    refine ⟨_, core, core', h, h', .of_nodes hrec hrec' (fun n hn => ?_) (fun n hn => ?_)
      fun n hn => ?_⟩
    · exact hl.same_status hv hl' hsame hn
    · rw [hl.attempt n hn, hl'.attempt n hn]
      exact (hsame n hn).1
    · rw [hl.result n hn, hl'.result n hn]
      exact (hsame n hn).2.1

end Mixed

/-- A letter is sent. -/
def mailNode : WorkflowNode :=
  { id := "mail", kind := .action, action := some "mail.send", deps := [] }

/-- An executor without limits of its own. -/
def mailOptions : Options where
  limits := defaultBulkhead
  compensations := .empty
  sha256 := fun text => text

/-- Nothing needs approval, and no guard stops anything. -/
def mailWorld : World := ⟨fun _ => false, fun _ _ _ => none⟩

/-- It has been sent. -/
def mailResult : NodeResult := { status := .success, output := .null, evidence := [] }

/-- The ledger of a finished run, and the creation of the next one on the same graph. -/
def mailLedger (next : String) : List LedgerEventLike :=
  [(WorkflowEvent.runCreated "run-1" "task" [mailNode]).toLedger "task" "run-1",
    (WorkflowEvent.nodeCompleted "mail" mailResult "run-1:mail" "key").toLedger "task" "run-1",
    (WorkflowEvent.runCreated next "task" [mailNode]).toLedger "task" next]

theorem mailLedger_created (next : String) :
    CreatedLast next "task" [mailNode] (mailLedger next) :=
  ⟨(mailLedger next).take 2, [], rfl, fun _ he => absurd he List.not_mem_nil⟩

theorem mail_noCollision (r : String) : NoCollision (runContext mailOptions r "task" [mailNode]) :=
  fun _ _ _ _ h => h

theorem unmixed_iff_mail : Unmixed mailOptions mailWorld [] "run-2" (mailLedger "run-2") ↔
    (∀ e ∈ mailLedger "run-2", e.payload ≠ .nullish) ∧
      ∀ n ∈ [mailNode],
        SaysSame [mailNode] (mailLedger "run-2") (ofRun "run-2" (mailLedger "run-2")) n.id :=
  unmixed_iff rfl (mail_noCollision _) (mailLedger_created _)

/-- The mail of the second run counts as sent, since the first run has sent one. -/
theorem other_run_completes : ∃ (o : Options) (w : World) (r taskId : String)
    (graph : List WorkflowNode) (L : List LedgerEventLike), validateGraph graph = .ok () ∧
    NoCollision (runContext o r taskId graph) ∧ CreatedLast r taskId graph L ∧
    ¬ Unmixed o w [] r L := by
  refine ⟨mailOptions, mailWorld, "run-2", "task", [mailNode], mailLedger "run-2", rfl,
    mail_noCollision _, mailLedger_created _, ?_⟩
  intro ⟨c, core, core', h, h', hsame⟩
  cases h
  cases h'
  have hstatus := hsame.status mailNode List.mem_cons_self
  cases hstatus

end AgentKernel.Orchestrator
