/-
  File:      AgentKernel/Orchestrator/Spread.lean
  Subject:   What is done to a node by code that is not its own: it is skipped by a conditional or
             by the cascade behind one, made ready, cancelled. One such write is a `Touch`, the
             writes of one stretch are a `Spread`.

  A touch leaves terminal nodes alone and starts nothing. The loops of `cascadeSkip`, `skipNode`,
  `promoteReady` and `cancelAll` are spreads (`cascadeSkip_spreads`, …), and each reaches what its
  loop is for: after a cascade every dependent of a skipped node is terminal
  (`cascadeSkip_closed`), after `promoteReady` a planned node has an unfinished dependency
  (`promoteReady_waits`), after `cancelAll` every node is terminal.
-/
import AgentKernel.Orchestrator.Effects
import AgentKernel.Lib.Lists

namespace AgentKernel.Orchestrator

/-! ## 1. Touches -/

/-- No execution in flight can go on: each has rejected. -/
def Quiescent (s : Core) : Prop :=
  ∀ key f, s.store.inFlight key = some f → ∃ e, f.pc = .rejected e

/-- The events that write no node: of the queue, and of the end of the run. -/
def IsNote : WorkflowEvent → Prop
  | .jobEnqueued .. | .runCompleted _ | .runCancelled .. | .runFailed .. => True
  | _ => False

/-- One write to a node by code that is not its own. A skipped node is a target of the
    conditional that is being concluded, or a dependent of a skipped node; only under the
    condition `q` are nodes cancelled and events of the queue or of the run's end emitted. -/
inductive Touch (c : Context) (T : List NodeId) (q : Prop) (s : Core) : Core → Prop where
  | skip {n : WorkflowNode} {reason : String} (hn : n ∈ c.graph)
      (hp : s.status n.id = .planned)
      (why : n.id ∈ T ∨ ∃ d ∈ n.deps, s.status d = .skipped) :
      Touch c T q s (s.put n.id
        { s.nodes n.id with status := .skipped, skippedReason := some reason }
        [.event (.nodeSkipped n.id reason)])
  | prepare {n : WorkflowNode} (hn : n ∈ c.graph) (hp : s.status n.id = .planned)
      (hd : ∀ d ∈ n.deps, s.status d = .completed) :
      Touch c T q s (s.put n.id { s.nodes n.id with status := .ready }
        [.event (.nodeReady n.id)])
  | cancel {n : WorkflowNode} {reason : String} (hn : n ∈ c.graph) (hq : q)
      (ht : (s.status n.id).isTerminal = false) :
      Touch c T q s (s.put n.id { s.nodes n.id with status := .cancelled }
        [.event (.nodeCancelled n.id reason)])
  | note {e : WorkflowEvent} (he : IsNote e) (hq : q) : Touch c T q s (s.emit e)

/-- The touches of one stretch. -/
abbrev Spread (c : Context) (T : List NodeId) (q : Prop) : Core → Core → Prop :=
  Relation.ReflTransGen (Touch c T q)

section Touches

variable {c : Context} {T : List NodeId} {q : Prop} {s s' : Core} {id : NodeId}

/-- What touches do not write. -/
structure SameRest (s s' : Core) : Prop where
  results : s'.results = s.results
  store : s'.store = s.store
  late : s'.late = s.late
  world : s'.world = s.world
  completionOrder : s'.completionOrder = s.completionOrder
  compensated : s'.compensated = s.compensated

theorem SameRest.refl (s : Core) : SameRest s s := ⟨rfl, rfl, rfl, rfl, rfl, rfl⟩

theorem SameRest.trans {s₁ s₂ s₃ : Core} (h : SameRest s₁ s₂) (h' : SameRest s₂ s₃) :
    SameRest s₁ s₃ :=
  ⟨h'.results.trans h.results, h'.store.trans h.store, h'.late.trans h.late,
    h'.world.trans h.world, h'.completionOrder.trans h.completionOrder,
    h'.compensated.trans h.compensated⟩

theorem Touch.sameRest (h : Touch c T q s s') : SameRest s s' := by
  cases h <;> exact ⟨rfl, rfl, rfl, rfl, rfl, rfl⟩

theorem Spread.sameRest (h : Spread c T q s s') : SameRest s s' := by
  induction h with
  | refl => exact .refl s
  | tail _ ht ih => exact ih.trans ht.sameRest

theorem Touch.setFlight (h : Touch c T q s s') (key : String) (f : Flight) :
    Touch c T q (s.setFlight key f) (s'.setFlight key f) := by
  cases h with
  | skip hn hp why => exact .skip hn hp why
  | prepare hn hp hd => exact .prepare hn hp hd
  | cancel hn hq ht => exact .cancel hn hq ht
  | note he hq => exact .note he hq

theorem Spread.setFlight (h : Spread c T q s s') (key : String) (f : Flight) :
    Spread c T q (s.setFlight key f) (s'.setFlight key f) := by
  induction h with
  | refl => exact .refl
  | tail _ ht ih => exact ih.tail (ht.setFlight key f)

/-- How a touch may change a status. -/
def TouchStatus (q : Prop) (st st' : NodeStatus) : Prop :=
  st' = st ∨ (st = .planned ∧ (st' = .skipped ∨ st' = .ready)) ∨
    (st.isTerminal = false ∧ st' = .cancelled ∧ q)

theorem Touch.status (h : Touch c T q s s') (id : NodeId) :
    TouchStatus q (s.status id) (s'.status id) := by
  cases h with
  | @skip n reason hn hp why =>
      rw [Core.put_status]
      split_ifs with hx
      · subst hx
        exact .inr (.inl ⟨hp, .inl rfl⟩)
      · exact .inl rfl
  | @prepare n hn hp hd =>
      rw [Core.put_status]
      split_ifs with hx
      · subst hx
        exact .inr (.inl ⟨hp, .inr rfl⟩)
      · exact .inl rfl
  | @cancel n reason hn hq ht =>
      rw [Core.put_status]
      split_ifs with hx
      · subst hx
        exact .inr (.inr ⟨ht, rfl, hq⟩)
      · exact .inl rfl
  | note he => exact .inl rfl

theorem Touch.terminal (h : Touch c T q s s') (ht : (s.status id).isTerminal = true) :
    s'.status id = s.status id := by
  rcases h.status id with h | ⟨hp, _⟩ | ⟨hn, _⟩
  · exact h
  · rw [hp] at ht
    cases ht
  · rw [hn] at ht
    cases ht

/-- **Touches leave terminal nodes alone.** -/
theorem Spread.terminal (h : Spread c T q s s') (ht : (s.status id).isTerminal = true) :
    s'.status id = s.status id := by
  induction h with
  | refl => rfl
  | tail _ htouch ih => rw [htouch.terminal (by rw [ih]; exact ht), ih]

theorem Spread.isTerminal (h : Spread c T q s s') (ht : (s.status id).isTerminal = true) :
    (s'.status id).isTerminal = true := by
  rw [h.terminal ht]
  exact ht

theorem Touch.of_completed (h : Touch c T q s s') (hc : s'.status id = .completed) :
    s.status id = .completed := by
  rcases h.status id with h | ⟨-, h | h⟩ | ⟨-, h, -⟩
  · rw [← h]
    exact hc
  · rw [h] at hc
    cases hc
  · rw [h] at hc
    cases hc
  · rw [h] at hc
    cases hc

/-- A touch completes no node and undoes no completion. -/
theorem Spread.completed (h : Spread c T q s s') :
    s'.status id = .completed ↔ s.status id = .completed := by
  induction h with
  | refl => rfl
  | tail _ ht ih =>
      rw [← ih]
      exact ⟨ht.of_completed, fun hc => by rw [ht.terminal (by rw [hc]; rfl), hc]⟩

theorem Spread.skipped (h : Spread c T q s s') (hs : s.status id = .skipped) :
    s'.status id = .skipped := by
  rw [h.terminal (by rw [hs]; rfl), hs]

end Touches

/-! ## 2. Skipping -/

/-- What a loop of skips answers: its touches, and after them possibly a refused one. -/
def Skips (c : Context) (T : List NodeId) (q : Prop) (s : Core) : Except Thrown Core → Prop
  | .ok s' => Spread c T q s s'
  | .error t => ∃ s₁, ∃ n ∈ c.graph, Spread c T q s s₁ ∧ s₁.status n.id ≠ .planned ∧
      (s₁.status n.id).isTerminal = false ∧ (n.id ∈ T ∨ ∃ d ∈ n.deps, s₁.status d = .skipped) ∧
      t.core = s₁.observe (.illegal n.id (s₁.status n.id) .skip)

section Skipping

open Lib

variable {c : Context} {T : List NodeId} {q : Prop} {s s' : Core} {id : NodeId}

theorem Skips.bind {r : Except Thrown Core} {k : Core → Except Thrown Core}
    (h : Skips c T q s r)
    (hk : ∀ s', r = .ok s' → Spread c T q s s' → Skips c T q s' (k s')) :
    Skips c T q s (r.bind k) := by
  cases r with
  | error t => exact h
  | ok s₁ =>
      have h₂ := hk s₁ rfl h
      show Skips c T q s (k s₁)
      revert h₂
      cases k s₁ with
      | ok s₂ => exact fun h₂ => Relation.ReflTransGen.trans h h₂
      | error t =>
          intro ⟨s₃, n, hn, hsp, hrest⟩
          exact ⟨s₃, n, hn, Relation.ReflTransGen.trans h hsp, hrest⟩

/-- A loop of skips, under a fact that touches keep. -/
theorem skips_foldlM {α : Type} {f : Core → α → Except Thrown Core} {P : Core → Prop}
    (hP : ∀ s s', P s → Spread c T q s s' → P s') : ∀ {l : List α} {s : Core},
    (∀ s, ∀ a ∈ l, P s → Skips c T q s (f s a)) → P s → Skips c T q s (l.foldlM f s)
  | [], _, _, _ => Relation.ReflTransGen.refl
  | a :: l, s, hf, h => by
      rw [List.foldlM_cons]
      refine Skips.bind (hf s a List.mem_cons_self h) fun s' _ hsp => ?_
      exact skips_foldlM hP (fun s b hb => hf s b (List.mem_cons_of_mem _ hb)) (hP _ _ h hsp)

/-- A legal skip, written out. -/
theorem markSkipped_ok {n : WorkflowNode} {reason : String} (hp : s.status n.id = .planned) :
    markSkipped s n.id reason = .ok (s.put n.id
      { s.nodes n.id with status := .skipped, skippedReason := some reason }
      [.event (.nodeSkipped n.id reason)]) := by
  unfold markSkipped
  rw [Core.fire_ok s n.id .skipped (by rw [hp]; rfl)]
  show Except.ok _ = _
  simp [Core.setSkippedReason, Core.emit]

theorem markSkipped_refused {n : WorkflowNode} (reason : String)
    (hp : s.status n.id ≠ .planned) : ∃ message, markSkipped s n.id reason =
      .error ⟨s.observe (.illegal n.id (s.status n.id) .skip), message⟩ := by
  have hno : nodeStateMachine.transitions (s.status n.id) .skip = none := by
    revert hp
    cases s.status n.id <;> simp [nodeStateMachine]
  unfold markSkipped
  rw [Core.fire_error s n.id hno, ← Core.observe_eq_put]
  exact ⟨_, rfl⟩

theorem markSkipped_skips {n : WorkflowNode} (reason : String) (hn : n ∈ c.graph)
    (ht : (s.status n.id).isTerminal = false)
    (why : n.id ∈ T ∨ ∃ d ∈ n.deps, s.status d = .skipped) :
    Skips c T q s (markSkipped s n.id reason) := by
  by_cases hp : s.status n.id = .planned
  · rw [markSkipped_ok hp]
    exact .single (.skip hn hp why)
  · obtain ⟨message, h⟩ := markSkipped_refused reason hp
    rw [h]
    exact ⟨s, n, hn, .refl, hp, ht, why, rfl⟩

theorem markSkipped_status {n : WorkflowNode} {reason : String}
    (h : markSkipped s n.id reason = .ok s') :
    s.status n.id = .planned ∧ s' = s.put n.id
      { s.nodes n.id with status := .skipped, skippedReason := some reason }
      [.event (.nodeSkipped n.id reason)] := by
  by_cases hp : s.status n.id = .planned
  · rw [markSkipped_ok hp] at h
    exact ⟨hp, (Except.ok.inj h).symm⟩
  · obtain ⟨message, he⟩ := markSkipped_refused reason hp
    rw [he] at h
    cases h

/-- One round of the loop of `cascadeSkip`. -/
def cascadeRound (c : Context) (fuel : Nat) (id : NodeId) (s : Core) (other : WorkflowNode) :
    Except Thrown Core :=
  if id ∈ other.deps ∧ ¬ (s.status other.id).isTerminal then
    (markSkipped s other.id ("dependency '" ++ id ++ "' skipped")).bind fun s =>
      cascadeSkip c fuel s other.id
  else .ok s

theorem cascadeSkip_succ (fuel : Nat) :
    cascadeSkip c (fuel + 1) s id = c.graph.foldlM (cascadeRound c fuel id) s := rfl

/-- **A cascade behind a skipped node is a spread.** -/
theorem cascadeSkip_skips : ∀ (fuel : Nat) {s : Core} {id : NodeId}, s.status id = .skipped →
    Skips c T q s (cascadeSkip c fuel s id)
  | 0, _, _, _ => Relation.ReflTransGen.refl
  | fuel + 1, s, id, h => by
      rw [cascadeSkip_succ]
      refine skips_foldlM (P := fun s => s.status id = .skipped)
        (fun s s' hs hsp => hsp.skipped hs) (fun s other ho hs => ?_) h
      unfold cascadeRound
      split_ifs with hif
      · have ht : (s.status other.id).isTerminal = false := by simpa using hif.2
        refine Skips.bind (markSkipped_skips _ ho ht (.inr ⟨id, hif.1, hs⟩)) fun s' hs' hsp => ?_
        refine cascadeSkip_skips _ ?_
        rw [(markSkipped_status hs').2, Core.put_status_self]
      · exact Relation.ReflTransGen.refl

theorem skipNode_skips {reason : String} (ht : id ∈ T) :
    Skips c T q s (skipNode c s id reason) := by
  unfold skipNode
  split_ifs with hif
  · exact Relation.ReflTransGen.refl
  · simp only [not_or, Option.isNone_iff_eq_none, Bool.not_eq_true] at hif
    obtain ⟨n, hn⟩ := Option.ne_none_iff_exists'.mp hif.1
    obtain ⟨hmem, rfl⟩ := mem_of_nodeById hn
    refine Skips.bind (markSkipped_skips reason hmem hif.2 (.inl ht)) fun s' hs' _ => ?_
    refine cascadeSkip_skips _ ?_
    rw [(markSkipped_status hs').2, Core.put_status_self]

/-- **The skipping that ends a conditional**: its touches, and a refused one if it threw. -/
theorem conclude_spread {n : WorkflowNode} {cond : ConditionSpec} {source : NodeResult}
    {pc : FlightPc} (h : conclude c s n cond source = (s', pc)) :
    (pc = .judged (conditionResult n cond source) ∧
      Spread c (unchosen cond (matchCondition cond source).1) q s s') ∨
    ∃ e, pc = .threw e ∧ ∃ s₁, ∃ m ∈ c.graph,
      Spread c (unchosen cond (matchCondition cond source).1) q s s₁ ∧
      s₁.status m.id ≠ .planned ∧ (s₁.status m.id).isTerminal = false ∧
      (m.id ∈ unchosen cond (matchCondition cond source).1 ∨ ∃ d ∈ m.deps, s₁.status d = .skipped) ∧
      s' = s₁.observe (.illegal m.id (s₁.status m.id) .skip) := by
  have hsk : Skips c (unchosen cond (matchCondition cond source).1) q s
      ((unchosen cond (matchCondition cond source).1).foldlM (fun s id =>
        skipNode c s id (skipReason n (matchCondition cond source).1)) s) :=
    skips_foldlM (P := fun _ => True) (fun _ _ _ _ => trivial)
      (fun _ _ ha _ => skipNode_skips ha) trivial
  unfold conclude at h
  dsimp only at h
  split at h
  · rename_i hok
    cases h
    rw [hok] at hsk
    exact .inl ⟨rfl, hsk⟩
  · rename_i herr
    cases h
    rw [herr] at hsk
    obtain ⟨s₁, m, hm, hsp, hp, ht, why, hcore⟩ := hsk
    exact .inr ⟨_, rfl, s₁, m, hm, hsp, hp, ht, why, hcore⟩

end Skipping

/-! ## 3. What a cascade reaches -/

/-- How many nodes are not terminal. -/
def unfinished (c : Context) (s : Core) : Nat :=
  c.graph.countP fun n => !(s.status n.id).isTerminal

/-- Every node that became skipped has only terminal dependents. -/
def Closes (c : Context) (s s' : Core) : Prop :=
  ∀ m, s.status m ≠ .skipped → s'.status m = .skipped →
    ∀ o ∈ c.graph, m ∈ o.deps → (s'.status o.id).isTerminal = true

section Reach

open Lib

variable {c : Context} {T : List NodeId} {q : Prop} {s s' s₁ s₂ : Core} {id : NodeId}

theorem Closes.refl (s : Core) : Closes c s s := fun _ h h' => absurd h' h

theorem Closes.trans (h : Closes c s s₁) (h' : Closes c s₁ s₂) (hsp : Spread c T q s₁ s₂) :
    Closes c s s₂ := by
  intro m hm hm' o ho hd
  by_cases h₁ : s₁.status m = .skipped
  · exact hsp.isTerminal (h m hm h₁ o ho hd)
  · exact h' m h₁ hm' o ho hd

theorem unfinished_le (h : Spread c T q s s') : unfinished c s' ≤ unfinished c s := by
  refine List.countP_mono_left fun n _ hn => ?_
  simp only [Bool.not_eq_true'] at hn ⊢
  by_contra hne
  rw [Bool.not_eq_false] at hne
  rw [h.isTerminal hne] at hn
  cases hn

theorem unfinished_lt {n : WorkflowNode} (h : Spread c T q s s') (hn : n ∈ c.graph)
    (ht : (s.status n.id).isTerminal = false) (ht' : (s'.status n.id).isTerminal = true) :
    unfinished c s' < unfinished c s := by
  refine countP_lt (fun m _ hm => ?_) ⟨n, hn, by simp [ht], by simp [ht']⟩
  simp only [Bool.not_eq_true'] at hm ⊢
  by_contra hne
  rw [Bool.not_eq_false] at hne
  rw [h.isTerminal hne] at hm
  cases hm

/-- What a cascade behind `id` reaches. -/
def Cascaded (c : Context) (id : NodeId) (s s' : Core) : Prop :=
  (∀ o ∈ c.graph, id ∈ o.deps → (s'.status o.id).isTerminal = true) ∧ Closes c s s'

theorem cascadeRound_closed {fuel : Nat} {other : WorkflowNode}
    (ih : ∀ s s' id, unfinished c s < fuel → s.status id = .skipped →
      cascadeSkip c fuel s id = .ok s' → Cascaded c id s s')
    (ho : other ∈ c.graph) (hf : unfinished c s < fuel + 1)
    (h : cascadeRound c fuel id s other = .ok s') (hs : s.status id = .skipped) :
    Spread c [] False s s' ∧ (id ∈ other.deps → (s'.status other.id).isTerminal = true) ∧
      Closes c s s' := by
  unfold cascadeRound at h
  split_ifs at h with hif
  · have ht : (s.status other.id).isTerminal = false := by simpa using hif.2
    obtain ⟨s₁, hmark, hcasc⟩ : ∃ s₁, markSkipped s other.id ("dependency '" ++ id ++ "' skipped") =
        .ok s₁ ∧ cascadeSkip c fuel s₁ other.id = .ok s' := by
      cases hm : markSkipped s other.id ("dependency '" ++ id ++ "' skipped") with
      | error t =>
          rw [hm] at h
          cases h
      | ok s₁ =>
          rw [hm] at h
          exact ⟨s₁, rfl, h⟩
    have hsp₁ : Spread c [] False s s₁ := by
      have := markSkipped_skips (T := []) (q := False)
        ("dependency '" ++ id ++ "' skipped") ho ht (.inr ⟨id, hif.1, hs⟩)
      rwa [hmark] at this
    obtain ⟨-, hs₁⟩ := markSkipped_status hmark
    have hsk : s₁.status other.id = .skipped := by rw [hs₁, Core.put_status_self]
    have hsp₂ : Spread c [] False s₁ s' := by
      have := cascadeSkip_skips (c := c) (T := []) (q := False) fuel hsk
      rwa [hcasc] at this
    have hlt := unfinished_lt hsp₁ ho ht (by rw [hsk]; rfl)
    obtain ⟨hdeps, hcl⟩ := ih s₁ s' other.id (by omega) hsk hcasc
    refine ⟨hsp₁.trans hsp₂, fun _ => by rw [hsp₂.skipped hsk]; rfl, ?_⟩
    intro m hm hm' o hog hd
    by_cases hmo : m = other.id
    · exact hdeps o hog (hmo ▸ hd)
    · refine hcl m ?_ hm' o hog hd
      rw [hs₁, Core.put_status, if_neg hmo]
      exact hm
  · cases h
    refine ⟨.refl, fun hd => ?_, .refl s⟩
    by_contra hne
    exact hif ⟨hd, hne⟩

theorem cascadeLoop_closed {fuel : Nat}
    (ih : ∀ s s' id, unfinished c s < fuel → s.status id = .skipped →
      cascadeSkip c fuel s id = .ok s' → Cascaded c id s s') :
    ∀ {l : List WorkflowNode} {s s' : Core}, (∀ o ∈ l, o ∈ c.graph) →
      unfinished c s < fuel + 1 → s.status id = .skipped →
      l.foldlM (cascadeRound c fuel id) s = .ok s' → Spread c [] False s s' ∧
        (∀ o ∈ l, id ∈ o.deps → (s'.status o.id).isTerminal = true) ∧ Closes c s s'
  | [], s, s', _, _, _, h => by
      cases h
      exact ⟨.refl, fun o ho => absurd ho List.not_mem_nil, .refl s⟩
  | other :: rest, s, s', hl, hf, hs, h => by
      obtain ⟨s₁, h₁, h₂⟩ : ∃ s₁, cascadeRound c fuel id s other = .ok s₁ ∧
          rest.foldlM (cascadeRound c fuel id) s₁ = .ok s' := by
        rw [List.foldlM_cons] at h
        cases hr : cascadeRound c fuel id s other with
        | error t =>
            rw [hr] at h
            cases h
        | ok s₁ =>
            rw [hr] at h
            exact ⟨s₁, rfl, h⟩
      obtain ⟨hsp₁, hd₁, hcl₁⟩ := cascadeRound_closed ih (hl other List.mem_cons_self) hf h₁ hs
      have hle := unfinished_le (c := c) hsp₁
      obtain ⟨hsp₂, hd₂, hcl₂⟩ := cascadeLoop_closed ih
        (fun o ho => hl o (List.mem_cons_of_mem _ ho)) (by omega) (hsp₁.skipped hs) h₂
      refine ⟨hsp₁.trans hsp₂, fun o ho hd => ?_, hcl₁.trans hcl₂ hsp₂⟩
      rcases List.mem_cons.mp ho with rfl | ho
      · exact hsp₂.isTerminal (hd₁ hd)
      · exact hd₂ o ho hd

/-- **After a cascade every dependent is terminal**: of the node it started behind, and of every
    node it skipped. The number of unfinished nodes is fuel enough. -/
theorem cascadeSkip_closed : ∀ {fuel : Nat} {s s' : Core} {id : NodeId},
    unfinished c s < fuel → s.status id = .skipped → cascadeSkip c fuel s id = .ok s' →
    Cascaded c id s s'
  | fuel + 1, s, s', id, hfuel, hid, h => by
      rw [cascadeSkip_succ] at h
      exact (cascadeLoop_closed (fun _ _ _ => cascadeSkip_closed) (fun _ ho => ho) hfuel hid h).2

end Reach

/-! ## 4. Readiness and cancellation -/

section Loops

variable {c : Context} {T : List NodeId} {q : Prop} {s s' : Core}

/-- A node that is planned although all its dependencies have completed. -/
def Due (s : Core) (n : WorkflowNode) : Prop :=
  s.status n.id = .planned ∧ ∀ d ∈ n.deps, s.status d = .completed

theorem promoteNode_due {n : WorkflowNode} (h : Due s n) :
    promoteNode s n = s.put n.id { s.nodes n.id with status := .ready }
      [.event (.nodeReady n.id)] := by
  unfold promoteNode
  rw [if_pos ⟨h.1, by simpa using h.2⟩, Core.fire_ok s n.id .ready (by rw [h.1]; rfl)]
  simp [Core.emit]

theorem promoteNode_not_due {n : WorkflowNode} (h : ¬ Due s n) : promoteNode s n = s := by
  unfold promoteNode
  rw [if_neg]
  exact fun hc => h ⟨hc.1, by simpa using hc.2⟩

theorem promoteNode_spread {n : WorkflowNode} (hn : n ∈ c.graph) :
    Spread c T q s (promoteNode s n) := by
  by_cases h : Due s n
  · rw [promoteNode_due h]
    exact .single (.prepare hn h.1 h.2)
  · rw [promoteNode_not_due h]

theorem Spread.planned (h : Spread c T q s s') {id : NodeId}
    (hp : s'.status id = .planned) : s.status id = .planned := by
  induction h with
  | refl => exact hp
  | tail _ ht ih =>
      refine ih ?_
      rcases ht.status id with h | ⟨h, _⟩ | ⟨-, h, -⟩
      · rw [← h]
        exact hp
      · exact h
      · rw [h] at hp
        cases hp

theorem Spread.due {n : WorkflowNode} (h : Spread c T q s s') (hd : Due s' n) : Due s n :=
  ⟨h.planned hd.1, fun d hdep => h.completed.mp (hd.2 d hdep)⟩

theorem promoteNode_waits (n : WorkflowNode) : ¬ Due (promoteNode s n) n := by
  by_cases h : Due s n
  · rw [promoteNode_due h]
    intro hd
    have := hd.1
    rw [Core.put_status_self] at this
    cases this
  · rw [promoteNode_not_due h]
    exact h

theorem promoteLoop_spread : ∀ {l : List WorkflowNode} {s : Core}, (∀ n ∈ l, n ∈ c.graph) →
    Spread c T q s (l.foldl promoteNode s) ∧ ∀ n ∈ l, ¬ Due (l.foldl promoteNode s) n
  | [], s, _ => ⟨.refl, fun n hn => absurd hn List.not_mem_nil⟩
  | m :: rest, s, hl => by
      have hsp : Spread c T q s (promoteNode s m) := promoteNode_spread (hl m List.mem_cons_self)
      obtain ⟨hrest, hdue⟩ := promoteLoop_spread (s := promoteNode s m)
        fun n hn => hl n (List.mem_cons_of_mem _ hn)
      refine ⟨hsp.trans hrest, fun n hn => ?_⟩
      rcases List.mem_cons.mp hn with rfl | hn
      · exact fun hd => promoteNode_waits _ (hrest.due hd)
      · exact hdue n hn

theorem promoteReady_spread : Spread c T q s (promoteReady c s) :=
  (promoteLoop_spread fun _ hn => hn).1

theorem promoteReady_store : (promoteReady c s).store = s.store :=
  (promoteReady_spread (T := []) (q := False)).sameRest.store

/-- **After `promoteReady` a planned node has an unfinished dependency.** -/
theorem promoteReady_waits : ∀ n ∈ c.graph, ¬ Due (promoteReady c s) n :=
  (promoteLoop_spread (T := []) (q := False) fun _ hn => hn).2

theorem cancelNode_spread (reason : String) {n : WorkflowNode} (hn : n ∈ c.graph)
    (hq : q) : Spread c T q s (cancelNode reason s n) ∧
      ((cancelNode reason s n).status n.id).isTerminal = true := by
  unfold cancelNode
  split_ifs with ht
  · exact ⟨.refl, ht⟩
  · have heq : (s.setStatus n.id .cancelled).emit (.nodeCancelled n.id reason) =
        s.put n.id { s.nodes n.id with status := .cancelled } [.event (.nodeCancelled n.id reason)] := by
      simp [Core.setStatus, Core.setNode_eq_put, Core.emit]
    rw [heq]
    refine ⟨.single (.cancel hn hq (by simpa using ht)), ?_⟩
    rw [Core.put_status_self]
    rfl

theorem cancelLoop_spread (reason : String) : ∀ {l : List WorkflowNode} {s : Core},
    (∀ n ∈ l, n ∈ c.graph) → q →
    Spread c T q s (l.foldl (cancelNode reason) s) ∧
      ∀ n ∈ l, ((l.foldl (cancelNode reason) s).status n.id).isTerminal = true
  | [], s, _, _ => ⟨.refl, fun n hn => absurd hn List.not_mem_nil⟩
  | m :: rest, s, hl, hq => by
      obtain ⟨hsp, ht⟩ := cancelNode_spread (T := T) reason
        (q := q) (hl m List.mem_cons_self) hq
      obtain ⟨hrest, hall⟩ := cancelLoop_spread reason (s := cancelNode reason s m)
        (fun n hn => hl n (List.mem_cons_of_mem _ hn)) hq
      refine ⟨hsp.trans hrest, fun n hn => ?_⟩
      rcases List.mem_cons.mp hn with rfl | hn
      · exact hrest.isTerminal ht
      · exact hall n hn

/-- **After `cancelAll` every node is terminal.** -/
theorem cancelAll_spread {reason : String} (hq : q) :
    Spread c T q s (cancelAll c s reason) ∧
      ∀ n ∈ c.graph, ((cancelAll c s reason).status n.id).isTerminal = true := by
  obtain ⟨hsp, hall⟩ := cancelLoop_spread (c := c) (T := T) reason
    (l := c.graph) (fun _ hn => hn) hq
  exact ⟨hsp.tail (.note trivial hq), hall⟩

end Loops

end AgentKernel.Orchestrator
