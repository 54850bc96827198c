/-
  File:      AgentKernel/Orchestrator/Rest.lean
  Subject:   No node is lost: where a run has come to rest, every node is terminal, or planned
             behind a dependency that ended badly.

  Three facts of every reachable state carry it. The dependents of a skipped node are terminal
  (`Closed`): a cascade never meets a refusal, since a node behind a skipped one was never made
  ready. A planned node has an unfinished dependency (`Waits`), once the drive loop has begun. A
  node left `WAITING` by its rejected execution still has a worker that will find it, or had one
  that died of it (`Stuck`).
-/
import AgentKernel.Orchestrator.Tidy

namespace AgentKernel.Orchestrator

open Lib

/-! ## 1. Skipped nodes and their dependents -/

/-- Every dependent of a skipped node is terminal. -/
def Closed (c : Context) (s : Core) : Prop :=
  ∀ m, s.status m = .skipped → ∀ o ∈ c.graph, m ∈ o.deps → (s.status o.id).isTerminal = true

section Closing

variable {c : Context} {s s' : Core} {T : List NodeId} {q : Prop} {id : NodeId}

theorem Touch.widen {T' : List NodeId} (h : Touch c T q s s') (hsub : T ⊆ T') :
    Touch c T' q s s' := by
  cases h with
  | skip hn hp why => exact .skip hn hp (why.imp_left fun h => hsub h)
  | prepare hn hp hd => exact .prepare hn hp hd
  | cancel hn hq ht => exact .cancel hn hq ht
  | note he hq => exact .note he hq

theorem Spread.widen {T' : List NodeId} (h : Spread c T q s s') (hsub : T ⊆ T') :
    Spread c T' q s s' := by
  induction h with
  | refl => exact .refl
  | tail _ ht ih => exact ih.tail (ht.widen hsub)

theorem Closes.closed (h : Closes c s s') (hsp : Spread c T q s s') (hc : Closed c s) :
    Closed c s' := by
  intro m hm o ho hd
  by_cases hold : s.status m = .skipped
  · exact hsp.isTerminal (hc m hold o ho hd)
  · exact h m hold hm o ho hd

theorem live_of_not_terminal {st : NodeStatus} (ht : st.isTerminal = false) (hp : st ≠ .planned) :
    Live st := by
  cases st <;> simp_all [Live, NodeStatus.isTerminal]

/-- **A cascade meets no refusal**: what depends on a skipped node was never made ready. -/
theorem cascadeSkip_ok (hnd : (c.graph.map (·.id)).Nodup) (hS : Core.Sound c s) (fuel : Nat)
    (hs : s.status id = .skipped) : ∃ s', cascadeSkip c fuel s id = .ok s' := by
  have hsk := cascadeSkip_skips (c := c) (T := []) (q := False) fuel hs
  cases hres : cascadeSkip c fuel s id with
  | ok s' => exact ⟨s', rfl⟩
  | error t =>
      rw [hres] at hsk
      obtain ⟨s₁, n, hn, hsp, hp, ht, hT | ⟨d, hd, hds⟩, -⟩ := hsk
      · cases hT
      · have hdone := (hS.spread False.elim hnd hsp).live n hn (live_of_not_terminal ht hp) d hd
        rw [hds] at hdone
        cases hdone

/-- One skip with its cascade, or a refusal that wrote nothing. -/
theorem skipNode_closes (hnd : (c.graph.map (·.id)).Nodup) (hS : Core.Sound c s) (reason : String) :
    (∃ s', skipNode c s id reason = .ok s' ∧ Spread c [id] False s s' ∧ Closes c s s') ∨
    ∃ t, skipNode c s id reason = .error t ∧ s.status id ≠ .planned ∧
      (s.status id).isTerminal = false ∧ (∃ n ∈ c.graph, n.id = id) ∧
      t.core = s.observe (.illegal id (s.status id) .skip) := by
  have hsp : Skips c [id] False s (skipNode c s id reason) :=
    skipNode_skips (List.mem_singleton.mpr rfl)
  unfold skipNode at hsp ⊢
  split_ifs at hsp ⊢ with hif
  · exact .inl ⟨s, rfl, .refl, .refl s⟩
  · simp only [not_or, Option.isNone_iff_eq_none, Bool.not_eq_true] at hif
    obtain ⟨n, hn⟩ := Option.ne_none_iff_exists'.mp hif.1
    obtain ⟨hmem, rfl⟩ := mem_of_nodeById hn
    by_cases hp : s.status n.id = .planned
    · rw [markSkipped_ok hp] at hsp ⊢
      obtain ⟨s₁, hs₁⟩ : ∃ s₁, s₁ = s.put n.id
          { s.nodes n.id with status := .skipped, skippedReason := some reason }
          [.event (.nodeSkipped n.id reason)] := ⟨_, rfl⟩
      rw [← hs₁] at hsp ⊢
      have hsk : s₁.status n.id = .skipped := by rw [hs₁, Core.put_status_self]
      have htouch : Touch c [n.id] False s s₁ :=
        hs₁ ▸ Touch.skip hmem hp (.inl (List.mem_singleton.mpr rfl))
      have hS₁ := hS.touch False.elim hnd htouch
      obtain ⟨s₂, hs₂⟩ := cascadeSkip_ok hnd hS₁ c.graph.length hsk
      have hlt : unfinished c s₁ < c.graph.length := by
        have h₁ := unfinished_lt (.single htouch) hmem hif.2 (by rw [hsk]; rfl)
        have h₂ : unfinished c s ≤ c.graph.length := List.countP_le_length
        omega
      obtain ⟨hdeps, hcl⟩ := cascadeSkip_closed hlt hsk hs₂
      change Skips c [n.id] False s (cascadeSkip c c.graph.length s₁ n.id) at hsp
      change (∃ s', cascadeSkip c c.graph.length s₁ n.id = .ok s' ∧ _) ∨ _
      rw [hs₂] at hsp ⊢
      refine .inl ⟨s₂, rfl, hsp, fun m hm hm' o ho hd => ?_⟩
      by_cases hmn : m = n.id
      · exact hdeps o ho (hmn ▸ hd)
      · refine hcl m ?_ hm' o ho hd
        rw [hs₁, Core.put_status, if_neg hmn]
        exact hm
    · obtain ⟨message, hm⟩ := markSkipped_refused reason hp
      rw [hm]
      exact .inr ⟨_, rfl, hp, hif.2, ⟨n, hmem, rfl⟩, rfl⟩

/-- A loop of skips: each closes, up to the first refusal. -/
theorem skipLoop_closes (hnd : (c.graph.map (·.id)).Nodup) (reason : String) :
    ∀ (ids : List NodeId) {s : Core}, Core.Sound c s →
      (∃ s', ids.foldlM (fun s id => skipNode c s id reason) s = .ok s' ∧
        Spread c ids False s s' ∧ Closes c s s') ∨
      ∃ t s₁ id, ids.foldlM (fun s id => skipNode c s id reason) s = .error t ∧
        Spread c ids False s s₁ ∧ Closes c s s₁ ∧ id ∈ ids ∧ s₁.status id ≠ .planned ∧
        (s₁.status id).isTerminal = false ∧ (∃ n ∈ c.graph, n.id = id) ∧
        t.core = s₁.observe (.illegal id (s₁.status id) .skip)
  | [], s, _ => .inl ⟨s, rfl, .refl, .refl s⟩
  | id :: rest, s, hS => by
      have hmono : ∀ {T' : List NodeId} {x y : Core}, T' ⊆ id :: rest → Spread c T' False x y →
          Spread c (id :: rest) False x y := fun hsub hsp => hsp.widen hsub
      rw [List.foldlM_cons]
      rcases skipNode_closes hnd hS reason with
        ⟨s₁, h₁, hsp₁, hcl₁⟩ | ⟨t, ht, hp, hterm, hn, hcore⟩
      · rw [h₁]
        have hsp₁' := hmono (by simp) hsp₁
        rcases skipLoop_closes hnd reason rest (hS.spread False.elim hnd hsp₁) with
          ⟨s₂, h₂, hsp₂, hcl₂⟩ | ⟨t, s₂, id', h₂, hsp₂, hcl₂, hmem, hrest⟩
        · exact .inl ⟨s₂, h₂, hsp₁'.trans (hmono (List.subset_cons_self _ _) hsp₂),
            hcl₁.trans hcl₂ hsp₂⟩
        · exact .inr ⟨t, s₂, id', h₂, hsp₁'.trans (hmono (List.subset_cons_self _ _) hsp₂),
            hcl₁.trans hcl₂ hsp₂, List.mem_cons_of_mem _ hmem, hrest⟩
      · rw [ht]
        exact .inr ⟨t, s, id, rfl, .refl, .refl s, List.mem_cons_self, hp, hterm, hn, hcore⟩

/-- **The end of a conditional closes.** -/
theorem conclude_closes (hnd : (c.graph.map (·.id)).Nodup) (hS : Core.Sound c s) {n : WorkflowNode}
    {cond : ConditionSpec} {source : NodeResult} {pc : FlightPc}
    (h : conclude c s n cond source = (s', pc)) (hc : Closed c s) : Closed c s' := by
  unfold conclude at h
  dsimp only at h
  rcases skipLoop_closes hnd (skipReason n (matchCondition cond source).1)
    (unchosen cond (matchCondition cond source).1) hS with
    ⟨s₁, h₁, hsp, hcl⟩ | ⟨t, s₁, id, h₁, hsp, hcl, -, -, -, -, hcore⟩
  · rw [h₁] at h
    cases h
    exact hcl.closed hsp hc
  · rw [h₁] at h
    cases h
    rw [hcore]
    exact hcl.closed hsp hc

/-- Where nothing is skipped but dependents of skipped nodes, nothing is skipped. -/
theorem Closed.touch (h : Closed c s) (ht : Touch c [] q s s') : Closed c s' := by
  intro m hm o ho hd
  rcases ht.status m with he | ⟨hp, he | he⟩ | ⟨-, he, -⟩
  · rw [he] at hm
    have hterm := h m hm o ho hd
    rw [ht.terminal hterm]
    exact hterm
  · exfalso
    cases ht with
    | @skip n reason hn hpl why =>
        rcases why with hT | ⟨d, hdn, hds⟩
        · cases hT
        · have hterm := h d hds n hn hdn
          rw [hpl] at hterm
          cases hterm
    | @prepare n hn hpl hdeps =>
        rw [Core.put_status] at hm
        split_ifs at hm
        rw [hp] at hm
        cases hm
    | @cancel n reason hn hq hterm =>
        rw [Core.put_status] at hm
        split_ifs at hm
        rw [hp] at hm
        cases hm
    | note =>
        rw [show (s.emit _).status m = s.status m from rfl, hp] at hm
        cases hm
  · rw [he] at hm
    cases hm
  · rw [he] at hm
    cases hm

theorem Closed.spread (h : Closed c s) (hsp : Spread c [] q s s') : Closed c s' := by
  induction hsp with
  | refl => exact h
  | tail _ ht ih => exact ih.touch ht

end Closing

/-! ## 2. What an act writes -/

section Acts

variable {c : Context} {s : State} {x y : Core} {l : Label} {n : WorkflowNode}

/-- A stretch that returns a result or throws has written no status. -/
theorem Row.same_status {f : Flight} {pc pc' : FlightPc} {a : Answer}
    (h : Row c x f pc a y pc') (hpc : (∃ r, pc' = .judged r) ∨ ∃ e, pc' = .threw e) (id : NodeId) :
    y.status id = x.status id := by
  have hput : ∀ obs, (x.put f.node.id (x.nodes f.node.id) obs).status id = x.status id := by
    intro obs
    rw [Core.put_status]
    split_ifs with hid
    · rw [hid]
      rfl
    · rfl
  cases h with
  | throws | approved | timesOut => rfl
  | concludes | settles => exact hput _
  | calls | asks | answers | verifies | retries | retryRefused | fails | failRefused | resumes
  | ending | ended => rcases hpc with ⟨_, h⟩ | ⟨_, h⟩ <;> cases h

/-- A stretch that rejects has written none either. -/
theorem Row.rejected_status {f : Flight} {pc : FlightPc} {a : Answer} {error : String}
    (h : Row c x f pc a y (.rejected error)) (id : NodeId) : y.status id = x.status id := by
  have hput : ∀ (nd : InternalNode) obs, nd.status = x.status f.node.id →
      (x.put f.node.id nd obs).status id = x.status id := by
    intro nd obs hnd
    rw [Core.put_status]
    split_ifs with hid
    · rw [hnd, hid]
    · rfl
  cases h with
  | concludes _ _ _ hpc => rcases hpc with h | ⟨_, h⟩ <;> cases h
  | settles hpc => rcases hpc with ⟨_, -, -, h, -⟩ | ⟨_, -, -, h, -⟩ | ⟨_, -, h⟩ <;> cases h
  | retryRefused => exact hput _ _ rfl
  | failRefused hagain hhead =>
      rw [← countFailure_status x f.node.id]
      cases hhead <;>
      · rw [Core.put_status]
        split_ifs with hid
        · rw [hid]
          rfl
        · rfl
  | ended => rfl

/-- The statuses code of the node itself brings it to. -/
def Worked : NodeStatus → Prop
  | .planned | .ready | .skipped | .cancelled => False
  | _ => True

theorem Agrees.worked {pc : FlightPc} {st : NodeStatus} (h : Agrees pc st) (hg : Going pc) :
    Worked st := by
  cases pc with
  | rejected e => exact absurd rfl (hg e)
  | answered req granted => cases granted <;> (cases h; trivial)
  | failing thrown error pc => cases pc <;> revert h <;> cases st <;> simp [Agrees, Worked]
  | _ => revert h; cases st <;> simp [Agrees, Worked]

/-- The node an act moves has completed dependencies, and a status of its own code behind it. -/
def Moved (c : Context) (s y : Core) (id : NodeId) : Prop :=
  (∃ n ∈ c.graph, n.id = id ∧ ∀ d ∈ n.deps, s.status d = .completed) ∧ Worked (y.status id)

theorem HeadRow.moved {error : String} {q : Bool} {pc : Option FailPc}
    (h : HeadRow c x n error q y pc) (ht : (x.status n.id).isTerminal = false) (id : NodeId) :
    y.status id = x.status id ∨
      (id = n.id ∧ Live (x.status n.id) ∧ Worked (y.status id)) := by
  by_cases hid : id = n.id
  · subst hid
    have hlive : headStatus (x.status n.id) = .failed → Live (x.status n.id) := by
      cases hst : x.status n.id <;> simp_all [headStatus, Live, NodeStatus.isTerminal]
    cases h with
    | failed hw ha =>
        rw [Core.put_status_self]
        by_cases hh : headStatus (x.status n.id) = .failed
        · exact .inr ⟨rfl, hlive hh, by simp [hh, Worked]⟩
        · exact .inl (headStatus_of_ne hh)
    | compensates hs | quarantines hs =>
        exact .inr ⟨rfl, hlive hs, by simp [Worked]⟩
    | waits | refused => exact .inl (Core.put_status_self ..)
  · exact .inl (h.own.status hid)

/-- **An act moves a node whose dependencies have completed, or none.** -/
theorem Act.moved (hS : Core.Sound c s.core) (h : Act c s l y) (id : NodeId) :
    y.status id = s.core.status id ∨ Moved c s.core y id := by
  cases h with
  | idle | settles | late | world => exact .inl rfl
  | @flight key f a z pc hf hrow =>
      obtain ⟨hfn, -, hag⟩ := hS.flight key f hf
      rw [Core.setFlight_status]
      by_cases hgo : Going pc
      · by_cases hid : id = f.node.id
        · subst hid
          have hw := (hrow.agrees hag).worked hgo
          exact .inr ⟨⟨f.node, hfn, rfl, hS.working key f hf hrow.going⟩, hw⟩
        · exact .inl (hrow.own.status hid)
      · obtain ⟨e, he⟩ : ∃ e, pc = .rejected e := by
          by_contra hno
          exact hgo fun e he => hno ⟨e, he⟩
        subst he
        exact .inl (hrow.rejected_status id)
  | @begins i n job s₀ hh hn hid hkey =>
      rw [Core.setFlight_status]
      by_cases hidn : id = n.id
      · subst hidn
        by_cases hs : s.core.status n.id = .ready ∨ s.core.status n.id = .retrying
        · rw [beginAttempt_ok hs, Core.put_status_self]
          refine .inr ⟨⟨n, hn, rfl, hS.live n hn ?_⟩, ?_⟩
          · rcases hs with hs | hs <;> (rw [hs]; trivial)
          · rw [Core.setFlight_status, Core.put_status_self]
            trivial
        · simp only [not_or] at hs
          obtain ⟨_, he⟩ := beginAttempt_refused job hs.1 hs.2
          rw [he, Core.put_status_self]
          exact .inl rfl
      · exact .inl (beginAttempt_own.status hidn)
  | @completes i n r hn hr hs =>
      rw [doneCore_status]
      split_ifs with hid
      · subst hid
        refine .inr ⟨⟨n, hn, rfl, hS.live n hn ?_⟩, ?_⟩
        · rcases hs with hs | hs <;> (rw [show s.core.status n.id = _ from hs]; trivial)
        · rw [doneCore_status, if_pos rfl]
          trivial
      · exact .inl rfl
  | @givesUp i job n d stored error core z pc hw hn hend ht hcore hcaught hrow =>
      have hst : ∀ x, core.status x = s.core.status x := fun x => by
        rcases hcore with rfl | rfl <;> rfl
      rcases hrow.moved (by rw [hst]; exact ht) id with he | ⟨rfl, hl, hne⟩
      · exact .inl (he.trans (hst id))
      · rw [hst] at hl
        exact .inr ⟨⟨n, hn, rfl, hS.live n hn hl⟩, hne⟩
  | @ending i job n error a z pc pc' hw hn hend hrow =>
      by_cases hid : id = n.id
      · subst hid
        rcases hrow.status with hsame | ⟨hs, hs'⟩
        · exact .inl hsame
        · exact .inr ⟨⟨n, hn, rfl, hS.live n hn (by rw [hs]; trivial)⟩, by rw [hs']; trivial⟩
      · exact .inl (hrow.own.status hid)
  | endRefused =>
      rw [Core.put_status]
      split_ifs with hid
      · rw [hid]
        exact .inl rfl
      · exact .inl rfl

theorem Act.closed (hnd : (c.graph.map (·.id)).Nodup) (hS : Core.Sound c s.core) (h : Act c s l y) (hc : Closed c s.core) :
    Closed c y := by
  intro m hm o ho hd
  have hm' : s.core.status m = .skipped := by
    rcases h.moved hS m with he | ⟨-, hw⟩
    · exact he ▸ hm
    · rw [hm] at hw
      exact hw.elim
  have hterm := hc m hm' o ho hd
  rcases h.moved hS o.id with he | ⟨⟨n, hn, hid, hdeps⟩, -⟩
  · rw [he]
    exact hterm
  · -- a dependency of a moved node has completed, and is not the skipped one
    rw [hdeps m (eq_of_id_eq hnd hn ho hid ▸ hd)] at hm'
    cases hm'

/-- Writing a node that was not terminal keeps the dependents of skipped nodes terminal. -/
theorem Closed.put {d : InternalNode} {O : List Obs} (h : Closed c x)
    (ht : (x.status n.id).isTerminal = false) (hne : d.status ≠ .skipped) :
    Closed c (x.put n.id d O) := by
  intro m hm o ho hdep
  rw [Core.put_status] at hm ⊢
  split_ifs at hm with hmn
  · exact absurd hm hne
  · have hterm := h m hm o ho hdep
    split_ifs with hon
    · rw [hon, ht] at hterm
      cases hterm
    · exact hterm

theorem Closed.congr (h : Closed c x) (hst : ∀ id, y.status id = x.status id) : Closed c y := by
  intro m hm o ho hd
  rw [hst] at hm ⊢
  exact h m hm o ho hd

/-- An execution completes no node and makes none due. -/
theorem Act.due_flight {key : String} {a : Answer} (hS : Core.Sound c s.core)
    (h : Act c s (.flight key a) y) {m : WorkflowNode} (hd : Due y m) : Due s.core m := by
  refine ⟨?_, fun d hdep => ?_⟩
  · rcases h.moved hS m.id with he | ⟨-, hw⟩
    · rw [← he]
      exact hd.1
    · rw [hd.1] at hw
      exact hw.elim
  · have hc := hd.2 d hdep
    cases h with
    | idle | settles => exact hc
    | @flight _ f _ z pc hf hrow =>
        rw [Core.setFlight_status] at hc
        by_cases hid : d = f.node.id
        · subst hid
          exact absurd hc (hrow.not_completed (hS.flight key f hf).2.2 hrow.going)
        · rw [← hrow.own.status hid]
          exact hc

/-- **The stretch of an execution closes.** -/
theorem flightStep_closed {key : String} {a : Answer} (hnd : (c.graph.map (·.id)).Nodup)
    (hS : Core.Sound c s.core) (h : flightStep c s.core key a = some y) (hc : Closed c s.core) :
    Closed c y := by
  unfold flightStep at h
  split at h
  · cases h
  · rename_i f hf
    split at h
    · cases h
      exact hc
    · obtain ⟨⟨z, pc⟩, hnext, rfl⟩ := Option.map_eq_some_iff.mp h
      obtain ⟨z₁, hrow, hend⟩ := flightNext_ends (hS.flight key f hf).2.2 hnext
      have hz₁ : Closed c z₁ := ((Act.flight hf hrow).closed hnd hS hc).congr fun _ => rfl
      rcases hend with rfl | ⟨cond, source, -, -, -, hconc⟩
      · exact hz₁
      · have hpc : (∃ r, pc = .judged r) ∨ ∃ e, pc = .threw e :=
          (conclude_pc hconc).imp_left fun h => ⟨_, h⟩
        have hz : Closed c z :=
          conclude_closes hnd (hS.congr (hrow.same_status hpc) hrow.own.store) hconc hz₁
        exact hz

end Acts

/-! ## 3. The machine -/

/-- What keeps a run from standing still: nobody is due behind the first wave, and a rejected
    operation has somebody who knows. -/
structure Unlost (c : Context) (s : State) : Prop where
  closed : Closed c s.core
  waits : s.drive ≠ .starting → ∀ n ∈ c.graph, ¬ Due s.core n
  stuck : ∀ n ∈ c.graph, ∀ f e, s.core.store.inFlight (keyOf c n) = some f → f.pc = .rejected e →
    s.core.status n.id = .waiting →
    (∃ job d, .holding job n d none ∈ s.workers) ∨ ∃ e, .died e ∈ s.workers

section Machine

variable {c : Context} {s s' : State} {l : Label} {i : Nat} {a : Answer} {n : WorkflowNode}

theorem DriveMove.spread (h : DriveMove c s s') : Spread c [] True s.core s'.core := by
  cases h with
  | starts hd h => exact promoteReady_spread.trans h.spread
  | loops hd hall h => exact h.spread
  | emits hd | enqueues hd => exact .single (.note trivial trivial)
  | aborts | dispatches | resolves => exact .refl

theorem Work.closed {y : Core} (h : Work c s i y) (hc : Closed c s.core) : Closed c y := by
  cases h with
  | nothing => exact hc
  | @begins job n s₀ hh hjob hk hr =>
      have hput := hc.put (O := []) (d := { s.core.nodes n.id with status := .running })
        (by rw [hr]; rfl) (by simp)
      refine hput.congr fun id => ?_
      rw [Core.setFlight_status, Core.put_status, Core.put_status]
  | @completes m r hn hr hs =>
      have hput := hc.put (O := []) (d := { s.core.nodes m.id with status := .completed })
        (by rw [hs]; rfl) (by simp)
      refine Closed.spread (q := False) (hput.congr fun id => ?_) promoteReady_spread
      rw [doneCore_status, Core.put_status]
  | dies hw hs => exact hc.put (by rw [hs]; rfl) (by rw [← Core.status_eq, hs]; decide)

theorem Work.due {y : Core} (h : Work c s i y) {m : WorkflowNode} (hm : m ∈ c.graph)
    (hd : Due y m) : Due s.core m := by
  cases h with
  | nothing => exact hd
  | completes => exact absurd hd (promoteReady_waits m hm)
  | @begins job n s₀ hh hjob hk hr =>
      have hst : ∀ {id : NodeId} {st : NodeStatus}, st ≠ .running →
          ((s.core.put n.id { s.core.nodes n.id with status := .running, attempt := job.attempt }
            [.event (.nodeRunning n.id job.id job.attempt job.operationId)]).setFlight (keyOf c n)
              ⟨n, job, .ran⟩).status id = st → s.core.status id = st := by
        intro id st hne he
        rw [Core.setFlight_status, Core.put_status] at he
        split_ifs at he with hid
        · exact absurd he.symm hne
        · exact he
      exact ⟨hst (by decide) hd.1, fun d hdep => hst (by decide) (hd.2 d hdep)⟩
  | @dies job n d hw hs =>
      have hst : ∀ id, (s.core.put n.id (s.core.nodes n.id)
          [.illegal n.id .waiting .fail]).status id = s.core.status id := by
        intro id
        rw [Core.put_status]
        split_ifs with hid
        · rw [hid]
          rfl
        · rfl
      exact ⟨(hst _).symm.trans hd.1, fun d hdep => (hst _).symm.trans (hd.2 d hdep)⟩

/-- Only the worker that takes its rejection leaves a node that waits, and it dies of it. -/
theorem Unlost.stuck_worker (hk : DistinctKeys c) (hS : State.Sound c s) (ht : State.Tidy c s)
    (h : Unlost c s) (hm : WorkerMove c s i a s') (hn : n ∈ c.graph) {f : Flight} {e : String}
    (hf : s.core.store.inFlight (keyOf c n) = some f) (hpc : f.pc = .rejected e)
    (hw : s.core.status n.id = .waiting) :
    (∃ job d, .holding job n d none ∈ s'.workers) ∨ ∃ e, .died e ∈ s'.workers := by
  rcases h.stuck n hn f e hf hpc hw with ⟨job, d, hmem⟩ | ⟨e', hmem⟩
  · rcases hm.holds hmem with hmem' | hi
    · exact .inl ⟨job, d, hmem'⟩
    · have hnone : ∀ {r}, ¬ Resolved s.core job none r := by
        rintro r (hr | ⟨-, hr⟩)
        · cases hr
        · rw [(hS.workers _ hmem).1.2.2, hS.core.excl _ f hf] at hr
          cases hr
      cases hm with
      | stops hw' | drops hw' | ending hw' | ended hw' | endRefused hw' =>
          rw [hi] at hw'
          cases hw'
      | waits hh | joins hh | begins hh =>
          cases hh with
          | dequeued hw' | seated hw' =>
              rw [hi] at hw'
              cases hw'
      | passes hw' hr | completes hw' hr =>
          rw [hi] at hw'
          cases hw'
          exact absurd hr hnone
      | leaves hw' hc hterm =>
          rw [hi] at hw'
          cases hw'
          rw [show s.status n.id = .waiting from hw] at hterm
          cases hterm
      | givesUp hw' hc hterm hrow =>
          rw [hi] at hw'
          cases hw'
          obtain ⟨rfl, -, -⟩ := hc.waiting hk hS ht.core hmem hterm
          cases (hrow.of_waiting hw).1
      | dies hw' =>
          exact .inr ⟨_, mem_set_self hw'⟩
  · rcases hm.holds hmem with hmem' | hi
    · exact .inr ⟨e', hmem'⟩
    · exfalso
      cases hm with
      | stops hw' | drops hw' | passes hw' | completes hw' | leaves hw' | givesUp hw' | dies hw'
      | ending hw' | ended hw' | endRefused hw' =>
          rw [hi] at hw'
          cases hw'
      | waits hh | joins hh | begins hh =>
          cases hh with
          | dequeued hw' | seated hw' =>
              rw [hi] at hw'
              cases hw'

theorem Spread.waiting {T : List NodeId} {q : Prop} {x y : Core} {id : NodeId}
    (h : Spread c T q x y) (hw : y.status id = .waiting) : x.status id = .waiting := by
  induction h with
  | refl => exact hw
  | tail _ ht ih =>
      refine ih ?_
      rcases ht.status id with he | ⟨-, he | he⟩ | ⟨-, he, -⟩
      · rw [← he]
        exact hw
      · rw [he] at hw
        cases hw
      · rw [he] at hw
        cases hw
      · rw [he] at hw
        cases hw

/-- A node found waiting behind its rejected execution was so before, or its execution has just
    rejected. -/
theorem CoreStep.rejected_back {y : Core} (hnd : (c.graph.map (·.id)).Nodup)
    (hS : Core.Sound c s.core) (h : CoreStep c s l y) (hl : ∀ i a, l ≠ .worker i a)
    (hn : n ∈ c.graph) {f : Flight} (hf : y.store.inFlight (keyOf c n) = some f)
    (hw : y.status n.id = .waiting) :
    (s.core.store.inFlight (keyOf c n) = some f ∧ s.core.status n.id = .waiting) ∨
    ∃ g, s.core.store.inFlight (keyOf c n) = some g ∧ Going g.pc := by
  obtain ⟨x₁, x₂, T, q, ha, -, hsp, hlast⟩ := h
  have hstore : y.store = x₁.store := by
    rcases hlast with rfl | ⟨_, _, _, rfl⟩ <;> exact hsp.sameRest.store
  have hw₁ : x₁.status n.id = .waiting := by
    refine hsp.waiting ?_
    rcases hlast with rfl | ⟨_, _, _, rfl⟩ <;> exact hw
  rw [hstore] at hf
  cases ha with
  | idle | late | world => exact .inl ⟨hf, hw₁⟩
  | begins | completes | givesUp | ending | endRefused => exact absurd rfl (hl _ _)
  | @settles key g r hg hgpc =>
      simp only [IdempotencyStore.settle] at hf
      split_ifs at hf
      exact .inl ⟨hf, hw₁⟩
  | @flight key g a z pc hg hrow =>
      rw [Core.setFlight_inFlight] at hf
      split_ifs at hf with hk
      · exact .inr ⟨g, hk ▸ hg, hrow.going⟩
      · rw [hrow.own.store] at hf
        refine .inl ⟨hf, ?_⟩
        have hne : n.id ≠ g.node.id := by
          intro hid
          obtain ⟨hgn, hgk, -⟩ := hS.flight key g hg
          exact hk (by rw [← hgk, eq_of_id_eq hnd hn hgn hid])
        rw [← hrow.own.status hne]
        exact hw₁

theorem Work.rejected_back {y : Core} (h : Work c s i y) {f : Flight} (hf : y.store.inFlight (keyOf c n) = some f)
    (hpc : ∃ e, f.pc = .rejected e) (hw : y.status n.id = .waiting) :
    s.core.store.inFlight (keyOf c n) = some f ∧ s.core.status n.id = .waiting := by
  cases h with
  | nothing => exact ⟨hf, hw⟩
  | @begins job m s₀ hh hjob hk hr =>
      rw [Core.setFlight_inFlight] at hf
      rw [Core.setFlight_status, Core.put_status] at hw
      split_ifs at hf with hkey
      · cases hf
        obtain ⟨e, he⟩ := hpc
        cases he
      · split_ifs at hw with hid
        exact ⟨hf, hw⟩
  | @completes m r hm hr hs =>
      rw [promoteReady_store] at hf
      have hw' := (promoteReady_spread (T := []) (q := False)).waiting hw
      rw [doneCore_status] at hw'
      split_ifs at hw'
      exact ⟨hf, hw'⟩
  | @dies job m d hmem hs =>
      rw [Core.put_status] at hw
      split_ifs at hw with hid
      · exact ⟨hf, hid ▸ hs⟩
      · exact ⟨hf, hw⟩

/-- **No node is lost on the way.** -/
theorem Unlost.step (hnd : (c.graph.map (·.id)).Nodup) (hk : DistinctKeys c)
    (hS : State.Sound c s) (ht : State.Tidy c s) (h : Unlost c s) (hs : step c s l = some s') :
    Unlost c s' := by
  have hcore := step_core hS hnd hs
  -- steps that leave the workers and the drive loop alone
  have hstay : s'.workers = s.workers → s'.drive = s.drive → (∀ i a, l ≠ .worker i a) →
      Closed c s'.core → (∀ m ∈ c.graph, Due s'.core m → Due s.core m) → Unlost c s' := by
    intro hws hd hl hclosed hdue
    refine ⟨hclosed, fun hne m hm hdm => h.waits (hd ▸ hne) m hm (hdue m hm hdm),
      fun n hn f e hf hpc hw => ?_⟩
    rw [hws]
    rcases hcore.rejected_back hnd hS.core hl hn hf hw with ⟨hf₀, hw₀⟩ | ⟨g, hg, hgo⟩
    · exact h.stuck n hn f e hf₀ hpc hw₀
    · obtain ⟨job, m, d, hmem, hkey⟩ := hS.held _ g hg hgo
      obtain ⟨⟨hm, -, hmkey⟩, -⟩ := hS.workers _ hmem
      obtain rfl := hk _ hm _ hn (hmkey.symm.trans hkey)
      exact .inl ⟨job, d, hmem⟩
  cases l with
  | flight key a =>
      obtain ⟨y, hy, rfl⟩ := Option.map_eq_some_iff.mp hs
      refine hstay rfl rfl (by simp) (flightStep_closed hnd hS.core hy h.closed) fun m hm hd => ?_
      obtain ⟨x₁, x₂, T, q, ha, -, hsp, hlast⟩ := hcore
      refine ha.due_flight hS.core (hsp.due ?_)
      rcases hlast with he | ⟨_, _, _, he⟩
      · exact he ▸ hd
      · have hd' : Due y m := hd
        rw [show y = _ from he] at hd'
        exact hd'
  | late call o =>
      obtain ⟨y, hy, rfl⟩ := Option.map_eq_some_iff.mp hs
      unfold lateStep at hy
      split at hy
      · cases hy
      · cases hy
        exact hstay rfl rfl (by simp) h.closed fun m hm hd => hd
  | redeliver j at_ =>
      obtain ⟨job, -, rfl⟩ := Option.map_eq_some_iff.mp hs
      exact hstay rfl rfl (by simp) h.closed fun m hm hd => hd
  | cancel reason =>
      cases hs
      exact hstay rfl rfl (by simp) h.closed fun m hm hd => hd
  | world w =>
      cases hs
      exact hstay rfl rfl (by simp) h.closed fun m hm hd => hd
  | worker i a =>
      have hm := workerStep_move hs
      obtain ⟨-, -, -, -, -, -, -, hd, -⟩ := hm.frame
      have hwork := hm.work hnd hk hS ht
      refine ⟨hwork.closed h.closed, fun hne m hmem hdm => h.waits (hd ▸ hne) m hmem
        (hwork.due hmem hdm), fun n hn f e hf hpc hw => ?_⟩
      obtain ⟨hf₀, hw₀⟩ := hwork.rejected_back hf ⟨e, hpc⟩ hw
      exact h.stuck_worker hk hS ht hm hn hf₀ hpc hw₀
  | drive =>
      have hm := driveStep_move hs
      refine ⟨h.closed.spread hm.spread, fun hne m hmem hdm => ?_, fun n hn f e hf hpc hw => ?_⟩
      · have hloop : ∀ {x : State}, Loop c x s' → Due s'.core m → Due x.core m :=
          fun hl hdm => hl.spread.due hdm
        have hback := hm.spread.due hdm
        cases hm with
        | starts hd hl => exact promoteReady_waits m hmem (hloop hl hdm)
        | loops hd | aborts hd | emits hd | enqueues hd | dispatches hd | resolves hd =>
            exact h.waits (by rw [hd]; simp) m hmem hback
      · rcases hcore.rejected_back hnd hS.core (by simp) hn hf hw with ⟨hf₀, hw₀⟩ | ⟨g, hg, hgo⟩
        · rcases (hS.orderly.drive hm).2 with hws | ⟨hall, -⟩
          · rw [hws]
            exact h.stuck n hn f e hf₀ hpc hw₀
          · exfalso
            rcases h.stuck n hn f e hf₀ hpc hw₀ with ⟨job, d, hmem⟩ | ⟨e', hmem⟩ <;> cases hall _ hmem
        · obtain ⟨job, m, d, hmem, hkey⟩ := hS.held _ g hg hgo
          obtain ⟨⟨hmg, -, hmkey⟩, -⟩ := hS.workers _ hmem
          obtain rfl := hk _ hmg _ hn (hmkey.symm.trans hkey)
          rcases (hS.orderly.drive hm).2 with hws | ⟨hall, -⟩
          · rw [hws]
            exact .inl ⟨job, d, hmem⟩
          · cases hall _ hmem

theorem Unlost.initial (w : World) : Unlost c (.initial c w) := by
  refine ⟨fun m hm => ?_, fun hd => absurd rfl hd, fun n hn f e hf => ?_⟩
  · cases hm
  · cases hf

/-- **Every run of `run()` is sound, tidy, and loses no node.** -/
theorem run_unlost {ok : State → Label → Prop} {w : World} {ls : List Label}
    (hnd : (c.graph.map (·.id)).Nodup) (hk : DistinctKeys c)
    (h : Run (step c) ok (.initial c w) ls s) : State.Sound c s ∧ State.Tidy c s ∧ Unlost c s := by
  have ha := alone_initial (c := c) w
  refine Run.invariant (I := fun s => State.Sound c s ∧ State.Tidy c s ∧ Unlost c s)
    ⟨ha.1.sound hnd, ha.tidy hnd hk, .initial w⟩ ?_ h
  exact fun s l s' hI _ hs => ⟨hI.1.step hnd hs, hI.2.1.step hnd hk hI.1 hs,
    hI.2.2.step hnd hk hI.1 hI.2.1 hs⟩

end Machine

/-! ## 4. At rest -/

/-- A node that ended otherwise than completed or skipped. -/
def BadEnd (st : NodeStatus) : Prop :=
  st = .failed ∨ st = .rolledBack ∨ st = .quarantined ∨ st = .cancelled

/-- **No node is lost**: each is terminal, or planned behind a dependency that ended badly. -/
def AtRest (c : Context) (s : Core) : Prop :=
  ∀ n ∈ c.graph, (s.status n.id).isTerminal = true ∨
    (s.status n.id = .planned ∧ ∃ d, DependsOn c.graph n.id d ∧ BadEnd (s.status d))

section AtRest

variable {c : Context} {s s' : State} {l : Label} {n : WorkflowNode}

theorem AtRest.congr {x y : Core} (h : AtRest c x) (hst : ∀ id, y.status id = x.status id) :
    AtRest c y := by
  intro n hn
  rw [hst]
  refine (h n hn).imp_right fun hp => ⟨hp.1, ?_⟩
  obtain ⟨d, hd, hb⟩ := hp.2
  exact ⟨d, hd, by rw [hst]; exact hb⟩

/-- With every worker finished a node is planned, ready or terminal. -/
theorem Unlost.settled (hk : DistinctKeys c) (hS : State.Sound c s) (ht : State.Tidy c s)
    (h : Unlost c s) (hall : ∀ w ∈ s.workers, w = .finished) (hn : n ∈ c.graph) :
    Untouched (s.core.status n.id) := by
  by_cases hkn : Known s.core (keyOf c n)
  · refine .inr (.inr ?_)
    rcases hkn with ⟨r, hr⟩ | ⟨f, hf⟩
    · rcases ht.awaited n hn r hr with hd | ⟨job, d, stored, hw⟩
      · rw [hd]
        rfl
      · cases hall _ hw
    · obtain ⟨e, he⟩ := hS.quiescent hall _ f hf
      obtain ⟨hfn, hfk, -⟩ := hS.core.flight _ f hf
      obtain rfl := hk _ hfn _ hn hfk
      rcases ht.core.rejected _ f e hf he with hterm | hw
      · exact hterm
      · rcases h.stuck _ hn f e hf he hw with ⟨job, d, hmem⟩ | ⟨e', hmem⟩ <;> cases hall _ hmem
  · exact ht.core.fresh n hn hkn

/-- **Where nothing is ready and no code is under way, the run is at rest.** -/
theorem atRest_of_untouched (hv : validateGraph c.graph = .ok ()) {x : Core} (hc : Closed c x)
    (hu : ∀ n ∈ c.graph, Untouched (x.status n.id)) (hdue : ∀ n ∈ c.graph, ¬ Due x n)
    (hready : ∀ n ∈ c.graph, x.status n.id ≠ .ready) : AtRest c x := by
  obtain ⟨rank, hrank⟩ := validateGraph_rank hv
  -- by induction on the rank: the unfinished dependency is bad itself, or planned and behind a bad one
  have hgo : ∀ k, ∀ n ∈ c.graph, rank n.id = k → (x.status n.id).isTerminal = true ∨
      (x.status n.id = .planned ∧ ∃ d, DependsOn c.graph n.id d ∧ BadEnd (x.status d)) := by
    intro k
    induction k using Nat.strong_induction_on with
    | h k ih =>
        intro n hn hkn
        rcases hu n hn with hp | hr | hterm
        · refine .inr ⟨hp, ?_⟩
          obtain ⟨d, hd, hne⟩ : ∃ d ∈ n.deps, x.status d ≠ .completed := by
            by_contra hno
            push Not at hno
            exact hdue n hn ⟨hp, hno⟩
          have hedge : DependsOn c.graph n.id d := .single ⟨n, hn, rfl, hd⟩
          obtain ⟨m, hm, rfl⟩ := List.mem_map.mp (validateGraph_deps hv n hn d hd)
          rcases ih _ (hkn ▸ hrank n hn _ hd) m hm rfl with hterm | ⟨-, d', hd', hbad⟩
          · refine ⟨m.id, hedge, ?_⟩
            cases hst : x.status m.id with
            | completed => exact absurd hst hne
            | skipped =>
                have hskip := hc m.id hst n hn hd
                rw [hp] at hskip
                cases hskip
            | failed => exact .inl rfl
            | rolledBack => exact .inr (.inl rfl)
            | quarantined => exact .inr (.inr (.inl rfl))
            | cancelled => exact .inr (.inr (.inr rfl))
            | _ =>
                rw [hst] at hterm
                cases hterm
          · exact ⟨d', hedge.trans hd', hbad⟩
        · exact absurd hr (hready n hn)
        · exact .inl hterm
  exact fun n hn => hgo _ n hn rfl

end AtRest

end AgentKernel.Orchestrator
