/-
  File:      AgentKernel/Orchestrator/Legal.lean
  Subject:   Which events the node state machine refuses in a run, and what a run without such an
             event keeps.

  The code takes two kinds of step that feed the machine an event it refuses (`Misfires`). The
  catch of an attempt finds its node WAITING, since the approval request was rejected, or FAILED
  by a denied request where the policy asks for another attempt. A conditional skips a node that
  is under way. A run without them takes legal transitions only, no worker dies, and the drive
  loop is not aborted; the first step of these kinds ends that (**`unbroken_iff`**).

  The machine's refusal inside a conditional is caught there. So for the workers and the loop to
  stand, it is enough that no attempt catches its node waiting (`Standing.step`).
-/
import AgentKernel.Orchestrator.Finish
import AgentKernel.Orchestrator.Trace

namespace AgentKernel.Orchestrator

open Lib

/-! ## 1. The property and its condition -/

/-- No event has been refused, and no error of a node has left its own execution: every worker is
    alive, and the drive loop has not been aborted. -/
structure Unbroken (s : State) : Prop where
  legal : ∀ id st e, .illegal id st e ∉ s.core.trace
  alive : ∀ e, .died e ∉ s.workers
  driving : ∀ e, s.drive ≠ .aborted e

/-- No worker has died, and the drive loop has not been aborted. -/
structure Standing (s : State) : Prop where
  alive : ∀ e, .died e ∉ s.workers
  driving : ∀ e, s.drive ≠ .aborted e

/-- The catch of an attempt finds its node waiting: the approval request was rejected. -/
def CatchesWaiting (s : State) (l : Label) : Prop :=
  ∃ key f e, l = .flight key .tick ∧ s.core.store.inFlight key = some f ∧ f.pc = .threw e ∧
    s.core.status f.node.id = .waiting

/-- A target that the conditional is about to skip is under way. -/
def SkipsLive (c : Context) (s : Core) (cond : ConditionSpec) (source : NodeResult) : Prop :=
  ∃ m ∈ c.graph, m.id ∈ unchosen cond (matchCondition cond source).1 ∧ Live (s.status m.id)

/-- The steps that feed the state machine an event it refuses. -/
inductive Misfires (c : Context) (s : State) : Label → Prop where
  | waiting {key : String} {f : Flight} {e : String} (hf : s.core.store.inFlight key = some f)
      (hpc : f.pc = .threw e) (hs : s.core.status f.node.id = .waiting) :
      Misfires c s (.flight key .tick)
  | denied {key : String} {f : Flight} {e : String} (hf : s.core.store.inFlight key = some f)
      (hpc : f.pc = .threw e) (hs : s.core.status f.node.id = .failed)
      (hagain : willRetry s.core f.node f.job.attempt e = true) :
      Misfires c s (.flight key .tick)
  | skips {key : String} {f : Flight} {a : Answer} {cond : ConditionSpec} {source : NodeResult}
      (hf : s.core.store.inFlight key = some f) (hkind : f.node.kind = .conditional)
      (hcond : f.node.condition = some cond)
      (hsrc : verdictSource s.core f cond f.pc a = some source)
      (hlive : SkipsLive c s.core cond source) : Misfires c s (.flight key a)

/-! ## 2. The end of a conditional -/

section Concluding

variable {c : Context} {s s' : Core} {T : List NodeId} {id : NodeId}

theorem Live.not_terminal {st : NodeStatus} (h : Live st) :
    st.isTerminal = false ∧ st ≠ .planned := by
  cases st <;> first | exact h.elim | exact ⟨rfl, by decide⟩

/-- A node under way is not touched by skips. -/
theorem Spread.live (h : Spread c T False s s') (hl : Live (s.status id)) :
    s'.status id = s.status id := by
  induction h with
  | refl => rfl
  | tail _ ht ih =>
      rw [← ih]
      rcases ht.status id with he | ⟨hp, -⟩ | ⟨-, -, hq⟩
      · exact he
      · rw [ih] at hp
        exact absurd hp hl.not_terminal.2
      · exact hq.elim

/-- Where no node is due, skips put none under way. -/
theorem Spread.live_back (hdue : ∀ n ∈ c.graph, ¬ Due s n) (h : Spread c T False s s')
    (hl : Live (s'.status id)) : Live (s.status id) := by
  induction h with
  | refl => exact hl
  | @tail x y hsp ht ih =>
      refine ih ?_
      cases ht with
      | @skip n reason hn hp why =>
          rw [Core.put_status] at hl
          split_ifs at hl
          · exact hl.elim
          · exact hl
      | @prepare n hn hp hd => exact absurd (Spread.due hsp ⟨hp, hd⟩) (hdue n hn)
      | cancel hn hq ht => exact hq.elim
      | note he hq => exact hq.elim

theorem skipNode_terminal (hnd : (c.graph.map (·.id)).Nodup) {m : WorkflowNode} {reason : String}
    (hm : m ∈ c.graph) (h : skipNode c s m.id reason = .ok s') :
    (s'.status m.id).isTerminal = true := by
  unfold skipNode at h
  split_ifs at h with hif
  · cases h
    refine hif.resolve_left ?_
    rw [nodeById_of_mem hnd hm]
    simp
  · cases hmark : markSkipped s m.id reason with
    | error t =>
        rw [hmark] at h
        cases h
    | ok z =>
        rw [hmark] at h
        have hskipped : z.status m.id = .skipped := by
          rw [(markSkipped_status hmark).2, Core.put_status_self]
        have hsp := cascadeSkip_skips (c := c) (T := []) (q := False) c.graph.length hskipped
        rw [show cascadeSkip c c.graph.length z m.id = .ok s' from h] at hsp
        rw [Spread.skipped hsp hskipped]
        rfl

/-- A loop of skips that is not refused leaves its nodes terminal. -/
theorem skipLoop_terminal (hnd : (c.graph.map (·.id)).Nodup) {reason : String} {m : WorkflowNode}
    (hm : m ∈ c.graph) : ∀ {ids : List NodeId} {s : Core}, m.id ∈ ids →
      ids.foldlM (fun s id => skipNode c s id reason) s = .ok s' →
      (s'.status m.id).isTerminal = true
  | id :: rest, s, hmem, h => by
      rw [List.foldlM_cons] at h
      cases hskip : skipNode c s id reason with
      | error t =>
          rw [hskip] at h
          cases h
      | ok z =>
          rw [hskip] at h
          rcases List.mem_cons.mp hmem with rfl | hrest
          · have hsp : Skips c rest False z
                (rest.foldlM (fun s id => skipNode c s id reason) z) :=
              skips_foldlM (P := fun _ => True) (fun _ _ _ _ => trivial)
                (fun _ _ ha _ => skipNode_skips ha) trivial
            rw [show rest.foldlM (fun s id => skipNode c s id reason) z = .ok s' from h] at hsp
            exact Spread.isTerminal hsp (skipNode_terminal hnd hm hskip)
          · exact skipLoop_terminal hnd hm hrest h

/-- **The end of a conditional is refused exactly when a node it skips is under way.** Otherwise
    the nodes it skips are terminal behind it. -/
theorem conclude_cases (hnd : (c.graph.map (·.id)).Nodup) (hS : Core.Sound c s)
    (hdue : ∀ n ∈ c.graph, ¬ Due s n) {n : WorkflowNode} {cond : ConditionSpec}
    {source : NodeResult} {pc : FlightPc} (h : conclude c s n cond source = (s', pc)) :
    (¬ SkipsLive c s cond source ∧ pc = .judged (conditionResult n cond source) ∧
      Spread c (unchosen cond (matchCondition cond source).1) False s s' ∧
      ∀ m ∈ c.graph, m.id ∈ unchosen cond (matchCondition cond source).1 →
        (s'.status m.id).isTerminal = true) ∨
    (SkipsLive c s cond source ∧ ∃ (z : Core) (id : NodeId) (st : NodeStatus),
      s' = z.observe (.illegal id st .skip)) := by
  unfold conclude at h
  dsimp only at h
  rcases skipLoop_closes hnd (skipReason n (matchCondition cond source).1)
    (unchosen cond (matchCondition cond source).1) hS with
    ⟨z, hz, hsp, -⟩ | ⟨t, z, id, hz, hsp, -, hmem, hp, hterm, ⟨m, hm, rfl⟩, hcore⟩
  · have hend : ∀ m ∈ c.graph, m.id ∈ unchosen cond (matchCondition cond source).1 →
        (z.status m.id).isTerminal = true := fun m hm hmem => skipLoop_terminal hnd hm hmem hz
    rw [hz] at h
    cases h
    refine .inl ⟨fun ⟨m, hm, hmem, hlive⟩ => ?_, rfl, hsp, hend⟩
    have hterm := hend m hm hmem
    rw [hsp.live hlive, hlive.not_terminal.1] at hterm
    cases hterm
  · rw [hz] at h
    cases h
    exact .inr ⟨⟨m, hm, hmem, hsp.live_back hdue (live_of_not_terminal hterm hp)⟩, z, _, _, hcore⟩

end Concluding

/-! ## 3. The stretches of an execution -/

/-- What is observed is no refusal. -/
def Obs.Legal : Obs → Prop
  | .illegal .. => False
  | _ => True

/-- Some event has been refused. -/
def Refused (s : Core) : Prop := ∃ id st e, .illegal id st e ∈ s.trace

/-- The catch of an attempt finds a status that it cannot fail. -/
def CatchRefused (s : Core) (f : Flight) : FlightPc → Answer → Prop
  | .threw e, .tick => s.status f.node.id = .waiting ∨
      (s.status f.node.id = .failed ∧ willRetry s f.node f.job.attempt e = true)
  | _, _ => False

section Stretches

variable {c : Context} {x y z : Core} {n : WorkflowNode} {error : String} {a : Answer}

theorem CatchRefused.spec {f : Flight} {pc : FlightPc} (h : CatchRefused x f pc a) :
    ∃ e, pc = .threw e ∧ a = .tick ∧ (x.status f.node.id = .waiting ∨
      (x.status f.node.id = .failed ∧ willRetry x f.node f.job.attempt e = true)) := by
  unfold CatchRefused at h
  split at h
  · exact ⟨_, rfl, rfl, h⟩
  · exact h.elim

theorem Spread.legal {T : List NodeId} {q : Prop} (h : Spread c T q x y) :
    Adds Obs.Legal x y := by
  induction h with
  | refl => exact .none rfl
  | tail _ ht ih =>
      refine ih.trans ?_
      cases ht <;> exact .one rfl trivial

/-- The head of `failNode` is legal where the node can be failed, or has been. -/
theorem HeadRow.legal {q : Bool} {pc : Option FailPc} (h : HeadRow c x n error q y pc)
    (hs : headStatus (x.status n.id) = .failed) : Adds Obs.Legal x y ∧ pc ≠ none := by
  cases h with
  | failed | compensates | quarantines => exact ⟨.one rfl trivial, nofun⟩
  | waits hw =>
      rw [hw] at hs
      cases hs
  | refused hw hne => exact absurd hs hne

theorem FailRow.legal {pc pc' : FailPc} (h : FailRow c x n error pc a y pc') :
    Adds Obs.Legal x y := by
  refine h.adds.mono fun o ho => ?_
  cases ho <;> trivial

/-- An execution that rejects leaves its node terminal, unless it caught while the node was
    waiting. -/
theorem Row.rejects_terminal {f : Flight} {pc : FlightPc} {error : String}
    (h : Row c x f pc a y (.rejected error)) (hag : Agrees pc (x.status f.node.id))
    (hno : ∀ e, pc = .threw e → a = .tick → x.status f.node.id ≠ .waiting) :
    (y.status f.node.id).isTerminal = true := by
  refine (h.rejects hag).resolve_right fun hw => ?_
  rw [h.rejected_status] at hw
  cases h with
  | concludes hkind hcond hsrc hpc => rcases hpc with hpc | ⟨_, hpc⟩ <;> cases hpc
  | settles hpc => rcases hpc with ⟨_, -, -, hpc, -⟩ | ⟨_, -, -, hpc, -⟩ | ⟨_, -, hpc⟩ <;> cases hpc
  | retryRefused | failRefused => exact hno _ rfl rfl hw
  | ended => rcases hag with hs | hs | hs <;> (rw [hs] at hw; cases hw)

/-- **A stretch of an execution is legal**, unless it is a catch that is refused. -/
theorem Row.legal {f : Flight} {pc pc' : FlightPc} (h : Row c x f pc a y pc')
    (hag : Agrees pc (x.status f.node.id)) (hno : ¬ CatchRefused x f pc a) :
    Adds Obs.Legal x y := by
  -- a catch that is not refused finds a status that can be failed
  have hhead : ∀ e, pc = .threw e → a = .tick →
      headStatus ((x.countFailure f.node.id).status f.node.id) = .failed := by
    rintro e rfl rfl
    rw [countFailure_status]
    rcases hag with hs | hs | hs
    · rw [hs]
      rfl
    · exact absurd (.inl hs) hno
    · rw [hs]
      rfl
  have hcount : Adds Obs.Legal x (x.countFailure f.node.id) := .none rfl
  cases h with
  | throws | approved | timesOut | ended => exact .none rfl
  | calls | asks | verifies | retries | resumes | settles => exact .one rfl trivial
  | concludes hkind hcond hsrc hpc =>
      rcases hsrc with ⟨-, -, rfl, -⟩ | ⟨_, _, _, -, -, rfl⟩
      · exact .none (List.append_nil _)
      · exact .one rfl trivial
  | @answers req granted =>
      refine .two rfl trivial ?_
      cases granted <;> trivial
  | @retryRefused e message hagain hs =>
      exfalso
      rcases hag with hrun | hwait | hfail
      · exact hs hrun
      · exact hno (.inl hwait)
      · exact hno (.inr ⟨hfail, hagain⟩)
  | @fails e reported q s' pc' hagain hq hrow =>
      exact hcount.trans (hrow.legal (hhead e rfl rfl)).1
  | @failRefused e reported message q s' hagain hrow =>
      exact absurd rfl (hrow.legal (hhead e rfl rfl)).2
  | ending hrow => exact hrow.legal

/-- A catch that is refused is seen. -/
theorem Row.refused {f : Flight} {pc pc' : FlightPc} (h : Row c x f pc a y pc')
    (hyes : CatchRefused x f pc a) : Refused y := by
  have hput : ∀ {s : Core} {nd : InternalNode} {st : NodeStatus} {e : NodeEvent},
      Refused (s.put f.node.id nd [.illegal f.node.id st e]) :=
    ⟨_, _, _, List.mem_append_right _ (List.mem_singleton.mpr rfl)⟩
  cases h with
  | @retries e hagain hs =>
      rcases hyes with hw | ⟨hf, -⟩
      · rw [hw] at hs
        cases hs
      · rw [hf] at hs
        cases hs
  | retryRefused => exact hput
  | @fails e reported q s' pc' hagain hq hrow =>
      rcases hyes with hw | ⟨-, hagain'⟩
      · cases (hrow.of_waiting ((countFailure_status ..).trans hw)).1
      · rw [hagain] at hagain'
        cases hagain'
  | failRefused hagain hrow =>
      cases hrow with
      | waits | refused => exact hput
  | throws hpc =>
      rcases hpc with rfl | ⟨_, rfl⟩ | ⟨_, _, rfl⟩ <;> exact hyes.elim
  | calls hgate =>
      rcases hgate with ⟨rfl, -⟩ | ⟨_, rfl, -⟩ <;> exact hyes.elim
  | concludes hkind hcond hsrc hpc =>
      rcases hsrc with ⟨rfl, -⟩ | ⟨_, _, _, rfl, -⟩ <;> exact hyes.elim
  | _ => exact hyes.elim

end Stretches

/-! ## 4. The steps of an execution -/

section Executions

variable {c : Context} {s : State} {x y : Core} {key : String} {a : Answer}

/-- A conditional that comes to a verdict concludes. -/
theorem flightNext_concludes {f : Flight} {pc : FlightPc} {cond : ConditionSpec}
    {source : NodeResult} (hkind : f.node.kind = .conditional)
    (hcond : f.node.condition = some cond) (hsrc : verdictSource x f cond pc a = some source) :
    ∃ z, flightNext c x f pc a = some (conclude c z f.node cond source) ∧ z.nodes = x.nodes ∧
      z.store = x.store := by
  unfold verdictSource at hsrc
  split at hsrc
  · split at hsrc
    · cases hsrc
    · rename_i haction
      refine ⟨x, ?_, rfl, rfl⟩
      simp only [flightNext, runNodeAction, hkind, hcond, haction, hsrc]
  · rename_i action input call r
    cases hsrc
    refine ⟨x.observe (.settled call f.node.id .forward (.resolved source)), ?_, rfl, rfl⟩
    simp only [flightNext, afterRun, hkind, hcond]
  · cases hsrc

theorem SkipsLive.congr {cond : ConditionSpec} {source : NodeResult} (h : y.nodes = x.nodes) :
    SkipsLive c y cond source ↔ SkipsLive c x cond source := by
  unfold SkipsLive
  simp only [Core.status_eq, h]

/-- No rejected execution has left its node waiting for an answer. -/
def Answered (x : Core) : Prop :=
  ∀ key f e, x.store.inFlight key = some f → f.pc = .rejected e → x.status f.node.id ≠ .waiting

/-- **A step of an execution that does not misfire is legal.** -/
theorem flightStep_legal (hnd : (c.graph.map (·.id)).Nodup) (hS : Core.Sound c s.core)
    (hdue : ∀ n ∈ c.graph, ¬ Due s.core n) (hno : ¬ Misfires c s (.flight key a))
    (h : flightStep c s.core key a = some y) : Adds Obs.Legal s.core y := by
  unfold flightStep at h
  split at h
  · cases h
  · rename_i f hf
    split at h
    · cases h
      exact .none rfl
    · rename_i b _ _ _
      obtain ⟨⟨z, pc⟩, hnext, rfl⟩ := Option.map_eq_some_iff.mp h
      have hag := (hS.flight key f hf).2.2
      obtain ⟨z₁, hrow, hend⟩ := flightNext_ends hag hnext
      have hcatch : ¬ CatchRefused s.core f f.pc b := by
        intro hc
        obtain ⟨e, hpc, rfl, hw | ⟨hfail, hagain⟩⟩ := hc.spec
        · exact hno (.waiting hf hpc hw)
        · exact hno (.denied hf hpc hfail hagain)
      refine (hrow.legal hag hcatch).trans ?_
      -- the skips behind a verdict
      rcases hend with rfl | ⟨cond, source, hkind, hcond, hsrc, hconc⟩
      · exact .none rfl
      · have hsame := hrow.same_status ((conclude_pc hconc).imp_left fun h => ⟨_, h⟩)
        have hdue₁ : ∀ n ∈ c.graph, ¬ Due z₁ n := fun n hn hd =>
          hdue n hn ⟨(hsame _).symm.trans hd.1, fun d hdep => (hsame _).symm.trans (hd.2 d hdep)⟩
        rcases conclude_cases hnd (hS.congr hsame hrow.own.store) hdue₁ hconc with
          ⟨-, -, hsp, -⟩ | ⟨⟨m, hm, hmem, hlive⟩, -⟩
        · exact hsp.legal
        · exact absurd (.skips hf hkind hcond hsrc ⟨m, hm, hmem, hsame m.id ▸ hlive⟩) hno

/-- **A step of an execution that does not catch while its node is waiting** leaves no such node
    behind. -/
theorem flightStep_answered (hnd : (c.graph.map (·.id)).Nodup) (hS : Core.Sound c s.core)
    (ha : Answered s.core) (hno : ¬ CatchesWaiting s (.flight key a))
    (h : flightStep c s.core key a = some y) : Answered y := by
  unfold flightStep at h
  split at h
  · cases h
  · rename_i f hf
    split at h
    · cases h
      intro k g e hg hrej
      simp only [IdempotencyStore.settle] at hg
      split_ifs at hg
      exact ha k g e hg hrej
    · rename_i b _ _ _
      obtain ⟨⟨z, pc⟩, hnext, rfl⟩ := Option.map_eq_some_iff.mp h
      obtain ⟨hfn, hfk, hag⟩ := hS.flight key f hf
      obtain ⟨z₁, hrow, hend⟩ := flightNext_ends hag hnext
      -- the skips behind a verdict
      have htail : (∀ id, z.status id = .waiting → z₁.status id = .waiting) ∧
          z.store = z₁.store ∧ ∀ e, pc = .rejected e → z = z₁ := by
        rcases hend with rfl | ⟨cond, source, -, -, -, hconc⟩
        · exact ⟨fun _ hw => hw, rfl, fun _ _ => rfl⟩
        · have hnot : ∀ e, pc ≠ .rejected e := fun e he => by
            rcases conclude_pc hconc with hpc | ⟨_, hpc⟩ <;> (rw [he] at hpc; cases hpc)
          rcases conclude_spread (q := False) hconc with ⟨-, hsp⟩ | ⟨_, -, _, _, -, hsp, -, -, -, rfl⟩
          · exact ⟨fun _ => hsp.waiting, hsp.sameRest.store, fun e he => absurd he (hnot e)⟩
          · exact ⟨fun _ => hsp.waiting, hsp.sameRest.store, fun e he => absurd he (hnot e)⟩
      obtain ⟨hwait, hstore, hsame⟩ := htail
      intro k g e hg hrej hw
      rw [Core.setFlight_inFlight] at hg
      rw [Core.setFlight_status] at hw
      split_ifs at hg with hk
      · cases hg
        obtain rfl := hrej
        obtain rfl := hsame e rfl
        have ht := hrow.rejects_terminal hag fun e' hpc hb hw' => hno ⟨key, f, e', by rw [hb], hf, hpc, hw'⟩
        rw [hw] at ht
        cases ht
      · rw [hstore, hrow.own.store] at hg
        refine ha k g e hg hrej ?_
        have hne : g.node.id ≠ f.node.id := by
          intro hid
          obtain ⟨hgn, hgk, -⟩ := hS.flight k g hg
          exact hk (by rw [← hgk, ← hfk, eq_of_id_eq hnd hgn hfn hid])
        rw [← hrow.own.status hne]
        exact hwait _ hw

/-- **A step that misfires is refused.** -/
theorem flightStep_refused (hnd : (c.graph.map (·.id)).Nodup) (hS : Core.Sound c s.core)
    (hdue : ∀ n ∈ c.graph, ¬ Due s.core n) (hmis : Misfires c s (.flight key a))
    (h : flightStep c s.core key a = some y) : Refused y := by
  -- the flight is not about to return
  have hnext : ∀ f, s.core.store.inFlight key = some f → (∀ r, f.pc ≠ .verified r) →
      ∃ z pc, flightNext c s.core f f.pc a = some (z, pc) ∧ (Refused z → Refused y) := by
    intro f hf hpc
    unfold flightStep at h
    rw [hf] at h
    dsimp only at h
    split at h
    · rename_i r hv
      exact absurd hv (hpc r)
    · obtain ⟨⟨z, pc⟩, hnext, rfl⟩ := Option.map_eq_some_iff.mp h
      exact ⟨z, pc, hnext, fun hr => hr⟩
  have hcatch : ∀ f e, s.core.store.inFlight key = some f → f.pc = .threw e → a = .tick →
      CatchRefused s.core f f.pc a → Refused y := by
    intro f e hf hpc hat hc
    obtain ⟨z, pc, hn, hr⟩ := hnext f hf fun r => by rw [hpc]; nofun
    obtain ⟨z₁, hrow, hend⟩ := flightNext_ends (hS.flight key f hf).2.2 hn
    rcases hend with rfl | ⟨cond, source, -, -, hsrc, -⟩
    · exact hr (hrow.refused hc)
    · rw [hpc, hat] at hsrc
      cases hsrc
  cases hmis with
  | @waiting _ f e hf hpc hw => exact hcatch f e hf hpc rfl (by rw [hpc]; exact .inl hw)
  | @denied _ f e hf hpc hs hagain =>
      exact hcatch f e hf hpc rfl (by rw [hpc]; exact .inr ⟨hs, hagain⟩)
  | @skips _ f _ cond source hf hkind hcond hsrc hlive =>
      obtain ⟨z, pc, hn, hr⟩ := hnext f hf fun r hv => by
        rw [hv] at hsrc
        cases hsrc
      obtain ⟨z₁, heq, hnodes, hstore⟩ := flightNext_concludes (c := c) hkind hcond hsrc
      rw [hn] at heq
      have hst : ∀ id, z₁.status id = s.core.status id := fun id => by
        rw [Core.status_eq, hnodes, Core.status_eq]
      have hdue₁ : ∀ n ∈ c.graph, ¬ Due z₁ n := fun n hn hd =>
        hdue n hn ⟨(hst _).symm.trans hd.1, fun d hdep => (hst _).symm.trans (hd.2 d hdep)⟩
      rcases conclude_cases hnd (hS.congr hst hstore) hdue₁ (Option.some.inj heq).symm with
        ⟨hno, -⟩ | ⟨-, w, id, st, rfl⟩
      · exact absurd ((SkipsLive.congr hnodes).mpr hlive) hno
      · exact hr ⟨id, st, .skip, List.mem_append_right _ (List.mem_singleton.mpr rfl)⟩

theorem flightStep_going (h : flightStep c x key a = some y) :
    ∃ f, x.store.inFlight key = some f ∧ Going f.pc := by
  unfold flightStep at h
  split at h
  · cases h
  · rename_i f hf
    refine ⟨f, hf, fun e he => ?_⟩
    rw [he] at h
    cases h

end Executions

/-! ## 5. The machine -/

section Machine

variable {c : Context} {s s' : State} {l : Label} {i : Nat} {a : Answer} {n : WorkflowNode}

/-- Behind the start of the drive loop a planned node has an unfinished dependency. -/
theorem Unlost.not_due (hS : State.Sound c s) (h : Unlost c s) {key : String} {f : Flight}
    (hf : s.core.store.inFlight key = some f) (hgo : Going f.pc) :
    ∀ n ∈ c.graph, ¬ Due s.core n := by
  refine h.waits fun hd => ?_
  obtain ⟨job, n, d, hw, -⟩ := hS.held key f hf hgo
  rcases hS.busy hw (by simp) with hb | ⟨e, hb⟩ <;>
  · rw [hd] at hb
    cases hb

/-- A worker that catches finds its node terminal. -/
theorem Answered.caught (hk : DistinctKeys c) (hS : State.Sound c s) (ht : State.Tidy c s)
    (ha : Answered s.core) {job : WorkflowJob} {d : Bool} {stored : Option NodeResult}
    {core : Core} {error : String} (hw : .holding job n d stored ∈ s.workers)
    (hc : Caught s.core job n stored core error) : (s.status n.id).isTerminal = true := by
  by_contra hterm
  rw [Bool.not_eq_true] at hterm
  obtain ⟨-, rfl, hwait⟩ := hc.waiting hk hS ht.core hw hterm
  obtain ⟨⟨hn, -, hkey⟩, -⟩ := hS.workers _ hw
  cases hc with
  | @refused r message hr =>
      have hcomp : s.core.store.completed (keyOf c n) = some r := by
        rw [← hkey]
        exact (hr.resolve_left nofun).2
      rcases ht.core.stored n hn r hcomp with hs | hs <;>
      · rw [hwait] at hs
        cases hs
  | @rejected f error hst hcomp hf hpc =>
      obtain ⟨hfn, hfk, -⟩ := hS.core.flight _ f hf
      obtain rfl := hk _ hfn _ hn (hfk.trans hkey)
      exact ha _ f error hf hpc hwait

/-- The steps of the workers are legal, and none of them dies. -/
theorem WorkerMove.legal (hnd : (c.graph.map (·.id)).Nodup) (hk : DistinctKeys c)
    (hS : State.Sound c s) (ht : State.Tidy c s) (ha : Answered s.core)
    (hm : WorkerMove c s i a s') : Adds Obs.Legal s.core s'.core ∧
      ∀ e, .died e ∈ s'.workers → .died e ∈ s.workers := by
  have hold : ∀ new : Worker, (∀ e, new ≠ .died e) → s'.workers = s.workers.set i new →
      ∀ e, .died e ∈ s'.workers → .died e ∈ s.workers := by
    intro new hne hws e he
    rw [hws] at he
    exact (List.mem_or_eq_of_mem_set he).resolve_right fun h => hne e h.symm
  have hset : ∀ e, .died e ∈ s'.workers → .died e ∈ s.workers := by
    cases hm with
    | stops | drops | passes | completes | leaves | ended => exact hold _ (by simp) rfl
    | givesUp hw hc hterm | dies hw hc hterm =>
        rw [ha.caught hk hS ht (List.mem_of_getElem? hw) hc] at hterm
        cases hterm
    | ending hw | endRefused hw => exact absurd (List.mem_of_getElem? hw) (ht.calm _ _ _ _)
    | @waits job n s₀ hh =>
        refine hold (.seat job n) (by simp) ?_
        cases hh <;> rfl
    | @joins job n s₀ stored limiter hh =>
        refine hold (.holding job n (s.core.store.has job.idempotencyKey) stored) (by simp) ?_
        cases hh <;> rfl
    | @begins job n s₀ limiter hh =>
        refine hold (.holding job n (s.core.store.has job.idempotencyKey) none) (by simp) ?_
        cases hh <;> rfl
  refine ⟨?_, hset⟩
  cases hm with
  | stops | drops | passes | ended => exact .none rfl
  | waits hh => exact .none (congrArg Core.trace hh.core)
  | joins hh => exact .none rfl
  | @begins job n s₀ limiter hh hacq hc hf =>
      obtain ⟨hn, hid, hkey⟩ := hh.jobOf hS hnd
      have hno : ¬ Known s.core (keyOf c n) := by
        rw [← hkey]
        rintro (⟨r, hr⟩ | ⟨f, hf'⟩)
        · rw [hc] at hr
          cases hr
        · rw [hf] at hf'
          cases hf'
      have heq : beginAttempt s.core n job = _ :=
        beginAttempt_ok (.inl (ht.begins hS hh hn hid hno))
      show Adds Obs.Legal s.core (beginAttempt s.core n job).1
      rw [heq]
      exact .one rfl trivial
  | @completes job n d stored r k hw hr hs =>
      have hdone : Adds Obs.Legal s.core (doneCore c s.core n r) := .one rfl trivial
      exact hdone.trans (promoteReady_spread (T := []) (q := False)).legal
  | leaves hw hc hterm =>
      cases hc with
      | refused hr hterm' =>
          rw [show (s.core.status _).isTerminal = true from hterm] at hterm'
          cases hterm'
      | rejected => exact .none rfl
  | givesUp hw hc hterm | dies hw hc hterm =>
      rw [ha.caught hk hS ht (List.mem_of_getElem? hw) hc] at hterm
      cases hterm
  | ending hw | endRefused hw => exact absurd (List.mem_of_getElem? hw) (ht.calm _ _ _ _)

/-- **Only a catch while a node is waiting ends a worker.** -/
theorem Standing.step (hnd : (c.graph.map (·.id)).Nodup) (hk : DistinctKeys c)
    (hS : State.Sound c s) (ht : State.Tidy c s) (h : Standing s) (ha : Answered s.core)
    (hno : ¬ CatchesWaiting s l) (hs : step c s l = some s') :
    Standing s' ∧ Answered s'.core := by
  cases l with
  | flight key a =>
      obtain ⟨y, hy, rfl⟩ := Option.map_eq_some_iff.mp hs
      exact ⟨⟨h.alive, h.driving⟩, flightStep_answered hnd hS.core ha hno hy⟩
  | worker i a =>
      have hm := workerStep_move hs
      obtain ⟨-, -, -, -, -, -, -, hd, -⟩ := hm.frame
      refine ⟨⟨fun e he => h.alive e ((hm.legal hnd hk hS ht ha).2 e he), hd ▸ h.driving⟩, ?_⟩
      intro key f e hf hrej hw
      obtain ⟨hfn, hfk, -⟩ := (hS.step hnd hs).core.flight key f hf
      subst hfk
      obtain ⟨hf₀, hw₀⟩ := (hm.work hnd hk hS ht).rejected_back hf ⟨e, hrej⟩ hw
      exact ha _ f e hf₀ hrej hw₀
  | drive =>
      have hm := driveStep_move hs
      have hsp := hm.spread
      refine ⟨⟨fun e he => ?_, fun e he => ?_⟩, fun key f e hf hrej hw => ?_⟩
      · rcases (hS.orderly.drive hm).2 with hws | ⟨-, hidle⟩
        · exact h.alive e (hws ▸ he)
        · cases hidle _ he
      · cases hm with
        | aborts hd hw => exact h.alive _ hw
        | starts hd hl | loops hd hall hl => cases hl <;> cases he
        | _ => cases he
      · rw [hsp.sameRest.store] at hf
        exact ha key f e hf hrej (hsp.waiting hw)
  | late call o =>
      obtain ⟨y, hy, rfl⟩ := Option.map_eq_some_iff.mp hs
      unfold lateStep at hy
      split at hy
      · cases hy
      · cases hy
        exact ⟨⟨h.alive, h.driving⟩, ha⟩
  | redeliver j at_ =>
      obtain ⟨job, -, rfl⟩ := Option.map_eq_some_iff.mp hs
      exact ⟨⟨h.alive, h.driving⟩, ha⟩
  | cancel reason =>
      cases hs
      exact ⟨⟨h.alive, h.driving⟩, ha⟩
  | world w =>
      cases hs
      exact ⟨⟨h.alive, h.driving⟩, ha⟩

theorem CatchesWaiting.misfires (h : CatchesWaiting s l) : Misfires c s l := by
  obtain ⟨key, f, e, rfl, hf, hpc, hw⟩ := h
  exact .waiting hf hpc hw

/-- **A step that does not misfire is legal.** -/
theorem step_legal (hnd : (c.graph.map (·.id)).Nodup) (hk : DistinctKeys c)
    (hS : State.Sound c s) (ht : State.Tidy c s) (hu : Unlost c s) (ha : Answered s.core)
    (hno : ¬ Misfires c s l) (hs : step c s l = some s') : Adds Obs.Legal s.core s'.core := by
  cases l with
  | flight key a =>
      obtain ⟨y, hy, rfl⟩ := Option.map_eq_some_iff.mp hs
      obtain ⟨f, hf, hgo⟩ := flightStep_going hy
      exact flightStep_legal hnd hS.core (hu.not_due hS hf hgo) hno hy
  | worker i a => exact ((workerStep_move hs).legal hnd hk hS ht ha).1
  | drive => exact (driveStep_move hs).spread.legal
  | late call o =>
      obtain ⟨y, hy, rfl⟩ := Option.map_eq_some_iff.mp hs
      unfold lateStep at hy
      split at hy
      · cases hy
      · cases hy
        exact .one rfl trivial
  | redeliver j at_ =>
      obtain ⟨job, -, rfl⟩ := Option.map_eq_some_iff.mp hs
      exact .none rfl
  | cancel reason =>
      cases hs
      exact .none rfl
  | world w =>
      cases hs
      exact .none rfl

/-- **A step that does not misfire leaves the run unbroken.** -/
theorem Unbroken.step (hnd : (c.graph.map (·.id)).Nodup) (hk : DistinctKeys c)
    (hS : State.Sound c s) (ht : State.Tidy c s) (hu : Unlost c s) (h : Unbroken s)
    (ha : Answered s.core) (hno : ¬ Misfires c s l) (hs : step c s l = some s') :
    Unbroken s' ∧ Answered s'.core := by
  obtain ⟨hst, ha'⟩ := Standing.step hnd hk hS ht ⟨h.alive, h.driving⟩ ha
    (fun hc => hno hc.misfires) hs
  refine ⟨⟨fun id st e hm => ?_, hst.alive, hst.driving⟩, ha'⟩
  rcases (step_legal hnd hk hS ht hu ha hno hs).mem hm with hm | hlegal
  · exact h.legal id st e hm
  · exact hlegal

theorem Misfires.refused (hnd : (c.graph.map (·.id)).Nodup) (hS : State.Sound c s)
    (hu : Unlost c s) (h : Misfires c s l) (hs : step c s l = some s') : Refused s'.core := by
  cases l with
  | flight key a =>
      obtain ⟨y, hy, rfl⟩ := Option.map_eq_some_iff.mp hs
      obtain ⟨f, hf, hgo⟩ := flightStep_going hy
      exact flightStep_refused hnd hS.core (hu.not_due hS hf hgo) h hy
  | _ => cases h

/-- **A step that misfires breaks it.** -/
theorem Misfires.breaks (hnd : (c.graph.map (·.id)).Nodup) (hS : State.Sound c s)
    (hu : Unlost c s) (h : Misfires c s l) (hs : step c s l = some s') : ¬ Unbroken s' := by
  obtain ⟨id, st, e, hm⟩ := h.refused hnd hS hu hs
  exact fun hub => hub.legal id st e hm

theorem Unbroken.initial (w : World) : Unbroken (.initial c w) := by
  refine ⟨fun id st e hm => ?_, fun e he => ?_, fun e he => ?_⟩
  · have hone : Obs.illegal id st e = .event (.runCreated c.runId c.taskId c.graph) :=
      List.mem_singleton.mp hm
    cases hone
  · cases he
  · cases he

theorem Answered.initial (w : World) : Answered (State.initial c w).core := by
  intro key f e hf
  cases hf

theorem run_unbroken {ls : List Label} {w : World} (hnd : (c.graph.map (·.id)).Nodup)
    (hk : DistinctKeys c)
    (h : Run (step c) (fun s l => ¬ Misfires c s l) (.initial c w) ls s) : Unbroken s := by
  have hall := Run.invariant (I := fun s => (State.Sound c s ∧ State.Tidy c s ∧ Unlost c s) ∧
      Unbroken s ∧ Answered s.core)
    ⟨⟨(alone_initial w).1.sound hnd, (alone_initial w).tidy hnd hk, .initial w⟩, .initial w,
      .initial w⟩
    (fun s l s' hI hok hs => ?_) h
  · exact hall.2.1
  · obtain ⟨⟨hS, ht, hu⟩, hub, ha⟩ := hI
    exact ⟨⟨hS.step hnd hs, ht.step hnd hk hS hs, hu.step hnd hk hS ht hs⟩,
      hub.step hnd hk hS ht hu ha hok hs⟩

/-- No step of a run has misfired if its trace tells of no refused event. -/
theorem run_legal {ls : List Label} {w : World} (hnd : (c.graph.map (·.id)).Nodup)
    (hk : DistinctKeys c) (h : Run (step c) (fun _ _ => True) (.initial c w) ls s)
    (hlegal : ¬ Refused s.core) : Run (step c) (fun s l => ¬ Misfires c s l) (.initial c w) ls s := by
  rcases h.and_or_bad (fun s l => ¬ Misfires c s l) with
    hall | ⟨ls₁, l, ls₂, s₁, s₂, rfl, hr, -, hbad, hs, hrest⟩
  · exact hall.mono fun _ _ => And.right
  · obtain ⟨hS, -, hu⟩ := run_unlost hnd hk hr
    have hrefused := (not_not.mp hbad).refused hnd hS hu hs
    have hkept := Run.invariant (I := fun s => State.Sound c s ∧ Refused s.core)
      ⟨hS.step hnd hs, hrefused⟩ (fun s l s' ⟨hSs, id, st, e, hm⟩ _ hs => by
        obtain ⟨obs, hobs⟩ := step_trace hnd hSs hs
        exact ⟨hSs.step hnd hs, id, st, e, hobs ▸ List.mem_append_left _ hm⟩) hrest
    exact absurd hkept.2 hlegal

/-- **A run is unbroken throughout exactly if none of its steps misfires.** -/
theorem unbroken_iff {ls : List Label} {w : World} (hnd : (c.graph.map (·.id)).Nodup)
    (hk : DistinctKeys c) (h : Run (step c) (fun _ _ => True) (.initial c w) ls s) :
    Throughout (step c) (.initial c w) ls Unbroken ↔
      Run (step c) (fun s l => ¬ Misfires c s l) (.initial c w) ls s := by
  refine h.throughout_iff (fun ls s hr => run_unbroken hnd hk hr) fun ls s l s' hr hno hs => ?_
  obtain ⟨hS, -, hu⟩ := run_unlost hnd hk hr
  exact (not_not.mp hno).breaks hnd hS hu hs

end Machine

end AgentKernel.Orchestrator
