/-
  File:      AgentKernel/Orchestrator/Schedules.lean
  Subject:   Every schedule ends where the evaluation of the graph ends.

  The fates are given, and solve the equations of the graph (`Solves`). A run by the handler keeps

  * `Foretold`: what has become of a node is what its fate says. A conditional skips its targets
    before one of them can be made ready, as they lie behind it (`Foretold.concludes`);
  * `Fitting`: an attempt comes to the fate of its node from the place it is at. So it does not
    matter which of the attempts, of the workers or of the deliveries brings the node there.

  At rest a node that has not been made ready is stranded (`Foretold.status_eq`), and rest comes as
  `step_enabled` and `step_spends` say (**`schedule_independent`**).
-/
import AgentKernel.Orchestrator.Progress

namespace AgentKernel.Orchestrator

open Lib

/-! ## 1. States as foretold by the fates -/

/-- The node completes with `r`, and what it skips is skipped. -/
def Settled (c : Context) (fates : NodeId → Fate) (x : Core) (n : WorkflowNode) (r : NodeResult) :
    Prop :=
  ∃ ids, fates n.id = .completed r ids ∧ ∀ m ∈ c.graph, m.id ∈ ids → x.status m.id = .skipped

/-- What an attempt comes to from the place it is at. -/
def restOutcome (h : Handler) (results : NodeId → Option NodeResult) (n : WorkflowNode) :
    FlightPc → Option (NodeResult × List NodeId)
  | .ran | .retrying => attemptOutcome h results n
  | .waiting req => if h.approve req then grantedOutcome h results n req.action else none
  | .answered req granted => if granted then grantedOutcome h results n req.action else none
  | .calling action input _ => afterCall n (h.run action input n)
  | .judged r | .verified r => some (r, [])
  | .threw _ | .failing .. | .rejected _ => none

/-- The place of an execution fits the fate of its node. -/
def Fits (c : Context) (h : Handler) (fates : NodeId → Fate) (x : Core) (n : WorkflowNode) :
    FlightPc → Prop
  | .judged r | .verified r => Settled c fates x n r
  | .threw _ => fates n.id = .failed ∧ x.status n.id ≠ .waiting
  | pc => .ofOutcome (restOutcome h (fun id => (fates id).result) n pc) = fates n.id

/-- Statuses of a node that has been made ready. -/
def Begun (st : NodeStatus) : Prop := st ≠ .planned ∧ st ≠ .skipped

/-- Statuses of compensation, quarantine and cancellation. -/
def Foreign : NodeStatus → Prop
  | .compensating | .rolledBack | .quarantined | .cancelled => True
  | _ => False

/-- **What has become of the nodes so far is what the fates say.** -/
structure Foretold (c : Context) (h : Handler) (fates : NodeId → Fate) (x : Core) : Prop where
  world : x.world = h.world
  native : ∀ n ∈ c.graph, ¬ Foreign (x.status n.id)
  begun : ∀ n ∈ c.graph, Begun (x.status n.id) →
    (∀ d ∈ n.deps, x.status d = .completed) ∧ fates n.id ≠ .skipped
  done : ∀ n ∈ c.graph, x.status n.id = .completed →
    ∃ r, Settled c fates x n r ∧ x.results n.id = some r
  results : ∀ id, x.results id ≠ none → x.status id = .completed
  failed : ∀ n ∈ c.graph, x.status n.id = .failed → fates n.id = .failed
  skipped : ∀ n ∈ c.graph, x.status n.id = .skipped → fates n.id = .skipped
  stored : ∀ n ∈ c.graph, ∀ r, x.store.completed (keyOf c n) = some r → Settled c fates x n r

/-- Every execution in flight fits. -/
def Fitting (c : Context) (h : Handler) (fates : NodeId → Fate) (x : Core) : Prop :=
  ∀ key f, x.store.inFlight key = some f → Fits c h fates x f.node f.pc

/-- The fates solve the equations of the graph. -/
def Solves (h : Handler) (graph : List WorkflowNode) (fates : NodeId → Fate) : Prop :=
  ∀ n ∈ graph, fates n.id = fate h graph fates n

/-- A grounded graph without compensations and timeouts, its fates, and keys that tell its nodes
    apart. -/
structure Setting (c : Context) (h : Handler) (fates : NodeId → Fate) : Prop where
  graph : WellFormedGraph c.graph
  keys : DistinctKeys c
  grounded : Grounded c.graph
  solves : Solves h c.graph fates
  plain : ∀ n ∈ c.graph, c.compensations.actionFor n = none ∧ n.timeoutMs = none

section Fates

variable {c : Context} {h : Handler} {fates : NodeId → Fate} {x y : Core} {n m : WorkflowNode}
  {id : NodeId} {r : NodeResult}

theorem Settled.mono (hs : Settled c fates x n r)
    (hkept : ∀ id, x.status id = .skipped → y.status id = .skipped) : Settled c fates y n r := by
  obtain ⟨ids, hf, hall⟩ := hs
  exact ⟨ids, hf, fun m hm hid => hkept _ (hall m hm hid)⟩

theorem Settled.result (hs : Settled c fates x n r) : (fates n.id).result = some r := by
  obtain ⟨ids, hf, -⟩ := hs
  rw [hf]
  rfl

theorem Settled.status (hs : Settled c fates x n r) : (fates n.id).status = .completed := by
  obtain ⟨ids, hf, -⟩ := hs
  rw [hf]
  rfl

theorem Fits.mono {pc : FlightPc} (hf : Fits c h fates x n pc)
    (hkept : ∀ id, x.status id = .skipped → y.status id = .skipped)
    (hwait : y.status n.id = .waiting → x.status n.id = .waiting) : Fits c h fates y n pc := by
  cases pc with
  | judged | verified => exact Settled.mono hf hkept
  | threw => exact ⟨hf.1, fun hw => hf.2 (hwait hw)⟩
  | _ => exact hf

/-- What lies before a node whose dependencies have completed has completed. -/
theorem Foretold.before (hF : Foretold c h fates x) (hS : Setting c h fates)
    (hn : n ∈ c.graph) (hdeps : ∀ d ∈ n.deps, x.status d = .completed)
    (hd : DependsOn c.graph n.id id) : (∃ m ∈ c.graph, m.id = id) ∧ x.status id = .completed := by
  induction hd with
  | single hedge =>
      obtain ⟨o, ho, hid, hb⟩ := hedge
      obtain rfl := eq_of_id_eq hS.graph.distinct ho hn hid
      exact ⟨hS.graph.known o ho _ hb, hdeps _ hb⟩
  | tail _ hedge ih =>
      obtain ⟨o, ho, rfl, hb⟩ := hedge
      have hbegun : Begun (x.status o.id) := by
        rw [ih.2]
        exact ⟨nofun, nofun⟩
      exact ⟨hS.graph.known o ho _ hb, (hF.begun o ho hbegun).1 _ hb⟩

theorem Foretold.result (hF : Foretold c h fates x) (hn : n ∈ c.graph)
    (hc : x.status n.id = .completed) : x.results n.id = (fates n.id).result := by
  obtain ⟨r, hr, hres⟩ := hF.done n hn hc
  rw [hres, hr.result]

/-- A node reads results that are there, and as foretold. -/
theorem Foretold.reads (hF : Foretold c h fates x) (hS : Setting c h fates)
    (hn : n ∈ c.graph) (hdeps : ∀ d ∈ n.deps, x.status d = .completed)
    (hd : DependsOn c.graph n.id id) : x.results id = (fates id).result := by
  obtain ⟨⟨m, hm, rfl⟩, hc⟩ := hF.before hS hn hdeps hd
  exact hF.result hm hc

theorem Foretold.resolveInput (hF : Foretold c h fates x) (hS : Setting c h fates)
    (hn : n ∈ c.graph) (hdeps : ∀ d ∈ n.deps, x.status d = .completed) :
    Orchestrator.resolveInput x.results n =
      Orchestrator.resolveInput (fun id => (fates id).result) n :=
  resolveInput_congr fun ref href => hF.reads hS hn hdeps (hS.grounded.refs n hn ref href)

/-- A node that is skipped by its fate is not made ready. -/
theorem Foretold.not_passed (hF : Foretold c h fates x) (hS : Setting c h fates)
    (hn : n ∈ c.graph) (hdeps : ∀ d ∈ n.deps, x.status d = .completed)
    (hs : x.status n.id ≠ .skipped) : ¬ Passed c.graph fates n := by
  rintro (⟨d, hd, hskip⟩ | ⟨m, hm, hid⟩)
  · obtain ⟨o, ho, rfl⟩ := hS.graph.known n hn d hd
    obtain ⟨r, hr, -⟩ := hF.done o ho (hdeps _ hd)
    rw [hr.status] at hskip
    cases hskip
  · have hskips := hid
    rw [hS.solves m hm] at hskips
    obtain ⟨cond, hkind, hcond, htarget⟩ := fate_skips hskips
    have hafter := hS.grounded.targets m hm hkind cond hcond n hn htarget
    obtain ⟨r, ⟨ids, hf, hall⟩, -⟩ := hF.done m hm (hF.before hS hn hdeps hafter).2
    rw [hf] at hid
    exact hs (hall n hn hid)

/-- A node under way comes to what its attempts come to. -/
theorem Foretold.attempts (hF : Foretold c h fates x) (hS : Setting c h fates)
    (hn : n ∈ c.graph) (hdeps : ∀ d ∈ n.deps, x.status d = .completed)
    (hs : x.status n.id ≠ .skipped) :
    .ofOutcome (attemptOutcome h (fun id => (fates id).result) n) = fates n.id := by
  have hcompleted : ∀ d ∈ n.deps, (fates d).status = .completed := by
    intro d hd
    obtain ⟨o, ho, rfl⟩ := hS.graph.known n hn d hd
    obtain ⟨r, hr, -⟩ := hF.done o ho (hdeps _ hd)
    exact hr.status
  rw [hS.solves n hn, fate, if_neg (hF.not_passed hS hn hdeps hs), if_pos hcompleted]

/-! ## 2. Writes -/

theorem Foretold.congr (hF : Foretold c h fates x) (hst : ∀ id, y.status id = x.status id)
    (hr : y.results = x.results) (hs : y.store.completed = x.store.completed)
    (hw : y.world = x.world) : Foretold c h fates y where
  world := hw.trans hF.world
  native n hn := hst n.id ▸ hF.native n hn
  begun n hn hb := by
    obtain ⟨hdeps, hne⟩ := hF.begun n hn (hst n.id ▸ hb)
    exact ⟨fun d hd => (hst d).trans (hdeps d hd), hne⟩
  done n hn hc := by
    obtain ⟨r, hset, hres⟩ := hF.done n hn ((hst n.id).symm.trans hc)
    exact ⟨r, hset.mono fun id hs => (hst id).trans hs, hr ▸ hres⟩
  results id hne := (hst id).trans (hF.results id (hr ▸ hne))
  failed n hn hs := hF.failed n hn ((hst n.id).symm.trans hs)
  skipped n hn hs := hF.skipped n hn ((hst n.id).symm.trans hs)
  stored n hn r hc := (hF.stored n hn r (hs ▸ hc)).mono fun id hs => (hst id).trans hs

/-- A node that has not ended goes on as its fate says. -/
theorem Foretold.write (hF : Foretold c h fates x) (hnd : (c.graph.map (·.id)).Nodup)
    (hn : n ∈ c.graph) (hown : Own n.id x y) (hc : x.status n.id ≠ .completed)
    (hs : x.status n.id ≠ .skipped) (hc' : y.status n.id ≠ .completed)
    (hnative : ¬ Foreign (y.status n.id))
    (hbegun : Begun (y.status n.id) → (∀ d ∈ n.deps, x.status d = .completed) ∧
      fates n.id ≠ .skipped)
    (hfailed : y.status n.id = .failed → fates n.id = .failed)
    (hskipped : y.status n.id = .skipped → fates n.id = .skipped) : Foretold c h fates y := by
  have hcompleted : ∀ id, x.status id = .completed → y.status id = .completed := fun id hid => by
    rw [hown.status fun he => hc (he ▸ hid)]
    exact hid
  have hskips : ∀ id, x.status id = .skipped → y.status id = .skipped := fun id hid => by
    rw [hown.status fun he => hs (he ▸ hid)]
    exact hid
  -- another node is as it was
  have hcase : ∀ m ∈ c.graph, m = n ∨ y.status m.id = x.status m.id := fun m hm => by
    by_cases hid : m.id = n.id
    · exact .inl (eq_of_id_eq hnd hm hn hid)
    · exact .inr (hown.status hid)
  refine ⟨hown.world.trans hF.world, fun m hm => ?_, fun m hm hb => ?_, fun m hm hd => ?_,
    fun id hne => hcompleted id (hF.results id (hown.results ▸ hne)), fun m hm hf => ?_,
    fun m hm hk => ?_, fun m hm r hr => (hF.stored m hm r (hown.store ▸ hr)).mono hskips⟩
  · rcases hcase m hm with rfl | he
    · exact hnative
    · rw [he]
      exact hF.native m hm
  · have hold : (∀ d ∈ m.deps, x.status d = .completed) ∧ fates m.id ≠ .skipped := by
      rcases hcase m hm with rfl | he
      · exact hbegun hb
      · exact hF.begun m hm (he ▸ hb)
    exact ⟨fun d hd => hcompleted d (hold.1 d hd), hold.2⟩
  · rcases hcase m hm with rfl | he
    · exact absurd hd hc'
    · obtain ⟨r, hset, hres⟩ := hF.done m hm (he ▸ hd)
      exact ⟨r, hset.mono hskips, hown.results ▸ hres⟩
  · rcases hcase m hm with rfl | he
    · exact hfailed hf
    · exact hF.failed m hm (he ▸ hf)
  · rcases hcase m hm with rfl | he
    · exact hskipped hk
    · exact hF.skipped m hm (he ▸ hk)

/-- What is skipped is skipped by its fate, and what is made ready is not. -/
theorem Foretold.touch {T : List NodeId} (hF : Foretold c h fates x) (hS : Setting c h fates)
    (hT : ∀ n ∈ c.graph, n.id ∈ T → fates n.id = .skipped) (ht : Touch c T False x y) :
    Foretold c h fates y := by
  cases ht with
  | @skip n reason hn hp why =>
      have hskipped : fates n.id = .skipped := by
        rcases why with hmem | ⟨d, hd, hds⟩
        · exact hT n hn hmem
        · obtain ⟨o, ho, rfl⟩ := hS.graph.known n hn d hd
          have hpassed : Passed c.graph fates n :=
            .inl ⟨o.id, hd, by rw [hF.skipped o ho hds]; rfl⟩
          rw [hS.solves n hn, fate, if_pos hpassed]
      refine hF.write hS.graph.distinct hn (.put ..) (by rw [hp]; nofun) (by rw [hp]; nofun) ?_ ?_
        ?_ ?_ fun _ => hskipped <;> rw [Core.put_status_self]
      · nofun
      · exact id
      · exact fun hb => absurd rfl hb.2
      · nofun
  | @prepare n hn hp hd =>
      have hne : fates n.id ≠ .skipped := by
        rw [← hF.attempts hS hn hd (by rw [hp]; nofun)]
        exact (Fate.ofOutcome_ne _).1
      refine hF.write hS.graph.distinct hn (.put ..) (by rw [hp]; nofun) (by rw [hp]; nofun) ?_ ?_
        (fun _ => ⟨hd, hne⟩) ?_ ?_ <;> rw [Core.put_status_self]
      · nofun
      · exact id
      · nofun
      · nofun
  | cancel hn hq ht => exact hq.elim
  | note he hq => exact hq.elim

theorem Foretold.spread {T : List NodeId} (hF : Foretold c h fates x) (hS : Setting c h fates)
    (hT : ∀ n ∈ c.graph, n.id ∈ T → fates n.id = .skipped) (hsp : Spread c T False x y) :
    Foretold c h fates y := by
  induction hsp with
  | refl => exact hF
  | tail _ ht ih => exact ih.touch hS hT ht

theorem Fitting.spread {T : List NodeId} {q : Prop} (hf : Fitting c h fates x)
    (hsp : Spread c T q x y) : Fitting c h fates y := by
  intro key f hkey
  rw [hsp.sameRest.store] at hkey
  exact (hf key f hkey).mono (fun _ => hsp.skipped) hsp.waiting

/-- **A conditional skips what its fate says.** -/
theorem Foretold.concludes (hF : Foretold c h fates x) (hS : Setting c h fates)
    (hC : Core.Sound c x) (hdue : ∀ n ∈ c.graph, ¬ Due x n) (hn : n ∈ c.graph)
    (hkind : n.kind = .conditional) {cond : ConditionSpec} (hcond : n.condition = some cond)
    {source : NodeResult} (hs : x.status n.id = .running)
    (hfate : fates n.id = .completed (conditionResult n cond source)
      (unchosen cond (matchCondition cond source).1))
    {pc : FlightPc} (hconc : conclude c x n cond source = (y, pc)) :
    Foretold c h fates y ∧ pc = .judged (conditionResult n cond source) ∧
      Settled c fates y n (conditionResult n cond source) ∧
      Spread c (unchosen cond (matchCondition cond source).1) False x y := by
  -- a target that is under way would have the conditional behind it
  have hbehind : ∀ m ∈ c.graph, m.id ∈ unchosen cond (matchCondition cond source).1 →
      ¬ Begun (x.status m.id) := by
    intro m hm hmem hb
    have hafter := hS.grounded.targets n hn hkind cond hcond m hm (mem_unchosen hmem)
    have hc := (hF.before hS hm (hF.begun m hm hb).1 hafter).2
    rw [hs] at hc
    cases hc
  have hT : ∀ m ∈ c.graph, m.id ∈ unchosen cond (matchCondition cond source).1 →
      fates m.id = .skipped := by
    intro m hm hmem
    have hpassed : Passed c.graph fates m := .inr ⟨n, hn, by rw [hfate]; exact hmem⟩
    rw [hS.solves m hm, fate, if_pos hpassed]
  rcases conclude_cases hS.graph.distinct hC hdue hconc with ⟨-, rfl, hsp, hterm⟩ | ⟨⟨m, hm, hmem, hl⟩, -⟩
  · have hFy := hF.spread hS hT hsp
    refine ⟨hFy, rfl, ⟨_, hfate, fun m hm hmem => ?_⟩, hsp⟩
    by_contra hne
    have hplanned : y.status m.id ≠ .planned := fun hp => by
      have ht := hterm m hm hmem
      rw [hp] at ht
      cases ht
    exact (hFy.begun m hm ⟨hplanned, hne⟩).2 (hT m hm hmem)
  · refine absurd ⟨fun he => ?_, fun he => ?_⟩ (hbehind m hm hmem) <;>
    · rw [he] at hl
      exact hl

end Fates

/-! ## 3. Executions -/

section Executions

variable {c : Context} {h : Handler} {fates : NodeId → Fate} {x y : Core} {n : WorkflowNode}
  {f : Flight} {a : Answer} {pc : FlightPc}

theorem Agrees.begun {pc : FlightPc} {st : NodeStatus} (h : Agrees pc st) (hg : Going pc) :
    Begun st := by
  have hw := h.worked hg
  constructor <;> (intro he; rw [he] at hw; exact hw)

theorem callForward_fits {action : String} (hs : x.status n.id ≠ .waiting)
    (hin : resolveInput x.results n = resolveInput (fun id => (fates id).result) n)
    (ho : .ofOutcome (callOutcome h (fun id => (fates id).result) n action) = fates n.id)
    (hc : callForward x n action = (y, pc)) : Fits c h fates y n pc := by
  unfold callOutcome at ho
  unfold callForward at hc
  rw [hin] at hc
  split at hc
  · rename_i e he
    cases hc
    rw [he] at ho
    exact ⟨ho.symm, hs⟩
  · rename_i input he
    cases hc
    rw [he] at ho
    exact ho

theorem requestApproval_fits {action : String} (hs : x.status n.id = .running)
    (ho : .ofOutcome (approvalOutcome h (fun id => (fates id).result) n action) = fates n.id)
    (hc : requestApproval x n action = (y, pc)) : Fits c h fates y n pc := by
  unfold requestApproval at hc
  rw [Core.fire_ok x n.id .waiting (by rw [hs]; rfl)] at hc
  cases hc
  exact ho

theorem afterApproval_fits {req : ApprovalRequest} {granted : Bool}
    (hs : x.status n.id ≠ .waiting)
    (hin : resolveInput x.results n = resolveInput (fun id => (fates id).result) n)
    (hfit : Fits c h fates x n (.answered req granted))
    (hc : afterApproval x n req.action granted = (y, pc)) : Fits c h fates y n pc := by
  have ho : .ofOutcome (if granted = true then
    grantedOutcome h (fun id => (fates id).result) n req.action else none) = fates n.id := hfit
  unfold afterApproval at hc
  split_ifs at hc with hg
  · rw [if_pos hg] at ho
    unfold grantedOutcome at ho
    split at hc
    · rename_i hkind
      cases hc
      rw [hkind] at ho
      exact ⟨[], ho.symm, fun m _ hm => absurd hm List.not_mem_nil⟩
    · rename_i hkind
      refine callForward_fits hs hin ?_ hc
      split at ho
      · rename_i hkind'
        exact absurd hkind' hkind
      · exact ho
  · rw [if_neg hg] at ho
    cases hc
    exact ⟨ho.symm, hs⟩

theorem afterRun_fits (hF : Foretold c h fates x) (hS : Setting c h fates)
    (hC : Core.Sound c x) (hdue : ∀ n ∈ c.graph, ¬ Due x n) (hn : n ∈ c.graph)
    (hs : x.status n.id = .running) {o : RunOutcome}
    (ho : .ofOutcome (afterCall n o) = fates n.id) (hr : afterRun c x n o = (y, pc)) :
    Fits c h fates y n pc := by
  have hs' : x.status n.id ≠ .waiting := by
    rw [hs]
    nofun
  unfold afterRun at hr
  unfold afterCall at ho
  split at hr
  · cases hr
    exact ⟨ho.symm, hs'⟩
  · rename_i r
    dsimp only at ho
    split at hr
    · rename_i cond hkind hcond
      rw [hkind, hcond] at ho
      obtain ⟨-, rfl, hset, -⟩ := hF.concludes hS hC hdue hn hkind hcond hs ho.symm hr
      exact hset
    · rename_i hno
      split at ho
      · rename_i cond hkind hcond
        exact absurd hcond (hno cond hkind)
      · split at hr
        · rename_i hstatus
          cases hr
          rw [hstatus] at ho
          exact ⟨ho.symm, hs'⟩
        · rename_i hstatus
          cases hr
          rw [hstatus] at ho
          exact ⟨[], ho.symm, fun m _ hm => absurd hm List.not_mem_nil⟩

theorem catchAttempt_fits {attempt : Nat} {e : String} (hfailed : fates n.id = .failed)
    (hatt : .ofOutcome (attemptOutcome h (fun id => (fates id).result) n) = fates n.id)
    (hc : catchAttempt c x n attempt e = (y, pc)) : Fits c h fates y n pc := by
  unfold catchAttempt at hc
  dsimp only at hc
  split_ifs at hc
  · split at hc <;> cases hc
    · exact hfailed.symm
    · exact hatt
  · split at hc <;> cases hc <;> exact hfailed.symm
  · split at hc <;> cases hc <;> exact hfailed.symm

/-- **A conditional comes to the verdict its fate says.** -/
theorem Foretold.verdict (hF : Foretold c h fates x) (hS : Setting c h fates) (hn : f.node ∈ c.graph)
    (hdeps : ∀ d ∈ f.node.deps, x.status d = .completed) (hns : x.status f.node.id ≠ .skipped)
    (hfit : Fits c h fates x f.node f.pc) (hreplies : Replies h f a)
    (hkind : f.node.kind = .conditional) {cond : ConditionSpec} (hcond : f.node.condition = some cond)
    {source : NodeResult} (hsrc : verdictSource x f cond f.pc a = some source) :
    fates f.node.id = .completed (conditionResult f.node cond source)
      (unchosen cond (matchCondition cond source).1) := by
  generalize hpc : f.pc = pc at hfit hsrc
  unfold verdictSource at hsrc
  split at hsrc
  · split at hsrc
    · cases hsrc
    · rename_i haction
      have hatt := hF.attempts hS hn hdeps hns
      rw [← hatt, attemptOutcome, hkind, hcond]
      dsimp only
      rw [haction]
      dsimp only
      rw [← hF.reads hS hn hdeps (hS.grounded.sources _ hn hkind cond hcond haction), hsrc]
      rfl
  · rename_i action input call r
    cases hsrc
    have hfate : .ofOutcome (afterCall f.node (h.run action input f.node)) = fates f.node.id := hfit
    rw [← hreplies action input call hpc, afterCall, hkind, hcond] at hfate
    exact hfate.symm
  · cases hsrc

/-- **An execution goes on as the fate of its node says.** -/
theorem flightNext_fits (hF : Foretold c h fates x) (hS : Setting c h fates)
    (hC : Core.Sound c x) (hdue : ∀ n ∈ c.graph, ¬ Due x n) {key : String}
    (hf : x.store.inFlight key = some f) (hgo : Going f.pc)
    (hfit : Fits c h fates x f.node f.pc) (hreplies : Replies h f a)
    (hnext : flightNext c x f f.pc a = some (y, pc)) : Fits c h fates y f.node pc := by
  obtain ⟨hn, -, hag⟩ := hC.flight key f hf
  have hdeps := hC.working key f hf hgo
  have hbegun := hag.begun hgo
  have hin := hF.resolveInput hS hn hdeps
  have hatt := hF.attempts hS hn hdeps hbegun.2
  generalize hpc : f.pc = pc₀ at hag hfit hnext
  unfold flightNext at hnext
  split at hnext
  · -- the beginning of an attempt
    have hs : x.status f.node.id = .running := hag
    have hs' : x.status f.node.id ≠ .waiting := by
      rw [hs]
      nofun
    have hrun : runNodeAction c x f.node = (y, pc) := Option.some.inj hnext
    unfold runNodeAction at hrun
    unfold attemptOutcome at hatt
    split at hrun
    · rename_i hkind
      rw [hkind] at hatt
      split at hrun
      · rename_i hcond
        cases hrun
        rw [hcond] at hatt
        exact ⟨hatt.symm, hs'⟩
      · rename_i cond hcond
        rw [hcond] at hatt
        split at hrun
        · rename_i action haction
          rw [haction] at hatt
          exact callForward_fits hs' hin hatt hrun
        · rename_i haction
          rw [haction] at hatt
          dsimp only at hatt
          rw [← hF.reads hS hn hdeps (hS.grounded.sources _ hn hkind cond hcond haction)] at hatt
          split at hrun
          · rename_i source hsource
            rw [hsource] at hatt
            obtain ⟨-, rfl, hset, -⟩ := hF.concludes hS hC hdue hn hkind hcond hs hatt.symm hrun
            exact hset
          · rename_i hsource
            cases hrun
            rw [hsource] at hatt
            exact ⟨hatt.symm, hs'⟩
    · rename_i hkind
      rw [hkind] at hatt
      exact requestApproval_fits hs hatt hrun
    · rename_i hkind
      rw [hkind] at hatt
      rw [hF.world] at hrun
      dsimp only at hatt
      split_ifs at hrun hatt
      all_goals first
        | exact requestApproval_fits hs hatt hrun
        | exact callForward_fits hs' hin hatt hrun
        | contradiction
  · exact hreplies.elim
  · -- the answer to an approval request
    rename_i req granted
    have hs : x.status f.node.id = .waiting := hag
    obtain rfl : granted = h.approve req := hreplies req hpc
    have hrec : recordApproval x f.node req (h.approve req) = (y, pc) := Option.some.inj hnext
    unfold recordApproval at hrec
    dsimp only at hrec
    rw [Core.fire_ok _ _ (if h.approve req then .running else .failed)] at hrec
    · cases hrec
      exact hfit
    · rw [Core.observe_status, hs]
      cases h.approve req <;> rfl
  · exact hreplies.elim
  · rename_i req granted
    refine afterApproval_fits ?_ hin hfit (Option.some.inj hnext)
    cases granted <;> (rw [hag]; nofun)
  · -- the answer of the handler
    rename_i action input call o
    obtain rfl := hreplies action input call hpc
    have hobs : ∀ id, (x.observe (.settled call f.node.id .forward
      (h.run action input f.node))).status id = x.status id := fun _ => rfl
    exact afterRun_fits (hF.congr hobs rfl rfl rfl) hS (hC.congr hobs rfl) hdue hn hag hfit
      (Option.some.inj hnext)
  · rw [(hS.plain _ hn).2] at hnext
    cases hnext
  · have hs : x.status f.node.id = .running := hag
    have hver : verifyNode x f.node _ = (y, pc) := Option.some.inj hnext
    unfold verifyNode at hver
    rw [Core.fire_ok x f.node.id .verifying (by rw [hs]; rfl)] at hver
    cases hver
    refine Settled.mono hfit fun id hid => ?_
    have hne : id ≠ f.node.id := fun he => by
      rw [he, hs] at hid
      cases hid
    have hput := Core.put_status x f.node.id id
      { x.nodes f.node.id with status := .verifying } []
    exact (hput.trans (if_neg hne)).trans hid
  · exact catchAttempt_fits hfit.1 hatt (Option.some.inj hnext)
  · have hbeg : beginAttempt x f.node _ = (y, pc) := Option.some.inj hnext
    rw [beginAttempt_ok (.inr hag)] at hbeg
    cases hbeg
    exact hatt
  · split at hnext <;> cases hnext <;> exact hfit
  · cases hnext

/-- **What an execution writes is foretold.** -/
theorem Row.foretold (hF : Foretold c h fates x) (hS : Setting c h fates) (hn : f.node ∈ c.graph)
    (hdeps : ∀ d ∈ f.node.deps, x.status d = .completed) {pc pc' : FlightPc}
    (hpc : f.pc = pc) (hgo : Going pc) (hag : Agrees pc (x.status f.node.id))
    (hfit : Fits c h fates x f.node pc) (hreplies : Replies h f a) (hrow : Row c x f pc a y pc') :
    Foretold c h fates y := by
  obtain ⟨hplanned, hnskipped⟩ := hag.begun hgo
  have hne := (hF.begun _ hn (hag.begun hgo)).2
  have hput : ∀ (nd : InternalNode) (obs : List Obs), nd.status = x.status f.node.id →
      Foretold c h fates (x.put f.node.id nd obs) := by
    intro nd obs hnd
    refine hF.congr (fun id => ?_) rfl rfl rfl
    rw [Core.put_status]
    split_ifs with hid
    · rw [hnd, hid]
    · rfl
  have hwrite : ∀ (st : NodeStatus) (nd : InternalNode) (obs : List Obs), nd.status = st →
      st ≠ .completed → ¬ Foreign st → st ≠ .skipped → (st = .failed → fates f.node.id = .failed) →
      Foretold c h fates (x.put f.node.id nd obs) := by
    intro st nd obs hst hc hforeign hs hfailed
    refine hF.write hS.graph.distinct hn (.put ..) (hag.not_completed hgo).1 hnskipped ?_ ?_
      (fun _ => ⟨hdeps, hne⟩) ?_ ?_ <;> rw [Core.put_status_self, hst]
    · exact hc
    · exact hforeign
    · exact hfailed
    · exact fun he => absurd he hs
  -- no execution compensates
  have hnative : ∀ st, Foreign st → x.status f.node.id ≠ st := fun st hst he =>
    hF.native _ hn (he ▸ hst)
  cases hrow with
  | throws | approved | ended => exact hF
  | calls => exact hF.congr (fun _ => rfl) rfl rfl rfl
  | concludes => exact hput _ _ rfl
  | settles => exact hput _ _ rfl
  | timesOut hms =>
      rw [(hS.plain _ hn).2] at hms
      cases hms
  | asks | verifies | retries | resumes => exact hwrite _ _ _ rfl nofun id nofun nofun
  | @answers req granted hs =>
      obtain rfl : granted = h.approve req := hreplies req hpc
      have hfate : .ofOutcome (if h.approve req = true then
        grantedOutcome h (fun id => (fates id).result) f.node req.action else none) =
          fates f.node.id := hfit
      cases hg : h.approve req with
      | true => exact hwrite .running _ _ rfl nofun id nofun nofun
      | false =>
          refine hwrite .failed _ _ rfl nofun id nofun fun _ => ?_
          rw [hg] at hfate
          exact hfate.symm
  | retryRefused => exact hput _ _ rfl
  | @fails e reported q _ pc' hagain hq hhead =>
      have hcount : x.countFailure f.node.id = x.put f.node.id { x.nodes f.node.id with
        failureCount := (x.nodes f.node.id).failureCount + 1 } [] := Core.setNode_eq_put ..
      rw [hcount] at hhead
      cases hhead with
      | failed hw ha =>
          rw [Core.put_put, Core.put_status_self]
          have hstatus : headStatus (x.status f.node.id) = .failed := by
            rw [Core.put_status_self] at hw
            rcases hag with hs | hs | hs
            · rw [hs]
              rfl
            · exact absurd hs hw
            · rw [hs]
              rfl
          exact hwrite .failed _ _ hstatus nofun id nofun fun _ => hfit.1
      | compensates hs ha =>
          rw [(hS.plain _ hn).1] at ha
          cases ha
      | quarantines hs =>
          rw [hF.world] at hq
          cases hq
  | @failRefused e reported message q _ hagain hhead =>
      have hcount : x.countFailure f.node.id = x.put f.node.id { x.nodes f.node.id with
        failureCount := (x.nodes f.node.id).failureCount + 1 } [] := Core.setNode_eq_put ..
      rw [hcount] at hhead
      cases hhead with
      | waits | refused =>
          rw [Core.put_put]
          exact hput _ _ (by rw [Core.put_nodes, if_pos rfl]; rfl)
  | ending hrow =>
      cases hrow with
      | undoes => exact absurd hag (hnative _ trivial)
      | rollsBack hs => exact absurd hs (hnative _ trivial)
      | swept => exact absurd hag (hnative _ trivial)

/-- An execution that comes to a verdict is running. -/
theorem verdictSource_running {cond : ConditionSpec} {source : NodeResult} {st : NodeStatus}
    (hag : Agrees f.pc st) (hsrc : verdictSource x f cond f.pc a = some source) : st = .running := by
  unfold verdictSource at hsrc
  split at hsrc
  · rename_i hpc
    rw [hpc] at hag
    exact hag
  · rename_i hpc
    rw [hpc] at hag
    exact hag
  · cases hsrc

/-- **A step of an execution is foretold**, when the handler answers it. -/
theorem flightStep_foretold (hF : Foretold c h fates x) (hfit : Fitting c h fates x)
    (hS : Setting c h fates) (hC : Core.Sound c x) (hdue : ∀ n ∈ c.graph, ¬ Due x n) {key : String}
    (hreplies : ∀ f, x.store.inFlight key = some f → Replies h f a)
    (hs : flightStep c x key a = some y) : Foretold c h fates y ∧ Fitting c h fates y := by
  unfold flightStep at hs
  split at hs
  · cases hs
  · rename_i f hf
    obtain ⟨hn, hkey, hag⟩ := hC.flight key f hf
    split at hs
    · -- the promise resolves
      rename_i r hpc
      cases hs
      have hset : Settled c fates x f.node r := by
        have hset := hfit key f hf
        rw [hpc] at hset
        exact hset
      refine ⟨{ hF with stored := fun n hn' r' hr' => ?_ }, fun k g hg => ?_⟩
      · simp only [IdempotencyStore.settle] at hr'
        split_ifs at hr' with hk
        · cases hr'
          obtain rfl := hS.keys _ hn' _ hn (hk.trans hkey.symm)
          exact hset
        · exact hF.stored n hn' r' hr'
      · simp only [IdempotencyStore.settle] at hg
        split_ifs at hg
        exact hfit k g hg
    · rename_i b _ _ _
      obtain ⟨⟨z, pc⟩, hnext, rfl⟩ := Option.map_eq_some_iff.mp hs
      obtain ⟨z₁, hrow, hend⟩ := flightNext_ends hag hnext
      have hgo : Going f.pc := hrow.going
      have hfits := flightNext_fits hF hS hC hdue hf hgo (hfit key f hf) (hreplies f hf) hnext
      have hbegun := hag.begun hgo
      have hdeps := hC.working key f hf hgo
      have hF₁ := hrow.foretold hF hS hn hdeps rfl hgo hag (hfit key f hf) (hreplies f hf)
      -- the skips behind a verdict
      have hz : Foretold c h fates z ∧ z.store = x.store ∧
          ∀ id, id ≠ f.node.id → (x.status id = .skipped → z.status id = .skipped) ∧
            (z.status id = .waiting → x.status id = .waiting) := by
        rcases hend with rfl | ⟨cond, source, hkind, hcond, hsrc, hconc⟩
        · refine ⟨hF₁, hrow.own.store, fun id hid => ?_⟩
          rw [hrow.own.status hid]
          exact ⟨fun hs => hs, fun hw => hw⟩
        · have hfate := hF.verdict hS hn hdeps hbegun.2 (hfit key f hf) (hreplies f hf) hkind hcond hsrc
          have hsame := hrow.same_status ((conclude_pc hconc).imp_left fun h => ⟨_, h⟩)
          have hrunning : z₁.status f.node.id = .running := by
            rw [hsame]
            exact verdictSource_running hag hsrc
          obtain ⟨hFz, -, -, hsp⟩ := hF₁.concludes hS (hC.congr hsame hrow.own.store)
            (fun m hm hd => hdue m hm
              ⟨(hsame _).symm.trans hd.1, fun d hdep => (hsame _).symm.trans (hd.2 d hdep)⟩)
            hn hkind hcond hrunning hfate hconc
          refine ⟨hFz, hsp.sameRest.store.trans hrow.own.store, fun id _ => ⟨fun hs => ?_, fun hw => ?_⟩⟩
          · exact hsp.skipped ((hsame id).trans hs)
          · exact (hsame id).symm.trans (hsp.waiting hw)
      obtain ⟨hFz, hstore, hkept⟩ := hz
      refine ⟨hFz.congr (fun _ => rfl) rfl rfl rfl, fun k g hg => ?_⟩
      rw [Core.setFlight_inFlight] at hg
      split_ifs at hg with hk
      · cases hg
        exact Fits.mono hfits (fun _ hs => hs) fun hw => hw
      · rw [hstore] at hg
        obtain ⟨hgn, hgk, -⟩ := hC.flight k g hg
        have hne : g.node.id ≠ f.node.id := fun hid =>
          hk (by rw [← hgk, ← hkey, eq_of_id_eq hS.graph.distinct hgn hn hid])
        refine (hfit k g hg).mono (fun id hs => ?_) (hkept _ hne).2
        by_cases hid : id = f.node.id
        · rw [hid] at hs
          exact absurd hs hbegun.2
        · exact (hkept id hid).1 hs

end Executions

/-! ## 4. The machine -/

section Machine

variable {c : Context} {h : Handler} {fates : NodeId → Fate} {s s' : State} {x y : Core}
  {n : WorkflowNode} {l : Label} {i : Nat} {a : Answer}

/-- A stored result completes its node. -/
theorem Foretold.complete (hF : Foretold c h fates x) (hS : Setting c h fates) (hn : n ∈ c.graph)
    {r : NodeResult} (hr : x.store.completed (keyOf c n) = some r)
    (hs : x.status n.id = .verifying) : Foretold c h fates (doneCore c x n r) := by
  have hst : ∀ id, id ≠ n.id → (doneCore c x n r).status id = x.status id := fun id hid => by
    rw [doneCore_status, if_neg hid]
  have hself : (doneCore c x n r).status n.id = .completed := by
    rw [doneCore_status, if_pos rfl]
  have hcompleted : ∀ id, x.status id = .completed → (doneCore c x n r).status id = .completed := by
    intro id hid
    by_cases he : id = n.id
    · rw [he, hself]
    · rw [hst id he, hid]
  have hskips : ∀ id, x.status id = .skipped → (doneCore c x n r).status id = .skipped := by
    intro id hid
    have he : id ≠ n.id := fun he => by
      rw [he, hs] at hid
      cases hid
    rw [hst id he, hid]
  have hset := hF.stored n hn r hr
  have hcase : ∀ m ∈ c.graph, m = n ∨
      (m.id ≠ n.id ∧ (doneCore c x n r).status m.id = x.status m.id) := fun m hm => by
    by_cases hid : m.id = n.id
    · exact .inl (eq_of_id_eq hS.graph.distinct hm hn hid)
    · exact .inr ⟨hid, hst _ hid⟩
  refine ⟨hF.world, fun m hm => ?_, fun m hm hb => ?_, fun m hm hd => ?_, fun id hne => ?_,
    fun m hm hf => ?_, fun m hm hk => ?_, fun m hm r' hr' => (hF.stored m hm r' hr').mono hskips⟩
  · rcases hcase m hm with rfl | ⟨-, he⟩
    · rw [hself]
      exact id
    · rw [he]
      exact hF.native m hm
  · have hold : (∀ d ∈ m.deps, x.status d = .completed) ∧ fates m.id ≠ .skipped := by
      rcases hcase m hm with rfl | ⟨-, he⟩
      · refine hF.begun m hm ?_
        rw [hs]
        exact ⟨nofun, nofun⟩
      · exact hF.begun m hm (he ▸ hb)
    exact ⟨fun d hd => hcompleted d (hold.1 d hd), hold.2⟩
  · rcases hcase m hm with rfl | ⟨hid, he⟩
    · exact ⟨r, hset.mono hskips, if_pos rfl⟩
    · obtain ⟨r', hset', hres⟩ := hF.done m hm (he ▸ hd)
      exact ⟨r', hset'.mono hskips, (if_neg hid).trans hres⟩
  · by_cases he : id = n.id
    · rw [he, hself]
    · exact hcompleted id (hF.results id fun hnone => hne ((if_neg he).trans hnone))
  · rcases hcase m hm with rfl | ⟨-, he⟩
    · rw [hself] at hf
      cases hf
    · exact hF.failed m hm (he ▸ hf)
  · rcases hcase m hm with rfl | ⟨-, he⟩
    · rw [hself] at hk
      cases hk
    · exact hF.skipped m hm (he ▸ hk)

/-- **What a worker does is foretold.** -/
theorem Work.foretold (hF : Foretold c h fates s.core) (hfit : Fitting c h fates s.core)
    (hS : Setting c h fates) (hw : Work c s i y) :
    Foretold c h fates y ∧ Fitting c h fates y := by
  cases hw with
  | nothing => exact ⟨hF, hfit⟩
  | @begins job n s₀ hh hjob hk hr =>
      obtain ⟨hdeps, hne⟩ := hF.begun n hjob.1 (by rw [hr]; exact ⟨nofun, nofun⟩)
      have hput := hF.write hS.graph.distinct hjob.1 (.put s.core n.id
          { s.core.nodes n.id with status := .running, attempt := job.attempt }
          [.event (.nodeRunning n.id job.id job.attempt job.operationId)])
        (by rw [hr]; nofun) (by rw [hr]; nofun) (by rw [Core.put_status_self]; nofun)
        (by rw [Core.put_status_self]; exact id) (fun _ => ⟨hdeps, hne⟩)
        (by rw [Core.put_status_self]; nofun) (by rw [Core.put_status_self]; nofun)
      refine ⟨hput.congr (fun _ => rfl) rfl rfl rfl, fun k g hg => ?_⟩
      rw [Core.setFlight_inFlight] at hg
      split_ifs at hg with hkey
      · cases hg
        exact hF.attempts hS hjob.1 hdeps (by rw [hr]; nofun)
      · refine (hfit k g hg).mono (fun id hs => ?_) fun hw => ?_
        · rw [Core.setFlight_status, Core.put_status, if_neg fun he => ?_]
          · exact hs
          · rw [he, hr] at hs
            cases hs
        · rw [Core.setFlight_status, Core.put_status] at hw
          split_ifs at hw
          exact hw
  | @completes n r hn hr hs =>
      have hdone := hF.complete hS hn hr hs
      have hsp : Spread c [] False (doneCore c s.core n r) (promoteReady c (doneCore c s.core n r)) :=
        promoteReady_spread
      have hfit' : Fitting c h fates (doneCore c s.core n r) := by
        intro k g hg
        refine (hfit k g hg).mono (fun id hid => ?_) fun hw => ?_
        · rw [doneCore_status, if_neg fun he => ?_]
          · exact hid
          · rw [he, hs] at hid
            cases hid
        · rw [doneCore_status] at hw
          split_ifs at hw
          exact hw
      exact ⟨hdone.spread hS (fun _ _ hm => absurd hm List.not_mem_nil) hsp, hfit'.spread hsp⟩
  | @dies job n d hw hs =>
      have hst : ∀ id, (s.core.put n.id (s.core.nodes n.id) [.illegal n.id .waiting .fail]).status id =
          s.core.status id := fun id => by
        rw [Core.put_status]
        split_ifs with hid
        · rw [hid]
          rfl
        · rfl
      exact ⟨hF.congr hst rfl rfl rfl, fun k g hg =>
        (hfit k g hg).mono (fun id hid => (hst id).trans hid) fun hw => (hst _).symm.trans hw⟩

theorem Fitting.congr (hfit : Fitting c h fates x) (hn : y.nodes = x.nodes)
    (hs : y.store = x.store) : Fitting c h fates y := by
  intro k g hg
  rw [hs] at hg
  refine (hfit k g hg).mono (fun id hid => ?_) fun hw => ?_
  · rw [Core.status_eq, hn]
    exact hid
  · rw [Core.status_eq, hn] at hw
    exact hw

/-- The drive loop of an uncancelled run makes nodes ready, and does no more to them. -/
theorem DriveMove.prepares (hc : s.cancelled = none) (hm : DriveMove c s s') :
    ∃ x, Spread c [] False s.core x ∧ s'.core.nodes = x.nodes ∧ SameRest x s'.core := by
  have hloop : ∀ {t : State}, t.cancelled = none → Loop c t s' →
      s'.core.nodes = t.core.nodes ∧ SameRest t.core s'.core := by
    intro t ht hl
    cases hl with
    | cancels hcancel =>
        rw [ht] at hcancel
        cases hcancel
    | finishes | enqueues => exact ⟨rfl, rfl, rfl, rfl, rfl, rfl, rfl⟩
  cases hm with
  | starts hd hl =>
      obtain ⟨hn, hr⟩ := hloop (t := { s with core := promoteReady c s.core }) hc hl
      exact ⟨_, promoteReady_spread, hn, hr⟩
  | loops hd hall hl =>
      obtain ⟨hn, hr⟩ := hloop hc hl
      exact ⟨_, .refl, hn, hr⟩
  | aborts | emits | enqueues | dispatches | resolves =>
      exact ⟨s.core, .refl, rfl, rfl, rfl, rfl, rfl, rfl, rfl⟩

theorem DriveMove.foretold (hF : Foretold c h fates s.core) (hfit : Fitting c h fates s.core)
    (hS : Setting c h fates) (hc : s.cancelled = none) (hm : DriveMove c s s') :
    Foretold c h fates s'.core ∧ Fitting c h fates s'.core := by
  obtain ⟨x, hsp, hn, hrest⟩ := hm.prepares hc
  have hst : ∀ id, s'.core.status id = x.status id := fun id => by
    rw [Core.status_eq, hn, Core.status_eq]
  exact ⟨(hF.spread hS (fun _ _ hm => absurd hm List.not_mem_nil) hsp).congr hst hrest.results
    (by rw [hrest.store]) hrest.world, (hfit.spread hsp).congr hn hrest.store⟩

/-- **An obedient step is foretold.** -/
theorem step_foretold (hF : Foretold c h fates s.core) (hfit : Fitting c h fates s.core)
    (hS : Setting c h fates) (hA : Advancing c s) (hc : s.cancelled = none) (hok : Obeys h s l)
    (hs : step c s l = some s') : Foretold c h fates s'.core ∧ Fitting c h fates s'.core := by
  cases l with
  | drive => exact (driveStep_move hs).foretold hF hfit hS hc
  | worker i a =>
      exact ((workerStep_move hs).work hS.graph.distinct hS.keys hA.sound hA.tidy).foretold hF hfit hS
  | flight key a =>
      obtain ⟨y, hy, rfl⟩ := Option.map_eq_some_iff.mp hs
      obtain ⟨f, hf, hgo⟩ := flightStep_going hy
      exact flightStep_foretold hF hfit hS hA.sound.core (hA.unlost.not_due hA.sound hf hgo) hok hy
  | late call o =>
      obtain ⟨y, hy, rfl⟩ := Option.map_eq_some_iff.mp hs
      unfold lateStep at hy
      split at hy
      · cases hy
      · cases hy
        exact ⟨hF.congr (fun _ => rfl) rfl rfl rfl, hfit.congr rfl rfl⟩
  | redeliver j at_ =>
      obtain ⟨job, -, rfl⟩ := Option.map_eq_some_iff.mp hs
      exact ⟨hF, hfit⟩
  | cancel reason => exact hok.elim
  | world w => exact hok.elim

/-- Where executions fit, none catches a rejected approval request. -/
theorem Fitting.not_catches (hfit : Fitting c h fates s.core) : ¬ CatchesWaiting s l := by
  rintro ⟨key, f, e, -, hf, hpc, hw⟩
  have hfits := hfit key f hf
  rw [hpc] at hfits
  exact hfits.2 hw

end Machine

/-! ## 5. The end of a run -/

/-- What an obedient run keeps. -/
structure Obedient (c : Context) (h : Handler) (fates : NodeId → Fate) (s : State) : Prop where
  advancing : Advancing c s
  foretold : Foretold c h fates s.core
  fitting : Fitting c h fates s.core
  uncancelled : s.cancelled = none
  uncut : Uncut c s

section Ends

variable {c : Context} {h : Handler} {fates : NodeId → Fate} {s s' : State} {x : Core}
  {n : WorkflowNode} {l : Label} {ls : List Label}

theorem Foretold.initial : Foretold c h fates (State.initial c h.world).core where
  world := rfl
  native _ _ := id
  begun _ _ hb := absurd rfl hb.1
  done _ _ := nofun
  results _ hne := absurd rfl hne
  failed _ _ := nofun
  skipped _ _ := nofun
  stored _ _ _ := nofun

theorem Fitting.initial : Fitting c h fates (State.initial c h.world).core := by
  intro key f hf
  cases hf

theorem Obedient.step (hv : validateGraph c.graph = .ok ()) (hS : Setting c h fates)
    (hO : Obedient c h fates s) (hok : Obeys h s l) (hs : step c s l = some s') :
    Obedient c h fates s' := by
  have hA := hO.advancing
  obtain ⟨hF, hfit⟩ := step_foretold hO.foretold hO.fitting hS hA hO.uncancelled hok hs
  have hc : s'.cancelled = none := by
    rcases step_cancelled hs with he | ⟨reason, rfl, -⟩
    · exact he.trans hO.uncancelled
    · exact hok.elim
  have hhead : HeadUncancelled s l := by
    cases l with
    | drive => exact fun _ => hO.uncancelled
    | _ => trivial
  exact ⟨hA.step hS.graph.distinct hS.keys hO.fitting.not_catches hs, hF, hfit, hc,
    hO.uncut.step hv hS.keys hA.sound hA.tidy hA.unlost hhead hs⟩

/-- **At rest every node has come to its fate.** -/
theorem Foretold.status_eq (hF : Foretold c h fates x) (hS : Setting c h fates)
    (hv : validateGraph c.graph = .ok ()) (hclosed : Closed c x) (hdue : ∀ n ∈ c.graph, ¬ Due x n)
    (hrest : AtRest c x) (hn : n ∈ c.graph) : x.status n.id = (fates n.id).status := by
  obtain ⟨rank, hrank⟩ := validateGraph_rank hv
  -- by induction on the rank: a planned node has a dependency that did not complete
  have hgo : ∀ k, ∀ n ∈ c.graph, rank n.id = k → x.status n.id = (fates n.id).status := by
    intro k
    induction k using Nat.strong_induction_on with
    | h k ih =>
        rintro n hn rfl
        have hbelow : ∀ {m : WorkflowNode}, m ∈ c.graph → DependsOn c.graph n.id m.id →
            x.status m.id = (fates m.id).status := fun hm hd =>
          ih _ (dependsOn_rank hrank hd) _ hm rfl
        rcases hrest n hn with hterm | ⟨hp, -⟩
        · cases hst : x.status n.id with
          | completed =>
              obtain ⟨r, hset, -⟩ := hF.done n hn hst
              exact hset.status.symm
          | failed => rw [hF.failed n hn hst]; rfl
          | skipped => rw [hF.skipped n hn hst]; rfl
          | rolledBack | quarantined | cancelled =>
              have hno := hF.native n hn
              rw [hst] at hno
              exact absurd trivial hno
          | _ =>
              rw [hst] at hterm
              cases hterm
        · have hpassed : ¬ Passed c.graph fates n := by
            rintro (⟨d, hd, hskip⟩ | ⟨m, hm, hid⟩)
            · obtain ⟨o, ho, rfl⟩ := hS.graph.known n hn d hd
              have hs := (hbelow ho (.single ⟨n, hn, rfl, hd⟩)).trans hskip
              have hterm := hclosed _ hs n hn hd
              rw [hp] at hterm
              cases hterm
            · have hskips := hid
              rw [hS.solves m hm] at hskips
              obtain ⟨cond, hkind, hcond, htarget⟩ := fate_skips hskips
              have hb := hbelow hm (hS.grounded.targets m hm hkind cond hcond n hn htarget)
              cases hfate : fates m.id with
              | completed r ids =>
                  rw [hfate] at hb hid
                  obtain ⟨r', ⟨ids', hf, hall⟩, -⟩ := hF.done m hm hb
                  rw [hfate] at hf
                  cases hf
                  have hs := hall n hn hid
                  rw [hp] at hs
                  cases hs
              | _ =>
                  rw [hfate] at hid
                  cases hid
          have hopen : ¬ ∀ d ∈ n.deps, (fates d).status = .completed := fun hall => by
            refine hdue n hn ⟨hp, fun d hd => ?_⟩
            obtain ⟨o, ho, rfl⟩ := hS.graph.known n hn d hd
            exact (hbelow ho (.single ⟨n, hn, rfl, hd⟩)).trans (hall _ hd)
          rw [hS.solves n hn, fate, if_neg hpassed, if_neg hopen]
          exact hp
  exact hgo _ n hn rfl

/-- Where every node has come to its fate the results are those of the fates. -/
theorem Foretold.results_eq (hF : Foretold c h fates x) (hlisted : Listed x)
    (henlisted : Enlisted c x) (hother : ∀ id, id ∉ c.graph.map (·.id) → (fates id).result = none)
    (hstatus : ∀ n ∈ c.graph, x.status n.id = (fates n.id).status) (id : NodeId) :
    x.results id = (fates id).result := by
  by_cases hid : id ∈ c.graph.map (·.id)
  · obtain ⟨n, hn, rfl⟩ := List.mem_map.mp hid
    by_cases hc : x.status n.id = .completed
    · exact hF.result hn hc
    · have hnone : x.results n.id = none := by
        by_contra hne
        exact hc (hF.results n.id hne)
      rw [hstatus n hn] at hc
      rw [hnone]
      cases hfate : fates n.id with
      | completed r ids =>
          rw [hfate] at hc
          exact absurd rfl hc
      | _ => rfl
  · rw [hother id hid]
    by_contra hne
    exact hid (henlisted ((hlisted.2 id).mpr (hF.results id hne)))

theorem run_obedient (hv : validateGraph c.graph = .ok ()) (hS : Setting c h fates)
    (hr : Run (step c) (Obeys h) (.initial c h.world) ls s) : Obedient c h fates s ∧
      occurrences (step c) (works c) (.initial c h.world) ls ≤
        runWork c + 4 * occurrences (step c) redelivers (.initial c h.world) ls := by
  have h₀ : Obedient c h fates (.initial c h.world) :=
    ⟨.initial hS.graph.distinct hS.keys _, .initial, .initial, rfl, .initial _⟩
  obtain ⟨hO, hle⟩ : Obedient c h fates s ∧
      potential c s + occurrences (step c) (works c) (.initial c h.world) ls ≤
        potential c (.initial c h.world) +
          4 * occurrences (step c) redelivers (.initial c h.world) ls :=
    hr.occurrences_spent h₀ fun s l s' hO hok hs => ⟨hO.step hv hS hok hs,
      step_spends hS.graph.distinct hS.keys hO.advancing.sound hO.advancing.tidy
        hO.advancing.fed hO.advancing.answered hO.advancing.brief hs⟩
  have hstart := potential_initial (c := c) h.world
  exact ⟨hO, by omega⟩

/-- The run comes to its end, and there every node has come to its fate: until `run()` is resolved
    some code can go on, with the handler's answers, and no more of it than there is to do. -/
structure EndsAs (c : Context) (h : Handler) (fates : NodeId → Fate) (ls : List Label) (s : State) :
    Prop where
  enabled : s.drive ≠ .resolved → ∃ l s', works c s l = true ∧ Obeys h s l ∧ step c s l = some s'
  ends : occurrences (step c) (works c) (.initial c h.world) ls ≤
    runWork c + 4 * occurrences (step c) redelivers (.initial c h.world) ls
  status : s.drive = .resolved → ∀ n ∈ c.graph, s.status n.id = (fates n.id).status
  results : s.drive = .resolved → ∀ id, s.core.results id = (fates id).result

/-- **Every schedule ends where the evaluation of the graph ends**, whatever the limits of the
    bulkhead, the order of the steps and the redeliveries of the queue. -/
theorem schedule_independent {order : List WorkflowNode} (hv : validateGraph c.graph = .ok ())
    (hk : NoCollision c) (hpos : c.limits.Positive)
    (hplain : ∀ n ∈ c.graph, c.compensations.actionFor n = none ∧ n.timeoutMs = none)
    (hg : Grounded c.graph) (ht : Topological c.graph order)
    (hr : Run (step c) (Obeys h) (.initial c h.world) ls s) :
    EndsAs c h (evaluate h c.graph order) ls s := by
  have hw := validateGraph_iff.mp hv
  have hS : Setting c h (evaluate h c.graph order) :=
    ⟨hw, hk.distinctKeys hw.distinct, hg, fun n hn => evaluate_eq hw hg ht hn, hplain⟩
  obtain ⟨hO, hends⟩ := run_obedient hv hS hr
  have hA := hO.advancing
  have hstatus : s.drive = .resolved →
      ∀ n ∈ c.graph, s.status n.id = (evaluate h c.graph order n.id).status := fun hd n hn =>
    hO.foretold.status_eq hS hv hA.unlost.closed (hA.unlost.waits (by rw [hd]; nofun))
      (hO.uncut.after (.inr hd)).2 hn
  exact ⟨fun hd => step_enabled h hA.sound hA.tidy hA.standing hA.housed hpos hd, hends, hstatus,
    fun hd => hO.foretold.results_eq hA.listed hA.enlisted (fun id hid => by
      rw [evaluate_other ht hid]
      rfl) (hstatus hd)⟩

end Ends

/-- Linting fails, every other action succeeds, every request is granted. -/
def pipelineHandler : Handler where
  run action _ _ :=
    if action = "lint" then .rejected "unused import" else .resolved ⟨.success, .obj [], []⟩
  approve _ := true
  requiresApproval _ := false

/-- A step with the answers of `pipelineHandler`. -/
def handledCheck (s : State) : Label → Bool
  | .drive | .worker .. | .flight _ .tick => true
  | .flight key (.run o) =>
      match s.core.store.inFlight key with
      | some ⟨_, _, .calling action _ _⟩ =>
          match o with
          | .resolved ⟨.success, .obj [], []⟩ => decide (action ≠ "lint")
          | .rejected e => decide (action = "lint") && decide (e = "unused import")
          | _ => false
      | _ => false
  | _ => false

theorem obeys_of_handledCheck (s : State) (l : Label) (hl : handledCheck s l = true) :
    Obeys pipelineHandler s l := by
  unfold handledCheck at hl
  split at hl
  · trivial
  · trivial
  · exact fun _ _ => trivial
  · split at hl
    · rename_i key o n job action input call hf
      intro g hg action' input' call' hpc
      rw [hf] at hg
      cases hg
      cases hpc
      split at hl
      · exact (if_neg (of_decide_eq_true hl)).symm
      · obtain ⟨haction, he⟩ := Bool.and_eq_true_iff.mp hl
        rw [of_decide_eq_true he]
        exact (if_pos (of_decide_eq_true haction)).symm
      · cases hl
    · cases hl
  · cases hl

/-- The gate's targets lie behind it, and it asks about the build in front of it. -/
theorem grounded_pipeline : Grounded pipelineContext.graph := by
  have hgate : ∀ m ∈ pipelineContext.graph, m.kind = .conditional → m = gateNode := by
    intro m hm hkind
    simp only [pipelineContext, List.mem_cons, List.not_mem_nil, or_false] at hm
    rcases hm with rfl | rfl | rfl | rfl | rfl
    · cases hkind
    · rfl
    · cases hkind
    · cases hkind
    · cases hkind
  refine ⟨fun m hm hkind cond hcond n hn htarget => ?_, fun m hm ref href => ?_,
    fun m hm hkind cond hcond _ => ?_⟩
  · obtain rfl := hgate m hm hkind
    cases hcond
    refine .single ⟨n, hn, rfl, ?_⟩
    simp only [pipelineContext, List.mem_cons, List.not_mem_nil, or_false] at hn
    rcases hn with rfl | rfl | rfl | rfl | rfl <;> revert htarget <;> decide
  · simp only [pipelineContext, List.mem_cons, List.not_mem_nil, or_false] at hm
    rcases hm with rfl | rfl | rfl | rfl | rfl <;> cases href
  · obtain rfl := hgate m hm hkind
    cases hcond
    exact .single ⟨gateNode, hm, rfl, by decide⟩

theorem schedule_independent_pipeline : ∃ s, Run (step pipelineContext) (Obeys pipelineHandler)
      (.initial pipelineContext pipelineHandler.world) pipelineRun s ∧ s.drive = .resolved ∧
    EndsAs pipelineContext pipelineHandler
      (evaluate pipelineHandler pipelineContext.graph pipelineContext.graph) pipelineRun s ∧
    (pipelineContext.graph.map fun n =>
      (evaluate pipelineHandler pipelineContext.graph pipelineContext.graph n.id).status) =
        [.completed, .completed, .failed, .planned, .skipped] := by
  obtain ⟨s, hs, hd⟩ := Option.map_eq_some_iff.mp (show
    (exec (fun s l => if handledCheck s l then step pipelineContext s l else none)
      (.initial pipelineContext pipelineHandler.world) pipelineRun).map (·.drive) = some .resolved
        by rfl)
  have hrun := run_of_exec_check (c := handledCheck) obeys_of_handledCheck hs
  exact ⟨s, hrun, hd,
    schedule_independent (by rfl) noCollision_pipeline
      ⟨by decide, by decide, by decide, by decide⟩ (by decide) grounded_pipeline
      ⟨.refl _, by decide⟩ hrun, by rfl⟩

end AgentKernel.Orchestrator
