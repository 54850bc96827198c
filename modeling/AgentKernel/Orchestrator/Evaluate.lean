/-
  File:      AgentKernel/Orchestrator/Evaluate.lean
  Subject:   What a graph comes to when its nodes are evaluated one after the other, each behind its
             dependencies, by a handler whose answers are functions.

  This says what the executor is for and knows nothing of it: no queue, no workers, no attempts, no
  statuses on the way. A node has a `fate`, given the fates of the others; `evaluate` goes through
  the nodes in an order and writes each one's fate down.

  * `Grounded`: the targets of a conditional lie behind it, and what a node reads lies before it;
  * **`evaluate_eq`**: where the graph is grounded and the order topological, every node has the
    fate it has by the fates evaluated in the end;
  * `evaluate_order`: so all topological orders evaluate to the same, the layers of
    `topologicalLayers` among them (`ParallelSchedule.topological`).
-/
import AgentKernel.Orchestrator.Executor
import AgentKernel.Orchestrator.Layers

namespace AgentKernel.Orchestrator

/-! ## 1. The handler -/

/-- A handler whose answers are functions of what it is asked. -/
structure Handler where
  run : String → Option Json → WorkflowNode → RunOutcome
  approve : ApprovalRequest → Bool
  requiresApproval : String → Bool

/-- The hooks of an executor with this handler and without a failure guard. -/
def Handler.world (h : Handler) : World := ⟨h.requiresApproval, fun _ _ _ => none⟩

/-- The answer is the handler's; it does not reject an approval request, and no hook rejects. -/
def Replies (h : Handler) (f : Flight) : Answer → Prop
  | .tick | .timeout => True
  | .run outcome => ∀ action input call, f.pc = .calling action input call →
      outcome = h.run action input f.node
  | .approval granted => ∀ req, f.pc = .waiting req → granted = h.approve req
  | .hookFailed _ | .approvalRejected _ => False

/-! ## 2. One attempt -/

section Attempt

variable (h : Handler) (results : NodeId → Option NodeResult) (n : WorkflowNode)

/-- What an attempt comes to once the handler has answered: a result, and the nodes it skips. -/
def afterCall : RunOutcome → Option (NodeResult × List NodeId)
  | .rejected _ => none
  | .resolved r =>
      match n.kind, n.condition with
      | .conditional, some cond => some (conditionResult n cond r, unchosen cond (matchCondition cond r).1)
      | _, _ =>
          match r.status with
          | .failure => none
          | .success => some (r, [])

/-- What a call comes to, if it succeeds. -/
def callOutcome (action : String) : Option (NodeResult × List NodeId) :=
  match resolveInput results n with
  | .error _ => none
  | .ok input => afterCall n (h.run action input n)

/-- What an approved node comes to; one that only asks is done with that. -/
def grantedOutcome (action : String) : Option (NodeResult × List NodeId) :=
  match n.kind with
  | .approval => some (approvalResult n action, [])
  | _ => callOutcome h results n action

/-- What a node comes to that needs approval. -/
def approvalOutcome (action : String) : Option (NodeResult × List NodeId) :=
  if h.approve (approvalRequest n action) then grantedOutcome h results n action else none

/-- What an attempt comes to, by the results of other nodes; none when it throws. -/
def attemptOutcome : Option (NodeResult × List NodeId) :=
  match n.kind with
  | .conditional =>
      match n.condition with
      | none => none
      | some cond =>
          match truthy n.action with
          | some action => callOutcome h results n action
          | none => (results cond.condition.nodeId).map fun source =>
              (conditionResult n cond source, unchosen cond (matchCondition cond source).1)
  | .approval => approvalOutcome h results n (approvalAction n)
  | .action =>
      if h.requiresApproval (n.action.getD "") then approvalOutcome h results n (n.action.getD "")
      else callOutcome h results n (n.action.getD "")

end Attempt

/-! ## 3. Fates -/

/-- What becomes of a node. A completed one has a result, and has skipped nodes. -/
inductive Fate where
  | completed (result : NodeResult) (skips : List NodeId)
  | failed
  | skipped
  /-- it stays planned, behind a node that did not complete -/
  | stranded

namespace Fate

/-- The state a fate stands for. -/
def status : Fate → NodeStatus
  | .completed .. => .completed
  | .failed => .failed
  | .skipped => .skipped
  | .stranded => .planned

/-- The result, if there is one. -/
def result : Fate → Option NodeResult
  | .completed r _ => some r
  | _ => none

/-- The nodes that are passed over with it. -/
def skips : Fate → List NodeId
  | .completed _ ids => ids
  | _ => []

/-- Every attempt of a node comes to the same, so retries do not matter. -/
def ofOutcome : Option (NodeResult × List NodeId) → Fate
  | some (r, ids) => .completed r ids
  | none => .failed

theorem ofOutcome_ne (o : Option (NodeResult × List NodeId)) :
    ofOutcome o ≠ .skipped ∧ ofOutcome o ≠ .stranded := by
  cases o <;> exact ⟨nofun, nofun⟩

theorem ofOutcome_skips {o : Option (NodeResult × List NodeId)} {id : NodeId}
    (h : id ∈ (ofOutcome o).skips) : ∃ r ids, o = some (r, ids) ∧ id ∈ ids := by
  cases o with
  | none => cases h
  | some p => exact ⟨p.1, p.2, rfl, h⟩

end Fate

/-- A dependency is skipped, or a conditional skips the node. -/
def Passed (graph : List WorkflowNode) (fates : NodeId → Fate) (n : WorkflowNode) : Prop :=
  (∃ d ∈ n.deps, (fates d).status = .skipped) ∨ ∃ m ∈ graph, n.id ∈ (fates m.id).skips

instance (graph : List WorkflowNode) (fates : NodeId → Fate) (n : WorkflowNode) :
    Decidable (Passed graph fates n) :=
  inferInstanceAs (Decidable (_ ∨ _))

/-- The fate of a node, by the fates of the others. -/
def fate (h : Handler) (graph : List WorkflowNode) (fates : NodeId → Fate) (n : WorkflowNode) : Fate :=
  if Passed graph fates n then .skipped
  else if ∀ d ∈ n.deps, (fates d).status = .completed then
    .ofOutcome (attemptOutcome h (fun id => (fates id).result) n)
  else .stranded

/-- One node after the other. -/
def evaluateFrom (h : Handler) (graph : List WorkflowNode) (fates : NodeId → Fate)
    (order : List WorkflowNode) : NodeId → Fate :=
  order.foldl (fun fates n id => if id = n.id then fate h graph fates n else fates id) fates

/-- The fates of all nodes, in this order. -/
def evaluate (h : Handler) (graph order : List WorkflowNode) : NodeId → Fate :=
  evaluateFrom h graph (fun _ => .stranded) order

/-- The nodes of the graph, none before one of its dependencies. -/
structure Topological (graph order : List WorkflowNode) : Prop where
  perm : order.Perm graph
  sorted : order.Pairwise fun a b => b.id ∉ a.deps

/-- The targets of a conditional lie behind it, and what a node reads lies before it. -/
structure Grounded (graph : List WorkflowNode) : Prop where
  targets : ∀ m ∈ graph, m.kind = .conditional → ∀ cond, m.condition = some cond → ∀ n ∈ graph,
    n.id ∈ cond.thenNodes ∨ n.id ∈ cond.elseNodes.getD [] → DependsOn graph n.id m.id
  refs : ∀ n ∈ graph, ∀ ref, isInputRef n.input = some ref → DependsOn graph n.id ref.nodeId
  sources : ∀ n ∈ graph, n.kind = .conditional → ∀ cond, n.condition = some cond →
    truthy n.action = none → DependsOn graph n.id cond.condition.nodeId

/-! ## 4. Evaluation solves the equations of the fates -/

section Reads

variable {h : Handler} {results results' : NodeId → Option NodeResult} {n : WorkflowNode}

theorem resolveInput_congr
    (hr : ∀ ref, isInputRef n.input = some ref → results ref.nodeId = results' ref.nodeId) :
    resolveInput results n = resolveInput results' n := by
  unfold resolveInput
  split
  · rename_i ref href
    rw [hr ref href]
  · rfl

/-- An attempt reads the result its input refers to, and the one its condition is about. -/
theorem attemptOutcome_congr
    (hr : ∀ ref, isInputRef n.input = some ref → results ref.nodeId = results' ref.nodeId)
    (hs : n.kind = .conditional → ∀ cond, n.condition = some cond → truthy n.action = none →
      results cond.condition.nodeId = results' cond.condition.nodeId) :
    attemptOutcome h results n = attemptOutcome h results' n := by
  have hcall : ∀ action, callOutcome h results n action = callOutcome h results' n action := by
    intro action
    unfold callOutcome
    rw [resolveInput_congr hr]
  have happroval : ∀ action,
      approvalOutcome h results n action = approvalOutcome h results' n action := by
    intro action
    unfold approvalOutcome grantedOutcome
    rw [hcall]
  unfold attemptOutcome
  cases hkind : n.kind with
  | conditional =>
      cases hcond : n.condition with
      | none => rfl
      | some cond =>
          cases haction : truthy n.action with
          | some action => exact hcall action
          | none =>
              dsimp only
              rw [hs hkind cond hcond haction]
  | approval => exact happroval _
  | action => simp only [happroval, hcall]

theorem afterCall_skips {o : RunOutcome} {r : NodeResult} {ids : List NodeId}
    (ha : afterCall n o = some (r, ids)) (hne : ids ≠ []) :
    ∃ cond source, n.kind = .conditional ∧ n.condition = some cond ∧
      ids = unchosen cond (matchCondition cond source).1 := by
  unfold afterCall at ha
  split at ha
  · cases ha
  · rename_i r'
    split at ha
    · rename_i cond hkind hcond
      cases ha
      exact ⟨cond, r', hkind, hcond, rfl⟩
    · split at ha <;> cases ha
      exact absurd rfl hne

theorem callOutcome_skips {action : String} {r : NodeResult} {ids : List NodeId}
    (hc : callOutcome h results n action = some (r, ids)) (hne : ids ≠ []) :
    ∃ cond source, n.kind = .conditional ∧ n.condition = some cond ∧
      ids = unchosen cond (matchCondition cond source).1 := by
  unfold callOutcome at hc
  split at hc
  · cases hc
  · exact afterCall_skips hc hne

theorem approvalOutcome_skips {action : String} {r : NodeResult} {ids : List NodeId}
    (hc : approvalOutcome h results n action = some (r, ids)) (hne : ids ≠ []) :
    ∃ cond source, n.kind = .conditional ∧ n.condition = some cond ∧
      ids = unchosen cond (matchCondition cond source).1 := by
  unfold approvalOutcome grantedOutcome at hc
  split_ifs at hc
  split at hc
  · cases hc
    exact absurd rfl hne
  · exact callOutcome_skips hc hne

/-- **Only a conditional skips nodes**: those of the branch it has not chosen. -/
theorem attemptOutcome_skips {r : NodeResult} {ids : List NodeId}
    (ha : attemptOutcome h results n = some (r, ids)) (hne : ids ≠ []) :
    ∃ cond source, n.kind = .conditional ∧ n.condition = some cond ∧
      ids = unchosen cond (matchCondition cond source).1 := by
  unfold attemptOutcome at ha
  split at ha
  · rename_i hkind
    split at ha
    · cases ha
    · rename_i cond hcond
      split at ha
      · exact callOutcome_skips ha hne
      · obtain ⟨source, -, heq⟩ := Option.map_eq_some_iff.mp ha
        cases heq
        exact ⟨cond, source, hkind, hcond, rfl⟩
  · exact approvalOutcome_skips ha hne
  · split_ifs at ha
    · exact approvalOutcome_skips ha hne
    · exact callOutcome_skips ha hne

theorem mem_unchosen {cond : ConditionSpec} {b : Branch} {id : NodeId} (hm : id ∈ unchosen cond b) :
    id ∈ cond.thenNodes ∨ id ∈ cond.elseNodes.getD [] := by
  cases b with
  | thenBranch => exact .inr hm
  | elseBranch => exact .inl hm

end Reads

section Evaluation

variable {h : Handler} {graph order : List WorkflowNode} {fates fates' : NodeId → Fate}
  {n : WorkflowNode} {id : NodeId}

theorem fate_skips (hm : id ∈ (fate h graph fates n).skips) :
    ∃ cond, n.kind = .conditional ∧ n.condition = some cond ∧
      (id ∈ cond.thenNodes ∨ id ∈ cond.elseNodes.getD []) := by
  unfold fate at hm
  split_ifs at hm
  · cases hm
  · obtain ⟨r, ids, ho, hid⟩ := Fate.ofOutcome_skips hm
    obtain ⟨cond, source, hkind, hcond, rfl⟩ := attemptOutcome_skips ho (List.ne_nil_of_mem hid)
    exact ⟨cond, hkind, hcond, mem_unchosen hid⟩
  · cases hm

/-- The fate of a node is a matter of the nodes before it. -/
theorem fate_congr (hg : Grounded graph) (hn : n ∈ graph)
    (hbefore : ∀ id, DependsOn graph n.id id → fates' id = fates id)
    (hskips : (∃ m ∈ graph, n.id ∈ (fates' m.id).skips) ↔ ∃ m ∈ graph, n.id ∈ (fates m.id).skips) :
    fate h graph fates' n = fate h graph fates n := by
  have hdeps : ∀ d ∈ n.deps, fates' d = fates d := fun d hd => hbefore d (.single ⟨n, hn, rfl, hd⟩)
  have hpassed : Passed graph fates' n ↔ Passed graph fates n := by
    refine or_congr ⟨?_, ?_⟩ hskips
    · rintro ⟨d, hd, hs⟩
      exact ⟨d, hd, hdeps d hd ▸ hs⟩
    · rintro ⟨d, hd, hs⟩
      exact ⟨d, hd, by rw [hdeps d hd]; exact hs⟩
  have hcompleted : (∀ d ∈ n.deps, (fates' d).status = .completed) ↔
      ∀ d ∈ n.deps, (fates d).status = .completed :=
    forall₂_congr fun d hd => by rw [hdeps d hd]
  have hattempt : attemptOutcome h (fun id => (fates' id).result) n =
      attemptOutcome h (fun id => (fates id).result) n :=
    attemptOutcome_congr (fun ref href => congrArg Fate.result (hbefore _ (hg.refs n hn ref href)))
      fun hkind cond hcond haction =>
        congrArg Fate.result (hbefore _ (hg.sources n hn hkind cond hcond haction))
  unfold fate
  simp only [hpassed, hcompleted, hattempt]

theorem evaluateFrom_other (hid : id ∉ order.map (·.id)) :
    evaluateFrom h graph fates order id = fates id := by
  unfold evaluateFrom
  induction order generalizing fates with
  | nil => rfl
  | cons n rest ih =>
      rw [List.map_cons, List.mem_cons, not_or] at hid
      rw [List.foldl_cons, ih hid.2, if_neg hid.1]

theorem evaluateFrom_append (before after : List WorkflowNode) :
    evaluateFrom h graph fates (before ++ after) =
      evaluateFrom h graph (evaluateFrom h graph fates before) after := List.foldl_append

theorem Topological.nodup (ht : Topological graph order) (hnd : (graph.map (·.id)).Nodup) :
    (order.map (·.id)).Nodup := (ht.perm.map _).nodup_iff.mpr hnd

/-- What a node depends on comes before it. -/
theorem Topological.before (ht : Topological graph order) (hv : WellFormedGraph graph)
    {before after : List WorkflowNode} (ho : order = before ++ n :: after)
    (hd : DependsOn graph n.id id) : id ∈ before.map (·.id) := by
  subst ho
  -- the dependencies of what stands before `n`, and of `n` itself, stand before `n`
  have hclosed : ∀ m ∈ before ++ [n], ∀ d ∈ m.deps, d ∈ before.map (·.id) := by
    intro m hm d hdep
    have hmg : m ∈ graph := ht.perm.subset (by
      rw [List.append_cons]
      exact List.mem_append_left _ hm)
    obtain ⟨o, ho, rfl⟩ := hv.known m hmg d hdep
    have hself : o ≠ m := by
      rintro rfl
      exact hv.acyclic o.id (.single ⟨o, hmg, rfl, hdep⟩)
    have ho' := ht.perm.symm.subset ho
    rw [List.append_cons] at ho'
    obtain ⟨hsorted, -, hcross⟩ := List.pairwise_append.mp (by
      have hs := ht.sorted
      rwa [List.append_cons] at hs)
    rcases List.mem_append.mp ho' with ho' | ho'
    · rcases List.mem_append.mp ho' with ho' | ho'
      · exact List.mem_map_of_mem ho'
      · obtain rfl := List.mem_singleton.mp ho'
        rcases List.mem_append.mp hm with hm | hm
        · exact absurd hdep ((List.pairwise_append.mp hsorted).2.2 m hm _ (List.mem_singleton.mpr rfl))
        · exact absurd (List.mem_singleton.mp hm).symm hself
    · exact absurd hdep (hcross m hm o ho')
  have hnodup : ∀ m ∈ graph, m.id ∈ (before ++ [n]).map (·.id) → m ∈ before ++ [n] := by
    intro m hm hid
    obtain ⟨o, ho, hoid⟩ := List.mem_map.mp hid
    have hog : o ∈ graph := ht.perm.subset (by
      rw [List.append_cons]
      exact List.mem_append_left _ ho)
    rwa [eq_of_id_eq hv.distinct hog hm hoid] at ho
  have hstep : ∀ a b, a ∈ (before ++ [n]).map (·.id) → (∃ m ∈ graph, m.id = a ∧ b ∈ m.deps) →
      b ∈ before.map (·.id) := by
    rintro a b ha ⟨m, hm, rfl, hb⟩
    exact hclosed m (hnodup m hm ha) b hb
  induction hd with
  | single hedge => exact hstep _ _ (by simp) hedge
  | tail _ hedge ih => exact hstep _ _ (by rw [List.map_append]; exact List.mem_append_left _ ih) hedge

/-- Only the conditionals evaluated skip nodes, and only targets of theirs. -/
theorem evaluateFrom_skips {x : NodeId} (hm : id ∈ (evaluateFrom h graph fates order x).skips) :
    id ∈ (fates x).skips ∨ ∃ o ∈ order, o.id = x ∧ ∃ cond, o.kind = .conditional ∧
      o.condition = some cond ∧ (id ∈ cond.thenNodes ∨ id ∈ cond.elseNodes.getD []) := by
  induction order generalizing fates with
  | nil => exact .inl hm
  | cons n rest ih =>
      rcases ih hm with hm | ⟨o, ho, hrest⟩
      · dsimp only at hm
        split_ifs at hm with hid
        · exact .inr ⟨n, List.mem_cons_self, hid.symm, fate_skips hm⟩
        · exact .inl hm
      · exact .inr ⟨o, List.mem_cons_of_mem _ ho, hrest⟩

/-- **Every node has the fate it has by the fates evaluated in the end.** -/
theorem evaluate_eq (hv : WellFormedGraph graph) (hg : Grounded graph) (ht : Topological graph order)
    (hn : n ∈ graph) : evaluate h graph order n.id = fate h graph (evaluate h graph order) n := by
  have hnd := ht.nodup hv.distinct
  obtain ⟨before, after, ho⟩ := List.append_of_mem (ht.perm.symm.subset hn)
  have hids : order.map (·.id) = before.map (·.id) ++ n.id :: after.map (·.id) := by
    rw [ho, List.map_append, List.map_cons]
  rw [hids] at hnd
  obtain ⟨hbefore, hcons, hdisj⟩ := List.nodup_append.mp hnd
  have hlater : ∀ id, id ∈ before.map (·.id) → id ∉ (n :: after).map (·.id) := fun id hid hid' =>
    hdisj id hid id hid' rfl
  -- what the nodes before `n` come to stays
  have hkept : ∀ id, id ∈ before.map (·.id) → evaluate h graph order id =
      evaluateFrom h graph (fun _ => .stranded) before id := by
    intro id hid
    unfold evaluate
    rw [ho, evaluateFrom_append, evaluateFrom_other (hlater id hid)]
  have hvalue : evaluate h graph order n.id =
      fate h graph (evaluateFrom h graph (fun _ => .stranded) before) n := by
    unfold evaluate
    rw [ho, evaluateFrom_append]
    exact (evaluateFrom_other (List.nodup_cons.mp hcons).1).trans (if_pos rfl)
  rw [hvalue]
  refine (fate_congr hg hn (fun id hd => hkept id (ht.before hv ho hd)) ⟨?_, ?_⟩).symm
  · rintro ⟨m, hm, hid⟩
    obtain ⟨o, hoo, hoid, cond, hkind, hcond, htarget⟩ :=
      (evaluateFrom_skips hid).resolve_left List.not_mem_nil
    have hog := ht.perm.subset hoo
    obtain rfl := eq_of_id_eq hv.distinct hog hm hoid
    have hbef := ht.before hv ho (hg.targets o hog hkind cond hcond n hn htarget)
    exact ⟨o, hog, by rw [← hkept _ hbef]; exact hid⟩
  · rintro ⟨m, hm, hid⟩
    refine ⟨m, hm, ?_⟩
    obtain ⟨o, hoo, hoid, -⟩ := (evaluateFrom_skips hid).resolve_left List.not_mem_nil
    rw [hkept m.id (hoid ▸ List.mem_map_of_mem hoo)]
    exact hid

/-- Nothing becomes of what is no node. -/
theorem evaluate_other (ht : Topological graph order) (hid : id ∉ graph.map (·.id)) :
    evaluate h graph order id = .stranded :=
  evaluateFrom_other fun hm => hid ((ht.perm.map _).subset hm)

/-- **Topological orders evaluate to the same.** -/
theorem evaluate_order {order' : List WorkflowNode} (hv : validateGraph graph = .ok ())
    (hg : Grounded graph) (ht : Topological graph order) (ht' : Topological graph order') :
    evaluate h graph order = evaluate h graph order' := by
  have hw := validateGraph_iff.mp hv
  obtain ⟨rank, hrank⟩ := validateGraph_rank hv
  -- whoever skips `n` lies before it
  have hskips : ∀ {o : List WorkflowNode}, Topological graph o → ∀ n ∈ graph, ∀ m ∈ graph,
      n.id ∈ (evaluate h graph o m.id).skips → DependsOn graph n.id m.id := by
    intro o ho n hn m hm hid
    rw [evaluate_eq hw hg ho hm] at hid
    obtain ⟨cond, hkind, hcond, htarget⟩ := fate_skips hid
    exact hg.targets m hm hkind cond hcond n hn htarget
  have hsame : ∀ k, ∀ id, rank id = k → evaluate h graph order id = evaluate h graph order' id := by
    intro k
    induction k using Nat.strong_induction_on with
    | h k ih =>
        rintro id rfl
        by_cases hid : id ∈ graph.map (·.id)
        · obtain ⟨n, hn, rfl⟩ := List.mem_map.mp hid
          have hbefore : ∀ id, DependsOn graph n.id id →
              evaluate h graph order id = evaluate h graph order' id :=
            fun id hd => ih _ (dependsOn_rank hrank hd) id rfl
          rw [evaluate_eq hw hg ht hn, evaluate_eq hw hg ht' hn]
          refine fate_congr hg hn hbefore ⟨?_, ?_⟩
          · rintro ⟨m, hm, hs⟩
            exact ⟨m, hm, by rwa [← hbefore _ (hskips ht n hn m hm hs)]⟩
          · rintro ⟨m, hm, hs⟩
            exact ⟨m, hm, by rwa [hbefore _ (hskips ht' n hn m hm hs)]⟩
        · rw [evaluate_other ht hid, evaluate_other ht' hid]
  funext id
  exact hsame _ id rfl

/-- A schedule of layers is a topological order. -/
theorem ParallelSchedule.topological {layers : List (List WorkflowNode)} (hw : WellFormedGraph graph)
    (hs : ParallelSchedule graph layers) : Topological graph layers.flatten where
  perm := hs.once
  sorted := by
    have hnd : (layers.flatten.map (·.id)).Nodup := (hs.once.map _).nodup_iff.mpr hw.distinct
    rw [List.map_flatten] at hnd
    have hapart := List.pairwise_iff_getElem.mp (List.nodup_flatten.mp hnd).2
    -- a dependency of layer `k` stands in a layer before it, hence in no other
    have hlater : ∀ (k k' : Nat) (hk : k < layers.length) (hk' : k' < layers.length), k ≤ k' →
        ∀ a ∈ layers[k], ∀ b ∈ layers[k'], b.id ∉ a.deps := by
      intro k k' hk hk' hle a ha b hb hdep
      obtain ⟨j, hj, before, hbefore, m, hm, hid⟩ :=
        hs.earlier k _ (List.getElem?_eq_getElem hk) a ha b.id hdep
      obtain ⟨hjl, rfl⟩ := List.getElem?_eq_some_iff.mp hbefore
      have hdis := hapart j k' (by simpa using hjl) (by simpa using hk') (by omega)
      rw [List.getElem_map, List.getElem_map] at hdis
      exact hdis (List.mem_map_of_mem hm) (hid ▸ List.mem_map_of_mem hb)
    refine List.pairwise_flatten.mpr ⟨fun layer hl => ?_, List.pairwise_iff_getElem.mpr ?_⟩
    · obtain ⟨k, hk, rfl⟩ := List.getElem_of_mem hl
      exact List.pairwise_of_forall_mem_list (hlater k k hk hk (Nat.le_refl k))
    · exact fun i j hi hj hij => hlater i j hi hj hij.le

end Evaluation

end AgentKernel.Orchestrator
