/-
  File:      AgentKernel/Orchestrator/Cycles.lean
  Subject:   The validation of a graph is exact (runtime/orchestrator/src/dag.ts, and the kernel's
             copy in kernel/transition/src/dag.ts).

  The marks of the search outlive the visit that made them, so what a visit does depends on all
  visits before it. Two facts about the marks are enough:

  * a visit nests on unmarked nodes only, and every nested visit marks one more (`visit_fuel`);
  * every node that is being visited leads to the one visited now, so meeting one of them again
    closes a cycle (`visit_no_cycle`). That no cycle is missed is the finishing order
    (`validateGraph_rank`);
  * the kernel's search on the same ids and dependencies takes the same steps (`visit_copy`).

  **`validateGraph_exact`**: both functions accept exactly the graphs with distinct ids, known
  dependencies and no cycle, and no search runs out of fuel.
-/
import AgentKernel.Lib.Lists
import AgentKernel.Orchestrator.Dag
import AgentKernel.Transition.Dag

namespace AgentKernel.Orchestrator

open Lib

section Search

variable {graph : List WorkflowNode} {m m' : Marks} {id : NodeId}

/-! ## 1. Marks -/

/-- Marks after a visit that met no cycle: the nodes being visited are the same, and no visited
    node has lost its mark. -/
def Grown (m m' : Marks) : Prop := m'.visiting = m.visiting ∧ m.visited ⊆ m'.visited

theorem Grown.trans {m₁ m₂ m₃ : Marks} (h : Grown m₁ m₂) (h' : Grown m₂ m₃) : Grown m₁ m₃ :=
  ⟨h'.1.trans h.1, fun _ hx => h'.2 (h.2 hx)⟩

theorem visitDeps_grown {f : Marks → NodeId → Visit}
    (hf : ∀ m id m', f m id = .clear m' → Grown m m') :
    ∀ {ids : List NodeId} {m m' : Marks}, visitDeps f m ids = .clear m' → Grown m m'
  | [], m, m', h => by
      cases h
      exact ⟨rfl, List.Subset.refl _⟩
  | id :: ids, m, m', h => by
      simp only [visitDeps] at h
      split at h
      · rename_i m₁ h₁
        exact (hf _ _ _ h₁).trans (visitDeps_grown hf h)
      · rename_i hother
        exact absurd h (hother m')

theorem visit_grown : ∀ {fuel : Nat} {m : Marks} {id : NodeId} {m' : Marks},
    visit graph fuel m id = .clear m' → Grown m m'
  | 0, _, _, _, h => by simp [visit] at h
  | fuel + 1, m, id, m', h => by
      simp only [visit] at h
      split at h
      · cases h
        exact ⟨rfl, List.Subset.refl _⟩
      · split at h
        · cases h
        · split at h
          · rename_i m₁ h₁
            cases h
            obtain ⟨-, hsub⟩ := visitDeps_grown (fun _ _ _ => visit_grown) h₁
            exact ⟨rfl, fun x hx => List.mem_cons_of_mem _ (hsub hx)⟩
          · rename_i hother
            exact absurd h (hother m')

/-- A visit of an unmarked node goes on to its dependencies. -/
theorem visit_unmarked {fuel : Nat} (hv : id ∉ m.visited) (hg : id ∉ m.visiting) :
    visit graph (fuel + 1) m id =
      match visitDeps (visit graph fuel) { m with visiting := id :: m.visiting }
        (((nodeById graph id).map (·.deps)).getD []) with
      | .clear m' => .clear { m with visited := id :: m'.visited }
      | other => other :=
  (if_neg hv).trans (if_neg hg)

/-! ## 2. Fuel -/

/-- How many nodes carry no mark. -/
def unmarked (graph : List WorkflowNode) (m : Marks) : Nat :=
  graph.countP fun n => n.id ∉ m.visited ∧ n.id ∉ m.visiting

theorem Grown.unmarked_le (h : Grown m m') : unmarked graph m' ≤ unmarked graph m := by
  refine List.countP_mono_left fun n _ hn => ?_
  obtain ⟨hvisited, hvisiting⟩ := of_decide_eq_true hn
  rw [h.1] at hvisiting
  exact decide_eq_true ⟨fun hin => hvisited (h.2 hin), hvisiting⟩

/-- Entering a node of the graph leaves fewer unmarked ones. -/
theorem unmarked_enter {n : WorkflowNode} (hn : nodeById graph id = some n)
    (hv : id ∉ m.visited) (hg : id ∉ m.visiting) :
    unmarked graph { m with visiting := id :: m.visiting } < unmarked graph m := by
  obtain ⟨hmem, rfl⟩ := mem_of_nodeById hn
  refine countP_lt (fun x _ hx => ?_) ⟨n, hmem, decide_eq_true ⟨hv, hg⟩, ?_⟩
  · obtain ⟨hvisited, hvisiting⟩ := of_decide_eq_true hx
    exact decide_eq_true ⟨hvisited, fun hin => hvisiting (List.mem_cons_of_mem _ hin)⟩
  · exact decide_eq_false fun h => h.2 List.mem_cons_self

theorem visitDeps_fuel {fuel : Nat}
    (hvisit : ∀ m id, unmarked graph m + 2 ≤ fuel → visit graph fuel m id ≠ .outOfFuel) :
    ∀ {ids : List NodeId} {m : Marks}, unmarked graph m + 2 ≤ fuel →
      visitDeps (visit graph fuel) m ids ≠ .outOfFuel
  | [], m, _ => nofun
  | id :: ids, m, hle => by
      unfold visitDeps
      split
      · rename_i m₁ h₁
        have hgrown : unmarked graph m₁ ≤ unmarked graph m := (visit_grown h₁).unmarked_le
        exact visitDeps_fuel hvisit (by omega)
      · exact hvisit m id hle

/-- **A search with fuel for every unmarked node does not run out of it.** -/
theorem visit_fuel : ∀ (fuel : Nat) (m : Marks) (id : NodeId), unmarked graph m + 2 ≤ fuel →
    visit graph fuel m id ≠ .outOfFuel
  | 0, _, _, hle => by omega
  | fuel + 1, m, id, hle => by
      by_cases hv : id ∈ m.visited
      · rw [visit, if_pos hv]
        simp
      by_cases hg : id ∈ m.visiting
      · rw [visit, if_neg hv, if_pos hg]
        simp
      rw [visit_unmarked hv hg]
      have hdeps : visitDeps (visit graph fuel) { m with visiting := id :: m.visiting }
          (((nodeById graph id).map (·.deps)).getD []) ≠ .outOfFuel := by
        cases hn : nodeById graph id with
        | none => simp [visitDeps]
        | some n =>
            have hlt := unmarked_enter hn hv hg
            exact visitDeps_fuel (visit_fuel fuel) (by omega)
      split
      · simp
      · exact hdeps

theorem detectCycle_fuel (graph : List WorkflowNode) : detectCycle graph ≠ .outOfFuel := by
  refine visitDeps_fuel (visit_fuel _) ?_
  have hle : unmarked graph ⟨[], []⟩ ≤ graph.length := List.countP_le_length
  omega

/-! ## 3. Cycles -/

theorem dependsOn_of_nodeById {n : WorkflowNode} (hn : nodeById graph id = some n) {d : NodeId}
    (hd : d ∈ n.deps) : DependsOn graph id d := by
  obtain ⟨hmem, hid⟩ := mem_of_nodeById hn
  exact .single ⟨n, hmem, hid, hd⟩

theorem visitDeps_no_cycle {f : Marks → NodeId → Visit} {ids : List NodeId}
    (hgrown : ∀ m id m', f m id = .clear m' → Grown m m') :
    ∀ {m : Marks}, (∀ d ∈ ids, ∀ m', m'.visiting = m.visiting → f m' d ≠ .cycle) →
      visitDeps f m ids ≠ .cycle := by
  induction ids with
  | nil => exact fun _ => nofun
  | cons id ids ih =>
      intro m hf
      unfold visitDeps
      split
      · rename_i m₁ h₁
        have hsame : m₁.visiting = m.visiting := (hgrown m id m₁ h₁).1
        refine ih fun d hd m' hm' => ?_
        exact hf d (List.mem_cons_of_mem _ hd) m' (hm'.trans hsame)
      · exact hf id List.mem_cons_self m rfl

/-- **In a graph without cycles no visit meets one**: all nodes being visited lead to this one. -/
theorem visit_no_cycle (hacyclic : ∀ id, ¬ DependsOn graph id id) :
    ∀ (fuel : Nat) (m : Marks) (id : NodeId), (∀ v ∈ m.visiting, DependsOn graph v id) →
      visit graph fuel m id ≠ .cycle
  | 0, _, _, _ => by simp [visit]
  | fuel + 1, m, id, hleads => by
      by_cases hv : id ∈ m.visited
      · rw [visit, if_pos hv]
        simp
      have hg : id ∉ m.visiting := fun hin => hacyclic id (hleads id hin)
      rw [visit_unmarked hv hg]
      have hdeps : visitDeps (visit graph fuel) { m with visiting := id :: m.visiting }
          (((nodeById graph id).map (·.deps)).getD []) ≠ .cycle := by
        cases hn : nodeById graph id with
        | none => simp [visitDeps]
        | some n =>
            refine visitDeps_no_cycle (fun _ _ _ => visit_grown) fun d hd m' hm' => ?_
            have hstep : DependsOn graph id d := dependsOn_of_nodeById hn hd
            refine visit_no_cycle hacyclic fuel m' d fun v hvisiting => ?_
            rw [hm'] at hvisiting
            rcases List.mem_cons.mp hvisiting with rfl | hvisiting
            · exact hstep
            · exact (hleads v hvisiting).trans hstep
      split
      · simp
      · exact hdeps

theorem detectCycle_clear (hacyclic : ∀ id, ¬ DependsOn graph id id) :
    ∃ m, detectCycle graph = .clear m := by
  cases hsearch : detectCycle graph with
  | cycle =>
      refine absurd hsearch (visitDeps_no_cycle (fun _ _ _ => visit_grown) fun d _ m' hm' => ?_)
      refine visit_no_cycle hacyclic _ m' d fun v hv => ?_
      rw [hm'] at hv
      cases hv
  | outOfFuel => exact absurd hsearch (detectCycle_fuel graph)
  | clear m => exact ⟨m, rfl⟩

/-! ## 4. What is accepted -/

/-- Distinct ids, known dependencies and no cycle. -/
structure WellFormedGraph (graph : List WorkflowNode) : Prop where
  distinct : (graph.map (·.id)).Nodup
  known : ∀ n ∈ graph, ∀ d ∈ n.deps, ∃ m ∈ graph, m.id = d
  acyclic : ∀ id, ¬ DependsOn graph id id

theorem dependsOn_rank {rank : NodeId → Nat} (hrank : ∀ n ∈ graph, ∀ d ∈ n.deps, rank d < rank n.id)
    {a b : NodeId} (h : DependsOn graph a b) : rank b < rank a := by
  induction h with
  | single hab =>
      obtain ⟨n, hn, rfl, hd⟩ := hab
      exact hrank n hn _ hd
  | tail _ hbc ih =>
      obtain ⟨n, hn, rfl, hd⟩ := hbc
      exact (hrank n hn _ hd).trans ih

theorem unknownDependency_none (h : ∀ n ∈ graph, ∀ d ∈ n.deps, ∃ m ∈ graph, m.id = d) :
    unknownDependency graph = none := by
  refine List.findSome?_eq_none_iff.mpr fun n hn => ?_
  rw [Option.map_eq_none_iff, List.find?_eq_none]
  intro d hd
  obtain ⟨m, hm, rfl⟩ := h n hn d hd
  have hin : m.id ∈ graph.map (·.id) := List.mem_map_of_mem hm
  simpa using hin

/-- **Validation is exact.** -/
theorem validateGraph_iff : validateGraph graph = .ok () ↔ WellFormedGraph graph := by
  constructor
  · intro h
    obtain ⟨rank, hrank⟩ := validateGraph_rank h
    refine ⟨validateGraph_nodup h, fun n hn d hd => ?_,
      fun id hcycle => Nat.lt_irrefl _ (dependsOn_rank hrank hcycle)⟩
    exact List.mem_map.mp (validateGraph_deps h n hn d hd)
  · rintro ⟨hdistinct, hknown, hacyclic⟩
    obtain ⟨m, hm⟩ := detectCycle_clear hacyclic
    unfold validateGraph
    rw [if_neg (not_not.mpr hdistinct), unknownDependency_none hknown, hm]

end Search

/-! ## 5. The kernel's copy -/

/-- What the kernel's functions read of a node. -/
def WorkflowNode.plan (n : WorkflowNode) : Transition.PlanNode := ⟨n.id, n.deps⟩

/-- A workflow node that reads as the given plan node. -/
def ofPlan (n : Transition.PlanNode) : WorkflowNode :=
  { id := n.id, kind := .action, deps := n.deps }

/-- The marks, as the copy of the search in transition has them. -/
def Marks.copy (m : Marks) : Transition.Marks := ⟨m.visiting, m.visited⟩

/-- What the copy comes to. -/
def Visit.copy : Visit → Transition.Visit
  | .cycle => .cycle
  | .outOfFuel => .outOfFuel
  | .clear m => .clear m.copy

/-- The same error of the copy. -/
def DagError.copy : DagError → Transition.DagError
  | .duplicateIds => .duplicateIds
  | .unknownDependency node dep => .unknownDependency node dep
  | .cycle => .cycle
  | .outOfFuel => .outOfFuel

section Copy

variable {graph : List WorkflowNode}

theorem map_plan_ofPlan (nodes : List Transition.PlanNode) :
    (nodes.map ofPlan).map WorkflowNode.plan = nodes := by
  rw [List.map_map]
  exact List.map_id nodes

theorem map_plan_id (graph : List WorkflowNode) :
    (graph.map WorkflowNode.plan).map (·.id) = graph.map (·.id) := by
  rw [List.map_map]
  rfl

theorem find_copy (graph : List WorkflowNode) (id : NodeId) :
    ((graph.map WorkflowNode.plan).find? fun n => n.id == id).map (·.deps) =
      (nodeById graph id).map (·.deps) := by
  unfold nodeById
  rw [List.find?_map, Option.map_map]
  rfl

theorem visitDeps_copy {f : Marks → NodeId → Visit}
    {g : Transition.Marks → String → Transition.Visit}
    (hfg : ∀ m id, g m.copy id = (f m id).copy) : ∀ (ids : List NodeId) (m : Marks),
    Transition.visitDeps g m.copy ids = (visitDeps f m ids).copy
  | [], m => rfl
  | id :: ids, m => by
      unfold Transition.visitDeps visitDeps
      rw [hfg]
      cases f m id with
      | cycle => rfl
      | outOfFuel => rfl
      | clear m' => exact visitDeps_copy hfg ids m'

/-- **The kernel's search takes the same steps.** -/
theorem visit_copy : ∀ (fuel : Nat) (m : Marks) (id : NodeId),
    Transition.visit (graph.map WorkflowNode.plan) fuel m.copy id = (visit graph fuel m id).copy
  | 0, _, _ => rfl
  | fuel + 1, m, id => by
      by_cases hv : id ∈ m.visited
      · have hv' : id ∈ m.copy.visited := hv
        rw [Transition.visit, if_pos hv', visit, if_pos hv]
        rfl
      by_cases hg : id ∈ m.visiting
      · have hv' : id ∉ m.copy.visited := hv
        have hg' : id ∈ m.copy.visiting := hg
        rw [Transition.visit, if_neg hv', if_pos hg', visit, if_neg hv, if_pos hg]
        rfl
      rw [visit_unmarked hv hg]
      have hv' : id ∉ m.copy.visited := hv
      have hg' : id ∉ m.copy.visiting := hg
      simp only [Transition.visit, if_neg hv', if_neg hg', find_copy]
      have hdeps := visitDeps_copy (visit_copy fuel)
        (((nodeById graph id).map (·.deps)).getD []) { m with visiting := id :: m.visiting }
      have hcopy : Marks.copy { m with visiting := id :: m.visiting } =
          { m.copy with visiting := id :: m.copy.visiting } := rfl
      rw [hcopy] at hdeps
      rw [hdeps]
      cases visitDeps (visit graph fuel) { m with visiting := id :: m.visiting }
        (((nodeById graph id).map (·.deps)).getD []) with
      | cycle => rfl
      | outOfFuel => rfl
      | clear m' => rfl

theorem detectCycle_copy (graph : List WorkflowNode) :
    Transition.detectCycle (graph.map WorkflowNode.plan) = (detectCycle graph).copy := by
  unfold Transition.detectCycle detectCycle
  rw [map_plan_id, List.length_map]
  exact visitDeps_copy (visit_copy _) _ ⟨[], []⟩

theorem unknownDependency_copy (graph : List WorkflowNode) :
    Transition.unknownDependency (graph.map WorkflowNode.plan) = unknownDependency graph := by
  unfold Transition.unknownDependency unknownDependency
  rw [map_plan_id, List.findSome?_map]
  rfl

/-- **The kernel's validation answers the same**, errors included. -/
theorem validateDag_copy (graph : List WorkflowNode) :
    Transition.validateDag (graph.map WorkflowNode.plan) =
      (validateGraph graph).mapError DagError.copy := by
  unfold Transition.validateDag validateGraph
  rw [map_plan_id, unknownDependency_copy, detectCycle_copy]
  by_cases hnodup : (graph.map (·.id)).Nodup
  · rw [if_neg (not_not.mpr hnodup), if_neg (not_not.mpr hnodup)]
    cases unknownDependency graph with
    | some e => rfl
    | none => cases detectCycle graph <;> rfl
  · rw [if_pos hnodup, if_pos hnodup]
    rfl

theorem mapError_ok {ε ε' α : Type} {f : ε → ε'} {x : Except ε α} {a : α} :
    x.mapError f = .ok a ↔ x = .ok a := by
  cases x <;> simp [Except.mapError]

/-- **Validation is exact, terminates on every input, and both copies agree.** -/
theorem validateGraph_exact (graph : List WorkflowNode) :
    (validateGraph graph = .ok () ↔
      (graph.map (·.id)).Nodup ∧ (∀ n ∈ graph, ∀ d ∈ n.deps, ∃ m ∈ graph, m.id = d) ∧
        ∀ id, ¬ DependsOn graph id id) ∧
    detectCycle graph ≠ .outOfFuel ∧
    ∀ nodes : List Transition.PlanNode,
      (nodes = graph.map WorkflowNode.plan →
        (Transition.validateDag nodes = .ok () ↔ validateGraph graph = .ok ())) ∧
      (Transition.validateDag nodes = .ok () ↔ WellFormedGraph (nodes.map ofPlan)) ∧
      Transition.detectCycle nodes ≠ .outOfFuel := by
  have hwell : WellFormedGraph graph ↔ (graph.map (·.id)).Nodup ∧
      (∀ n ∈ graph, ∀ d ∈ n.deps, ∃ m ∈ graph, m.id = d) ∧ ∀ id, ¬ DependsOn graph id id :=
    ⟨fun ⟨hdistinct, hknown, hacyclic⟩ => ⟨hdistinct, hknown, hacyclic⟩,
      fun ⟨hdistinct, hknown, hacyclic⟩ => ⟨hdistinct, hknown, hacyclic⟩⟩
  refine ⟨validateGraph_iff.trans hwell, detectCycle_fuel graph, fun nodes => ⟨?_, ?_, ?_⟩⟩
  · rintro rfl
    rw [validateDag_copy]
    exact mapError_ok
  · conv_lhs => rw [← map_plan_ofPlan nodes]
    rw [validateDag_copy, mapError_ok]
    exact validateGraph_iff
  · rw [← map_plan_ofPlan nodes, detectCycle_copy]
    have hfuel := detectCycle_fuel (nodes.map ofPlan)
    intro h
    cases hsearch : detectCycle (nodes.map ofPlan) with
    | cycle =>
        rw [hsearch] at h
        cases h
    | outOfFuel => exact hfuel hsearch
    | clear m =>
        rw [hsearch] at h
        cases h

end Copy

end AgentKernel.Orchestrator
