/-
  File:      AgentKernel/Orchestrator/Layers.lean
  Subject:   The layers of a graph for parallel scheduling (runtime/orchestrator/src/dag.ts, and the
             kernel's copy in kernel/transition/src/dag.ts).

  A round takes the nodes whose dependencies are all in earlier rounds.

  * `Round k`: before round `k` the satisfied nodes are those whose longest chain is shorter than
    `k`, and every other has a chain of `k` steps; `Round.next` is the step, and that a round takes
    somebody is the rank of the accepted graph (`Round.layer_ne_nil`);
  * **`topologicalLayers_schedule`**: the layers of an accepted graph are a schedule, layer `k` is
    the nodes whose longest chain has `k` steps, no schedule has fewer layers, and the kernel's
    copy has the same.
-/
import AgentKernel.Lib.Chains
import AgentKernel.Orchestrator.Cycles

namespace AgentKernel.Orchestrator

open Lib

/-! ## 1. The rounds -/

/-- Why there are no layers. -/
inductive LayersError where
  | invalid (error : DagError)
  | unreachable
  | outOfFuel
  deriving DecidableEq

/-- The nodes that go next: all their dependencies are satisfied. -/
def nextLayer (remaining : List WorkflowNode) (satisfied : List NodeId) : List WorkflowNode :=
  remaining.filter fun n => n.deps.all satisfied.contains

/-- The nodes that are left after a layer. -/
def without (remaining layer : List WorkflowNode) : List WorkflowNode :=
  remaining.filter fun n => !(layer.map (·.id)).contains n.id

/-- The loop of `topologicalLayers`; each round takes a node at least. -/
def layersFrom : Nat → List WorkflowNode → List NodeId →
    Except LayersError (List (List WorkflowNode))
  | _, [], _ => .ok []
  | 0, _ :: _, _ => .error .outOfFuel
  | fuel + 1, n :: rest, satisfied =>
      let layer := nextLayer (n :: rest) satisfied
      if layer.isEmpty then .error .unreachable
      else
        (layersFrom fuel (without (n :: rest) layer) (satisfied ++ layer.map (·.id))).map
          (layer :: ·)

/-- Layer by layer, each behind the ones it depends on. -/
def topologicalLayers (graph : List WorkflowNode) :
    Except LayersError (List (List WorkflowNode)) :=
  match validateGraph graph with
  | .error error => .error (.invalid error)
  | .ok () => layersFrom graph.length graph []

/-- `a` has `b` among its dependencies. -/
def DirectDep (graph : List WorkflowNode) (a b : NodeId) : Prop :=
  ∃ n ∈ graph, n.id = a ∧ b ∈ n.deps

/-- Layers that hold every node once, each after its dependencies. -/
structure ParallelSchedule (graph : List WorkflowNode) (layers : List (List WorkflowNode)) :
    Prop where
  once : layers.flatten.Perm graph
  earlier : ∀ (k : Nat) (layer : List WorkflowNode), layers[k]? = some layer →
    ∀ n ∈ layer, ∀ d ∈ n.deps,
      ∃ j < k, ∃ layer' : List WorkflowNode, layers[j]? = some layer' ∧ ∃ m ∈ layer', m.id = d

/-! ## 2. One round -/

/-- Where the loop stands before round `k`. -/
structure Round (graph : List WorkflowNode) (k : Nat) (remaining : List WorkflowNode)
    (satisfied : List NodeId) : Prop where
  rest : remaining = graph.filter fun n => !satisfied.contains n.id
  done : ∀ n ∈ graph, n.id ∈ satisfied → ∃ j < k, Longest (DirectDep graph) j n.id
  left : ∀ n ∈ graph, n.id ∉ satisfied → Chain (DirectDep graph) k n.id

section Rounds

variable {graph remaining layer : List WorkflowNode} {satisfied : List NodeId} {k : Nat}
  {n : WorkflowNode}

theorem round_start : Round graph 0 graph [] where
  rest := (List.filter_eq_self.mpr fun _ _ => rfl).symm
  done _ _ hin := absurd hin List.not_mem_nil
  left n _ _ := .here n.id

theorem mem_nextLayer : n ∈ nextLayer remaining satisfied ↔
    n ∈ remaining ∧ ∀ d ∈ n.deps, d ∈ satisfied := by
  simp [nextLayer]

theorem Round.mem_remaining (h : Round graph k remaining satisfied) :
    n ∈ remaining ↔ n ∈ graph ∧ n.id ∉ satisfied := by
  rw [h.rest, List.mem_filter]
  simp

/-- The dependency relation steps along the node of an id. -/
theorem directDep_iff (hg : WellFormedGraph graph) (hn : n ∈ graph) {d : NodeId} :
    DirectDep graph n.id d ↔ d ∈ n.deps := by
  refine ⟨?_, fun hd => ⟨n, hn, rfl, hd⟩⟩
  rintro ⟨m, hm, hid, hd⟩
  rwa [eq_of_id_eq hg.distinct hm hn hid] at hd

/-- **Layer `k`** is the nodes whose longest chain has `k` steps. -/
theorem Round.longest_iff (h : Round graph k remaining satisfied) (hg : WellFormedGraph graph) :
    n ∈ nextLayer remaining satisfied ↔ n ∈ graph ∧ Longest (DirectDep graph) k n.id := by
  rw [mem_nextLayer, h.mem_remaining]
  constructor
  · rintro ⟨⟨hn, hleft⟩, hdeps⟩
    refine ⟨hn, longest_of_steps (h.left n hn hleft) fun d hd => ?_⟩
    have hd' := (directDep_iff hg hn).mp hd
    obtain ⟨m, hm, rfl⟩ := hg.known n hn d hd'
    exact h.done m hm (hdeps _ hd')
  · rintro ⟨hn, hlongest⟩
    refine ⟨⟨hn, fun hin => ?_⟩, fun d hd => ?_⟩
    · obtain ⟨j, hj, hlongest'⟩ := h.done n hn hin
      exact absurd (hlongest'.unique hlongest) hj.ne
    · -- a dependency that is left would make the chain longer
      obtain ⟨m, hm, rfl⟩ := hg.known n hn d hd
      refine Classical.byContradiction fun hleft => ?_
      have hlonger := hlongest.le _ (.step ((directDep_iff hg hn).mpr hd) (h.left m hm hleft))
      omega

/-- A layer takes away just its own nodes. -/
theorem Round.without_eq (h : Round graph k remaining satisfied) (hg : WellFormedGraph graph) :
    without remaining (nextLayer remaining satisfied) =
      remaining.filter fun n => !(n.deps.all satisfied.contains) := by
  refine List.filter_congr fun n hn => congrArg _ ?_
  have hmem : n.id ∈ (nextLayer remaining satisfied).map (·.id) ↔
      n ∈ nextLayer remaining satisfied := by
    refine ⟨fun hin => ?_, fun hin => List.mem_map_of_mem hin⟩
    obtain ⟨m, hm, hid⟩ := List.mem_map.mp hin
    have hm' : m ∈ graph := (h.mem_remaining.mp (mem_nextLayer.mp hm).1).1
    rwa [eq_of_id_eq hg.distinct hm' (h.mem_remaining.mp hn).1 hid] at hm
  rw [Bool.eq_iff_iff, List.contains_iff_mem, hmem, nextLayer, List.mem_filter]
  exact and_iff_right hn

/-- **The step lemma**: what a round leaves to the next. -/
theorem Round.next (h : Round graph k remaining satisfied) (hg : WellFormedGraph graph) :
    Round graph (k + 1) (without remaining (nextLayer remaining satisfied))
      (satisfied ++ (nextLayer remaining satisfied).map (·.id)) := by
  refine ⟨?_, fun n hn hin => ?_, fun n hn hleft => ?_⟩
  · rw [without, h.rest, List.filter_filter]
    refine List.filter_congr fun n _ => ?_
    simp [Bool.and_comm]
  · rcases List.mem_append.mp hin with hin | hin
    · obtain ⟨j, hj, hlongest⟩ := h.done n hn hin
      exact ⟨j, Nat.lt_succ_of_lt hj, hlongest⟩
    · obtain ⟨m, hm, hid⟩ := List.mem_map.mp hin
      obtain ⟨hm', hlongest⟩ := (h.longest_iff hg).mp hm
      rw [hid] at hlongest
      exact ⟨k, Nat.lt_succ_self k, hlongest⟩
  · rw [List.mem_append, not_or] at hleft
    have hlate : n ∉ nextLayer remaining satisfied := fun hin =>
      hleft.2 (List.mem_map_of_mem hin)
    rw [mem_nextLayer, h.mem_remaining] at hlate
    -- somebody it depends on is left as well
    obtain ⟨d, hd, hdleft⟩ : ∃ d ∈ n.deps, d ∉ satisfied := by
      simpa using fun hall => hlate ⟨⟨hn, hleft.1⟩, hall⟩
    obtain ⟨m, hm, rfl⟩ := hg.known n hn d hd
    exact .step ((directDep_iff hg hn).mpr hd) (h.left m hm hdleft)

/-- **A round takes somebody**: a node of the smallest rank among those left. -/
theorem Round.layer_ne_nil (h : Round graph k remaining satisfied) (hg : WellFormedGraph graph)
    (hsome : remaining ≠ []) : nextLayer remaining satisfied ≠ [] := by
  obtain ⟨rank, hrank⟩ := validateGraph_rank (validateGraph_iff.mpr hg)
  obtain ⟨n, hn, hleast⟩ := (measure fun n : WorkflowNode => rank n.id).wf.has_min
    {n | n ∈ remaining} (List.exists_mem_of_ne_nil _ hsome)
  refine List.ne_nil_of_mem (mem_nextLayer.mpr ⟨hn, fun d hd => ?_⟩)
  have hn' := (h.mem_remaining.mp hn).1
  obtain ⟨m, hm, rfl⟩ := hg.known n hn' d hd
  refine Classical.byContradiction fun hleft => ?_
  exact hleast m (h.mem_remaining.mpr ⟨hm, hleft⟩) (hrank n hn' _ hd)

/-! ## 3. All rounds -/

/-- The layers from round `k` on: nobody's is empty, and each is the nodes of its chain length. -/
def Layered (graph : List WorkflowNode) (k : Nat) (layers : List (List WorkflowNode)) : Prop :=
  ∀ (i : Nat) (layer : List WorkflowNode), layers[i]? = some layer →
    layer ≠ [] ∧ ∀ n, n ∈ layer ↔ n ∈ graph ∧ Longest (DirectDep graph) (k + i) n.id

/-- A layer and what is left after it are what there was. -/
theorem Round.perm (h : Round graph k remaining satisfied) (hg : WellFormedGraph graph) :
    (nextLayer remaining satisfied ++ without remaining (nextLayer remaining satisfied)).Perm
      remaining := by
  rw [h.without_eq hg]
  exact List.filter_append_perm _ _

/-- **The run lemma**: the loop ends without an error, and its layers are right. -/
theorem Round.layers (hg : WellFormedGraph graph) : ∀ {fuel k : Nat}
    {remaining : List WorkflowNode} {satisfied : List NodeId},
    Round graph k remaining satisfied → remaining.length ≤ fuel →
    ∃ layers, layersFrom fuel remaining satisfied = .ok layers ∧
      layers.flatten.Perm remaining ∧ Layered graph k layers
  | fuel, k, [], satisfied, _, _ => by
      refine ⟨[], by simp only [layersFrom], List.Perm.refl _, ?_⟩
      rintro i layer ⟨⟩
  | 0, k, n :: rest, satisfied, _, hle => by simp at hle
  | fuel + 1, k, n :: rest, satisfied, h, hle => by
      have hne := h.layer_ne_nil hg (List.cons_ne_nil n rest)
      have hlength := (h.perm hg).length_eq
      rw [List.length_append] at hlength
      have hpos := List.length_pos_iff.mpr hne
      have hle' : (without (n :: rest) (nextLayer (n :: rest) satisfied)).length ≤ fuel := by omega
      obtain ⟨layers, hlayers, hperm, hlayered⟩ := Round.layers hg (h.next hg) hle'
      refine ⟨nextLayer (n :: rest) satisfied :: layers, ?_, ?_, ?_⟩
      · have hsome : (nextLayer (n :: rest) satisfied).isEmpty = false := by
          rw [List.isEmpty_eq_false_iff]
          exact hne
        unfold layersFrom
        dsimp only
        rw [hsome, hlayers]
        rfl
      · rw [List.flatten_cons]
        exact (hperm.append_left _).trans (h.perm hg)
      · intro i layer hi
        cases i with
        | zero =>
            obtain rfl : nextLayer (n :: rest) satisfied = layer := Option.some.inj hi
            exact ⟨hne, fun m => h.longest_iff hg⟩
        | succ i =>
            have hlate := hlayered i layer hi
            rwa [Nat.add_right_comm, Nat.add_assoc] at hlate

/-! ## 4. Schedules -/

section Schedules

variable {layers other : List (List WorkflowNode)}

/-- Layers by chain length are a schedule. -/
theorem Layered.earlier (h : Layered graph 0 layers) (hg : WellFormedGraph graph)
    (honce : layers.flatten.Perm graph) {layer : List WorkflowNode}
    (hk : layers[k]? = some layer) (hn : n ∈ layer) {d : NodeId} (hd : d ∈ n.deps) :
    ∃ j < k, ∃ layer' : List WorkflowNode, layers[j]? = some layer' ∧ ∃ m ∈ layer', m.id = d := by
  obtain ⟨hn', hlongest⟩ := ((h k layer hk).2 n).mp hn
  obtain ⟨m, hm, rfl⟩ := hg.known n hn' d hd
  obtain ⟨layer', hlayer', hm'⟩ := List.mem_flatten.mp (honce.mem_iff.mpr hm)
  obtain ⟨j, hj⟩ := List.mem_iff_getElem?.mp hlayer'
  have hshorter := ((h j layer' hj).2 m).mp hm'
  have hlonger := hlongest.le _ (.step ((directDep_iff hg hn').mpr hd) hshorter.2.chain)
  exact ⟨j, by omega, layer', hj, m, hm', rfl⟩

/-- **A chain of `k` steps takes more than `k` layers of any schedule.** -/
theorem ParallelSchedule.chain_lt (h : ParallelSchedule graph other) (hg : WellFormedGraph graph)
    (hn : n ∈ graph) (hchain : Chain (DirectDep graph) k n.id) : k < other.length := by
  obtain ⟨layer, hlayer, hn'⟩ := List.mem_flatten.mp (h.once.mem_iff.mpr hn)
  obtain ⟨j, hj⟩ := List.mem_iff_getElem?.mp hlayer
  have hle : k ≤ j := by
    refine hchain.le_of_descends (P := fun j id => ∃ layer : List WorkflowNode,
      other[j]? = some layer ∧ ∃ n ∈ layer, n.id = id) ?_ j ⟨layer, hj, n, hn', rfl⟩
    rintro j a b ⟨layer, hj, n, hn, rfl⟩ hdep
    have hn' : n ∈ graph :=
      h.once.mem_iff.mp (List.mem_flatten.mpr ⟨layer, List.mem_of_getElem? hj, hn⟩)
    exact h.earlier j layer hj n hn b ((directDep_iff hg hn').mp hdep)
  have hlt := (List.getElem?_eq_some_iff.mp hj).1
  omega

/-- No schedule has fewer layers: the last one has somebody with a chain as long. -/
theorem Layered.length_le (h : Layered graph 0 layers) (hg : WellFormedGraph graph)
    (hother : ParallelSchedule graph other) : layers.length ≤ other.length := by
  rcases List.eq_nil_or_concat' layers with rfl | ⟨init, last, rfl⟩
  · exact Nat.zero_le _
  · have hget : (init ++ [last])[init.length]? = some last := by simp
    obtain ⟨hne, hmem⟩ := h init.length last hget
    obtain ⟨n, hn⟩ := List.exists_mem_of_ne_nil _ hne
    obtain ⟨hn', hlongest⟩ := (hmem n).mp hn
    rw [Nat.zero_add] at hlongest
    have hlt := hother.chain_lt hg hn' hlongest.chain
    rw [List.length_append, List.length_singleton]
    omega

end Schedules

end Rounds

/-! ## 5. The kernel's copy -/

/-- The same error of the copy. -/
def LayersError.copy : LayersError → Transition.DagError
  | .invalid error => error.copy
  | .unreachable => .unreachable
  | .outOfFuel => .outOfFuel

/-- The layers as the kernel's copy has them. -/
def copyLayers (layers : List (List WorkflowNode)) : List (List Transition.PlanNode) :=
  layers.map (·.map WorkflowNode.plan)

theorem layersFrom_copy : ∀ (fuel : Nat) (remaining : List WorkflowNode) (satisfied : List NodeId),
    Transition.layersFrom fuel (remaining.map WorkflowNode.plan) satisfied =
      ((layersFrom fuel remaining satisfied).mapError LayersError.copy).map copyLayers
  | _, [], _ => by
      simp only [layersFrom, Transition.layersFrom, List.map_nil]
      rfl
  | 0, _ :: _, _ => rfl
  | fuel + 1, n :: rest, satisfied => by
      have hlayer : ((n :: rest).map WorkflowNode.plan).filter
          (fun n => n.deps.all satisfied.contains) =
          (nextLayer (n :: rest) satisfied).map WorkflowNode.plan := by
        rw [List.filter_map]
        rfl
      have hwithout : ((n :: rest).map WorkflowNode.plan).filter
          (fun m => !((nextLayer (n :: rest) satisfied).map (·.id)).contains m.id) =
          (without (n :: rest) (nextLayer (n :: rest) satisfied)).map WorkflowNode.plan := by
        rw [List.filter_map]
        rfl
      rw [List.map_cons] at hlayer hwithout ⊢
      unfold Transition.layersFrom layersFrom
      dsimp only
      rw [hlayer, map_plan_id, hwithout, layersFrom_copy fuel]
      rw [List.isEmpty_map]
      cases (nextLayer (n :: rest) satisfied).isEmpty with
      | true => rfl
      | false =>
          cases layersFrom fuel (without (n :: rest) (nextLayer (n :: rest) satisfied))
            (satisfied ++ (nextLayer (n :: rest) satisfied).map (·.id)) with
          | error e => rfl
          | ok layers => rfl

/-- **The kernel's layers are the same**, for every graph and errors included. -/
theorem topologicalLayers_copy (graph : List WorkflowNode) :
    Transition.topologicalLayers (graph.map WorkflowNode.plan) =
      ((topologicalLayers graph).mapError LayersError.copy).map copyLayers := by
  unfold Transition.topologicalLayers topologicalLayers
  rw [validateDag_copy, List.length_map]
  cases validateGraph graph with
  | error e => rfl
  | ok u => exact layersFrom_copy graph.length graph []

/-! ## 6. The layers of an accepted graph -/

/-- **The layers are a schedule by chain length, the shortest one there is**, and both copies
    return it. -/
theorem topologicalLayers_schedule {graph : List WorkflowNode}
    (h : validateGraph graph = .ok ()) :
    ∃ layers, topologicalLayers graph = .ok layers ∧
      ParallelSchedule graph layers ∧
      (∀ (k : Nat) (layer : List WorkflowNode), layers[k]? = some layer →
        ∀ n, n ∈ layer ↔ n ∈ graph ∧ Longest (DirectDep graph) k n.id) ∧
      (∀ other, ParallelSchedule graph other → layers.length ≤ other.length) ∧
      Transition.topologicalLayers (graph.map WorkflowNode.plan) = .ok (copyLayers layers) := by
  have hg : WellFormedGraph graph := validateGraph_iff.mp h
  obtain ⟨layers, hlayers, honce, hlayered⟩ := Round.layers hg round_start (Nat.le_refl _)
  have hresult : topologicalLayers graph = .ok layers := by
    unfold topologicalLayers
    rw [h]
    exact hlayers
  refine ⟨layers, hresult, ⟨honce, ?_⟩, ?_, fun other => hlayered.length_le hg, ?_⟩
  · intro k layer hk n hn d hd
    exact hlayered.earlier hg honce hk hn hd
  · intro k layer hk n
    have hmem := (hlayered k layer hk).2 n
    rwa [Nat.zero_add] at hmem
  · rw [topologicalLayers_copy, hresult]
    rfl

/-- A diamond has three layers. -/
theorem diamond_scheduled :
    let node (id : NodeId) (deps : List NodeId) : WorkflowNode := { id, kind := .action, deps }
    ∃ layers, topologicalLayers
      [node "d" ["b", "c"], node "b" ["a"], node "c" ["a"], node "a" []] = .ok layers ∧
      layers.map (·.map (·.id)) = [["a"], ["b", "c"], ["d"]] := by
  intro node
  have hvalid : validateGraph
      [node "d" ["b", "c"], node "b" ["a"], node "c" ["a"], node "a" []] = .ok () := by rfl
  obtain ⟨layers, hlayers, -⟩ := topologicalLayers_schedule hvalid
  refine ⟨layers, hlayers, ?_⟩
  have hrun : topologicalLayers
      [node "d" ["b", "c"], node "b" ["a"], node "c" ["a"], node "a" []] =
      .ok [[node "a" []], [node "b" ["a"], node "c" ["a"]], [node "d" ["b", "c"]]] := by rfl
  rw [hrun] at hlayers
  obtain rfl := Except.ok.inj hlayers
  rfl

end AgentKernel.Orchestrator
