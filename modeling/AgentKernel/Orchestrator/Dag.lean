/-
  File:      AgentKernel/Orchestrator/Dag.lean
  Subject:   Validation of a plan graph (runtime/orchestrator/src/dag.ts): unique ids, known
             dependencies, no cycle.

  `detectCycle` is the source's depth-first search. The marks `visiting`/`visited` are two lists,
  the second in finishing order, newest first. A call nests at most as deep as there are node
  ids plus one, which is the fuel `validateGraph` passes; running out of it is an error of its own.

  What an accepted graph is good for is `validateGraph_order`: the finishing order of the search
  lists every node after its dependencies, so there is a rank that every dependency lowers
  (`validateGraph_rank`).
-/
import AgentKernel.Orchestrator.Types

namespace AgentKernel.Orchestrator

/-- What is wrong with a graph. -/
inductive DagError where
  | duplicateIds
  | unknownDependency (node dep : NodeId)
  | cycle
  | outOfFuel
  deriving DecidableEq

/-- The node with a given id (`Map.get` on a graph with unique ids). -/
def nodeById (graph : List WorkflowNode) (id : NodeId) : Option WorkflowNode :=
  graph.find? fun n => n.id == id

/-- `n` depends on `m`, directly or through other nodes. -/
def DependsOn (graph : List WorkflowNode) : NodeId → NodeId → Prop :=
  Relation.TransGen fun a b => ∃ n ∈ graph, n.id = a ∧ b ∈ n.deps

/-- The marks of the search. -/
structure Marks where
  visiting : List NodeId
  visited : List NodeId

/-- What a visit answers: a cycle was met, or the marks it leaves. -/
inductive Visit where
  | cycle
  | outOfFuel
  | clear (marks : Marks)

/-- `for (const dep of deps) if (visit(dep)) return true`. -/
def visitDeps (visit : Marks → NodeId → Visit) : Marks → List NodeId → Visit
  | marks, [] => .clear marks
  | marks, d :: ds =>
      match visit marks d with
      | .clear marks' => visitDeps visit marks' ds
      | other => other

/-- `visit(id)` of `detectCycle`. -/
def visit (graph : List WorkflowNode) : Nat → Marks → NodeId → Visit
  | 0, _, _ => .outOfFuel
  | fuel + 1, marks, id =>
      if id ∈ marks.visited then .clear marks
      else if id ∈ marks.visiting then .cycle
      else
        let deps := ((nodeById graph id).map (·.deps)).getD []
        match visitDeps (visit graph fuel) { marks with visiting := id :: marks.visiting } deps with
        | .clear marks' => .clear { marks with visited := id :: marks'.visited }
        | other => other

/-- `detectCycle`, with the marks its last visit leaves when there is no cycle. -/
def detectCycle (graph : List WorkflowNode) : Visit :=
  visitDeps (visit graph (graph.length + 2)) ⟨[], []⟩ (graph.map (·.id))

/-- The first dependency that names no node. -/
def unknownDependency (graph : List WorkflowNode) : Option (NodeId × NodeId) :=
  graph.findSome? fun n =>
    (n.deps.find? fun d => !(graph.map (·.id)).contains d).map fun d => (n.id, d)

/-- The first thing that is wrong. -/
def validateGraph (graph : List WorkflowNode) : Except DagError Unit :=
  if ¬ (graph.map (·.id)).Nodup then .error .duplicateIds
  else match unknownDependency graph with
    | some (n, d) => .error (.unknownDependency n d)
    | none =>
        match detectCycle graph with
        | .clear _ => .ok ()
        | .cycle => .error .cycle
        | .outOfFuel => .error .outOfFuel

/-! ## What an accepted graph has -/

/-- Every entry has its dependencies further down the list. -/
def DepsBelow (graph : List WorkflowNode) : List NodeId → Prop
  | [] => True
  | id :: rest =>
      (∀ n, nodeById graph id = some n → ∀ d ∈ n.deps, d ∈ rest) ∧ DepsBelow graph rest

section Search

variable {graph : List WorkflowNode}

/-- What a visit of `ids` that meets no cycle leaves: the marked list still has every dependency
    below its node, has grown, and contains `ids`. -/
def Clears (graph : List WorkflowNode) (marks : Marks) (ids : List NodeId) (marks' : Marks) : Prop :=
  DepsBelow graph marks.visited →
    DepsBelow graph marks'.visited ∧ marks.visited ⊆ marks'.visited ∧ ids ⊆ marks'.visited

theorem visitDeps_clears {f : Marks → NodeId → Visit}
    (hf : ∀ m id m', f m id = .clear m' → Clears graph m [id] m') :
    ∀ {ids : List NodeId} {m m' : Marks}, visitDeps f m ids = .clear m' → Clears graph m ids m'
  | [], m, m', h => by
      cases h
      exact fun hm => ⟨hm, fun _ hx => hx, fun _ hx => absurd hx List.not_mem_nil⟩
  | id :: ids, m, m', h => by
      simp only [visitDeps] at h
      split at h
      · rename_i m₁ h₁
        intro hm
        obtain ⟨hb₁, hsub₁, hid⟩ := hf _ _ _ h₁ hm
        obtain ⟨hb, hsub, hids⟩ := visitDeps_clears hf h hb₁
        refine ⟨hb, fun x hx => hsub (hsub₁ hx), fun x hx => ?_⟩
        rcases List.mem_cons.mp hx with rfl | hx
        · exact hsub (hid List.mem_cons_self)
        · exact hids hx
      · rename_i hother
        exact absurd h (hother m')

/-- **A visit that meets no cycle keeps dependencies below their node.** -/
theorem visit_clears : ∀ {fuel : Nat} {m : Marks} {id : NodeId} {m' : Marks},
    visit graph fuel m id = .clear m' → Clears graph m [id] m'
  | 0, _, _, _, h => by simp [visit] at h
  | fuel + 1, m, id, m', h => by
      simp only [visit] at h
      split at h
      · rename_i hv
        cases h
        exact fun hm => ⟨hm, fun _ hx => hx, fun x hx => by simpa [List.mem_singleton.mp hx] using hv⟩
      · split at h
        · simp at h
        · split at h
          · rename_i m₁ h₁
            cases h
            intro hm
            obtain ⟨hb, hsub, hdeps⟩ := visitDeps_clears (fun _ _ _ => visit_clears) h₁ hm
            refine ⟨⟨fun n hn d hd => hdeps (by simpa [hn] using hd), hb⟩,
              fun x hx => List.mem_cons_of_mem _ (hsub hx), fun x hx => ?_⟩
            simp [List.mem_singleton.mp hx]
          · rename_i hother
            exact absurd h (hother m')

end Search

section Accepted

variable {graph : List WorkflowNode}

theorem validateGraph_nodup (h : validateGraph graph = .ok ()) : (graph.map (·.id)).Nodup := by
  unfold validateGraph at h
  split_ifs at h with hn
  exact hn

theorem validateGraph_deps (h : validateGraph graph = .ok ()) :
    ∀ n ∈ graph, ∀ d ∈ n.deps, d ∈ graph.map (·.id) := by
  unfold validateGraph at h
  split_ifs at h
  split at h
  · cases h
  · rename_i hu
    intro n hn d hd
    have hnone := List.findSome?_eq_none_iff.mp hu n hn
    simp only [Option.map_eq_none_iff, List.find?_eq_none] at hnone
    simpa using hnone d hd

theorem nodeById_of_mem (hnd : (graph.map (·.id)).Nodup) {n : WorkflowNode} (hn : n ∈ graph) :
    nodeById graph n.id = some n := by
  unfold nodeById
  induction graph with
  | nil => cases hn
  | cons m rest ih =>
      simp only [List.map_cons, List.nodup_cons] at hnd
      rcases List.mem_cons.mp hn with rfl | hn
      · simp
      · have hne : (m.id == n.id) = false := by
          have : m.id ≠ n.id := fun e => hnd.1 (e ▸ List.mem_map_of_mem hn)
          simpa using this
        simpa [List.find?, hne] using ih hnd.2 hn

theorem eq_of_id_eq (hnd : (graph.map (·.id)).Nodup) {n m : WorkflowNode} (hn : n ∈ graph)
    (hm : m ∈ graph) (h : n.id = m.id) : n = m := by
  have h₁ := nodeById_of_mem hnd hn
  rw [h, nodeById_of_mem hnd hm] at h₁
  exact (Option.some.inj h₁).symm

theorem mem_of_nodeById {id : NodeId} {n : WorkflowNode} (h : nodeById graph id = some n) :
    n ∈ graph ∧ n.id = id :=
  ⟨List.mem_of_find?_eq_some h, by simpa using List.find?_some h⟩

/-- **The finishing order of the search**: it has every node id, dependencies first. -/
theorem validateGraph_order (h : validateGraph graph = .ok ()) :
    ∃ order, DepsBelow graph order ∧ ∀ n ∈ graph, n.id ∈ order := by
  unfold validateGraph at h
  split_ifs at h
  split at h
  · cases h
  · split at h
    · rename_i m hm
      obtain ⟨hb, _, hids⟩ := visitDeps_clears (fun _ _ _ => visit_clears) hm trivial
      exact ⟨m.visited, hb, fun n hn => hids (List.mem_map_of_mem hn)⟩
    · cases h
    · cases h

/-- How many entries of a list lie below the first occurrence of `id`. -/
def below (id : NodeId) : List NodeId → Nat
  | [] => 0
  | x :: rest => if id ∈ rest then below id rest else if x = id then rest.length else 0

theorem below_lt_of_mem {id : NodeId} : ∀ {l : List NodeId}, id ∈ l → below id l < l.length
  | [], h => by cases h
  | x :: rest, h => by
      unfold below
      split_ifs with hr hx
      · have := below_lt_of_mem hr
        simp only [List.length_cons]
        omega
      · simp
      · rcases List.mem_cons.mp h with rfl | h
        · exact absurd rfl hx
        · exact absurd h hr

theorem below_lt {id : NodeId} {n : WorkflowNode} (hn : nodeById graph id = some n) :
    ∀ {l : List NodeId}, DepsBelow graph l → id ∈ l → ∀ d ∈ n.deps, below d l < below id l
  | [], _, h, _, _ => by cases h
  | x :: rest, hb, h, d, hd => by
      by_cases hr : id ∈ rest
      · have ih := below_lt hn hb.2 hr d hd
        have hdr : d ∈ rest := by
          refine Classical.byContradiction fun hne => ?_
          have hx : ∀ {l : List NodeId}, DepsBelow graph l → id ∈ l → d ∈ l := by
            intro l
            induction l with
            | nil => intro _ hm; cases hm
            | cons y ys ihl =>
                intro hb' hm
                rcases List.mem_cons.mp hm with rfl | hm
                · exact List.mem_cons_of_mem _ (hb'.1 n hn d hd)
                · exact List.mem_cons_of_mem _ (ihl hb'.2 hm)
          exact hne (hx hb.2 hr)
        simpa [below, hr, hdr] using ih
      · have hx : x = id := by
          rcases List.mem_cons.mp h with rfl | h
          · rfl
          · exact absurd h hr
        subst hx
        have hdr : d ∈ rest := hb.1 n hn d hd
        simpa [below, hr, hdr] using below_lt_of_mem hdr

/-- **An accepted graph is ranked**: every dependency has a smaller rank. -/
theorem validateGraph_rank (h : validateGraph graph = .ok ()) :
    ∃ rank : NodeId → Nat, ∀ n ∈ graph, ∀ d ∈ n.deps, rank d < rank n.id := by
  obtain ⟨order, hb, hall⟩ := validateGraph_order h
  refine ⟨fun id => below id order, fun n hn d hd => ?_⟩
  exact below_lt (nodeById_of_mem (validateGraph_nodup h) hn) hb (hall n hn) d hd

end Accepted

end AgentKernel.Orchestrator
