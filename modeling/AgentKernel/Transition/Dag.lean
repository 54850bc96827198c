/-
  File:      AgentKernel/Transition/Dag.lean
  Subject:   The kernel's validation and layering of a task graph (kernel/transition/src/dag.ts).

  A plan node is what the two functions read of it: its id and its dependencies. The marks of the
  search are two lists, `visited` and `visiting`; a map of nodes is the list of them in the order of
  insertion. A search nests at most as deep as there are nodes plus one, and a round of the layering
  takes a node at least: both get that as fuel, and running out of it is an error of its own.
-/
import Mathlib

namespace AgentKernel.Transition

/-- A node of a plan. -/
structure PlanNode where
  id : String
  deps : List String
  deriving DecidableEq

/-- What is wrong with a plan. -/
inductive DagError where
  | duplicateIds
  | unknownDependency (node dep : String)
  | cycle
  | unreachable
  | outOfFuel
  deriving DecidableEq

/-- The text of the error. -/
def DagError.message : DagError → String
  | .duplicateIds => "duplicate node ids"
  | .unknownDependency node dep =>
      "node '" ++ node ++ "' depends on unknown node '" ++ dep ++ "'"
  | .cycle => "plan contains a cycle"
  | .unreachable => "unreachable nodes (cycle or missing dependency)"
  | .outOfFuel => ""

/-! ## 1. The search for a cycle -/

/-- The marks of the search: a node is `visited` or, before that, `visiting`. -/
structure Marks where
  visiting : List String
  visited : List String

/-- What a search has come to. -/
inductive Visit where
  | cycle
  | outOfFuel
  | clear (marks : Marks)

/-- `for (const dep of node.deps) if (visit(dep)) return true`. -/
def visitDeps (visit : Marks → String → Visit) : Marks → List String → Visit
  | marks, [] => .clear marks
  | marks, d :: ds =>
      match visit marks d with
      | .clear marks' => visitDeps visit marks' ds
      | other => other

/-- The search from a node on. -/
def visit (nodes : List PlanNode) : Nat → Marks → String → Visit
  | 0, _, _ => .outOfFuel
  | fuel + 1, marks, id =>
      if id ∈ marks.visited then .clear marks
      else if id ∈ marks.visiting then .cycle
      else
        let deps := ((nodes.find? fun n => n.id == id).map (·.deps)).getD []
        match visitDeps (visit nodes fuel) { marks with visiting := id :: marks.visiting } deps with
        | .clear marks' => .clear { marks with visited := id :: marks'.visited }
        | other => other

/-- `detectCycle`, with the marks its last visit leaves when there is no cycle. -/
def detectCycle (nodes : List PlanNode) : Visit :=
  visitDeps (visit nodes (nodes.length + 2)) ⟨[], []⟩ (nodes.map (·.id))

/-! ## 2. Validation -/

/-- The first dependency that names no node. -/
def unknownDependency (nodes : List PlanNode) : Option (String × String) :=
  nodes.findSome? fun n =>
    (n.deps.find? fun d => !(nodes.map (·.id)).contains d).map fun d => (n.id, d)

/-- The first thing that is wrong. -/
def validateDag (nodes : List PlanNode) : Except DagError Unit :=
  if ¬ (nodes.map (·.id)).Nodup then .error .duplicateIds
  else match unknownDependency nodes with
    | some (n, d) => .error (.unknownDependency n d)
    | none =>
        match detectCycle nodes with
        | .clear _ => .ok ()
        | .cycle => .error .cycle
        | .outOfFuel => .error .outOfFuel

/-! ## 3. Layers -/

/-- The rounds of `topologicalLayers`: those go next whose dependencies are all satisfied. -/
def layersFrom : Nat → List PlanNode → List String → Except DagError (List (List PlanNode))
  | _, [], _ => .ok []
  | 0, _ :: _, _ => .error .outOfFuel
  | fuel + 1, n :: rest, satisfied =>
      let layer := (n :: rest).filter fun n => n.deps.all satisfied.contains
      if layer.isEmpty then .error .unreachable
      else
        let remaining := (n :: rest).filter fun n => !(layer.map (·.id)).contains n.id
        (layersFrom fuel remaining (satisfied ++ layer.map (·.id))).map (layer :: ·)

/-- Layer by layer, each behind the ones it depends on. -/
def topologicalLayers (nodes : List PlanNode) : Except DagError (List (List PlanNode)) :=
  match validateDag nodes with
  | .error error => .error error
  | .ok () => layersFrom nodes.length nodes []

end AgentKernel.Transition
