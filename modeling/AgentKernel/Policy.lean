/-
  File:      AgentKernel/Policy.lean
  Subject:   Grants and the policy engine (kernel/policy/src/policy-engine.ts,
             kernel/contracts/src/policy.ts).

  A deny precedes every allow; what is not granted is denied; what the approval policy does not
  name needs an approval.
-/
import AgentKernel.Immune.Types

namespace AgentKernel

open Immune (startsWith)

/-- What a grant does. -/
inductive GrantEffect where
  | allow | deny
  deriving DecidableEq

/-- What a principal may do, or may not. -/
structure Grant where
  id : String
  principal : String
  capability : String
  scope : String
  effect : GrantEffect

/-- Whether an approval is asked for. -/
inductive ApprovalRequirement where
  | auto | approval
  deriving DecidableEq

/-- The entries of a `Record<string, ApprovalRequirement>`. -/
abbrev ApprovalPolicy := List (String × ApprovalRequirement)

/-- `DEFAULT_APPROVAL_POLICY`. -/
def defaultApprovalPolicy : ApprovalPolicy :=
  [("repo.read", .auto), ("repo.write", .auto), ("git.commit", .auto), ("git.push", .approval),
    ("shell.execute", .approval), ("network.http", .auto), ("secret.read", .approval),
    ("deployment.create", .approval), ("deployment.delete", .approval),
    ("browser.navigate", .auto), ("fs.read", .auto), ("fs.write", .auto), ("db.query", .approval)]

/-- What every object inherits. Read off an approval policy, these are no `'approval'`. -/
def inheritedProperties : List String :=
  ["constructor", "__defineGetter__", "__defineSetter__", "hasOwnProperty", "__lookupGetter__",
    "__lookupSetter__", "isPrototypeOf", "propertyIsEnumerable", "toString", "valueOf",
    "__proto__", "toLocaleString"]

/-- `this.approvalPolicy[capability] ?? 'approval'` -/
def requirementOf (policy : ApprovalPolicy) (capability : String) : ApprovalRequirement :=
  match policy.lookup capability with
  | some requirement => requirement
  | none => if inheritedProperties.contains capability then .auto else .approval

/-- `s.endsWith(end)`. -/
def endsWith (s ending : String) : Bool := ending.toList.isSuffixOf s.toList

/-- `s.slice(0, -n)`, where the last `n` characters are asterisks. -/
def dropLast (n : Nat) (s : String) : String :=
  String.ofList (s.toList.take (s.toList.length - n))

/-- A pattern matches all, what it begins with, or itself. -/
def scopeMatches (pattern scope : String) : Bool :=
  if pattern = "*" then true
  else if endsWith pattern "**" then startsWith scope (dropLast 2 pattern)
  else if endsWith pattern "*" then startsWith scope (dropLast 1 pattern)
  else pattern = scope

/-- What the engine says. -/
structure PolicyDecision where
  allowed : Bool
  approvalRequired : Bool
  reason : String

/-- The grants, and which capabilities need approval. -/
structure PolicyEngine where
  grants : List Grant
  approvalPolicy : ApprovalPolicy

namespace PolicyEngine

variable (engine : PolicyEngine)

/-- Adds a grant, or throws. -/
def addGrant (grant : Grant) : Except String PolicyEngine :=
  if engine.grants.any (·.id = grant.id) then .error ("grant '" ++ grant.id ++ "' already exists")
  else .ok { engine with grants := engine.grants ++ [grant] }

/-- The grants of this id are taken back. -/
def removeGrant (id : String) : PolicyEngine :=
  { engine with grants := engine.grants.filter (·.id ≠ id) }

/-- A denial decides before a permission; without either nothing is allowed. -/
def evaluate (principal capability scope : String) : PolicyDecision :=
  let relevant := engine.grants.filter fun g =>
    g.principal = principal && g.capability = capability && scopeMatches g.scope scope
  match relevant.find? (·.effect = .deny) with
  | some deny => ⟨false, false, "denied by grant '" ++ deny.id ++ "' (" ++ deny.scope ++ ")"⟩
  | none =>
      match relevant.find? (·.effect = .allow) with
      | none => ⟨false, false, "no allow grant for '" ++ capability ++ "' on '" ++ scope ++ "'"⟩
      | some _ =>
          if requirementOf engine.approvalPolicy capability = .approval then
            ⟨true, true, "'" ++ capability ++ "' requires approval by policy"⟩
          else ⟨true, false, "allowed by policy"⟩

end PolicyEngine

end AgentKernel
