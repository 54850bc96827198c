/-
  File:      AgentKernel/Capability.lean
  Subject:   Capabilities and their composition (kernel/capability/src/compose.ts,
             kernel/contracts/src/primitives.ts `CapabilitySpec`, `Constraint`).

  A composition has an action once: of the capabilities with one action the first listed stays, and
  its scope and constraints with it.

  **`composition_laws`**: so composing is associative and idempotent, and the order of two parts
  decides nothing but the scope and the constraints of the actions they both name.
-/
import AgentKernel.Contracts.Json
import AgentKernel.Lib.Firsts

namespace AgentKernel

open Lib

/-! ## 1. Capabilities -/

/-- What a capability can be bound to. -/
inductive ConstraintKind where
  | approval | rateLimit | budget | time | deny
  deriving DecidableEq

/-- A bond of a capability. -/
structure Constraint where
  kind : ConstraintKind
  value : Json

/-- A capability. -/
structure CapabilitySpec where
  id : String
  action : String
  scope : String
  constraints : List Constraint

/-- `spec(action, scope = '*', constraints = [])`. -/
def spec (action : String) (scope : String := "*") (constraints : List Constraint := []) :
    CapabilitySpec :=
  { id := action ++ "@" ++ scope, action, scope, constraints }

/-- Capabilities that are given together. -/
structure CapabilitySet where
  id : String
  capabilities : List CapabilitySpec

/-- A part of a composition, `CapabilitySet | CapabilitySpec[]`. -/
inductive CapabilityPart where
  | set (s : CapabilitySet)
  | specs (cs : List CapabilitySpec)

/-- The capabilities of a part. -/
def CapabilityPart.capabilities : CapabilityPart → List CapabilitySpec
  | .set s => s.capabilities
  | .specs cs => cs

/-- `parts.flatMap`: the capabilities of the parts, in order. -/
def listed (parts : List CapabilityPart) : List CapabilitySpec := parts.flatMap (·.capabilities)

/-- The `filter` remembers the actions it has let through, and lets each through once. -/
def compose (id : String) (parts : List CapabilityPart) : CapabilitySet :=
  { id, capabilities := keepFirst (·.action) [] (listed parts) }

/-- The action is among them. -/
def has (s : CapabilitySet) (action : String) : Bool :=
  s.capabilities.any fun c => c.action == action

section

variable {id : String} {parts : List CapabilityPart}

@[simp] theorem listed_append (parts' : List CapabilityPart) :
    listed (parts ++ parts') = listed parts ++ listed parts' := List.flatMap_append

@[simp] theorem listed_cons (part : CapabilityPart) :
    listed (part :: parts) = part.capabilities ++ listed parts := List.flatMap_cons

@[simp] theorem listed_nil : listed [] = [] := rfl

/-! ## 2. What a composition grants -/

/-- What a capability grants: its id says no more. -/
def CapabilitySpec.authority (c : CapabilitySpec) : String × String × List Constraint :=
  (c.action, c.scope, c.constraints)

/-- What they give, in their order. -/
def granted (cs : List CapabilitySpec) : List (String × String × List Constraint) :=
  cs.map CapabilitySpec.authority

/-- The first capability listed for the action. -/
abbrev firstFor (action : String) (cs : List CapabilitySpec) : Option CapabilitySpec :=
  firstOf (·.action) action cs

theorem mem_compose {c : CapabilitySpec} : c ∈ (compose id parts).capabilities ↔
    firstFor c.action (listed parts) = some c := by
  simp [compose, mem_keepFirst]

/-- **A composition grants, for each action, what the first capability listed for it grants.** -/
theorem mem_granted_compose {t : String × String × List Constraint} :
    t ∈ granted (compose id parts).capabilities ↔
      ∃ c, firstFor t.1 (listed parts) = some c ∧ c.authority = t := by
  unfold granted
  rw [List.mem_map]
  constructor
  · rintro ⟨c, hc, rfl⟩
    exact ⟨c, mem_compose.mp hc, rfl⟩
  · rintro ⟨c, hc, rfl⟩
    exact ⟨c, mem_compose.mpr hc, rfl⟩

theorem has_iff {s : CapabilitySet} {action : String} :
    has s action = true ↔ action ∈ s.capabilities.map (·.action) := by
  simp [has]

/-- A composition has the actions of its parts. -/
theorem has_compose (action : String) :
    has (compose id parts) action = (listed parts).any fun c => c.action == action := by
  rw [Bool.eq_iff_iff, has_iff]
  unfold compose
  rw [mem_map_keepFirst]
  simp

end

/-! ## 3. The laws -/

/-- The capabilities of one action grant the same. -/
def Unanimous (cs : List CapabilitySpec) : Prop :=
  ∀ c ∈ cs, ∀ c' ∈ cs, c.action = c'.action → c.authority = c'.authority

/-- For every action in both lists the first capabilities grant the same. -/
def Agree (cs cs' : List CapabilitySpec) : Prop :=
  ∀ action c c', firstFor action cs = some c → firstFor action cs' = some c' →
    c.authority = c'.authority

theorem Agree.symm {cs cs' : List CapabilitySpec} (h : Agree cs cs') : Agree cs' cs :=
  fun action c c' hc hc' => (h action c' c hc' hc).symm

/-- **A composition among the parts may be replaced by its own parts.** -/
theorem compose_nested (id i : String) (front parts back : List CapabilityPart) :
    compose id (front ++ .set (compose i parts) :: back) = compose id (front ++ parts ++ back) := by
  have h : keepFirst (·.action) [] (listed front ++ keepFirst (·.action) [] (listed parts) ++
      listed back) = keepFirst (·.action) [] (listed front ++ listed parts ++ listed back) :=
    keepFirst_nested _ _ _
  refine congrArg (CapabilitySet.mk id) ?_
  simp only [listed_append, listed_cons, ← List.append_assoc]
  exact h

/-- What a part adds to itself has been seen. -/
theorem compose_twice (id : String) (A : CapabilityPart) : compose id [A, A] = compose id [A] := by
  have hseen : keepFirst (·.action) ([] ++ A.capabilities.map (·.action)) A.capabilities = [] := by
    refine List.eq_nil_iff_forall_not_mem.mpr fun c hc => ?_
    exact (mem_keepFirst.mp hc).1 (List.mem_map_of_mem (firstOf_mem (mem_keepFirst.mp hc).2))
  refine congrArg (CapabilitySet.mk id) ?_
  simp only [listed_cons, listed_nil, List.append_nil]
  rw [keepFirst_append, hseen, List.append_nil]

/-- A part composed alone grants what it grants just where its capabilities of one action do. -/
theorem granted_alone_iff (id : String) (A : CapabilityPart) :
    (∀ t, t ∈ granted (compose id [A]).capabilities ↔ t ∈ granted A.capabilities) ↔
      Unanimous A.capabilities := by
  have halone : listed [A] = A.capabilities := List.append_nil _
  simp only [mem_granted_compose, halone]
  constructor
  · intro h c hc c' hc' haction
    obtain ⟨d, hd, hdc⟩ := (h c.authority).mpr (List.mem_map_of_mem hc)
    obtain ⟨d', hd', hdc'⟩ := (h c'.authority).mpr (List.mem_map_of_mem hc')
    have hsame : firstFor c.action A.capabilities = some d' := haction ▸ hd'
    obtain rfl : d = d' := Option.some.inj (hd.symm.trans hsame)
    exact hdc.symm.trans hdc'
  · intro h t
    constructor
    · rintro ⟨c, hc, rfl⟩
      exact List.mem_map_of_mem (firstOf_mem hc)
    · intro ht
      obtain ⟨c, hc, rfl⟩ := List.mem_map.mp ht
      obtain ⟨d, hd, hmem, haction⟩ : ∃ d, firstFor c.action A.capabilities = some d ∧
          d ∈ A.capabilities ∧ d.action = c.action := firstOf_of_mem hc
      exact ⟨d, hd, h d hmem c hc haction⟩

theorem firstFor_two {action : String} (A B : CapabilityPart) :
    firstFor action (listed [A, B]) =
      (firstFor action A.capabilities).or (firstFor action B.capabilities) := by
  simp only [listed_cons, listed_nil, List.append_nil]
  exact firstOf_append ..

theorem Agree.subset {A B : CapabilityPart} (h : Agree A.capabilities B.capabilities) (id : String) :
    granted (compose id [A, B]).capabilities ⊆ granted (compose id [B, A]).capabilities := by
  intro t ht
  rw [mem_granted_compose] at ht ⊢
  simp only [firstFor_two] at ht ⊢
  obtain ⟨c, hc, rfl⟩ := ht
  cases hB : firstFor c.authority.1 B.capabilities with
  | none =>
      rw [hB, Option.or_none] at hc
      exact ⟨c, hc, rfl⟩
  | some c' =>
      cases hA : firstFor c.authority.1 A.capabilities with
      | none =>
          rw [hA, hB] at hc
          exact ⟨c, hc, rfl⟩
      | some d =>
          rw [hA] at hc
          obtain rfl : d = c := Option.some.inj hc
          exact ⟨c', rfl, (h _ _ _ hA hB).symm⟩

/-- **The order of two parts decides nothing just where they agree.** -/
theorem granted_comm_iff (id : String) (A B : CapabilityPart) :
    (∀ t, t ∈ granted (compose id [A, B]).capabilities ↔
      t ∈ granted (compose id [B, A]).capabilities) ↔ Agree A.capabilities B.capabilities := by
  constructor
  · intro h action c c' hc hc'
    have haction : c.action = action := firstOf_key hc
    have hAB : c.authority ∈ granted (compose id [A, B]).capabilities := by
      refine mem_granted_compose.mpr ⟨c, ?_, rfl⟩
      rw [firstFor_two, show c.authority.1 = action from haction, hc]
      rfl
    obtain ⟨d, hd, hdc⟩ := mem_granted_compose.mp ((h _).mp hAB)
    rw [firstFor_two, show c.authority.1 = action from haction, hc'] at hd
    obtain rfl : c' = d := Option.some.inj hd
    exact hdc.symm
  · intro h t
    exact ⟨fun ht => h.subset id ht, fun ht => h.symm.subset id ht⟩

/-- A composition has each action once. -/
theorem compose_nodup (id : String) (parts : List CapabilityPart) :
    ((compose id parts).capabilities.map (·.action)).Nodup := nodup_keepFirst _ _

/-- An action of both parts has what the part listed first has for it. -/
theorem granted_first {id : String} {A B : CapabilityPart} {action : String} {c : CapabilitySpec}
    (hc : firstFor action A.capabilities = some c) :
    ∀ t ∈ granted (compose id [A, B]).capabilities, t.1 = action → t = c.authority := by
  rintro t ht rfl
  obtain ⟨d, hd, rfl⟩ := mem_granted_compose.mp ht
  rw [firstFor_two, hc] at hd
  obtain rfl : c = d := Option.some.inj hd
  rfl

/-- **Composing is associative and idempotent. Of the capabilities of an action the one listed first
    stays, and no other. So the order of two parts decides just which scope and constraints an
    action of both gets: those of the part listed first.** -/
theorem composition_laws (id i j : String) (A B C : CapabilityPart) (parts : List CapabilityPart) :
    compose id [.set (compose i [A, B]), C] = compose id [A, .set (compose j [B, C])] ∧
    compose id [A, A] = compose id [A] ∧
    compose id [.set (compose i [A])] = compose id [A] ∧
    ((∀ t, t ∈ granted (compose id [A, A]).capabilities ↔ t ∈ granted A.capabilities) ↔
      Unanimous A.capabilities) ∧
    ((compose id parts).capabilities.map (·.action)).Nodup ∧
    (∀ c, c ∈ (compose id parts).capabilities ↔ firstFor c.action (listed parts) = some c) ∧
    (∀ action, has (compose id [A, B]) action = has (compose id [B, A]) action) ∧
    ((∀ t, t ∈ granted (compose id [A, B]).capabilities ↔
      t ∈ granted (compose id [B, A]).capabilities) ↔ Agree A.capabilities B.capabilities) ∧
    (∀ action c c', firstFor action A.capabilities = some c →
      firstFor action B.capabilities = some c' →
      (∀ t ∈ granted (compose id [A, B]).capabilities, t.1 = action → t = c.authority) ∧
      ∀ t ∈ granted (compose id [B, A]).capabilities, t.1 = action → t = c'.authority) := by
  refine ⟨?_, compose_twice id A, ?_, ?_, compose_nodup id parts, fun _ => mem_compose, ?_,
    granted_comm_iff id A B, fun _ _ _ hc hc' => ⟨granted_first hc, granted_first hc'⟩⟩
  · calc compose id [.set (compose i [A, B]), C]
        = compose id [A, B, C] := compose_nested id i [] [A, B] [C]
      _ = compose id [A, .set (compose j [B, C])] := (compose_nested id j [A] [B, C] []).symm
  · exact compose_nested id i [] [A] []
  · rw [compose_twice]
    exact granted_alone_iff id A
  · intro action
    rw [has_compose, has_compose]
    simp [Bool.or_comm]

/-- Deploying anywhere. -/
def anywhere : CapabilityPart := .specs [spec "deploy"]

/-- Deploying to production, when approved. -/
def approved : CapabilityPart :=
  .specs [spec "deploy" "env:prod" [{ kind := .approval, value := .str "always" }]]

/-- **Listed after the wide one, the narrow capability is lost with its approval.** -/
theorem approval_lost :
    ("deploy", "*", []) ∈ granted (compose "s" [anywhere, approved]).capabilities ∧
    ("deploy", "*", []) ∉ granted (compose "s" [approved, anywhere]).capabilities := by
  refine ⟨List.mem_singleton.mpr rfl, fun h => ?_⟩
  have heq := List.mem_singleton.mp h
  have hscope : "*" = "env:prod" := congrArg (fun t => t.2.1) heq
  exact absurd hscope (by decide)

end AgentKernel
