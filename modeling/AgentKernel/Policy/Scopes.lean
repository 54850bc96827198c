/-
  File:      AgentKernel/Policy/Scopes.lean
  Subject:   What the policy engine decides for a check without a scope, against what it decides for
             each scope (kernel/policy/src/policy-engine.ts).

  A check without a scope asks for the scope "*", and as a scope that is a text like any other: the
  patterns that match it are "*", "**" and "***" (`scopeMatches_star`).

  * `scopeMatches_spec`: a pattern asks for a beginning of the scope, or for the scope itself;
  * `evaluate_allowed`: allowed is what an allow grant matches and no deny grant does;
  * **`restrictive_iff`**: for which grants the check without a scope is no more permissive.
-/
import AgentKernel.Lib.Lists
import AgentKernel.Policy

namespace AgentKernel

open Immune (startsWith)
open Lib (prefix_singleton)

/-! ## 1. Patterns -/

/-- The patterns that match the scope of a check without one. -/
def Wild (pattern : String) : Prop := pattern = "*" ∨ pattern = "**" ∨ pattern = "***"

section Patterns

variable {pattern s : String}

theorem startsWith_iff {start : String} :
    startsWith s start = true ↔ start.toList <+: s.toList :=
  List.isPrefixOf_iff_prefix

theorem endsWith_iff {ending : String} :
    endsWith s ending = true ↔ ∃ front, s.toList = front ++ ending.toList := by
  unfold endsWith
  rw [List.isSuffixOf_iff_suffix]
  exact exists_congr fun front => eq_comm

theorem dropLast_toList {n : Nat} {front ending : List Char} (h : s.toList = front ++ ending)
    (hn : ending.length = n) : (dropLast n s).toList = front := by
  unfold dropLast
  rw [String.toList_ofList, h, List.length_append, hn, Nat.add_sub_cancel]
  exact List.take_left

/-- **A pattern** asks for a beginning of the scope, or for the scope itself. -/
theorem scopeMatches_spec (pattern : String) :
    (∃ front : List Char,
      (pattern.toList = front ++ ['*', '*'] ∨
        pattern.toList = front ++ ['*'] ∧ ¬ ['*'] <:+ front) ∧
      ∀ s, scopeMatches pattern s = true ↔ front <+: s.toList) ∨
    (¬ ['*'] <:+ pattern.toList ∧ ∀ s, scopeMatches pattern s = true ↔ pattern = s) := by
  by_cases hall : pattern = "*"
  · subst hall
    exact .inl ⟨[], .inr ⟨rfl, by decide⟩, fun s => iff_of_true rfl List.nil_prefix⟩
  have hlasttwo : endsWith pattern "**" = true ↔ ∃ front, pattern.toList = front ++ ['*', '*'] :=
    endsWith_iff
  have hlastone : endsWith pattern "*" = true ↔ ∃ front, pattern.toList = front ++ ['*'] :=
    endsWith_iff
  by_cases htwo : endsWith pattern "**" = true
  · obtain ⟨front, hfront⟩ := hlasttwo.mp htwo
    refine .inl ⟨front, .inl hfront, fun s => ?_⟩
    have hdrop : (dropLast 2 pattern).toList = front := dropLast_toList hfront rfl
    rw [scopeMatches, if_neg hall, if_pos htwo, startsWith_iff, hdrop]
  by_cases hone : endsWith pattern "*" = true
  · obtain ⟨front, hfront⟩ := hlastone.mp hone
    refine .inl ⟨front, .inr ⟨hfront, ?_⟩, fun s => ?_⟩
    · rintro ⟨rest, rfl⟩
      refine htwo (hlasttwo.mpr ⟨rest, ?_⟩)
      rw [hfront, List.append_assoc]
      rfl
    · have hdrop : (dropLast 1 pattern).toList = front := dropLast_toList hfront rfl
      rw [scopeMatches, if_neg hall, if_neg htwo, if_pos hone, startsWith_iff, hdrop]
  · refine .inr ⟨fun ⟨front, hfront⟩ => hone (hlastone.mpr ⟨front, hfront.symm⟩), fun s => ?_⟩
    rw [scopeMatches, if_neg hall, if_neg htwo, if_neg hone, decide_eq_true_iff]

theorem scopeMatches_star : scopeMatches pattern "*" = true ↔ Wild pattern := by
  constructor
  · intro h
    obtain ⟨front, hform, hmatch⟩ | ⟨hlast, hmatch⟩ := scopeMatches_spec pattern
    · have hfront : front = [] ∨ front = ['*'] := by
        have hprefix : front <+: ['*'] := (hmatch "*").mp h
        exact prefix_singleton hprefix
      rcases hform with hform | ⟨hform, hlast⟩
      · rcases hfront with rfl | rfl
        · exact .inr (.inl (String.toList_injective hform))
        · exact .inr (.inr (String.toList_injective hform))
      · rcases hfront with rfl | rfl
        · exact .inl (String.toList_injective hform)
        · exact absurd (List.suffix_refl _) hlast
    · obtain rfl := (hmatch "*").mp h
      exact absurd (List.suffix_refl _) hlast
  · rintro (rfl | rfl | rfl) <;> decide

/-- Every pattern matches some scope. -/
theorem exists_scope (pattern : String) : ∃ s, scopeMatches pattern s = true := by
  obtain ⟨front, -, hmatch⟩ | ⟨-, hmatch⟩ := scopeMatches_spec pattern
  · have hfront : front <+: (String.ofList front).toList :=
      ⟨[], (List.append_nil front).trans String.toList_ofList.symm⟩
    exact ⟨String.ofList front, (hmatch _).mpr hfront⟩
  · exact ⟨pattern, (hmatch _).mpr rfl⟩

/-- A scope of one character is matched by the patterns that have it, and by "*" and "**". -/
theorem not_scopeMatches_fresh {c : Char} (hc : c ∉ pattern.toList) (hone : pattern ≠ "*")
    (htwo : pattern ≠ "**") : ¬ scopeMatches pattern (String.singleton c) = true := by
  intro h
  obtain ⟨front, hform, hmatch⟩ | ⟨-, hmatch⟩ := scopeMatches_spec pattern
  · have hprefix : front <+: [c] := by simpa using (hmatch _).mp h
    rcases prefix_singleton hprefix with rfl | rfl
    · rcases hform with hform | ⟨hform, -⟩
      · exact htwo (String.toList_injective hform)
      · exact hone (String.toList_injective hform)
    · rcases hform with hform | ⟨hform, -⟩ <;> exact hc (by simp [hform])
  · obtain rfl := (hmatch _).mp h
    simp at hc

end Patterns

/-! ## 2. Decisions -/

/-- The grant has the effect, and is about the capability of the principal. -/
def Grant.IsFor (effect : GrantEffect) (principal capability : String) (g : Grant) : Prop :=
  g.effect = effect ∧ g.principal = principal ∧ g.capability = capability

section Decisions

variable {engine : PolicyEngine} {principal capability scope : String}

/-- The first relevant grant of an effect, if there is one. -/
theorem find_effect (grants : List Grant) (effect : GrantEffect)
    (principal capability scope : String) :
    ((grants.filter fun g => g.principal = principal && g.capability = capability &&
        scopeMatches g.scope scope).find? (·.effect = effect)).isSome = true ↔
      ∃ g ∈ grants, g.IsFor effect principal capability ∧ scopeMatches g.scope scope = true := by
  rw [List.find?_isSome]
  constructor
  · rintro ⟨g, hg, heffect⟩
    obtain ⟨hg, hfor⟩ := List.mem_filter.mp hg
    simp only [Bool.and_eq_true, decide_eq_true_eq] at hfor heffect
    exact ⟨g, hg, ⟨heffect, hfor.1.1, hfor.1.2⟩, hfor.2⟩
  · rintro ⟨g, hg, ⟨heffect, hprincipal, hcapability⟩, hscope⟩
    refine ⟨g, List.mem_filter.mpr ⟨hg, ?_⟩, decide_eq_true heffect⟩
    simp [hprincipal, hcapability, hscope]

/-- **What is allowed**: some allow grant matches, and no deny grant. -/
theorem evaluate_allowed : (engine.evaluate principal capability scope).allowed = true ↔
    (∃ g ∈ engine.grants, g.IsFor .allow principal capability ∧
      scopeMatches g.scope scope = true) ∧
    ¬ ∃ g ∈ engine.grants, g.IsFor .deny principal capability ∧
      scopeMatches g.scope scope = true := by
  rw [← find_effect, ← find_effect]
  unfold PolicyEngine.evaluate
  dsimp only
  split
  · rename_i hdeny
    rw [hdeny]
    simp
  · rename_i hnone
    rw [hnone]
    split
    · rename_i hallow
      rw [hallow]
      simp
    · rename_i hallow
      rw [hallow]
      split_ifs <;> simp

end Decisions

/-! ## 3. Without a scope -/

/-- A change of the grants. -/
inductive GrantCall where
  | add (grant : Grant)
  | remove (id : String)

/-- An `addGrant` that throws leaves the engine as it is. -/
def PolicyEngine.change (engine : PolicyEngine) : GrantCall → PolicyEngine
  | .add grant =>
      match engine.addGrant grant with
      | .ok engine' => engine'
      | .error _ => engine
  | .remove id => engine.removeGrant id

/-- A check without a scope allows no more than a check with one. -/
def Restrictive (engine : PolicyEngine) (principal capability : String) : Prop :=
  (engine.evaluate principal capability "*").allowed = true →
    ∀ scope, (engine.evaluate principal capability scope).allowed = true

/-- No allow grant is wild, or some deny grant is; or nothing is denied and all is allowed. -/
def Uniform (grants : List Grant) (principal capability : String) : Prop :=
  (∀ g ∈ grants, g.IsFor .allow principal capability → ¬ Wild g.scope) ∨
  (∃ g ∈ grants, g.IsFor .deny principal capability ∧ Wild g.scope) ∨
  (∀ g ∈ grants, ¬ g.IsFor .deny principal capability) ∧
    ∀ scope, ∃ g ∈ grants, g.IsFor .allow principal capability ∧ scopeMatches g.scope scope = true

section Scopes

variable {engine : PolicyEngine} {principal capability : String}

/-- What a check without a scope allows. -/
theorem unscoped_allowed : (engine.evaluate principal capability "*").allowed = true ↔
    (∃ g ∈ engine.grants, g.IsFor .allow principal capability ∧ Wild g.scope) ∧
    ¬ ∃ g ∈ engine.grants, g.IsFor .deny principal capability ∧ Wild g.scope := by
  simp only [evaluate_allowed, scopeMatches_star]

/-- **The exact condition.** -/
theorem restrictive_iff :
    Restrictive engine principal capability ↔ Uniform engine.grants principal capability := by
  unfold Restrictive Uniform
  rw [unscoped_allowed]
  constructor
  · intro h
    by_cases hallow : ∃ g ∈ engine.grants, g.IsFor .allow principal capability ∧ Wild g.scope
    · by_cases hdeny : ∃ g ∈ engine.grants, g.IsFor .deny principal capability ∧ Wild g.scope
      · exact .inr (.inl hdeny)
      · have hscopes := h ⟨hallow, hdeny⟩
        refine .inr (.inr ⟨fun g hg hfor => ?_, fun s => (evaluate_allowed.mp (hscopes s)).1⟩)
        -- every deny grant matches some scope, and there it decides
        obtain ⟨s, hs⟩ := exists_scope g.scope
        exact (evaluate_allowed.mp (hscopes s)).2 ⟨g, hg, hfor, hs⟩
    · exact .inl fun g hg hfor hwild => hallow ⟨g, hg, hfor, hwild⟩
  · rintro (hnone | hdeny | ⟨hnone, hall⟩) ⟨⟨g, hg, hfor, hwild⟩, hfree⟩ s
    · exact absurd hwild (hnone g hg hfor)
    · exact absurd hdeny hfree
    · exact evaluate_allowed.mpr ⟨hall s, fun ⟨g, hg, hfor, _⟩ => hnone g hg hfor⟩

/-- All is allowed by a grant for "*" or "**", and as long as some character is in no scope by
    nothing else. -/
theorem allows_all_iff {grants : List Grant} {c : Char}
    (hc : ∀ g ∈ grants, g.IsFor .allow principal capability → c ∉ g.scope.toList) :
    (∀ scope, ∃ g ∈ grants, g.IsFor .allow principal capability ∧
      scopeMatches g.scope scope = true) ↔
    ∃ g ∈ grants, g.IsFor .allow principal capability ∧ (g.scope = "*" ∨ g.scope = "**") := by
  constructor
  · intro h
    obtain ⟨g, hg, hfor, hscope⟩ := h (String.singleton c)
    refine ⟨g, hg, hfor, Classical.byContradiction fun hother => ?_⟩
    obtain ⟨hone, htwo⟩ := not_or.mp hother
    exact not_scopeMatches_fresh (hc g hg hfor) hone htwo hscope
  · rintro ⟨g, hg, hfor, hwild⟩ s
    refine ⟨g, hg, hfor, ?_⟩
    rcases hwild with hone | htwo
    · rw [hone]
      rfl
    · rw [htwo]
      rfl

end Scopes

end AgentKernel
