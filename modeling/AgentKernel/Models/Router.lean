/-
  File:      AgentKernel/Models/Router.lean
  Subject:   Choosing a model for a requirement (plugins/models/src/router.ts,
             kernel/contracts/src/model.ts).

  The choice has the least score, and a score is one number: a rank of the provider weighs as much
  as a million milliseconds, or as a thousand dollars for a thousand tokens.

  **`preferred_provider_iff`**: so the best-ranked provider that can serve is chosen just where no
  model of a worse-ranked one is cheaper and faster by more than the ranks between them weigh.
-/
import AgentKernel.Lib.Doubles
import AgentKernel.Lib.Firsts

namespace AgentKernel.Models

open Lib

/-! ## 1. Models and requirements -/

/-- What a model is to do. -/
inductive TaskTypeHint where
  | planning | coding | review | research | summarization | extraction | vision | embedding
  deriving DecidableEq

/-- The task, as errors spell it. -/
def TaskTypeHint.text : TaskTypeHint → String
  | .planning => "planning"
  | .coding => "coding"
  | .review => "review"
  | .research => "research"
  | .summarization => "summarization"
  | .extraction => "extraction"
  | .vision => "vision"
  | .embedding => "embedding"

/-- What a model can do. -/
inductive ModelCapability where
  | completion | vision | toolUse | structuredOutput | embedding
  deriving DecidableEq

/-- A model, as its provider lists it. -/
structure ModelInfo where
  id : String
  providerId : String
  contextWindow : ℚ
  maxOutputTokens : ℚ
  supportsTools : Bool
  supportsStructuredOutput : Bool
  costPer1kInputUsd : ℚ
  costPer1kOutputUsd : ℚ
  latencyMs : ℚ
  capabilities : List ModelCapability
  deriving DecidableEq

/-- A provider; what `invoke` answers is the environment's. -/
structure ModelProvider where
  id : String
  models : List ModelInfo
  deriving DecidableEq

/-- An absent field is `none`. -/
structure RoutingRequirement where
  taskType : TaskTypeHint
  minContext : Option ℚ := none
  needsTools : Option Bool := none
  needsStructuredOutput : Option Bool := none
  maxCostPer1kInputUsd : Option ℚ := none
  maxLatencyMs : Option ℚ := none
  preferredProviders : Option (List String) := none

/-- No model will do. -/
structure NoModelAvailableError where
  taskType : TaskTypeHint

/-- The text of the error. -/
def NoModelAvailableError.message (e : NoModelAvailableError) : String :=
  "no model satisfies the routing requirement (taskType=" ++ e.taskType.text ++ ")"

/-! ## 2. The router -/

/-- The providers, in the order of their registration. -/
structure ModelRouter where
  providers : List ModelProvider := []

/-- `req.preferredProviders ?? []` -/
def RoutingRequirement.preferred (req : RoutingRequirement) : List String :=
  req.preferredProviders.getD []

/-- The rank of a model's provider: its place among the preferred ones, or their number. -/
def RoutingRequirement.providerRank (req : RoutingRequirement) (m : ModelInfo) : Nat :=
  if req.preferred.contains m.providerId then req.preferred.idxOf m.providerId
  else req.preferred.length

/-- The score in exact arithmetic. -/
def RoutingRequirement.score (req : RoutingRequirement) (m : ModelInfo) : ℚ :=
  req.providerRank m * 1000000 + m.costPer1kInputUsd * 1000 + m.latencyMs

/-- The score in the arithmetic of doubles: the product and the two sums are rounded. A rank is the
    place in an array, so that its product is a whole number below 2⁵³. -/
def RoutingRequirement.roundedScore (req : RoutingRequirement) (m : ModelInfo) : Double :=
  .plus m.latencyMs (.plus (req.providerRank m * 1000000) (nearest (m.costPer1kInputUsd * 1000)))

namespace ModelRouter

/-- One provider more, whether or not its id is there. -/
def registerProvider (r : ModelRouter) (p : ModelProvider) : ModelRouter :=
  { providers := r.providers ++ [p] }

/-- All models, provider by provider. -/
def discover (r : ModelRouter) : List ModelInfo := r.providers.flatMap (·.models)

/-- Five early returns, in the order of the source. -/
def satisfies (m : ModelInfo) (req : RoutingRequirement) : Bool :=
  if req.minContext.any (m.contextWindow < ·) then false
  else if req.needsTools == some true && !m.supportsTools then false
  else if req.needsStructuredOutput == some true && !m.supportsStructuredOutput then false
  else if req.maxCostPer1kInputUsd.any (· < m.costPer1kInputUsd) then false
  else if req.maxLatencyMs.any (· < m.latencyMs) then false
  else true

/-- The models that will do, in the order of discovery. -/
def candidates (r : ModelRouter) (req : RoutingRequirement) : List ModelInfo :=
  r.discover.filter (satisfies · req)

/-- `choose`, for costs and latencies whose scores need no rounding. -/
def choose (r : ModelRouter) (req : RoutingRequirement) : Except NoModelAvailableError ModelInfo :=
  match (sortOn req.score (r.candidates req)).head? with
  | none => .error { taskType := req.taskType }
  | some m => .ok m

/-- `choose`, for any costs and latencies. Two infinite scores of one sign differ by NaN, which the
    sort takes for no difference. -/
def chooseRounded (r : ModelRouter) (req : RoutingRequirement) :
    Except NoModelAvailableError ModelInfo :=
  match (sortOn req.roundedScore (r.candidates req)).head? with
  | none => .error { taskType := req.taskType }
  | some m => .ok m

end ModelRouter

/-! ## 3. What a requirement asks -/

/-- A model meets every constraint of the requirement. -/
structure Meets (m : ModelInfo) (req : RoutingRequirement) : Prop where
  context : ∀ c, req.minContext = some c → c ≤ m.contextWindow
  tools : req.needsTools = some true → m.supportsTools = true
  structured : req.needsStructuredOutput = some true → m.supportsStructuredOutput = true
  cost : ∀ c, req.maxCostPer1kInputUsd = some c → m.costPer1kInputUsd ≤ c
  latency : ∀ l, req.maxLatencyMs = some l → m.latencyMs ≤ l

/-- The models the router knows that meet the requirement. -/
def Eligible (r : ModelRouter) (req : RoutingRequirement) (m : ModelInfo) : Prop :=
  (∃ p ∈ r.providers, m ∈ p.models) ∧ Meets m req

/-- Cost and latency, on one scale. -/
def weight (m : ModelInfo) : ℚ := m.costPer1kInputUsd * 1000 + m.latencyMs

namespace ModelRouter

variable {r : ModelRouter} {req : RoutingRequirement} {m : ModelInfo}

theorem satisfies_iff : satisfies m req = true ↔ Meets m req := by
  unfold satisfies
  constructor
  · intro h
    split_ifs at h with hcontext htools hstructured hcost hlatency
    refine ⟨fun c hc => ?_, fun ht => ?_, fun ht => ?_, fun c hc => ?_, fun l hl => ?_⟩
    · simpa [hc] using hcontext
    · simpa [ht] using htools
    · simpa [ht] using hstructured
    · simpa [hc] using hcost
    · simpa [hl] using hlatency
  · intro h
    have hcontext : ¬req.minContext.any (m.contextWindow < ·) = true := by
      cases hc : req.minContext with
      | none => simp
      | some c => simpa using h.context c hc
    have htools : ¬(req.needsTools == some true && !m.supportsTools) = true := by
      simpa using h.tools
    have hstructured :
        ¬(req.needsStructuredOutput == some true && !m.supportsStructuredOutput) = true := by
      simpa using h.structured
    have hcost : ¬req.maxCostPer1kInputUsd.any (· < m.costPer1kInputUsd) = true := by
      cases hc : req.maxCostPer1kInputUsd with
      | none => simp
      | some c => simpa using h.cost c hc
    have hlatency : ¬req.maxLatencyMs.any (· < m.latencyMs) = true := by
      cases hl : req.maxLatencyMs with
      | none => simp
      | some l => simpa using h.latency l hl
    rw [if_neg hcontext, if_neg htools, if_neg hstructured, if_neg hcost, if_neg hlatency]

theorem mem_candidates : m ∈ r.candidates req ↔ Eligible r req m := by
  unfold candidates discover Eligible
  rw [List.mem_filter, satisfies_iff, List.mem_flatMap]

/-- **The choice is the first of the candidates with the least score.** -/
theorem choose_eq_ok_iff : r.choose req = .ok m ↔ FirstLeast req.score (r.candidates req) m := by
  rw [← head?_sortOn_iff]
  unfold choose
  cases (sortOn req.score (r.candidates req)).head? with
  | none => simp
  | some x => simp

/-- **So it is where the scores are rounded.** -/
theorem chooseRounded_eq_ok_iff :
    r.chooseRounded req = .ok m ↔ FirstLeast req.roundedScore (r.candidates req) m := by
  rw [← head?_sortOn_iff]
  unfold chooseRounded
  cases (sortOn req.roundedScore (r.candidates req)).head? with
  | none => simp
  | some x => simp

/-- Where no score of a candidate is rounded, the two choices are one. -/
theorem chooseRounded_eq_choose
    (h : ∀ x ∈ r.candidates req, req.roundedScore x = ((req.score x : WithTop ℚ) : Double)) :
    r.chooseRounded req = r.choose req := by
  have hsame : ∀ m, FirstLeast req.roundedScore (r.candidates req) m ↔
      FirstLeast req.score (r.candidates req) m := by
    intro m
    constructor
    · rintro ⟨front, back, hsplit, hfront, hback⟩
      refine ⟨front, back, hsplit, fun x hx => ?_, fun x hx => ?_⟩
      · have hlt := hfront x hx
        rw [h m (by simp [hsplit]), h x (by simp [hsplit, hx])] at hlt
        exact_mod_cast hlt
      · have hle := hback x hx
        rw [h m (by simp [hsplit]), h x (by simp [hsplit, hx])] at hle
        exact_mod_cast hle
    · rintro ⟨front, back, hsplit, hfront, hback⟩
      refine ⟨front, back, hsplit, fun x hx => ?_, fun x hx => ?_⟩
      · rw [h m (by simp [hsplit]), h x (by simp [hsplit, hx])]
        exact_mod_cast hfront x hx
      · rw [h m (by simp [hsplit]), h x (by simp [hsplit, hx])]
        exact_mod_cast hback x hx
  have hhead : (sortOn req.roundedScore (r.candidates req)).head? =
      (sortOn req.score (r.candidates req)).head? := by
    refine Option.ext fun m => ?_
    simp only [head?_sortOn_iff, hsame]
  unfold chooseRounded choose
  rw [hhead]

/-- It fails just where nothing is eligible. -/
theorem choose_eq_error_iff {e : NoModelAvailableError} :
    r.choose req = .error e ↔ r.candidates req = [] ∧ e = { taskType := req.taskType } := by
  have hperm := perm_sortOn req.score (r.candidates req)
  unfold choose
  cases hs : sortOn req.score (r.candidates req) with
  | nil =>
      have hnil : r.candidates req = [] := (hs ▸ hperm).nil_eq.symm
      simp [hnil, eq_comm]
  | cons x l =>
      have hne : r.candidates req ≠ [] := fun h => by
        have := hperm.length_eq
        rw [hs, h] at this
        cases this
      simp [hne]

theorem exists_choose (h : Eligible r req m) : ∃ c, r.choose req = .ok c := by
  cases hc : r.choose req with
  | ok c => exact ⟨c, rfl⟩
  | error e =>
      have hnil := (choose_eq_error_iff.mp hc).1
      exact absurd (hnil ▸ mem_candidates.mpr h) List.not_mem_nil

/-- Scores of whole numbers are not rounded. -/
theorem roundedScore_intCast {cost latency : ℤ} (hcost : m.costPer1kInputUsd * 1000 = cost)
    (hlatency : m.latencyMs = latency) (hsmall : |cost| < 2 ^ 53)
    (hsum : |req.providerRank m * 1000000 + cost| < 2 ^ 53)
    (htotal : |latency + (req.providerRank m * 1000000 + cost)| < 2 ^ 53) :
    req.roundedScore m = ((req.score m : WithTop ℚ) : Double) := by
  have hinner : Double.plus (req.providerRank m * 1000000) (nearest cost) =
      nearest ((req.providerRank m * 1000000 + cost : ℤ) : ℚ) := by
    rw [nearest_intCast hsmall]
    push_cast
    rfl
  have houter : Double.plus latency (((req.providerRank m * 1000000 + cost : ℤ) : ℚ) : WithTop ℚ) =
      nearest ((latency + (req.providerRank m * 1000000 + cost) : ℤ) : ℚ) := by
    push_cast
    rfl
  unfold RoutingRequirement.roundedScore RoutingRequirement.score
  rw [hcost, hlatency, hinner, nearest_intCast hsum, houter, nearest_intCast htotal]
  push_cast
  rw [add_comm]

/-! ## 4. Preferred providers -/

/-- What a difference of ranks weighs. -/
theorem score_le_iff {x y : ModelInfo} : req.score y ≤ req.score x ↔
    weight y ≤ weight x + 1000000 * ((req.providerRank x : ℚ) - req.providerRank y) := by
  unfold RoutingRequirement.score weight
  constructor <;> intro h <;> linarith

theorem score_lt_iff {x y : ModelInfo} : req.score y < req.score x ↔
    weight y < weight x + 1000000 * ((req.providerRank x : ℚ) - req.providerRank y) := by
  unfold RoutingRequirement.score weight
  constructor <;> intro h <;> linarith

/-- No candidate of a worse-ranked provider outweighs the better-ranked ones: one of them is
    heavier by no more than a million a rank, and by less where it is listed later. -/
def NotOutweighed (r : ModelRouter) (req : RoutingRequirement) : Prop :=
  ∀ front x back, r.candidates req = front ++ x :: back →
    (∃ y ∈ r.candidates req, req.providerRank y < req.providerRank x) →
    (∃ y ∈ front, req.providerRank y < req.providerRank x ∧
      weight y ≤ weight x + 1000000 * ((req.providerRank x : ℚ) - req.providerRank y)) ∨
    (∃ y ∈ back, req.providerRank y < req.providerRank x ∧
      weight y < weight x + 1000000 * ((req.providerRank x : ℚ) - req.providerRank y))

/-- **The choice is eligible and of the best rank, and made whenever anything is eligible, just
    where no candidate of a worse rank outweighs the better ones.** -/
theorem preferred_provider_iff (r : ModelRouter) (req : RoutingRequirement) :
    ((∀ m, r.choose req = .ok m → Eligible r req m ∧
        ∀ x, Eligible r req x → ¬req.providerRank x < req.providerRank m) ∧
      ∀ e, r.choose req = .error e → ∀ x, ¬Eligible r req x) ↔ NotOutweighed r req := by
  constructor
  · rintro ⟨hbest, -⟩ front x back hsplit ⟨y, hy, hyx⟩
    obtain ⟨c, hc⟩ := exists_choose (mem_candidates.mp hy)
    have hrank : req.providerRank c < req.providerRank x :=
      Nat.lt_of_le_of_lt (not_lt.mp ((hbest c hc).2 y (mem_candidates.mp hy))) hyx
    obtain ⟨before, after, hat, hbefore, hafter⟩ := choose_eq_ok_iff.mp hc
    -- the choice stands before the worse-ranked candidate, or after it
    rcases List.append_eq_append_iff.mp (hsplit.symm.trans hat) with
      ⟨gap, hgap, hrest⟩ | ⟨gap, hgap, hrest⟩
    · cases gap with
      | nil =>
          obtain ⟨rfl, -⟩ := List.cons.inj hrest
          exact absurd hrank (lt_irrefl _)
      | cons z gap =>
          obtain ⟨rfl, rfl⟩ := List.cons.inj hrest
          have hx : x ∈ before := by simp [hgap]
          exact .inr ⟨c, by simp, hrank, score_lt_iff.mp (hbefore x hx)⟩
    · cases gap with
      | nil =>
          obtain ⟨rfl, -⟩ := List.cons.inj hrest
          exact absurd hrank (lt_irrefl _)
      | cons z gap =>
          obtain ⟨rfl, rfl⟩ := List.cons.inj hrest
          exact .inl ⟨c, by simp [hgap], hrank, score_le_iff.mp (hafter x (by simp))⟩
  · intro h
    refine ⟨fun m hm => ?_, fun e he x hx => ?_⟩
    · have hfirst := choose_eq_ok_iff.mp hm
      refine ⟨mem_candidates.mp hfirst.mem, fun x hx hlt => ?_⟩
      obtain ⟨front, back, hsplit, hfront, hback⟩ := hfirst
      rcases h front m back hsplit ⟨x, mem_candidates.mpr hx, hlt⟩ with
        ⟨y, hy, -, hle⟩ | ⟨y, hy, -, hlt⟩
      · exact absurd (score_le_iff.mpr hle) (hfront y hy).not_ge
      · exact absurd (score_lt_iff.mpr hlt) (hback y hy).not_gt
    · obtain ⟨c, hc⟩ := exists_choose hx
      rw [hc] at he
      cases he

/-- Where every candidate weighs less than a rank, none is outweighed. -/
theorem notOutweighed_of_light (h : ∀ m, Eligible r req m → 0 ≤ weight m ∧ weight m < 1000000) :
    NotOutweighed r req := by
  rintro front x back hsplit ⟨y, hy, hyx⟩
  have hx : x ∈ r.candidates req := by simp [hsplit]
  have hlow := (h x (mem_candidates.mp hx)).1
  have hhigh := (h y (mem_candidates.mp hy)).2
  have hrank : (req.providerRank y : ℚ) + 1 ≤ req.providerRank x := by exact_mod_cast hyx
  have hlt : weight y < weight x + 1000000 * ((req.providerRank x : ℚ) - req.providerRank y) := by
    linarith
  rw [hsplit] at hy
  rcases List.mem_append.mp hy with hy | hy
  · exact .inl ⟨y, hy, hyx, hlt.le⟩
  · rcases List.mem_cons.mp hy with rfl | hy
    · exact absurd hyx (lt_irrefl _)
    · exact .inr ⟨y, hy, hyx, hlt⟩

/-! ## 5. A preferred provider that loses -/

/-- A model that costs nothing. -/
def freeModel (id providerId : String) (latencyMs : ℚ) : ModelInfo where
  id := id
  providerId := providerId
  contextWindow := 128000
  maxOutputTokens := 8000
  supportsTools := true
  supportsStructuredOutput := true
  costPer1kInputUsd := 0
  costPer1kOutputUsd := 0
  latencyMs := latencyMs
  capabilities := [.completion]

/-- The preferred provider takes a little over a quarter of an hour; the other one no time. -/
def slowPreferred : ModelRouter where
  providers := [{ id := "gemini", models := [freeModel "gemini-x" "gemini" 1000001] },
    { id := "local", models := [freeModel "tiny" "local" 0] }]

/-- Coding, with a provider that is preferred. -/
def codingOnGemini : RoutingRequirement where
  taskType := .coding
  preferredProviders := some ["gemini"]

/-- **The other one is chosen.** -/
theorem preferred_provider_loses : ∃ m x,
    slowPreferred.choose codingOnGemini = .ok m ∧ Eligible slowPreferred codingOnGemini x ∧
      codingOnGemini.providerRank x < codingOnGemini.providerRank m := by
  refine ⟨freeModel "tiny" "local" 0, freeModel "gemini-x" "gemini" 1000001, ?_, ?_, by decide⟩
  · refine choose_eq_ok_iff.mpr ⟨[freeModel "gemini-x" "gemini" 1000001], [], rfl, ?_, by simp⟩
    intro x hx
    rw [List.mem_singleton.mp hx, score_lt_iff,
      show codingOnGemini.providerRank (freeModel "tiny" "local" 0) = 1 by decide,
      show codingOnGemini.providerRank (freeModel "gemini-x" "gemini" 1000001) = 0 by decide]
    norm_num [weight, freeModel]
  · exact mem_candidates.mp (List.mem_cons_self ..)

end ModelRouter

end AgentKernel.Models
