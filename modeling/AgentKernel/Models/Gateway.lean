/-
  File:      AgentKernel/Models/Gateway.lean
  Subject:   Trying one model after another (plugins/models/src/gateway.ts).

  The gateway holds its providers by id, the router holds them in a list; a registration goes to
  both (`after_router`, `after_get`). An invocation calls the models of its plan in order, up to the
  first that answers (`invoke_cases`).

  * **`first_tried_iff`**: the first model tried is the router's choice just where the first model of
    the best rank has the least score as well.
  * **`falls_back_once_iff`**: no model is called twice, whoever fails, just where the router lists no
    eligible model twice.
-/
import AgentKernel.Models.Router
import AgentKernel.Contracts.Events

namespace AgentKernel.Models

open Lib

/-! ## 1. Requests and providers -/

/-- What a provider is paid with. -/
inductive ProviderCredentials where
  | byok (secretRef : SecretRef)
  | managed (plan : Option String)
  | none
  deriving DecidableEq

/-- What the gateway is asked. -/
structure GatewayRequest where
  requirement : RoutingRequirement
  input : Json
  credentials : Option ProviderCredentials := none

/-- What it answers. -/
structure GatewayResponse where
  provider : String
  modelId : String
  content : Json
  attempts : List String

/-- What it throws when all models have failed. -/
structure GatewayInvocationError where
  attempts : List String
  cause : String

/-- The text of the error. -/
def GatewayInvocationError.message (e : GatewayInvocationError) : String :=
  "all model gateway providers failed: " ++ ", ".intercalate e.attempts

/-- What a provider is asked: the fields of the input, and over them the model and the
    credentials. -/
structure ProviderRequest where
  input : Json
  model : String
  credentials : Option ProviderCredentials

/-- A call of a provider, for a model. -/
structure Invocation where
  provider : ModelProvider
  model : ModelInfo
  request : ProviderRequest

/-- What is called: a model of a provider. -/
def Invocation.called (c : Invocation) : String × String := (c.provider.id, c.model.id)

/-- A model, under the id of its provider. -/
def fullId (m : ModelInfo) : String × String := (m.providerId, m.id)

/-- The gateway; `providers` is a `Map`, read by key only. -/
structure ModelGateway where
  router : ModelRouter
  providers : List (String × ModelProvider) := []

namespace ModelGateway

/-- `this.providers.get(id)` -/
def get (g : ModelGateway) (id : String) : Option ModelProvider := g.providers.lookup id

/-- The provider takes the place of one with its id, while the router lists both. -/
def register (g : ModelGateway) (p : ModelProvider) : ModelGateway where
  providers := (p.id, p) :: g.providers.filter fun e => e.1 ≠ p.id
  router := g.router.registerProvider p

/-- `new ModelGateway(router, providers)` -/
def create (router : ModelRouter) (providers : List ModelProvider) : ModelGateway :=
  providers.foldl register { router }

/-! ## 2. Invocations -/

/-- The rank of a model, from `indexOf`, which is -1 for a provider that is not preferred. -/
def rankOf (req : RoutingRequirement) (m : ModelInfo) : Nat :=
  match req.preferred.idxOf? m.providerId with
  | none => req.preferred.length
  | some i => i

/-- The call for a model, when its provider is registered. -/
def invocation (g : ModelGateway) (request : GatewayRequest) (m : ModelInfo) : Option Invocation :=
  (g.get m.providerId).map fun p =>
    { provider := p, model := m,
      request := { input := request.input, model := m.id, credentials := request.credentials } }

/-- The loop over the candidates. A provider answers by the calls made so far, its own the last. -/
def attempt (g : ModelGateway) (request : GatewayRequest)
    (answer : List Invocation → Except String Json) (calls : List Invocation)
    (attempts : List String) (lastError : String) :
    List ModelInfo → List Invocation × Except GatewayInvocationError GatewayResponse
  | [] => (calls, .error { attempts, cause := lastError })
  | m :: rest =>
      match g.invocation request m with
      | none => g.attempt request answer calls attempts lastError rest
      | some c =>
          match answer (calls ++ [c]) with
          | .ok content =>
              (calls ++ [c], .ok { provider := m.providerId, modelId := m.id, content,
                                   attempts := attempts ++ [m.providerId] })
          | .error e =>
              g.attempt request answer (calls ++ [c]) (attempts ++ [m.providerId]) e rest

/-- The calls made, and the response or the error. -/
def invoke (g : ModelGateway) (request : GatewayRequest)
    (answer : List Invocation → Except String Json) :
    List Invocation × Except GatewayInvocationError GatewayResponse :=
  g.attempt request answer [] [] "no provider available"
    (sortOn (rankOf request.requirement) (g.router.candidates request.requirement))

/-- The calls an invocation makes when every one of them fails. -/
def plan (g : ModelGateway) (request : GatewayRequest) : List Invocation :=
  (sortOn (rankOf request.requirement) (g.router.candidates request.requirement)).filterMap
    (g.invocation request)

end ModelGateway

/-! ## 3. Registrations -/

/-- A provider is registered with the gateway, or with the router alone. -/
inductive Registration where
  | gateway (p : ModelProvider)
  | router (p : ModelProvider)

/-- The provider that is registered. -/
def Registration.provider : Registration → ModelProvider
  | .gateway p => p
  | .router p => p

/-- One registration, with the gateway or with its router. -/
def ModelGateway.step (g : ModelGateway) : Registration → ModelGateway
  | .gateway p => g.register p
  | .router p => { g with router := g.router.registerProvider p }

/-- The gateway over a router, after some registrations. -/
def ModelGateway.after (router : ModelRouter) (regs : List Registration) : ModelGateway :=
  regs.foldl ModelGateway.step { router }

/-- The providers the router knows then. -/
def known (router : ModelRouter) (regs : List Registration) : List ModelProvider :=
  router.providers ++ regs.map (·.provider)

/-- The ids of the providers registered with the gateway. -/
def held : List Registration → List String
  | [] => []
  | .gateway p :: regs => p.id :: held regs
  | .router _ :: regs => held regs

namespace ModelGateway

theorem create_eq_after (router : ModelRouter) (providers : List ModelProvider) :
    create router providers = after router (providers.map .gateway) := by
  unfold create after
  rw [List.foldl_map]
  rfl

variable {router : ModelRouter} {regs : List Registration} {g : ModelGateway}
  {request : GatewayRequest} {answer : List Invocation → Except String Json}

theorem foldl_router : ∀ (regs : List Registration) (g : ModelGateway),
    (regs.foldl step g).router.providers = g.router.providers ++ regs.map (·.provider)
  | [], g => (List.append_nil _).symm
  | reg :: regs, g => by
      rw [List.foldl_cons, foldl_router regs]
      cases reg <;> simp [step, register, ModelRouter.registerProvider, Registration.provider]

/-- **The router lists every registration.** -/
theorem after_router (router : ModelRouter) (regs : List Registration) :
    (after router regs).router.providers = known router regs := foldl_router regs _

/-- The key of a provider is its id. -/
def Keyed (g : ModelGateway) : Prop := ∀ e ∈ g.providers, e.1 = e.2.id

theorem Keyed.step (h : Keyed g) (reg : Registration) : Keyed (g.step reg) := by
  cases reg with
  | gateway p =>
      intro e he
      rcases List.mem_cons.mp he with rfl | he
      · rfl
      · exact h e (List.mem_of_mem_filter he)
  | router p => exact h

theorem Keyed.foldl : ∀ (regs : List Registration) {g : ModelGateway}, Keyed g →
    Keyed (regs.foldl ModelGateway.step g)
  | [], _, h => h
  | reg :: regs, _, h => Keyed.foldl regs (h.step reg)

theorem after_keyed (router : ModelRouter) (regs : List Registration) :
    Keyed (after router regs) := Keyed.foldl regs fun _ he => absurd he List.not_mem_nil

theorem Keyed.get (h : Keyed g) {id : String} {p : ModelProvider} (hp : g.get id = some p) :
    p.id = id := by
  obtain ⟨front, back, heq, -⟩ := List.lookup_eq_some_iff.mp hp
  exact (h (id, p) (by simp [heq])).symm

theorem isSome_get_iff {id : String} :
    (g.get id).isSome = true ↔ id ∈ g.providers.map (·.1) := by
  unfold ModelGateway.get
  rw [List.lookup_isSome_iff]
  simp

theorem isSome_foldl_iff {id : String} : ∀ (regs : List Registration) (g : ModelGateway),
    ((regs.foldl step g).get id).isSome = true ↔ (g.get id).isSome = true ∨ id ∈ held regs
  | [], g => by simp [held]
  | reg :: regs, g => by
      rw [List.foldl_cons, isSome_foldl_iff regs]
      cases reg with
      | gateway p =>
          have hstep : ((g.step (.gateway p)).get id).isSome = true ↔
              id = p.id ∨ (g.get id).isSome = true := by
            rw [isSome_get_iff, isSome_get_iff]
            by_cases hid : id = p.id
            · simp [step, register, hid]
            · simp [step, register, hid]
          rw [hstep, held, List.mem_cons]
          tauto
      | router p => rfl

/-- **The gateway has the providers registered with it.** -/
theorem after_get (router : ModelRouter) (regs : List Registration) (id : String) :
    ((after router regs).get id).isSome = true ↔ id ∈ held regs := by
  refine (isSome_foldl_iff regs _).trans ⟨?_, .inr⟩
  rintro (h | h)
  · cases h
  · exact h

/-! ## 4. A run of the loop -/

/-- The calls of the list, made in order after the others, all fail. -/
def AllFail (answer : List Invocation → Except String Json) (calls l : List Invocation) : Prop :=
  ∀ front c back, l = front ++ c :: back → ∃ e, answer (calls ++ front ++ [c]) = .error e

theorem AllFail.cons {calls l : List Invocation} {c : Invocation} {e : String}
    (he : answer (calls ++ [c]) = .error e) (h : AllFail answer (calls ++ [c]) l) :
    AllFail answer calls (c :: l) := by
  intro front d back heq
  cases front with
  | nil =>
      obtain ⟨rfl, -⟩ := List.cons.inj heq
      exact ⟨e, by simpa using he⟩
  | cons b front =>
      obtain ⟨rfl, rfl⟩ := List.cons.inj heq
      simpa using h front d back rfl

/-- How the loop over a plan ends, after some calls and attempts. -/
inductive Ran (answer : List Invocation → Except String Json) (calls plan : List Invocation)
    (attempts : List String) :
    List Invocation × Except GatewayInvocationError GatewayResponse → Prop where
  | answered (front back : List Invocation) (c : Invocation) (content : Json)
      (hplan : plan = front ++ c :: back) (hfail : AllFail answer calls front)
      (hok : answer (calls ++ front ++ [c]) = .ok content) :
      Ran answer calls plan attempts (calls ++ front ++ [c],
        .ok { provider := c.model.providerId, modelId := c.model.id, content
              attempts := attempts ++ (front ++ [c]).map (·.model.providerId) })
  | failed (cause : String) (hfail : AllFail answer calls plan) :
      Ran answer calls plan attempts (calls ++ plan,
        .error { attempts := attempts ++ plan.map (·.model.providerId), cause })

theorem Ran.cons {calls plan : List Invocation} {attempts : List String} {c : Invocation}
    {e : String} {r : List Invocation × Except GatewayInvocationError GatewayResponse}
    (he : answer (calls ++ [c]) = .error e)
    (h : Ran answer (calls ++ [c]) plan (attempts ++ [c.model.providerId]) r) :
    Ran answer calls (c :: plan) attempts r := by
  cases h with
  | answered front back d content hplan hfail hok =>
      have hran : Ran answer calls (c :: plan) attempts _ := .answered (c :: front) back d content
        (congrArg (c :: ·) hplan) (hfail.cons he) (by simpa using hok)
      simpa using hran
  | failed cause hfail =>
      have hran : Ran answer calls (c :: plan) attempts _ := .failed cause (hfail.cons he)
      simpa using hran

theorem invocation_model {m : ModelInfo} {c : Invocation} (h : g.invocation request m = some c) :
    c.model = m := by
  obtain ⟨p, -, rfl⟩ := Option.map_eq_some_iff.mp h
  rfl

/-- **The loop calls its plan in order, up to the first call that is answered.** -/
theorem attempt_ran : ∀ (ms : List ModelInfo) (calls : List Invocation) (attempts : List String)
    (lastError : String), Ran answer calls (ms.filterMap (g.invocation request)) attempts
      (g.attempt request answer calls attempts lastError ms)
  | [], calls, attempts, lastError => by
      have hran : Ran answer calls [] attempts _ :=
        .failed lastError fun front c back heq => by simp at heq
      simpa [attempt] using hran
  | m :: ms, calls, attempts, lastError => by
      have ih := attempt_ran ms
      unfold attempt
      cases hc : g.invocation request m with
      | none =>
          rw [List.filterMap_cons_none hc]
          exact ih calls attempts lastError
      | some c =>
          obtain rfl := invocation_model hc
          rw [List.filterMap_cons_some hc]
          dsimp only
          cases ha : answer (calls ++ [c]) with
          | ok content =>
              have hran : Ran answer calls (c :: ms.filterMap (g.invocation request)) attempts _ :=
                .answered [] _ c content rfl (fun front d back heq => by simp at heq)
                  (by simpa using ha)
              simpa using hran
          | error e => exact (ih (calls ++ [c]) (attempts ++ [c.model.providerId]) e).cons ha

theorem invoke_ran (g : ModelGateway) (request : GatewayRequest)
    (answer : List Invocation → Except String Json) :
    Ran answer [] (g.plan request) [] (g.invoke request answer) := attempt_ran ..

theorem Ran.head? {plan : List Invocation} {attempts : List String}
    {r : List Invocation × Except GatewayInvocationError GatewayResponse}
    (h : Ran answer [] plan attempts r) : r.1.head? = plan.head? := by
  cases h with
  | answered front back c content hplan hfail hok =>
      subst hplan
      cases front <;> rfl
  | failed cause hfail => rfl

/-! ## 5. The plan -/

/-- The rank by `indexOf` is the rank by `includes`. -/
theorem rankOf_eq (req : RoutingRequirement) : rankOf req = req.providerRank := by
  funext m
  unfold rankOf RoutingRequirement.providerRank
  have hidx := List.idxOf_eq_getD_idxOf? m.providerId req.preferred
  cases h : req.preferred.idxOf? m.providerId with
  | none =>
      have hnot : m.providerId ∉ req.preferred := List.idxOf?_eq_none_iff.mp h
      simp [hnot]
  | some i =>
      have hin : m.providerId ∈ req.preferred := by
        refine List.isSome_idxOf?.mp ?_
        rw [h]
        rfl
      rw [h, Option.getD_some] at hidx
      simp [hin, hidx]

theorem invocation_guard (m : ModelInfo) : (g.invocation request m).map (·.model) =
    Option.guard (fun m => (g.get m.providerId).isSome) m := by
  unfold invocation
  cases h : g.get m.providerId with
  | none => simp [Option.guard, h]
  | some p => simp [Option.guard, h]

/-- The models known to the router that satisfy the requirement and that the gateway can call. -/
def callable (router : ModelRouter) (regs : List Registration) (req : RoutingRequirement) :
    List ModelInfo :=
  ((known router regs).flatMap (·.models)).filter fun m =>
    ModelRouter.satisfies m req && (held regs).contains m.providerId

theorem mem_callable {req : RoutingRequirement} {m : ModelInfo} : m ∈ callable router regs req ↔
    Eligible (after router regs).router req m ∧ m.providerId ∈ held regs := by
  rw [← ModelRouter.mem_candidates]
  unfold callable ModelRouter.candidates ModelRouter.discover
  rw [after_router]
  simp [and_assoc]

theorem filter_candidates (router : ModelRouter) (regs : List Registration)
    (req : RoutingRequirement) : ((after router regs).router.candidates req).filter
      (fun m => (held regs).contains m.providerId) = callable router regs req := by
  unfold callable ModelRouter.candidates ModelRouter.discover
  rw [after_router, List.filter_filter]
  exact List.filter_congr fun m _ => Bool.and_comm _ _

/-- **The plan has the callable models, by rank.** -/
theorem plan_models (router : ModelRouter) (regs : List Registration) (request : GatewayRequest) :
    ((after router regs).plan request).map (·.model) =
      sortOn request.requirement.providerRank (callable router regs request.requirement) := by
  have hget : (fun m : ModelInfo => ((after router regs).get m.providerId).isSome) =
      fun m => (held regs).contains m.providerId := by
    funext m
    rw [Bool.eq_iff_iff, after_get]
    simp
  unfold plan
  rw [List.map_filterMap, funext invocation_guard, List.filterMap_eq_filter, filter_sortOn, hget,
    rankOf_eq, filter_candidates]

/-- A planned call is to the provider of its model. -/
theorem plan_provider {c : Invocation} (hc : c ∈ (after router regs).plan request) :
    c.provider.id = c.model.providerId := by
  obtain ⟨m, -, hm⟩ := List.mem_filterMap.mp hc
  obtain ⟨p, hp, rfl⟩ := Option.map_eq_some_iff.mp hm
  exact (after_keyed router regs).get hp

/-! ## 6. The first model tried -/

/-- Some candidate is called first and scores least: of the candidates that can be called none has
    a better rank, and those of its rank stand behind it; no candidate has a lower score, as the
    router computes it in doubles, and those of its score stand behind it. -/
def FirstOfBoth (router : ModelRouter) (regs : List Registration) (req : RoutingRequirement) : Prop :=
  ∃ front m back, (after router regs).router.candidates req = front ++ m :: back ∧
    m.providerId ∈ held regs ∧
    (∀ x ∈ front, (x.providerId ∈ held regs → req.providerRank m < req.providerRank x) ∧
      req.roundedScore m < req.roundedScore x) ∧
    ∀ x ∈ back, (x.providerId ∈ held regs → req.providerRank m ≤ req.providerRank x) ∧
      req.roundedScore m ≤ req.roundedScore x

theorem head?_calls (answer : List Invocation → Except String Json) :
    ((after router regs).invoke request answer).1.head?.map (·.model) =
      (sortOn request.requirement.providerRank
        (callable router regs request.requirement)).head? := by
  rw [(invoke_ran _ request answer).head?, ← List.head?_map, plan_models]

/-- **The first model tried is the router's choice just where one candidate is first for both.** -/
theorem first_tried_iff (router : ModelRouter) (regs : List Registration) (request : GatewayRequest)
    (answer : List Invocation → Except String Json) :
    (∃ m, (after router regs).router.chooseRounded request.requirement = .ok m ∧
      ((after router regs).invoke request answer).1.head?.map (·.model) = some m) ↔
    FirstOfBoth router regs request.requirement := by
  simp only [ModelRouter.chooseRounded_eq_ok_iff, head?_calls, head?_sortOn_iff, ← filter_candidates]
  have hpick : ∀ (m : ModelInfo) (back : List ModelInfo), m.providerId ∈ held regs →
      (m :: back).filter (fun m => (held regs).contains m.providerId) =
        m :: back.filter fun m => (held regs).contains m.providerId :=
    fun m back hm => List.filter_cons_of_pos (by simpa using hm)
  constructor
  · rintro ⟨m, ⟨front, back, hsplit, hfront, hback⟩, hfirst⟩
    have hheld : m.providerId ∈ held regs := by
      simpa using (List.mem_filter.mp hfirst.mem).2
    have hnot : m ∉ front := fun hm => lt_irrefl _ (hfront m hm)
    rw [hsplit, List.filter_append, hpick m back hheld,
      firstLeast_append_iff fun hm => hnot (List.mem_of_mem_filter hm)] at hfirst
    refine ⟨front, m, back, hsplit, hheld, fun x hx => ⟨fun h => ?_, ?_⟩, fun x hx => ⟨fun h => ?_, ?_⟩⟩
    · exact hfirst.1 x (List.mem_filter.mpr ⟨hx, by simpa using h⟩)
    · exact hfront x hx
    · exact hfirst.2 x (List.mem_filter.mpr ⟨hx, by simpa using h⟩)
    · exact hback x hx
  · rintro ⟨front, m, back, hsplit, hheld, hfront, hback⟩
    refine ⟨m, ⟨front, back, hsplit, fun x hx => (hfront x hx).2,
      fun x hx => (hback x hx).2⟩, ?_⟩
    rw [hsplit, List.filter_append, hpick m back hheld]
    refine ⟨_, _, rfl, fun x hx => ?_, fun x hx => ?_⟩
    · obtain ⟨hx, hin⟩ := List.mem_filter.mp hx
      exact (hfront x hx).1 (by simpa using hin)
    · obtain ⟨hx, hin⟩ := List.mem_filter.mp hx
      exact (hback x hx).1 (by simpa using hin)

/-! ## 7. Falling back -/

/-- No model is called twice, nothing after a success; the attempts are the providers called, and
    what is thrown is thrown after every callable model has failed. -/
structure FallsBackOnce (router : ModelRouter) (regs : List Registration) (request : GatewayRequest)
    (answer : List Invocation → Except String Json) (calls : List Invocation)
    (outcome : Except GatewayInvocationError GatewayResponse) : Prop where
  once : (calls.map Invocation.called).Nodup
  stops : ∀ front c d back, calls = front ++ c :: d :: back →
    ∃ e, answer (front ++ [c]) = .error e
  returned : ∀ response, outcome = .ok response →
    response.attempts = calls.map (·.provider.id) ∧
      ∃ front c, calls = front ++ [c] ∧ answer calls = .ok response.content ∧
        (response.provider, response.modelId) = c.called
  thrown : ∀ e, outcome = .error e →
    e.attempts = calls.map (·.provider.id) ∧ AllFail answer [] calls ∧
      ∀ m, Eligible (after router regs).router request.requirement m → m.providerId ∈ held regs →
        ∃ c ∈ calls, c.model = m

/-- No two entries of the callable models are the same model. -/
def ListedOnce (router : ModelRouter) (regs : List Registration) (req : RoutingRequirement) : Prop :=
  ((callable router regs req).map fullId).Nodup

theorem providers_eq {calls : List Invocation}
    (h : ∀ c ∈ calls, c ∈ (after router regs).plan request) :
    calls.map (·.model.providerId) = calls.map (·.provider.id) :=
  List.map_congr_left fun c hc => (plan_provider (h c hc)).symm

/-- The planned calls are those of the callable models, each as often as it is listed. -/
theorem plan_called (router : ModelRouter) (regs : List Registration) (request : GatewayRequest) :
    (((after router regs).plan request).map Invocation.called).Perm
      ((callable router regs request.requirement).map fullId) := by
  have hsame : ((after router regs).plan request).map Invocation.called =
      (((after router regs).plan request).map (·.model)).map fullId := by
    rw [List.map_map]
    exact List.map_congr_left fun c hc => congrArg (·, c.model.id) (plan_provider hc)
  rw [hsame, plan_models]
  exact (perm_sortOn _ _).map _

/-- Whoever fails, nothing is missing of a good fallback but that each model is called once. -/
theorem fallsBackOnce_of_nodup (answer : List Invocation → Except String Json)
    (h : ListedOnce router regs request.requirement) :
    FallsBackOnce router regs request answer ((after router regs).invoke request answer).1
      ((after router regs).invoke request answer).2 := by
  have hnodup : (((after router regs).plan request).map Invocation.called).Nodup :=
    (plan_called router regs request).nodup_iff.mpr h
  have hran := invoke_ran (after router regs) request answer
  cases hplan : (after router regs).invoke request answer with
  | mk calls outcome =>
      rw [hplan] at hran
      cases hran with
      | answered front back c content hsplit hfail hok =>
          have hsub : ∀ d ∈ front ++ [c], d ∈ (after router regs).plan request := by
            rw [hsplit]
            intro d hd
            simp only [List.mem_append, List.mem_cons, List.not_mem_nil, or_false] at hd ⊢
            tauto
          have hsublist : (front ++ [c]).Sublist ((after router regs).plan request) := by
            rw [hsplit, List.append_cons front c back]
            exact List.sublist_append_left _ _
          refine ⟨hnodup.sublist (hsublist.map _), ?_, ?_, fun e he => by cases he⟩
          · intro left d d' right heq
            have hlast : front = left ++ d :: (d' :: right).dropLast := by
              have := congrArg List.dropLast heq
              simpa using this
            simpa using hfail left d _ hlast
          · rintro response hresponse
            obtain rfl := Except.ok.inj hresponse
            refine ⟨?_, front, c, rfl, hok, ?_⟩
            · exact (List.nil_append _).trans (providers_eq hsub)
            · exact congrArg (·, c.model.id) (plan_provider (hsub c (by simp))).symm
      | failed cause hfail =>
          refine ⟨hnodup, ?_, fun _ hresponse => (by cases hresponse), ?_⟩
          · intro left d d' right heq
            exact hfail left d (d' :: right) heq
          · rintro e he
            obtain rfl := Except.error.inj he
            refine ⟨(List.nil_append _).trans (providers_eq fun _ hc => hc), hfail, ?_⟩
            intro m hm hheld
            have hin : m ∈ ((after router regs).plan request).map (·.model) := by
              rw [plan_models]
              exact (perm_sortOn _ _).mem_iff.mpr (mem_callable.mpr ⟨hm, hheld⟩)
            obtain ⟨c, hc, rfl⟩ := List.mem_map.mp hin
            exact ⟨c, hc, rfl⟩

/-- **Whoever fails, the gateway falls back without calling a model twice, just where the router
    lists no callable model twice.** -/
theorem falls_back_once_iff (router : ModelRouter) (regs : List Registration)
    (request : GatewayRequest) :
    (∀ answer, FallsBackOnce router regs request answer
      ((after router regs).invoke request answer).1 ((after router regs).invoke request answer).2) ↔
    ListedOnce router regs request.requirement := by
  refine ⟨fun h => ?_, fun h answer => fallsBackOnce_of_nodup answer h⟩
  -- when every call fails, the whole plan is called
  have hall := (h fun _ => .error "unavailable").once
  have hran := invoke_ran (after router regs) request fun _ => .error "unavailable"
  cases hplan : (after router regs).invoke request fun _ => .error "unavailable" with
  | mk calls outcome =>
      rw [hplan] at hran hall
      cases hran with
      | answered front back c content hsplit hfail hok => cases hok
      | failed cause hfail => exact (plan_called router regs request).nodup_iff.mp hall

/-! ## 8. Where they part -/

/-- A model for two dollars, at once. -/
def paidModel : ModelInfo :=
  { ModelRouter.freeModel "paid-1" "paid" 0 with costPer1kInputUsd := 2 }

/-- A provider of a model that costs something. -/
def paid : ModelProvider := { id := "paid", models := [paidModel] }

/-- A provider of one that does not. -/
def free : ModelProvider := { id := "free", models := [ModelRouter.freeModel "free-1" "free" 0] }

/-- A request without wishes. -/
def coding : GatewayRequest := { requirement := { taskType := .coding }, input := .null }

/-- The paid and the free model's scores are whole numbers. -/
theorem roundedScore_coding {x : ModelInfo}
    (hx : x ∈ [paidModel, ModelRouter.freeModel "free-1" "free" 0]) :
    coding.requirement.roundedScore x = ((coding.requirement.score x : WithTop ℚ) : Double) := by
  have hrank : coding.requirement.providerRank x = 0 := rfl
  simp only [List.mem_cons, List.not_mem_nil, or_false] at hx
  rcases hx with rfl | rfl
  · have hcost : paidModel.costPer1kInputUsd * 1000 = (2000 : ℤ) := by
      norm_num [paidModel, ModelRouter.freeModel]
    refine ModelRouter.roundedScore_intCast hcost (Int.cast_zero).symm (by norm_num) ?_ ?_ <;>
      rw [hrank] <;> norm_num
  · have hcost : (0 : ℚ) * 1000 = (0 : ℤ) := by norm_num
    refine ModelRouter.roundedScore_intCast hcost (Int.cast_zero).symm (by norm_num) ?_ ?_ <;>
      rw [hrank] <;> norm_num

/-- **A paid model, registered first, is tried before the free one the router chooses.** -/
theorem paid_before_free : ∃ m x,
    (create {} [paid, free]).router.chooseRounded coding.requirement = .ok m ∧
    (∀ answer, ((create {} [paid, free]).invoke coding answer).1.head?.map (·.model) = some x) ∧
    m ≠ x := by
  have hrank : ∀ m, coding.requirement.providerRank m = 0 := fun m => rfl
  refine ⟨ModelRouter.freeModel "free-1" "free" 0, paidModel, ?_, fun answer => ?_, by decide⟩
  · have hexact : (create {} [paid, free]).router.chooseRounded coding.requirement =
        (create {} [paid, free]).router.choose coding.requirement :=
      ModelRouter.chooseRounded_eq_choose fun x hx => roundedScore_coding hx
    rw [hexact]
    refine ModelRouter.choose_eq_ok_iff.mpr ⟨[paidModel], [], rfl, fun x hx => ?_, by simp⟩
    rw [List.mem_singleton.mp hx, ModelRouter.score_lt_iff, hrank, hrank]
    norm_num [weight, paidModel, ModelRouter.freeModel]
  · rw [create_eq_after, head?_calls, head?_sortOn_iff]
    exact ⟨[], [ModelRouter.freeModel "free-1" "free" 0], rfl, by simp, by simp [hrank]⟩

/-- **A provider registered again is called again.** -/
theorem registered_twice_called_twice :
    ¬FallsBackOnce {} [.gateway free, .gateway free] coding (fun _ => .error "unavailable")
      ((create {} [free, free]).invoke coding fun _ => .error "unavailable").1
      ((create {} [free, free]).invoke coding fun _ => .error "unavailable").2 := by
  intro h
  have hcalls : ((create {} [free, free]).invoke coding fun _ => .error "unavailable").1.map
      Invocation.called = [("free", "free-1"), ("free", "free-1")] := by rfl
  have honce := h.once
  rw [hcalls] at honce
  exact absurd honce (by decide)

end ModelGateway

end AgentKernel.Models
