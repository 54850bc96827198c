/-
  File:      AgentKernel/Identity/Roles.lean
  Subject:   The roles of a principal against the roles its events have assigned
             (kernel/identity/src/identity-service.ts `grantMembership`, `authenticate`).

  A grant adds a membership of its own and an event for each of its roles. Over every history the
  events are those of all memberships (`run_recorded`); authentication reads the first one.

  **`roles_recorded_iff`**: so the roles are the recorded ones just where the first membership of the
  user has every role of the later ones.
-/
import AgentKernel.Identity.Tenants

namespace AgentKernel.Identity

open Lib

/-! ## 1. Recorded roles -/

/-- The role an event assigns: in which organization, and to which user. -/
def IdentityEvent.assigned (e : IdentityEvent) : Option (String × String × String) :=
  match e.type, e.payload with
  | .roleAssigned, .membershipChanged _ organizationId userId (some role) =>
      some (organizationId, userId, role)
  | _, _ => none

/-- The roles a log speaks of, with whom they are for. -/
def recorded (log : List IdentityEvent) : List (String × String × String) :=
  log.filterMap IdentityEvent.assigned

/-- The roles of a membership, as its events record them. -/
def Membership.records (m : Membership) : List (String × String × String) :=
  m.roles.map fun role => (m.organizationId, m.userId, role)

/-- The memberships of a user in an organization, first to last. -/
def IdentityState.granted (st : IdentityState) (organizationId userId : String) : List Membership :=
  st.memberships.filter fun m => m.userId = userId && m.organizationId = organizationId

/-- The first membership of a user has every role of the later ones. -/
def FirstCovers (st : IdentityState) (organizationId userId : String) : Prop :=
  ∀ first rest, st.granted organizationId userId = first :: rest →
    ∀ m ∈ rest, m.roles ⊆ first.roles

namespace IdentityService

variable {s s' : IdentityService}

/-! ## 2. What a call grants -/

/-- A call grants nothing and records nothing, or grants a membership and records its roles. -/
inductive Grants (s s' : IdentityService) : Prop where
  | nothing (hm : s'.stateValue.memberships = s.stateValue.memberships)
      (hr : recorded s'.eventLog = recorded s.eventLog)
  | membership (m : Membership) (hactive : m.status = .active)
      (hm : s'.stateValue.memberships = s.stateValue.memberships ++ [m])
      (hr : recorded s'.eventLog = recorded s.eventLog ++ m.records)

theorem recorded_append (s : IdentityService) (type : IdentityEventType) (actor : IdentityEventActor)
    (payload : IdentityEventPayload) : recorded (s.append type actor payload).eventLog =
      recorded s.eventLog ++ (IdentityEvent.assigned ⟨type, s.time, actor, payload⟩).toList := by
  unfold append recorded
  rw [List.filterMap_append]
  cases h : IdentityEvent.assigned ⟨type, s.time, actor, payload⟩ <;> simp [h]

theorem recorded_assignRoles (actor : IdentityEventActor) (m : Membership) :
    ∀ (roles : List String) (s : IdentityService),
    recorded (roles.foldl (fun s role => s.append .roleAssigned actor
      (.membershipChanged m.id m.organizationId m.userId (some role))) s).eventLog =
      recorded s.eventLog ++ roles.map fun role => (m.organizationId, m.userId, role)
  | [], s => by simp
  | role :: roles, s => by
      rw [List.foldl_cons, recorded_assignRoles actor m roles, recorded_append, List.map_cons,
        List.append_assoc]
      rfl

/-- An entry that is no membership, with an event that assigns no role. -/
theorem Grants.other (s₁ : IdentityService) {type : IdentityEventType} {actor : IdentityEventActor}
    {payload : IdentityEventPayload} (h₁ : s₁.eventLog = s.eventLog)
    (hm : s'.stateValue.memberships = s.stateValue.memberships)
    (hlog : s'.eventLog = (s₁.append type actor payload).eventLog)
    (hnone : IdentityEvent.assigned ⟨type, s₁.time, actor, payload⟩ = none) : Grants s s' := by
  refine .nothing hm ?_
  rw [hlog, recorded_append, hnone, h₁]
  exact List.append_nil _

/-- **Every call grants nothing and records nothing, or records what it grants.** -/
theorem call_grants (s : IdentityService) (c : Call) : Grants s (s.call c).1 := by
  cases c with
  | createOrganization actor name => exact .other s.drawn rfl rfl rfl rfl
  | createUser actor email displayName =>
      refine (show Grants s (s.createUser actor email displayName).1 from ?_)
      unfold createUser
      cases s.requireOrganization actor.organizationId with
      | error error => exact .nothing rfl rfl
      | ok o => exact .other s.drawn rfl rfl rfl rfl
  | grantMembership actor userId roles =>
      refine (show Grants s (s.grantMembership actor userId roles).1 from ?_)
      unfold grantMembership
      cases s.requireOrganization actor.organizationId with
      | error error => exact .nothing rfl rfl
      | ok o =>
          cases s.requireUser userId with
          | error error => exact .nothing rfl rfl
          | ok u =>
              dsimp only
              split
              · exact .nothing rfl rfl
              · let m : Membership :=
                  { id := s.newId, organizationId := actor.organizationId, userId := userId
                    roles := roles.eraseDups, status := .active, createdAt := s.time }
                refine .membership m rfl ?_ ?_
                · exact congrArg (fun st => st.memberships ++ _) (assignRoles_same ..).2.2
                · exact (recorded_assignRoles ..).trans (congrArg (· ++ _)
                    ((recorded_append ..).trans (List.append_nil _)))
  | createSession actor userId expiresAt =>
      refine (show Grants s (s.createSession actor userId expiresAt).1 from ?_)
      unfold createSession
      cases s.requireOrganization actor.organizationId with
      | error error => exact .nothing rfl rfl
      | ok o =>
          cases s.requireUser userId with
          | error error => exact .nothing rfl rfl
          | ok u =>
              dsimp only
              split
              · exact .nothing rfl rfl
              · cases s.activeMembership actor.organizationId userId with
                | none => exact .nothing rfl rfl
                | some m => exact .other s.drawn rfl rfl rfl rfl
  | issueToken actor sessionId secretRef expiresAt =>
      refine (show Grants s (s.issueToken actor sessionId secretRef expiresAt).1 from ?_)
      unfold issueToken
      cases s.requireSession sessionId with
      | error error => exact .nothing rfl rfl
      | ok x =>
          dsimp only
          split
          · exact .nothing rfl rfl
          · exact .other s.drawn rfl rfl rfl rfl

/-! ## 3. Histories -/

/-- The events record the roles of the memberships, and every membership is active. -/
structure Recorded (s : IdentityService) : Prop where
  active : ∀ m ∈ s.stateValue.memberships, m.status = .active
  records : recorded s.eventLog = s.stateValue.memberships.flatMap Membership.records

theorem Recorded.grants (h : Recorded s) (hg : Grants s s') : Recorded s' := by
  cases hg with
  | nothing hm hr =>
      refine ⟨?_, ?_⟩
      · rw [hm]
        exact h.active
      · rw [hm, hr, h.records]
  | membership m hactive hm hr =>
      refine ⟨fun m' hm' => ?_, ?_⟩
      · rw [hm] at hm'
        rcases List.mem_append.mp hm' with hm' | hm'
        · exact h.active m' hm'
        · rw [List.mem_singleton.mp hm']
          exact hactive
      · rw [hm, hr, h.records, List.flatMap_append, List.flatMap_singleton]

/-- **After every history the events are those of the memberships.** -/
theorem run_recorded {options : IdentityServiceOptions} {calls : List Call}
    (h : Run step (fun _ _ => True) (create options) calls s) : Recorded s := by
  refine h.invariant (I := Recorded) ⟨fun m hm => absurd hm List.not_mem_nil, rfl⟩ ?_
  intro s c s' hI _ hs
  rw [← Option.some.inj hs]
  exact hI.grants (call_grants s c)

theorem Recorded.mem_iff (h : Recorded s) {organizationId userId role : String} :
    (organizationId, userId, role) ∈ recorded s.eventLog ↔
      ∃ m ∈ s.stateValue.granted organizationId userId, role ∈ m.roles := by
  rw [h.records, List.mem_flatMap]
  constructor
  · rintro ⟨m, hm, hmem⟩
    obtain ⟨role', hrole, heq⟩ := List.mem_map.mp hmem
    obtain ⟨rfl, rfl, rfl⟩ := by simpa using heq
    exact ⟨m, List.mem_filter.mpr ⟨hm, by simp⟩, hrole⟩
  · rintro ⟨m, hm, hrole⟩
    obtain ⟨hmem, hof⟩ := List.mem_filter.mp hm
    obtain ⟨rfl, rfl⟩ : m.userId = userId ∧ m.organizationId = organizationId := by simpa using hof
    exact ⟨m, hmem, List.mem_map_of_mem hrole⟩

/-- The active membership that authentication finds is the first one granted. -/
theorem Recorded.activeMembership (h : Recorded s) (organizationId userId : String) :
    s.activeMembership organizationId userId =
      (s.stateValue.granted organizationId userId).head? := by
  unfold IdentityService.activeMembership IdentityState.granted
  rw [List.head?_filter]
  refine List.find?_congr fun m hm => ?_
  rw [h.active m hm]
  exact Bool.and_true _

/-- **The roles of a principal are the recorded ones just where the first membership of the user
    has every role of the later ones.** -/
theorem roles_recorded_iff {options : IdentityServiceOptions} {calls : List Call}
    (h : Run step (fun _ _ => True) (create options) calls s) {getTime : String → Option Int}
    {tokenId : String} {now : Int} {t : TokenDescriptor} {p : AuthenticatedPrincipal}
    (ht : s.stateValue.tokens.find? (·.id = tokenId) = some t)
    (hp : s.authenticate getTime tokenId now = .ok p) :
    (∀ role, role ∈ p.roles ↔ (t.organizationId, t.userId, role) ∈ recorded s.eventLog) ↔
      FirstCovers s.stateValue t.organizationId t.userId := by
  have hrec := run_recorded h
  obtain ⟨t', x, m, hfound⟩ := authenticate_ok_iff.mp hp
  obtain rfl : t = t' := Option.some.inj (ht.symm.trans hfound.token)
  have hroles : p.roles = m.roles := by rw [hfound.principal]
  have hfirst := hfound.membership
  rw [hrec.activeMembership] at hfirst
  obtain ⟨rest, hgranted⟩ : ∃ rest, s.stateValue.granted t.organizationId t.userId = m :: rest :=
    ⟨_, (List.head?_eq_some_iff.mp hfirst).choose_spec⟩
  simp only [hrec.mem_iff, hgranted, hroles]
  constructor
  · intro hsame first rest' heq m' hm' role hrole
    obtain ⟨rfl, rfl⟩ := List.cons.inj (hgranted.symm.trans heq)
    exact (hsame role).mpr ⟨m', List.mem_cons_of_mem _ hm', hrole⟩
  · intro hcovers role
    refine ⟨fun hrole => ⟨m, List.mem_cons_self, hrole⟩, ?_⟩
    rintro ⟨m', hm', hrole⟩
    rcases List.mem_cons.mp hm' with rfl | hm'
    · exact hrole
    · exact hcovers m rest hgranted m' hm' hrole

/-- Of two grants to a user, with a session and a token in between, the first covers the second. -/
def coveredGrant : List Call :=
  let actor : IdentityEventActor := { principalId := "bootstrap", organizationId := "i" }
  [.createOrganization { principalId := "bootstrap", organizationId := "pending" } "Acme",
    .createUser actor "user@example.com" "User", .grantMembership actor "ii" ["member", "admin"],
    .createSession actor "ii" "2999-01-01T00:00:00.000Z",
    .issueToken actor "iiii" { id := "vault:token", vault := "test", key := "token" }
      "2026-01-01T00:00:00.000Z", .grantMembership actor "ii" ["admin"]]

theorem roles_recorded_iff_coveredGrant : ∃ s t p,
    Run step (fun _ _ => True) (create someOptions) coveredGrant s ∧
    s.stateValue.tokens.find? (·.id = "iiiii") = some t ∧
    s.authenticate someDates "iiiii" 0 = .ok p ∧
    (recorded s.eventLog).length = 3 ∧
    ∀ role, role ∈ p.roles ↔ (t.organizationId, t.userId, role) ∈ recorded s.eventLog := by
  obtain ⟨s, hs, h⟩ := Option.map_eq_some_iff.mp (show
    (exec step (create someOptions) coveredGrant).map (fun s =>
      ((s.authenticate someDates "iiiii" 0).toOption.isSome,
        (s.stateValue.tokens.find? (·.id = "iiiii")).map (fun t => (t.organizationId, t.userId)),
        (s.stateValue.granted "i" "ii").map (·.roles), (recorded s.eventLog).length)) =
      some (true, some ("i", "ii"), [["member", "admin"], ["admin"]], 3) by rfl)
  obtain ⟨hauth, h⟩ := Prod.mk.inj h
  obtain ⟨htoken, h⟩ := Prod.mk.inj h
  obtain ⟨hgranted, hlength⟩ := Prod.mk.inj h
  obtain ⟨t, ht, hof⟩ := Option.map_eq_some_iff.mp htoken
  obtain ⟨horg, huser⟩ := Prod.mk.inj hof
  have hrun : Run step (fun _ _ => True) (create someOptions) coveredGrant s :=
    run_of_exec (fun _ _ => trivial) hs
  cases hp : s.authenticate someDates "iiiii" 0 with
  | error error =>
      rw [hp] at hauth
      cases hauth
  | ok p =>
      refine ⟨s, t, p, hrun, ht, hp, hlength, (roles_recorded_iff hrun ht hp).mpr ?_⟩
      intro first rest heq m hm
      rw [horg, huser] at heq
      rw [heq] at hgranted
      obtain ⟨hfirst, hrest⟩ := List.cons.inj hgranted
      have hcovers : first.roles = ["member", "admin"] := hfirst
      have hroles : m.roles ∈ [["admin"]] := hrest ▸ List.mem_map_of_mem hm
      rw [hcovers, List.mem_singleton.mp hroles]
      decide

/-- A member, with a session and a token, is made an administrator. -/
def promotion : List Call :=
  shortToken ++ [.grantMembership { principalId := "bootstrap", organizationId := "i" } "ii" ["admin"]]

/-- **The token still authenticates a member.** -/
theorem promotion_without_effect : ∃ s t p,
    Run step (fun _ _ => True) (create someOptions) promotion s ∧
    s.stateValue.tokens.find? (·.id = "iiiii") = some t ∧
    s.authenticate someDates "iiiii" 0 = .ok p ∧
    (t.organizationId, t.userId, "admin") ∈ recorded s.eventLog ∧ "admin" ∉ p.roles := by
  obtain ⟨s, hs, h⟩ := Option.map_eq_some_iff.mp (show
    (exec step (create someOptions) promotion).map (fun s =>
      ((s.authenticate someDates "iiiii" 0).toOption.map (·.roles),
        (s.stateValue.tokens.find? (·.id = "iiiii")).map (fun t => (t.organizationId, t.userId)),
        recorded s.eventLog)) =
      some (some ["member"], some ("i", "ii"), [("i", "ii", "member"), ("i", "ii", "admin")]) by rfl)
  obtain ⟨hauth, h⟩ := Prod.mk.inj h
  obtain ⟨htoken, hlog⟩ := Prod.mk.inj h
  obtain ⟨t, ht, hof⟩ := Option.map_eq_some_iff.mp htoken
  obtain ⟨horg, huser⟩ := Prod.mk.inj hof
  have hrun : Run step (fun _ _ => True) (create someOptions) promotion s :=
    run_of_exec (fun _ _ => trivial) hs
  cases hp : s.authenticate someDates "iiiii" 0 with
  | error error =>
      rw [hp] at hauth
      cases hauth
  | ok p =>
      rw [hp] at hauth
      have hroles : p.roles = ["member"] := Option.some.inj hauth
      refine ⟨s, t, p, hrun, ht, hp, ?_, ?_⟩
      · rw [hlog, horg, huser]
        decide
      · rw [hroles]
        decide

end IdentityService

end AgentKernel.Identity
