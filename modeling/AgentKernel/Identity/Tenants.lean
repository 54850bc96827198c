/-
  File:      AgentKernel/Identity/Tenants.lean
  Subject:   What belongs to which organization in the identity aggregate
             (kernel/identity/src/identity-service.ts).

  Every call either throws, before anything is done, or adds one entry to one of the collections.
  Nothing is ever taken away or changed, so that whatever an entry refers to stays.

  * `call_spec`: every call, as the entry it adds or as nothing;
  * `Tenanted`: what every entry refers to, and in which organization;
  * **`tenants_isolated`**: tenancy, authentication and atomicity over every history;
  * **`authenticate_honours_iff`**: when authentication honours every expiry.
-/
import AgentKernel.Identity.IdentityService
import AgentKernel.Lib.Runs

namespace AgentKernel.Identity

open Lib

/-! ## 1. What a call adds -/

namespace IdentityService

/-- The entry that a call adds to the state. -/
inductive Adds (s : IdentityService) : IdentityState → Prop where
  | organization (o : Organization) (hid : o.id = s.newId) :
      Adds s { s.stateValue with organizations := s.stateValue.organizations ++ [o] }
  | user (u : User) (hid : u.id = s.newId)
      (horg : ∃ o ∈ s.stateValue.organizations, o.id = u.organizationId) :
      Adds s { s.stateValue with users := s.stateValue.users ++ [u] }
  | membership (m : Membership)
      (horg : ∃ o ∈ s.stateValue.organizations, o.id = m.organizationId)
      (huser : ∃ u ∈ s.stateValue.users, u.id = m.userId ∧ u.organizationId = m.organizationId) :
      Adds s { s.stateValue with memberships := s.stateValue.memberships ++ [m] }
  | session (x : Session) (hid : x.id = s.newId) (hactive : x.status = .active)
      (horg : ∃ o ∈ s.stateValue.organizations, o.id = x.organizationId)
      (huser : ∃ u ∈ s.stateValue.users, u.id = x.userId ∧ u.organizationId = x.organizationId)
      (hmember : s.activeMembership x.organizationId x.userId ≠ none) :
      Adds s { s.stateValue with sessions := s.stateValue.sessions ++ [x] }
  | token (t : TokenDescriptor) (hid : t.id = s.newId) (hrevoked : t.revokedAt = none)
      (hsession : ∃ x ∈ s.stateValue.sessions, x.id = t.sessionId ∧
        x.organizationId = t.organizationId ∧ x.userId = t.userId) :
      Adds s { s.stateValue with tokens := s.stateValue.tokens ++ [t] }

variable {s : IdentityService}

/-- What is found by its id. -/
theorem found {β : Type} {l : List β} {key : β → String} {id : String} {b : β}
    (h : l.find? (key · = id) = some b) : b ∈ l ∧ key b = id :=
  ⟨List.mem_of_find?_eq_some h, by simpa using List.find?_some h⟩

theorem requireOrganization_ok {id : String} {o : Organization}
    (h : s.requireOrganization id = .ok o) : o ∈ s.stateValue.organizations ∧ o.id = id := by
  unfold requireOrganization at h
  split at h
  · rename_i hfind
    cases h
    exact found hfind
  · cases h

theorem requireUser_ok {id : String} {u : User} (h : s.requireUser id = .ok u) :
    u ∈ s.stateValue.users ∧ u.id = id := by
  unfold requireUser at h
  split at h
  · rename_i hfind
    cases h
    exact found hfind
  · cases h

theorem requireSession_ok {id : String} {x : Session} (h : s.requireSession id = .ok x) :
    x ∈ s.stateValue.sessions ∧ x.id = id := by
  unfold requireSession at h
  split at h
  · rename_i hfind
    cases h
    exact found hfind
  · cases h

/-- What `append` leaves alone. -/
theorem assignRoles_same (actor : IdentityEventActor) (m : Membership) :
    (s.assignRoles actor m).options = s.options ∧ (s.assignRoles actor m).ids = s.ids ∧
      (s.assignRoles actor m).stateValue = s.stateValue := by
  unfold assignRoles
  induction m.roles generalizing s with
  | nil => exact ⟨rfl, rfl, rfl⟩
  | cons role roles ih => exact ih

/-- How a call ends: with an entry added, or thrown with nothing done. -/
inductive Ends {α : Type} (s : IdentityService) : IdentityService × Except IdentityError α → Prop
    where
  | added (s' : IdentityService) (a : α) (hoptions : s'.options = s.options)
      (hids : s'.ids = s.ids + 1) (h : Adds s s'.stateValue) : Ends s (s', .ok a)
  | thrown (error : IdentityError) : Ends s (s, .error error)

theorem Ends.map {α β : Type} {f : α → β} {result : IdentityService × Except IdentityError α}
    (h : Ends s result) : Ends s (result.1, result.2.map f) := by
  cases h with
  | added s' a hoptions hids h => exact .added s' (f a) hoptions hids h
  | thrown error => exact .thrown error

/-- An entry is put into the state as it was before the events. -/
theorem Ends.put {α : Type} {a : α} {s₁ : IdentityService} (put : IdentityState → IdentityState)
    (hsame : s₁.options = s.options ∧ s₁.ids = s.ids + 1 ∧ s₁.stateValue = s.stateValue)
    (h : Adds s (put s.stateValue)) :
    Ends s ({ s₁ with stateValue := put s₁.stateValue }, .ok a) := by
  refine .added _ a hsame.1 hsame.2.1 ?_
  dsimp only
  rw [hsame.2.2]
  exact h

/-- **Every call adds one entry, or throws with nothing done.** -/
theorem call_spec (s : IdentityService) (c : Call) : Ends s (s.call c) := by
  cases c with
  | createOrganization actor name =>
      exact .added _ _ rfl rfl (.organization _ rfl)
  | createUser actor email displayName =>
      refine Ends.map (show Ends s (s.createUser actor email displayName) from ?_)
      unfold createUser
      cases horg : s.requireOrganization actor.organizationId with
      | error error => exact .thrown error
      | ok o =>
          obtain ⟨ho, hid⟩ := requireOrganization_ok horg
          exact .added _ _ rfl rfl (.user _ rfl ⟨o, ho, hid⟩)
  | grantMembership actor userId roles =>
      refine Ends.map (show Ends s (s.grantMembership actor userId roles) from ?_)
      unfold grantMembership
      cases horg : s.requireOrganization actor.organizationId with
      | error error => exact .thrown error
      | ok o =>
          cases huser : s.requireUser userId with
          | error error => exact .thrown error
          | ok u =>
              obtain ⟨ho, hid⟩ := requireOrganization_ok horg
              obtain ⟨hu, huid⟩ := requireUser_ok huser
              dsimp only
              by_cases hcross : u.organizationId = actor.organizationId
              · rw [if_neg (not_not.mpr hcross)]
                let m : Membership :=
                  { id := s.newId, organizationId := actor.organizationId, userId := userId
                    roles := roles.eraseDups, status := .active, createdAt := s.time }
                refine .put (fun state => { state with memberships := state.memberships ++ [m] })
                  (assignRoles_same actor m) ?_
                exact .membership m ⟨o, ho, hid⟩ ⟨u, hu, huid, hcross⟩
              · rw [if_pos hcross]
                exact .thrown _
  | createSession actor userId expiresAt =>
      refine Ends.map (show Ends s (s.createSession actor userId expiresAt) from ?_)
      unfold createSession
      cases horg : s.requireOrganization actor.organizationId with
      | error error => exact .thrown error
      | ok o =>
          cases huser : s.requireUser userId with
          | error error => exact .thrown error
          | ok u =>
              obtain ⟨ho, hid⟩ := requireOrganization_ok horg
              obtain ⟨hu, huid⟩ := requireUser_ok huser
              dsimp only
              by_cases hcross : u.organizationId = actor.organizationId
              · rw [if_neg (not_not.mpr hcross)]
                cases hmember : s.activeMembership actor.organizationId userId with
                | none => exact .thrown _
                | some m =>
                    refine .added _ _ rfl rfl (.session _ rfl rfl ⟨o, ho, hid⟩
                      ⟨u, hu, huid, hcross⟩ ?_)
                    rw [hmember]
                    exact nofun
              · rw [if_pos hcross]
                exact .thrown _
  | issueToken actor sessionId secretRef expiresAt =>
      refine Ends.map (show Ends s (s.issueToken actor sessionId secretRef expiresAt) from ?_)
      unfold issueToken
      cases hsession : s.requireSession sessionId with
      | error error => exact .thrown error
      | ok x =>
          obtain ⟨hx, hid⟩ := requireSession_ok hsession
          dsimp only
          by_cases hcross : actor.organizationId = x.organizationId
          · rw [if_neg (not_not.mpr hcross)]
            exact .added _ _ rfl rfl (.token _ rfl rfl ⟨x, hx, hid, rfl, rfl⟩)
          · rw [if_pos hcross]
            exact .thrown _

end IdentityService

/-! ## 2. What an entry refers to -/

namespace IdentityState

variable (st : IdentityState)

/-- There is an organization of this id. -/
def HasOrganization (id : String) : Prop := ∃ o ∈ st.organizations, o.id = id

/-- A user of the organization. -/
def HasUser (organizationId userId : String) : Prop :=
  ∃ u ∈ st.users, u.id = userId ∧ u.organizationId = organizationId

/-- An active membership in the organization. -/
def HasMember (organizationId userId : String) : Prop :=
  ∃ m ∈ st.memberships, m.userId = userId ∧ m.organizationId = organizationId ∧ m.status = .active

/-- The session of a token, in its organization and of its user. -/
def HasSession (t : TokenDescriptor) : Prop :=
  ∃ x ∈ st.sessions, x.id = t.sessionId ∧ x.organizationId = t.organizationId ∧
    x.userId = t.userId

/-- Every entry refers to entries of its own organization. -/
structure Tenanted : Prop where
  users : ∀ u ∈ st.users, st.HasOrganization u.organizationId
  memberships : ∀ m ∈ st.memberships, st.HasOrganization m.organizationId ∧
    st.HasUser m.organizationId m.userId
  sessions : ∀ x ∈ st.sessions, st.HasOrganization x.organizationId ∧
    st.HasUser x.organizationId x.userId ∧ st.HasMember x.organizationId x.userId
  tokens : ∀ t ∈ st.tokens, st.HasOrganization t.organizationId ∧ st.HasSession t

/-- Nothing has been taken back. -/
structure Standing : Prop where
  sessions : ∀ x ∈ st.sessions, x.status = .active
  tokens : ∀ t ∈ st.tokens, t.revokedAt = none

/-- What `st` has, `st'` has too. -/
structure Kept (st st' : IdentityState) : Prop where
  organizations : st.organizations ⊆ st'.organizations
  users : st.users ⊆ st'.users
  memberships : st.memberships ⊆ st'.memberships
  sessions : st.sessions ⊆ st'.sessions

section Kept

variable {st st' : IdentityState} {organizationId userId : String}

theorem HasOrganization.kept (hk : Kept st st') (h : st.HasOrganization organizationId) :
    st'.HasOrganization organizationId := by
  obtain ⟨o, ho, hid⟩ := h
  exact ⟨o, hk.organizations ho, hid⟩

theorem HasUser.kept (hk : Kept st st') (h : st.HasUser organizationId userId) :
    st'.HasUser organizationId userId := by
  obtain ⟨u, hu, hid⟩ := h
  exact ⟨u, hk.users hu, hid⟩

theorem HasMember.kept (hk : Kept st st') (h : st.HasMember organizationId userId) :
    st'.HasMember organizationId userId := by
  obtain ⟨m, hm, hid⟩ := h
  exact ⟨m, hk.memberships hm, hid⟩

theorem HasSession.kept {t : TokenDescriptor} (hk : Kept st st') (h : st.HasSession t) :
    st'.HasSession t := by
  obtain ⟨x, hx, hid⟩ := h
  exact ⟨x, hk.sessions hx, hid⟩

end Kept

end IdentityState

namespace IdentityService

open IdentityState

variable {s s' : IdentityService} {st' : IdentityState} {c : Call}

theorem Adds.kept (h : Adds s st') : Kept s.stateValue st' := by
  cases h with
  | organization o => exact ⟨List.subset_append_left _ _, fun _ h => h, fun _ h => h, fun _ h => h⟩
  | user u => exact ⟨fun _ h => h, List.subset_append_left _ _, fun _ h => h, fun _ h => h⟩
  | membership m => exact ⟨fun _ h => h, fun _ h => h, List.subset_append_left _ _, fun _ h => h⟩
  | session x => exact ⟨fun _ h => h, fun _ h => h, fun _ h => h, List.subset_append_left _ _⟩
  | token t => exact ⟨fun _ h => h, fun _ h => h, fun _ h => h, fun _ h => h⟩

theorem hasMember_of_active {organizationId userId : String}
    (h : s.activeMembership organizationId userId ≠ none) :
    s.stateValue.HasMember organizationId userId := by
  obtain ⟨m, hm⟩ := Option.ne_none_iff_exists'.mp h
  have hfound := List.find?_some hm
  simp only [Bool.and_eq_true, decide_eq_true_eq] at hfound
  exact ⟨m, List.mem_of_find?_eq_some hm, hfound.1.1, hfound.1.2, hfound.2⟩

/-- **What an added entry refers to is there, and what the others refer to stays.** -/
theorem Adds.tenanted (ht : s.stateValue.Tenanted) (h : Adds s st') : st'.Tenanted := by
  have hk := h.kept
  -- the entries that were there before
  have husers : ∀ u ∈ s.stateValue.users, st'.HasOrganization u.organizationId :=
    fun u hu => (ht.users u hu).kept hk
  have hmemberships : ∀ m ∈ s.stateValue.memberships,
      st'.HasOrganization m.organizationId ∧ st'.HasUser m.organizationId m.userId :=
    fun m hm => ⟨(ht.memberships m hm).1.kept hk, (ht.memberships m hm).2.kept hk⟩
  have hsessions : ∀ x ∈ s.stateValue.sessions, st'.HasOrganization x.organizationId ∧
      st'.HasUser x.organizationId x.userId ∧ st'.HasMember x.organizationId x.userId :=
    fun x hx => ⟨(ht.sessions x hx).1.kept hk, (ht.sessions x hx).2.1.kept hk,
      (ht.sessions x hx).2.2.kept hk⟩
  have htokens : ∀ t ∈ s.stateValue.tokens,
      st'.HasOrganization t.organizationId ∧ st'.HasSession t :=
    fun t ht' => ⟨(ht.tokens t ht').1.kept hk, (ht.tokens t ht').2.kept hk⟩
  cases h with
  | organization o => exact ⟨husers, hmemberships, hsessions, htokens⟩
  | user u _ horg =>
      refine ⟨List.forall_mem_append.mpr ⟨husers, List.forall_mem_singleton.mpr ?_⟩, hmemberships,
        hsessions, htokens⟩
      exact HasOrganization.kept hk horg
  | membership m horg huser =>
      refine ⟨husers, List.forall_mem_append.mpr ⟨hmemberships, List.forall_mem_singleton.mpr ?_⟩,
        hsessions, htokens⟩
      exact ⟨HasOrganization.kept hk horg, HasUser.kept hk huser⟩
  | session x _ _ horg huser hmember =>
      refine ⟨husers, hmemberships,
        List.forall_mem_append.mpr ⟨hsessions, List.forall_mem_singleton.mpr ?_⟩, htokens⟩
      exact ⟨HasOrganization.kept hk horg, HasUser.kept hk huser,
        (hasMember_of_active hmember).kept hk⟩
  | token t _ _ hsession =>
      refine ⟨husers, hmemberships, hsessions,
        List.forall_mem_append.mpr ⟨htokens, List.forall_mem_singleton.mpr ?_⟩⟩
      obtain ⟨x, hx, hid, horg, huser⟩ := hsession
      exact ⟨horg ▸ (hsessions x hx).1, x, hk.sessions hx, hid, horg, huser⟩

theorem Adds.standing (ht : s.stateValue.Standing) (h : Adds s st') : st'.Standing := by
  cases h with
  | organization | user | membership => exact ⟨ht.sessions, ht.tokens⟩
  | session x _ hactive =>
      exact ⟨List.forall_mem_append.mpr ⟨ht.sessions, List.forall_mem_singleton.mpr hactive⟩,
        ht.tokens⟩
  | token t _ hrevoked =>
      exact ⟨ht.sessions,
        List.forall_mem_append.mpr ⟨ht.tokens, List.forall_mem_singleton.mpr hrevoked⟩⟩

/-! ## 3. Tenancy over every history -/

/-- Ids that `id()` has given, each once. -/
def Issued (s : IdentityService) (ids : List String) : Prop :=
  ids.Nodup ∧ ∀ id ∈ ids, ∃ i < s.ids, s.options.id i = id

/-- The ids of what is looked up by its id. -/
structure Keyed (s : IdentityService) : Prop where
  users : Issued s (s.stateValue.users.map (·.id))
  sessions : Issued s (s.stateValue.sessions.map (·.id))
  tokens : Issued s (s.stateValue.tokens.map (·.id))

section Keyed

variable {ids : List String}

theorem Issued.later (hoptions : s'.options = s.options) (hids : s'.ids = s.ids + 1)
    (h : Issued s ids) : Issued s' ids := by
  refine ⟨h.1, fun id hid => ?_⟩
  obtain ⟨i, hi, he⟩ := h.2 id hid
  exact ⟨i, by omega, by rw [hoptions, he]⟩

/-- A new id is no old one. -/
theorem Issued.snoc (hinj : Function.Injective s.options.id) (hoptions : s'.options = s.options)
    (hids : s'.ids = s.ids + 1) (h : Issued s ids) : Issued s' (ids ++ [s.newId]) := by
  have hnew : s.newId ∉ ids := by
    intro hmem
    obtain ⟨i, hi, he⟩ := h.2 _ hmem
    have hsame : i = s.ids := hinj he
    omega
  refine ⟨List.nodup_append.mpr ⟨h.1, List.pairwise_singleton _ _, ?_⟩, fun id hid => ?_⟩
  · intro a ha b hb
    rw [List.mem_singleton.mp hb]
    rintro rfl
    exact hnew ha
  · rcases List.mem_append.mp hid with hid | hid
    · exact (h.later hoptions hids).2 id hid
    · exact ⟨s.ids, by omega, by rw [hoptions, List.mem_singleton.mp hid, newId]⟩

theorem Adds.keyed (hinj : Function.Injective s.options.id) (hoptions : s'.options = s.options)
    (hids : s'.ids = s.ids + 1) (hk : Keyed s) (h : Adds s s'.stateValue) : Keyed s' := by
  have husers := hk.users.later hoptions hids
  have hsessions := hk.sessions.later hoptions hids
  have htokens := hk.tokens.later hoptions hids
  generalize hst : s'.stateValue = st at h
  cases h with
  | organization | membership =>
      exact ⟨by rw [hst]; exact husers, by rw [hst]; exact hsessions, by rw [hst]; exact htokens⟩
  | user u hid =>
      refine ⟨?_, by rw [hst]; exact hsessions, by rw [hst]; exact htokens⟩
      rw [hst, List.map_append, List.map_singleton, hid]
      exact hk.users.snoc hinj hoptions hids
  | session x hid =>
      refine ⟨by rw [hst]; exact husers, ?_, by rw [hst]; exact htokens⟩
      rw [hst, List.map_append, List.map_singleton, hid]
      exact hk.sessions.snoc hinj hoptions hids
  | token t hid =>
      refine ⟨by rw [hst]; exact husers, by rw [hst]; exact hsessions, ?_⟩
      rw [hst, List.map_append, List.map_singleton, hid]
      exact hk.tokens.snoc hinj hoptions hids

end Keyed

/-- **What a history keeps**, whatever `id()` gives. -/
theorem run_sound {options : IdentityServiceOptions} {calls : List Call}
    (h : Run step (fun _ _ => True) (create options) calls s) :
    s.options = options ∧ s.stateValue.Tenanted ∧ s.stateValue.Standing := by
  refine h.invariant (I := fun s =>
    s.options = options ∧ s.stateValue.Tenanted ∧ s.stateValue.Standing)
    ⟨rfl, ⟨nofun, nofun, nofun, nofun⟩, ⟨nofun, nofun⟩⟩ ?_
  intro s c s' ⟨hoptions, htenanted, hstanding⟩ _ hs
  have hends := call_spec s c
  rw [← Option.some.inj hs]
  generalize s.call c = out at hends ⊢
  cases hends with
  | added s' a hopts hids hadds =>
      exact ⟨hopts.trans hoptions, hadds.tenanted htenanted, hadds.standing hstanding⟩
  | thrown error => exact ⟨hoptions, htenanted, hstanding⟩

theorem run_keyed {options : IdentityServiceOptions} {calls : List Call}
    (hinj : Function.Injective options.id)
    (h : Run step (fun _ _ => True) (create options) calls s) : Keyed s := by
  have hnone : Issued (create options) [] := ⟨.nil, fun _ h => nomatch h⟩
  have hstart : Keyed (create options) := ⟨hnone, hnone, hnone⟩
  refine (h.invariant (I := fun s => s.options = options ∧ Keyed s) ⟨rfl, hstart⟩ ?_).2
  rintro s c s' ⟨rfl, hk⟩ - hs
  have hends := call_spec s c
  rw [← Option.some.inj hs]
  generalize s.call c = out at hends ⊢
  cases hends with
  | added s' a hopts hids hadds => exact ⟨hopts, hadds.keyed hinj hopts hids hk⟩
  | thrown error => exact ⟨rfl, hk⟩

/-- What authentication has found where it succeeds. -/
structure Found (s : IdentityService) (getTime : String → Option Int) (tokenId : String)
    (now : Int) (p : AuthenticatedPrincipal) (t : TokenDescriptor) (x : Session) (m : Membership) :
    Prop where
  token : s.stateValue.tokens.find? (·.id = tokenId) = some t
  revoked : revoked t = false
  session : s.stateValue.sessions.find? (·.id = t.sessionId) = some x
  status : x.status = .active
  unexpired : ∀ e, getTime x.expiresAt = some e → now < e
  membership : s.activeMembership t.organizationId t.userId = some m
  principal : p = { id := t.userId, organizationId := t.organizationId, sessionId := t.sessionId
                    tokenId := t.id, roles := m.roles, trust := .unknown }

theorem not_past_iff {getTime : String → Option Int} {now : Int} {x : Session} :
    ¬ (x.status ≠ .active ∨ (getTime x.expiresAt).any (· ≤ now) = true) ↔
      x.status = .active ∧ ∀ e, getTime x.expiresAt = some e → now < e := by
  cases getTime x.expiresAt <;> simp

/-- **When authentication succeeds, and with which principal.** -/
theorem authenticate_ok_iff {getTime : String → Option Int} {tokenId : String} {now : Int}
    {p : AuthenticatedPrincipal} : s.authenticate getTime tokenId now = .ok p ↔
      ∃ t x m, Found s getTime tokenId now p t x m := by
  constructor
  · intro h
    unfold authenticate requireSession at h
    cases htoken : s.stateValue.tokens.find? (·.id = tokenId) with
    | none =>
        rw [htoken] at h
        cases h
    | some t =>
        rw [htoken] at h
        dsimp only at h
        cases hrevoked : revoked t with
        | true =>
            rw [hrevoked, if_pos rfl] at h
            cases h
        | false =>
            rw [hrevoked, if_neg (by simp)] at h
            cases hsession : s.stateValue.sessions.find? (·.id = t.sessionId) with
            | none =>
                rw [hsession] at h
                cases h
            | some x =>
                rw [hsession] at h
                dsimp only at h
                by_cases hpast : x.status ≠ .active ∨ (getTime x.expiresAt).any (· ≤ now) = true
                · rw [if_pos hpast] at h
                  cases h
                · obtain ⟨hstatus, hunexpired⟩ := not_past_iff.mp hpast
                  rw [if_neg hpast] at h
                  cases hmember : s.activeMembership t.organizationId t.userId with
                  | none =>
                      rw [hmember] at h
                      cases h
                  | some m =>
                      rw [hmember] at h
                      exact ⟨t, x, m, htoken, hrevoked, hsession, hstatus, hunexpired, hmember,
                        (Except.ok.inj h).symm⟩
  · intro ⟨t, x, m, h⟩
    unfold authenticate requireSession
    rw [h.token]
    dsimp only
    rw [h.revoked, if_neg (by simp), h.session]
    dsimp only
    rw [if_neg (not_past_iff.mpr ⟨h.status, h.unexpired⟩), h.membership, h.principal]

/-- What is promised of the service. -/
structure Isolated (s : IdentityService) : Prop where
  tenanted : s.stateValue.Tenanted
  /-- So that an id stands for one user, and for one session. -/
  users : (s.stateValue.users.map (·.id)).Nodup
  sessions : (s.stateValue.sessions.map (·.id)).Nodup
  authenticated : ∀ getTime tokenId now p, s.authenticate getTime tokenId now = .ok p →
    s.stateValue.HasUser p.organizationId p.id ∧
    ∃ m ∈ s.stateValue.memberships, m.organizationId = p.organizationId ∧ m.userId = p.id ∧
      m.roles = p.roles
  atomic : ∀ c error, (s.call c).2 = .error error →
    (s.call c).1.stateValue = s.stateValue ∧ (s.call c).1.eventLog = s.eventLog

/-- **Tenancy of the aggregate, of authentication, and nothing half done**, after every history. -/
theorem tenants_isolated {options : IdentityServiceOptions} {calls : List Call}
    (hinj : Function.Injective options.id)
    (h : Run step (fun _ _ => True) (create options) calls s) : Isolated s := by
  obtain ⟨-, htenanted, -⟩ := run_sound h
  have hkeyed := run_keyed hinj h
  refine ⟨htenanted, hkeyed.users.1, hkeyed.sessions.1, fun getTime tokenId now p hp => ?_,
    fun c error hthrown => ?_⟩
  · obtain ⟨t, x, m, hfound⟩ := authenticate_ok_iff.mp hp
    obtain ⟨-, y, hy, -, horg, huser⟩ :=
      htenanted.tokens t (List.mem_of_find?_eq_some hfound.token)
    have hm := List.find?_some hfound.membership
    simp only [Bool.and_eq_true, decide_eq_true_eq] at hm
    rw [hfound.principal]
    refine ⟨?_, m, List.mem_of_find?_eq_some hfound.membership, hm.1.2, hm.1.1, rfl⟩
    have hhas := (htenanted.sessions y hy).2.1
    rw [horg, huser] at hhas
    exact hhas
  · have hends := call_spec s c
    generalize s.call c = out at hends hthrown ⊢
    cases hends with
    | added s' a => cases hthrown
    | thrown error => exact ⟨rfl, rfl⟩

/-! ## 4. Expiries -/

/-- A date later than `now`. -/
def Later (getTime : String → Option Int) (now : Int) (text : String) : Prop :=
  ∃ e, getTime text = some e ∧ now < e

/-- A date not later than `now`. -/
def Past (getTime : String → Option Int) (now : Int) (text : String) : Prop :=
  ∃ e, getTime text = some e ∧ e ≤ now

/-- Token, session and membership are good at the time `now`. -/
def InForce (s : IdentityService) (getTime : String → Option Int) (tokenId : String) (now : Int) :
    Prop :=
  ∃ t x, s.stateValue.tokens.find? (·.id = tokenId) = some t ∧ revoked t = false ∧
    Later getTime now t.expiresAt ∧
    s.stateValue.sessions.find? (·.id = t.sessionId) = some x ∧ x.status = .active ∧
    Later getTime now x.expiresAt ∧ s.activeMembership t.organizationId t.userId ≠ none

/-- A token of a session that is not past has not expired either, and neither has the session. -/
def ExpiriesAgree (s : IdentityService) (getTime : String → Option Int) (tokenId : String)
    (now : Int) : Prop :=
  ∀ t x, s.stateValue.tokens.find? (·.id = tokenId) = some t →
    s.stateValue.sessions.find? (·.id = t.sessionId) = some x →
    Past getTime now x.expiresAt ∨ Later getTime now t.expiresAt ∧ Later getTime now x.expiresAt

/-- What a history has put there, authentication finds. -/
theorem found_of_token {t : TokenDescriptor} (ht : s.stateValue.Tenanted)
    (hmem : t ∈ s.stateValue.tokens) :
    (∃ x, s.stateValue.sessions.find? (·.id = t.sessionId) = some x) ∧
      ∃ m, s.activeMembership t.organizationId t.userId = some m := by
  obtain ⟨-, x, hx, hid, horg, huser⟩ := ht.tokens t hmem
  obtain ⟨m, hm, hmuser, hmorg, hactive⟩ := (ht.sessions x hx).2.2
  refine ⟨Option.isSome_iff_exists.mp (List.find?_isSome.mpr ⟨x, hx, by simpa using hid⟩), ?_⟩
  refine Option.isSome_iff_exists.mp (List.find?_isSome.mpr ⟨m, hm, ?_⟩)
  simp [hmuser, hmorg, hactive, horg, huser]

/-- **Authentication honours every expiry just where the token's session is past, or token and
    session have both a date to come**; the token's own date is not looked at, and a text that is
    no date does not expire. -/
theorem authenticate_honours_iff {options : IdentityServiceOptions} {calls : List Call}
    (h : Run step (fun _ _ => True) (create options) calls s) (getTime : String → Option Int)
    (tokenId : String) (now : Int) :
    ((∃ p, s.authenticate getTime tokenId now = .ok p) → InForce s getTime tokenId now) ↔
      ExpiriesAgree s getTime tokenId now := by
  obtain ⟨-, htenanted, hstanding⟩ := run_sound h
  constructor
  · intro hhonours t x ht hx
    by_cases hpast : Past getTime now x.expiresAt
    · exact .inl hpast
    · have hmem := List.mem_of_find?_eq_some ht
      obtain ⟨-, m, hm⟩ := found_of_token htenanted hmem
      have hfound : Found s getTime tokenId now _ t x m :=
        { token := ht
          revoked := by rw [revoked, hstanding.tokens t hmem]; rfl
          session := hx
          status := hstanding.sessions x (List.mem_of_find?_eq_some hx)
          unexpired := fun e he => by
            by_contra hle
            exact hpast ⟨e, he, Int.not_lt.mp hle⟩
          membership := hm
          principal := rfl }
      obtain ⟨t', x', ht', -, hlater, hx', -, hlater', -⟩ :=
        hhonours ⟨_, authenticate_ok_iff.mpr ⟨t, x, m, hfound⟩⟩
      obtain rfl : t = t' := Option.some.inj (ht.symm.trans ht')
      obtain rfl : x = x' := Option.some.inj (hx.symm.trans hx')
      exact .inr ⟨hlater, hlater'⟩
  · intro hagree ⟨p, hp⟩
    obtain ⟨t, x, m, hfound⟩ := authenticate_ok_iff.mp hp
    rcases hagree t x hfound.token hfound.session with ⟨e, he, hle⟩ | ⟨hlater, hlater'⟩
    · exact absurd (hfound.unexpired e he) (Int.not_lt.mpr hle)
    · exact ⟨t, x, hfound.token, hfound.revoked, hlater, hfound.session, hfound.status, hlater',
        by rw [hfound.membership]; exact nofun⟩

/-! ## 5. A service in use -/

/-- One day, and ids of growing length. -/
def someOptions : IdentityServiceOptions where
  now _ := "2025-06-01T00:00:00.000Z"
  id n := String.ofList (List.replicate (n + 1) 'i')

theorem someOptions_injective : Function.Injective someOptions.id := by
  intro m n h
  have hlist := congrArg (fun text => text.toList.length) h
  simpa [someOptions] using hlist

/-- A user of an organization, with a session for long and a token for a short time. -/
def shortToken : List Call :=
  let actor : IdentityEventActor := { principalId := "bootstrap", organizationId := "i" }
  [.createOrganization { principalId := "bootstrap", organizationId := "pending" } "Acme",
    .createUser actor "user@example.com" "User", .grantMembership actor "ii" ["member"],
    .createSession actor "ii" "2999-01-01T00:00:00.000Z",
    .issueToken actor "iiii" { id := "vault:token", vault := "test", key := "token" }
      "2026-01-01T00:00:00.000Z"]

theorem tenants_isolated_shortToken : ∃ s,
    Run step (fun _ _ => True) (create someOptions) shortToken s ∧ Isolated s := by
  obtain ⟨s, hs⟩ := exists_run (fun s c => ⟨_, rfl⟩) (create someOptions) shortToken
  exact ⟨s, hs, tenants_isolated someOptions_injective hs⟩

/-- Two dates of these calls, in milliseconds. -/
def someDates (text : String) : Option Int :=
  if text = "2026-01-01T00:00:00.000Z" then some 1767225600000
  else if text = "2999-01-01T00:00:00.000Z" then some 32472144000000
  else none

theorem authenticate_honours_iff_shortToken : ∃ s,
    Run step (fun _ _ => True) (create someOptions) shortToken s ∧
    (((∃ p, s.authenticate someDates "iiiii" 1767225599999 = .ok p) →
        InForce s someDates "iiiii" 1767225599999) ↔
      ExpiriesAgree s someDates "iiiii" 1767225599999) := by
  obtain ⟨s, hs⟩ := exists_run (fun s c => ⟨_, rfl⟩) (create someOptions) shortToken
  exact ⟨s, hs, authenticate_honours_iff hs someDates "iiiii" 1767225599999⟩

/-- **A year later the token has expired, and still authenticates.** -/
theorem expired_token_authenticates : ∃ s p,
    Run step (fun _ _ => True) (create someOptions) shortToken s ∧
    s.authenticate someDates "iiiii" 1798761600000 = .ok p ∧
    ¬ InForce s someDates "iiiii" 1798761600000 := by
  obtain ⟨s, hs, h⟩ := Option.map_eq_some_iff.mp (show
    (exec step (create someOptions) shortToken).map (fun s =>
      ((s.authenticate someDates "iiiii" 1798761600000).toOption.map (·.roles),
        (s.stateValue.tokens.find? (·.id = "iiiii")).map (·.expiresAt))) =
      some (some ["member"], some "2026-01-01T00:00:00.000Z") by rfl)
  obtain ⟨hroles, htoken⟩ := Prod.mk.inj h
  have hrun : Run step (fun _ _ => True) (create someOptions) shortToken s :=
    run_of_exec (fun _ _ => trivial) hs
  cases hauth : s.authenticate someDates "iiiii" 1798761600000 with
  | error error =>
      rw [hauth] at hroles
      cases hroles
  | ok p =>
      refine ⟨s, p, hrun, hauth, ?_⟩
      intro ⟨t, x, ht, _, ⟨e, he, hlater⟩, _⟩
      rw [ht] at htoken
      have hdate : t.expiresAt = "2026-01-01T00:00:00.000Z" := Option.some.inj htoken
      rw [hdate] at he
      obtain rfl : 1767225600000 = e := Option.some.inj he
      exact absurd hlater (by decide)

end IdentityService

end AgentKernel.Identity
