/-
  File:      AgentKernel/Identity/IdentityService.lean
  Subject:   The identity aggregate in memory (kernel/identity/src/identity-service.ts, types.ts,
             events.ts).

  Organizations, users, memberships, sessions and tokens refer to each other by ids. `id()` and
  `now()` are the sequences of what they give, one after the other, and throw nothing. How a text is
  read as a date comes with the call that compares it.
-/
import AgentKernel.Contracts.Events

namespace AgentKernel.Identity

/-! ## 1. Types -/

/-- A tenant. -/
structure Organization where
  id : String
  name : String
  createdAt : String

/-- Whether a user may act. -/
inductive UserStatus where
  | active | suspended | deleted
  deriving DecidableEq

/-- A user of one organization. -/
structure User where
  id : String
  organizationId : String
  email : String
  displayName : String
  createdAt : String
  status : UserStatus

/-- Whether a membership counts. -/
inductive MembershipStatus where
  | active | suspended | revoked
  deriving DecidableEq

/-- The roles of a user in an organization. -/
structure Membership where
  id : String
  organizationId : String
  userId : String
  roles : List String
  status : MembershipStatus
  createdAt : String

/-- Whether a session counts. -/
inductive SessionStatus where
  | active | expired | revoked
  deriving DecidableEq

/-- A user is logged in, for a while. -/
structure Session where
  id : String
  organizationId : String
  userId : String
  status : SessionStatus
  createdAt : String
  expiresAt : String

/-- A token of a session. Its secret is in a vault. -/
structure TokenDescriptor where
  id : String
  sessionId : String
  organizationId : String
  userId : String
  secretRef : SecretRef
  issuedAt : String
  expiresAt : String
  revokedAt : Option String := none

/-- How far a principal is trusted. -/
inductive TrustLevel where
  | unknown | verified | trusted | revoked
  deriving DecidableEq

/-- Who stands behind a token. -/
structure AuthenticatedPrincipal where
  id : String
  organizationId : String
  sessionId : String
  tokenId : String
  roles : List String
  trust : TrustLevel

/-- All the tables. -/
structure IdentityState where
  organizations : List Organization
  users : List User
  memberships : List Membership
  sessions : List Session
  tokens : List TokenDescriptor

/-- Nobody and nothing. -/
def emptyState : IdentityState := ⟨[], [], [], [], []⟩

/-! ## 2. Events -/

/-- Who asks for a change, and for which organization. -/
structure IdentityEventActor where
  principalId : String
  organizationId : String
  sessionId : Option String := none

/-- The types of events that the service emits. -/
inductive IdentityEventType where
  | organizationCreated | userCreated | membershipGranted | roleAssigned | sessionCreated
  | tokenIssued
  deriving DecidableEq

/-- The type, as the log spells it. -/
def IdentityEventType.text : IdentityEventType → String
  | .organizationCreated => "identity.organization.created"
  | .userCreated => "identity.user.created"
  | .membershipGranted => "identity.membership.granted"
  | .roleAssigned => "identity.role.assigned"
  | .sessionCreated => "identity.session.created"
  | .tokenIssued => "identity.token.issued"

/-- What an event says; secrets are named, never given. -/
inductive IdentityEventPayload where
  | organizationCreated (organizationId name : String)
  | userCreated (userId organizationId email displayName : String)
  | membershipChanged (membershipId organizationId userId : String) (role : Option String)
  | sessionCreated (sessionId organizationId userId expiresAt : String)
  | tokenIssued (tokenId sessionId organizationId userId : String) (secretRef : SecretRef)
      (expiresAt : String)

/-- One entry of the log. -/
structure IdentityEvent where
  type : IdentityEventType
  occurredAt : String
  actor : IdentityEventActor
  payload : IdentityEventPayload

/-! ## 3. Errors -/

/-- What the service throws. -/
inductive IdentityError where
  | organizationNotFound (id : String)
  | userNotFound (id : String)
  | sessionNotFound (id : String)
  | crossTenantMembership
  | crossTenantSession
  | crossTenantAccess
  | membershipRequired
  | tokenRevokedOrUnknown
  | sessionExpiredOrRevoked
  deriving DecidableEq

/-- The text of what is thrown. -/
def IdentityError.message : IdentityError → String
  | .organizationNotFound id => "organization '" ++ id ++ "' not found"
  | .userNotFound id => "user '" ++ id ++ "' not found"
  | .sessionNotFound id => "session '" ++ id ++ "' not found"
  | .crossTenantMembership => "cross-tenant membership is denied"
  | .crossTenantSession => "cross-tenant session is denied"
  | .crossTenantAccess => "cross-tenant access is denied"
  | .membershipRequired => "active membership is required"
  | .tokenRevokedOrUnknown => "token is revoked or unknown"
  | .sessionExpiredOrRevoked => "session is expired or revoked"

/-! ## 4. The service -/

/-- What `now()` and `id()` give, call by call. -/
structure IdentityServiceOptions where
  now : Nat → String
  id : Nat → String

/-- The service, with its options and how much it has drawn from them. -/
structure IdentityService where
  options : IdentityServiceOptions
  /-- How often `now()` has been called. -/
  nows : Nat
  /-- How often `id()` has been called. -/
  ids : Nat
  stateValue : IdentityState
  eventLog : List IdentityEvent

namespace IdentityService

/-- A service without organizations. -/
def create (options : IdentityServiceOptions) : IdentityService where
  options := options
  nows := 0
  ids := 0
  stateValue := emptyState
  eventLog := []

variable (s : IdentityService)

/-- What `id()` gives next. -/
def newId : String := s.options.id s.ids

/-- What `now()` gives next. -/
def time : String := s.options.now s.nows

/-- After one call of `id()` and one of `now()`. -/
def drawn : IdentityService := { s with ids := s.ids + 1, nows := s.nows + 1 }

/-- The log grows by one event, which is of now. -/
def append (type : IdentityEventType) (actor : IdentityEventActor)
    (payload : IdentityEventPayload) : IdentityService :=
  { s with
    eventLog := s.eventLog ++
      [{ type := type, occurredAt := s.time, actor := actor, payload := payload }]
    nows := s.nows + 1 }

/-- The organization of this id, which has to be there. -/
def requireOrganization (id : String) : Except IdentityError Organization :=
  match s.stateValue.organizations.find? (·.id = id) with
  | some organization => .ok organization
  | none => .error (.organizationNotFound id)

/-- The user of this id, who has to be there. -/
def requireUser (id : String) : Except IdentityError User :=
  match s.stateValue.users.find? (·.id = id) with
  | some user => .ok user
  | none => .error (.userNotFound id)

/-- The session of this id, which has to be there. -/
def requireSession (id : String) : Except IdentityError Session :=
  match s.stateValue.sessions.find? (·.id = id) with
  | some session => .ok session
  | none => .error (.sessionNotFound id)

/-- The first active membership of a user in an organization. -/
def activeMembership (organizationId userId : String) : Option Membership :=
  s.stateValue.memberships.find? fun m =>
    m.userId = userId && m.organizationId = organizationId && m.status = .active

/-! ## 5. What changes the state -/

/-- A new organization. -/
def createOrganization (actor : IdentityEventActor) (name : String) :
    IdentityService × Except IdentityError Organization :=
  let organization : Organization := { id := s.newId, name := name, createdAt := s.time }
  let s := s.drawn.append .organizationCreated actor (.organizationCreated organization.id name)
  ({ s with stateValue := { s.stateValue with
      organizations := s.stateValue.organizations ++ [organization] } }, .ok organization)

/-- A new user of the actor's organization. -/
def createUser (actor : IdentityEventActor) (email displayName : String) :
    IdentityService × Except IdentityError User :=
  match s.requireOrganization actor.organizationId with
  | .error error => (s, .error error)
  | .ok _ =>
      let user : User :=
        { id := s.newId, organizationId := actor.organizationId, email := email
          displayName := displayName, createdAt := s.time, status := .active }
      let s := s.drawn.append .userCreated actor
        (.userCreated user.id user.organizationId email displayName)
      ({ s with stateValue := { s.stateValue with users := s.stateValue.users ++ [user] } },
        .ok user)

/-- An event for each role. -/
def assignRoles (actor : IdentityEventActor) (membership : Membership) : IdentityService :=
  membership.roles.foldl (fun s role => s.append .roleAssigned actor
    (.membershipChanged membership.id membership.organizationId membership.userId (some role))) s

/-- A new membership of a user of the actor's organization, with its roles. -/
def grantMembership (actor : IdentityEventActor) (userId : String) (roles : List String) :
    IdentityService × Except IdentityError Membership :=
  match s.requireOrganization actor.organizationId with
  | .error error => (s, .error error)
  | .ok _ =>
      match s.requireUser userId with
      | .error error => (s, .error error)
      | .ok user =>
          if user.organizationId ≠ actor.organizationId then (s, .error .crossTenantMembership)
          else
            let membership : Membership :=
              { id := s.newId, organizationId := actor.organizationId, userId := userId
                roles := roles.eraseDups, status := .active, createdAt := s.time }
            let s := s.drawn.append .membershipGranted actor
              (.membershipChanged membership.id membership.organizationId userId none)
            let s := s.assignRoles actor membership
            ({ s with stateValue := { s.stateValue with
                memberships := s.stateValue.memberships ++ [membership] } }, .ok membership)

/-- A new session of a user who has a membership. -/
def createSession (actor : IdentityEventActor) (userId expiresAt : String) :
    IdentityService × Except IdentityError Session :=
  match s.requireOrganization actor.organizationId with
  | .error error => (s, .error error)
  | .ok _ =>
      match s.requireUser userId with
      | .error error => (s, .error error)
      | .ok user =>
          if user.organizationId ≠ actor.organizationId then (s, .error .crossTenantSession)
          else
            match s.activeMembership actor.organizationId userId with
            | none => (s, .error .membershipRequired)
            | some _ =>
                let session : Session :=
                  { id := s.newId, organizationId := actor.organizationId, userId := userId
                    status := .active, createdAt := s.time, expiresAt := expiresAt }
                let s := s.drawn.append .sessionCreated actor
                  (.sessionCreated session.id session.organizationId session.userId expiresAt)
                ({ s with stateValue := { s.stateValue with
                    sessions := s.stateValue.sessions ++ [session] } }, .ok session)

/-- A new token of a session of the actor's organization, whatever has become of the session. -/
def issueToken (actor : IdentityEventActor) (sessionId : String) (secretRef : SecretRef)
    (expiresAt : String) : IdentityService × Except IdentityError TokenDescriptor :=
  match s.requireSession sessionId with
  | .error error => (s, .error error)
  | .ok session =>
      if actor.organizationId ≠ session.organizationId then (s, .error .crossTenantAccess)
      else
        let token : TokenDescriptor :=
          { id := s.newId, sessionId := sessionId, organizationId := session.organizationId
            userId := session.userId, secretRef := secretRef, issuedAt := s.time
            expiresAt := expiresAt }
        let s := s.drawn.append .tokenIssued actor
          (.tokenIssued token.id token.sessionId token.organizationId token.userId token.secretRef
            token.expiresAt)
        ({ s with stateValue := { s.stateValue with tokens := s.stateValue.tokens ++ [token] } },
          .ok token)

/-! ## 6. Authentication -/

/-- Whether `token.revokedAt` counts as true. -/
def revoked (token : TokenDescriptor) : Bool := token.revokedAt.any (· ≠ "")

/-- `authenticate` at the time `now`. A date is `none` where its text is none: it compares with
    nothing. -/
def authenticate (getTime : String → Option Int) (tokenId : String) (now : Int) :
    Except IdentityError AuthenticatedPrincipal :=
  match s.stateValue.tokens.find? (·.id = tokenId) with
  | none => .error .tokenRevokedOrUnknown
  | some token =>
      if revoked token then .error .tokenRevokedOrUnknown
      else
        match s.requireSession token.sessionId with
        | .error error => .error error
        | .ok session =>
            if session.status ≠ .active ∨ (getTime session.expiresAt).any (· ≤ now) then
              .error .sessionExpiredOrRevoked
            else
              match s.activeMembership token.organizationId token.userId with
              | none => .error .membershipRequired
              | some membership =>
                  .ok { id := token.userId, organizationId := token.organizationId
                        sessionId := token.sessionId, tokenId := token.id
                        roles := membership.roles, trust := .unknown }

end IdentityService

/-! ## 7. Calls -/

/-- The calls that change something. -/
inductive Call where
  | createOrganization (actor : IdentityEventActor) (name : String)
  | createUser (actor : IdentityEventActor) (email displayName : String)
  | grantMembership (actor : IdentityEventActor) (userId : String) (roles : List String)
  | createSession (actor : IdentityEventActor) (userId expiresAt : String)
  | issueToken (actor : IdentityEventActor) (sessionId : String) (secretRef : SecretRef)
      (expiresAt : String)

/-- What they give back. -/
inductive Answer where
  | organization (o : Organization)
  | user (u : User)
  | membership (m : Membership)
  | session (x : Session)
  | token (t : TokenDescriptor)

namespace IdentityService

/-- One call. -/
def call (s : IdentityService) : Call → IdentityService × Except IdentityError Answer
  | .createOrganization actor name =>
      let (s, result) := s.createOrganization actor name
      (s, result.map .organization)
  | .createUser actor email displayName =>
      let (s, result) := s.createUser actor email displayName
      (s, result.map .user)
  | .grantMembership actor userId roles =>
      let (s, result) := s.grantMembership actor userId roles
      (s, result.map .membership)
  | .createSession actor userId expiresAt =>
      let (s, result) := s.createSession actor userId expiresAt
      (s, result.map .session)
  | .issueToken actor sessionId secretRef expiresAt =>
      let (s, result) := s.issueToken actor sessionId secretRef expiresAt
      (s, result.map .token)

/-- Every call leads to a state, also one that throws. -/
def step (s : IdentityService) (c : Call) : Option IdentityService := some (s.call c).1

end IdentityService

end AgentKernel.Identity
