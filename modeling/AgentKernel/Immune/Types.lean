/-
  File:      AgentKernel/Immune/Types.lean
  Subject:   The types of the immune layer (kernel/immune/src/types.ts).

  Counts are natural numbers. A detection is what the decisions read of it: its kind, its text and
  its weight.
-/
import AgentKernel.Contracts.Json

namespace AgentKernel.Immune

/-! ## 1. Levels and scores -/

/-- How alert the runtime is. -/
inductive ImmunityLevel where
  | green | yellow | orange | red | black
  deriving DecidableEq

/-- `IMMUNITY_ORDER`. -/
def ImmunityLevel.order : ImmunityLevel → Nat
  | .green => 0
  | .yellow => 1
  | .orange => 2
  | .red => 3
  | .black => 4

/-- The level, as decisions spell it. -/
def ImmunityLevel.text : ImmunityLevel → String
  | .green => "GREEN"
  | .yellow => "YELLOW"
  | .orange => "ORANGE"
  | .red => "RED"
  | .black => "BLACK"

/-- How bad it is. -/
inductive RiskSeverity where
  | low | medium | high | critical
  deriving DecidableEq

/-- The severity, as incidents spell it. -/
def RiskSeverity.text : RiskSeverity → String
  | .low => "LOW"
  | .medium => "MEDIUM"
  | .high => "HIGH"
  | .critical => "CRITICAL"

/-- What a detector can find. -/
inductive RiskReasonKind where
  | normalToolCall | unusualToolSequence | permissionEscalation | credentialMisuse
  | secretAccessAnomaly | ledgerTamperingAttempt | kernelIntegrityFailure | artifactTampering
  | promptInjection | toolPoisoning | memoryPoisoning | dependencyAnomaly | resourceExhaustion
  | repeatedFailure | unexpectedTransition | runawayLoop | usageVelocity | blastRadiusExceeded
  deriving DecidableEq

/-- `SIGNAL_WEIGHTS`. -/
def RiskReasonKind.weight : RiskReasonKind → Nat
  | .normalToolCall => 5
  | .unusualToolSequence => 30
  | .permissionEscalation => 60
  | .credentialMisuse => 80
  | .secretAccessAnomaly => 85
  | .ledgerTamperingAttempt => 95
  | .kernelIntegrityFailure => 100
  | .artifactTampering => 85
  | .promptInjection => 80
  | .toolPoisoning => 75
  | .memoryPoisoning => 70
  | .dependencyAnomaly => 75
  | .resourceExhaustion => 50
  | .repeatedFailure => 45
  | .unexpectedTransition => 55
  | .runawayLoop => 90
  | .usageVelocity => 90
  | .blastRadiusExceeded => 70

/-- One finding, with its weight. -/
structure Detection where
  kind : RiskReasonKind
  detail : String
  weight : Nat
  deriving DecidableEq

/-- The confidence is given in hundredths; the reasons are the detections. -/
structure RiskScore where
  score : Nat
  confidence : Nat
  reasons : List Detection
  severity : RiskSeverity
  deriving DecidableEq

/-! ## 2. Who asks -/

/-- Who acts. -/
inductive PrincipalType where
  | user | agent | runner | plugin | tool | model | service
  deriving DecidableEq

/-- How far a principal is trusted. -/
inductive TrustState where
  | unknown | suspicious | verified | trusted | quarantined | revoked
  deriving DecidableEq

/-- The trust, as details spell it. -/
def TrustState.text : TrustState → String
  | .unknown => "UNKNOWN"
  | .suspicious => "SUSPICIOUS"
  | .verified => "VERIFIED"
  | .trusted => "TRUSTED"
  | .quarantined => "QUARANTINED"
  | .revoked => "REVOKED"

/-- Who acts, as far as the gate looks. -/
structure Principal where
  id : String
  type : PrincipalType
  trust : TrustState
  deriving DecidableEq

/-- Where a text comes from. -/
inductive InputSource where
  | system | user | tool | repository | web | memory | model
  deriving DecidableEq

/-- The source, as details spell it. -/
def InputSource.text : InputSource → String
  | .system => "system"
  | .user => "user"
  | .tool => "tool"
  | .repository => "repository"
  | .web => "web"
  | .memory => "memory"
  | .model => "model"

/-- Where an input comes from. -/
structure InputOrigin where
  source : InputSource
  deriving DecidableEq

/-- `UNTRUSTED_SOURCES`. -/
def untrustedSources : List InputSource := [.tool, .repository, .web, .memory, .model]

/-! ## 3. What is observed -/

/-- What has changed about a dependency. -/
inductive DependencyDrift where
  | newTransitive | versionDrift | installScript | knownVulnerability | licenseChange
  | maintainerChange | networkDependency
  deriving DecidableEq

/-- The change, as details spell it. -/
def DependencyDrift.text : DependencyDrift → String
  | .newTransitive => "new_transitive"
  | .versionDrift => "version_drift"
  | .installScript => "install_script"
  | .knownVulnerability => "known_vulnerability"
  | .licenseChange => "license_change"
  | .maintainerChange => "maintainer_change"
  | .networkDependency => "network_dependency"

/-- A text that is read. -/
structure InputObservation where
  origin : InputOrigin
  text : String

/-- A text that a tool has given back. -/
structure ToolResult where
  origin : InputOrigin
  text : String
  toolId : String

/-- A text that is put into the memory. -/
structure MemoryWrite where
  origin : InputOrigin
  content : String
  actor : String

/-- An artifact, with the hash it should have and the one it has. -/
structure ArtifactHashes where
  id : String
  expectedHash : String
  actualHash : String

/-- What is known of a dependency. -/
structure Dependency where
  name : String
  drift : Option DependencyDrift := none
  knownVulnerability : Option Bool := none
  hasInstallScript : Option Bool := none
  version : Option String := none

/-- How much has been called in a while. -/
structure Usage where
  toolCalls : Nat
  modelCalls : Nat
  windowMs : Nat

/-- How deep a run goes, and how often it has failed. -/
structure RunStats where
  depth : Nat
  children : Nat
  retries : Nat

/-- A part of the kernel, with the hash it should have and the one it has. -/
structure IntegrityHashes where
  target : String
  expectedHash : String
  runtimeHash : String

/-- A transition that no machine allows. -/
structure UnexpectedTransition where
  source : String
  event : String

/-- All that a detector may be given; each part may be missing. -/
structure Observation where
  principal : Option Principal := none
  capability : Option String := none
  scope : Option String := none
  input : Option InputObservation := none
  toolResult : Option ToolResult := none
  memoryWrite : Option MemoryWrite := none
  artifact : Option ArtifactHashes := none
  dependency : Option Dependency := none
  usage : Option Usage := none
  runStats : Option RunStats := none
  integrity : Option IntegrityHashes := none
  repeatedFailures : Option Nat := none
  toolSequence : Option (List String) := none
  unexpectedTransition : Option UnexpectedTransition := none

/-! ## 4. Requests and decisions -/

/-- What an action could damage. -/
structure BlastRadius where
  repositories : List String
  paths : List String
  tools : List String
  networks : List String
  secrets : List String
  environments : List String

/-- How much lies within the reach of a request. -/
def blastRadiusScore : Option BlastRadius → Nat
  | none => 0
  | some radius =>
      let counts := [radius.repositories.length, radius.paths.length, radius.tools.length,
        radius.networks.length, radius.secrets.length, radius.environments.length]
      min 100 (counts.map (· * 10)).sum

/-- What the gate is asked. -/
structure ImmuneRequest where
  principal : Principal
  capability : String
  scope : Option String := none
  blastRadius : Option BlastRadius := none
  observation : Option Observation := none

/-- What the gate does about a request. -/
inductive ImmuneAction where
  | allow | monitor | restrict | quarantine | kill | block | approvalRequired
  deriving DecidableEq

/-- The action, as incidents spell it. -/
def ImmuneAction.text : ImmuneAction → String
  | .allow => "allow"
  | .monitor => "monitor"
  | .restrict => "restrict"
  | .quarantine => "quarantine"
  | .kill => "kill"
  | .block => "block"
  | .approvalRequired => "approval_required"

/-- What the gate answers. -/
structure ImmuneDecision where
  allowed : Bool
  action : ImmuneAction
  level : ImmunityLevel
  risk : RiskScore
  reasons : List String
  approvalRequired : Bool
  evidenceRequired : Bool
  deriving DecidableEq

/-- `DEFAULT_CASCADE`, of which the gate reads the threshold. -/
structure CascadeConfig where
  blastRadiusApprovalThreshold : Int := 1200

/-! ## 5. Texts -/

/-- `s.startsWith(start)`. -/
def startsWith (s start : String) : Bool := start.toList.isPrefixOf s.toList

/-- `s.includes(part)`. -/
def includes (s part : String) : Bool := s.toList.tails.any fun rest => part.toList.isPrefixOf rest

/-- Characters of at most `n` code units. -/
def takeUnits : Nat → List Char → List Char
  | _, [] => []
  | n, c :: cs =>
      if (utf16 c).length ≤ n then c :: takeUnits (n - (utf16 c).length) cs else []

/-- `s.slice(0, n)`. -/
def slice (n : Nat) (s : String) : String := String.ofList (takeUnits n s.toList)

/-- `texts.join('; ')`. -/
def joinReasons : List String → String
  | [] => ""
  | [text] => text
  | text :: more :: texts => text ++ "; " ++ joinReasons (more :: texts)

end AgentKernel.Immune
