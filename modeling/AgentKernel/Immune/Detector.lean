/-
  File:      AgentKernel/Immune/Detector.lean
  Subject:   From observations to detections (kernel/immune/src/detector.ts).

  `detect` runs thirteen checks, each on one part of the observation, and lists what they find in
  their order. A velocity is a double, so both of its divisions round.

  The texts name what was found; the decisions read the kind, the weight and, for a dependency, the
  text itself.
-/
import AgentKernel.Immune.Types
import AgentKernel.Lib.Doubles
import AgentKernel.Lib.Regex

namespace AgentKernel.Immune

open Lib Lib.Regex

/-! ## 1. Patterns -/

/-- `/\b…\b/i`. -/
def wholeWords (rs : List Regex) : Regex := cat ([boundary] ++ rs ++ [boundary])

/-- `(word\s+)?` -/
def optWord (word : String) : Regex := opt (cat [literal word, spaces])

/-- The texts that try to give instructions. -/
def injectionPatterns : List Regex :=
  [ wholeWords [literal "ignore", spaces, optWord "all", oneOf ["previous", "prior", "above"],
      spaces, literal "instructions"],
    wholeWords [literal "disregard", spaces, optWord "all", oneOf ["previous", "prior", "above"],
      spaces, literal "instructions"],
    wholeWords [literal "forget", spaces, oneOf ["everything", "all"], spaces, optWord "you",
      alt (literal "know") (cat [literal "were", spaces, literal "told"])],
    wholeWords [literal "you", spaces, literal "are", spaces, literal "now", spaces, optWord "the",
      oneOf ["system", "root", "admin", "sudo", "operator"]],
    cat [boundary, literal "system", many isSpace, literal "prompt", many isSpace,
      char fun c => c == ':' || c == '='],
    wholeWords [literal "developer", many isSpace, literal "mode"],
    wholeWords [literal "jailbreak"],
    wholeWords [literal "bypass", spaces, optWord "the",
      oneOf ["policy", "policy", "policies", "permission", "permissions", "capability",
        "capabilities", "immune", "safety", "security"]],
    wholeWords [literal "grant", spaces,
      alt (oneOf ["yourself", "me"]) (cat [literal "the", spaces, literal "user"]), spaces,
      oneOf ["admin", "root", "unrestricted", "full", "sudo"], spaces, literal "access"],
    wholeWords [literal "disable", spaces, optWord "your",
      oneOf ["safety", "security", "policy", "immune"]],
    wholeWords [literal "print", spaces, optWord "the",
      alt (cat [literal "system", spaces, literal "prompt"]) (oneOf ["instructions", "memory"])],
    wholeWords [literal "do", spaces, literal "anything", spaces,
      alt (cat [literal "the", spaces, literal "user", spaces, literal "asks"])
        (cat [literal "i", spaces, literal "say"])] ]

/-- The texts that claim a lasting privilege. -/
def claimPatterns : List Regex :=
  [ cat [boundary, oneOf ["always", "never"], spaces, literal "want", opt (literal "s"), spaces,
      literal "unrestricted", boundary],
    cat [boundary, oneOf ["always", "never"], spaces, literal "grant", opt (literal "s"), spaces,
      alt (literal "me") (cat [literal "the", spaces, literal "user"]), boundary] ]

/-- Capabilities that are privileged by name. -/
def privilegedCapabilities : List String := ["secret.read", "shell.execute", "git.push", "db.query"]

/-- Those that are by how the name begins. -/
def privilegedPrefixes : List String := ["deployment.", "deploy.", "admin.", "sudo.", "privileged."]

/-- Either of them. -/
def isPrivileged (capability : String) : Bool :=
  privilegedCapabilities.contains capability || privilegedPrefixes.any (startsWith capability)

/-! ## 2. Checks -/

/-- A finding has the weight of its kind. -/
def detection (kind : RiskReasonKind) (detail : String) : Detection :=
  { kind := kind, detail := detail, weight := kind.weight }

/-- A text from outside that tries to control the agent. -/
def detectPromptInjection (origin : InputOrigin) (text : String) : Option Detection :=
  if untrustedSources.contains origin.source && injectionPatterns.any (·.test text) then
    some (detection .promptInjection
      ("untrusted " ++ origin.source.text ++ " content contains override instructions"))
  else none

namespace Detector

/-- A tool gives back a text that wants to be obeyed. -/
def checkToolResult (result : ToolResult) : Option Detection :=
  (detectPromptInjection result.origin result.text).map fun _ =>
    detection .toolPoisoning
      ("tool '" ++ result.toolId ++ "' returned content that attempts to control the agent")

/-- Something is put into the memory that should not be there. -/
def checkMemoryWrite (origin : InputOrigin) (content actor : String) : Option Detection :=
  if untrustedSources.contains origin.source then
    some (detection .memoryPoisoning
      ("memory write by '" ++ actor ++ "' from untrusted " ++ origin.source.text ++ " source"))
  else if claimPatterns.any (·.test content) then
    some (detection .memoryPoisoning
      ("memory write asserts durable privilege: '" ++ slice 80 content ++ "…'"))
  else none

/-- Somebody without trust asks for a privilege. -/
def checkPrivilegeEscalation (principal : Principal) (capability : String) : Option Detection :=
  if isPrivileged capability && [TrustState.unknown, .suspicious, .revoked].contains principal.trust
  then
    some (detection .permissionEscalation ("'" ++ principal.id ++ "' (trust=" ++
      principal.trust.text ++ ") requested privileged '" ++ capability ++ "'"))
  else none

/-- Somebody without trust asks for a secret. -/
def checkSecretAccess (principal : Principal) (capability : String) : Option Detection :=
  if capability = "secret.read" ∧ principal.trust ≠ .trusted ∧ principal.trust ≠ .verified then
    some (detection .secretAccessAnomaly
      ("'" ++ principal.id ++ "' (" ++ principal.trust.text ++ ") requested secret.read"))
  else none

/-- An artifact is not what it should be. -/
def checkArtifact (artifact : ArtifactHashes) : Option Detection :=
  if artifact.expectedHash ≠ artifact.actualHash then
    some (detection .artifactTampering ("artifact '" ++ artifact.id ++ "' hash mismatch (expected " ++
      slice 8 artifact.expectedHash ++ "…, got " ++ slice 8 artifact.actualHash ++ "…)"))
  else none

/-- The kernel is not what it should be. -/
def checkIntegrity (integrity : IntegrityHashes) : Option Detection :=
  if integrity.expectedHash ≠ integrity.runtimeHash then
    some (detection .kernelIntegrityFailure ("integrity breach on '" ++ integrity.target ++ "'"))
  else none

/-- The weights are those of the drift, not of the kind. -/
def checkDependency (dep : Dependency) : Option Detection :=
  let mk (detail : String) (weight : Nat) : Option Detection :=
    some { kind := .dependencyAnomaly, detail := detail, weight := weight }
  if dep.knownVulnerability = some true ∨ dep.drift = some .knownVulnerability then
    mk ("dependency '" ++ dep.name ++ "' has a known vulnerability") 95
  else if dep.hasInstallScript = some true ∨ dep.drift = some .installScript then
    mk ("dependency '" ++ dep.name ++ "' declares an install script") 90
  else
    match dep.drift with
    | some .licenseChange => mk ("dependency '" ++ dep.name ++ "' drifted: license_change") 60
    | some .maintainerChange => mk ("dependency '" ++ dep.name ++ "' drifted: maintainer_change") 60
    | some .networkDependency =>
        mk ("dependency '" ++ dep.name ++ "' drifted: network_dependency") 40
    | some .newTransitive => mk ("dependency '" ++ dep.name ++ "' drifted: new_transitive") 40
    | some .versionDrift => mk ("dependency '" ++ dep.name ++ "' drifted: version_drift") 40
    | _ => none

/-- A run goes too deep, too wide, or too often. -/
def checkRunaway (runStats : RunStats) : List Detection :=
  (if runStats.depth > 5 then
    [detection .runawayLoop ("agent depth " ++ toString runStats.depth ++ " exceeds max 5")]
  else []) ++
  (if runStats.children > 10 then
    [detection .runawayLoop ("fan-out " ++ toString runStats.children ++ " exceeds max 10")]
  else []) ++
  if runStats.retries > 3 then
    [detection .runawayLoop ("retry budget " ++ toString runStats.retries ++ " exceeds max 3")]
  else []

/-- `x.toFixed(1)`, where `x` is not negative. -/
def toFixed1 (x : ℚ) : String :=
  let tenths := ⌊10 * x + 1 / 2⌋
  toString (tenths / 10) ++ "." ++ toString (tenths % 10)

/-- Too many calls in the window. -/
def checkUsageVelocity (usage : Usage) : Option Detection :=
  let seconds := max 1 (rounded (usage.windowMs / 1000))
  let toolVelocity := rounded (usage.toolCalls / seconds)
  let modelVelocity := rounded (usage.modelCalls / seconds)
  if toolVelocity > 10 then
    some (detection .usageVelocity
      ("tool-call velocity " ++ toFixed1 toolVelocity ++ "/s exceeds 10/s"))
  else if modelVelocity > 2 then
    some (detection .usageVelocity
      ("model-call velocity " ++ toFixed1 modelVelocity ++ "/s exceeds 2/s"))
  else none

/-- Three failures in a row. -/
def checkRepeatedFailures (failures : Nat) : Option Detection :=
  if failures ≥ 3 then
    some (detection .repeatedFailure (toString failures ++ " consecutive failures"))
  else none

/-- A privileged action after three others, or one action four times out of five. -/
def checkToolSequence : List String → Option Detection
  | [] => none
  | first :: rest =>
      let sequence := first :: rest
      let idx := sequence.findIdx isPrivileged
      let same := sequence.countP (· = first)
      if sequence.length < 4 then none
      else if idx < sequence.length ∧ idx ≥ 3 then
        some (detection .unusualToolSequence ("privileged '" ++ sequence.getD idx "" ++ "' after " ++
          toString idx ++ " preceding actions"))
      else if 10 * same ≥ 8 * sequence.length then
        some (detection .unusualToolSequence ("unusual repetition of '" ++ first ++ "' (" ++
          toString same ++ "/" ++ toString sequence.length ++ ")"))
      else none

/-- A transition that is not allowed. -/
def checkUnexpectedTransition (transition : UnexpectedTransition) : Detection :=
  detection .unexpectedTransition
    ("illegal transition '" ++ transition.event ++ "' from '" ++ transition.source ++ "'")

/-! ## 3. All checks -/

/-- The principal with a capability that is not the empty text. -/
def asks (obs : Observation) : Option (Principal × String) :=
  match obs.principal, obs.capability with
  | some principal, some capability => if capability ≠ "" then some (principal, capability) else none
  | _, _ => none

/-- All findings, in the order of the checks. -/
def detect (obs : Observation) : List Detection :=
  (obs.input.bind fun input => detectPromptInjection input.origin input.text).toList ++
  (obs.toolResult.bind checkToolResult).toList ++
  (obs.memoryWrite.bind fun w => checkMemoryWrite w.origin w.content w.actor).toList ++
  ((asks obs).bind fun a => checkPrivilegeEscalation a.1 a.2).toList ++
  ((asks obs).bind fun a => checkSecretAccess a.1 a.2).toList ++
  (obs.artifact.bind checkArtifact).toList ++
  (obs.integrity.bind checkIntegrity).toList ++
  (obs.dependency.bind checkDependency).toList ++
  (obs.runStats.elim [] checkRunaway) ++
  (obs.usage.bind checkUsageVelocity).toList ++
  (obs.repeatedFailures.bind checkRepeatedFailures).toList ++
  (obs.toolSequence.bind checkToolSequence).toList ++
  (obs.unexpectedTransition.map checkUnexpectedTransition).toList

end Detector

end AgentKernel.Immune
