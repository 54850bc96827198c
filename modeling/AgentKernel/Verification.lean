/-
  File:      AgentKernel/Verification.lean
  Subject:   Verdicts from checks and evidence (plugins/verification/src/verification-engine.ts,
             kernel/contracts/src/verification.ts and primitives.ts).
-/
import AgentKernel.Contracts.Events

namespace AgentKernel

/-- How an execution has ended. -/
inductive ResultStatus where
  | success | failure
  deriving DecidableEq

/-- The status, as payloads spell it. -/
def ResultStatus.text : ResultStatus → String
  | .success => "success"
  | .failure => "failure"

/-- What an execution gives back. -/
structure Result where
  status : ResultStatus
  output : Value
  evidence : List LedgerEvidence

/-- What a verification says. -/
inductive Verdict where
  | pending | passed | failed | unknown
  deriving DecidableEq

/-- The verdict, as payloads spell it. -/
def Verdict.text : Verdict → String
  | .pending => "PENDING"
  | .passed => "PASSED"
  | .failed => "FAILED"
  | .unknown => "UNKNOWN"

/-- One check. -/
structure VerificationCheck where
  id : String
  name : String
  verdict : Verdict
  evidence : Option (List LedgerEvidence) := none
  detail : Option String := none

/-- The checks together, with their verdict. -/
structure Verification where
  id : String
  target : String
  checks : List VerificationCheck
  evidence : List LedgerEvidence
  verdict : Verdict

/-- One failure fails all, and no check says nothing. -/
def deriveVerdict (checks : List VerificationCheck) : Verdict :=
  if checks.length = 0 then .unknown
  else if checks.any (·.verdict = .failed) then .failed
  else if checks.all (·.verdict = .passed) then .passed
  else .unknown

/-- `VerificationEngine.verify`: nothing passes without evidence. -/
def verify (id target : String) (checks : List VerificationCheck) : Verification :=
  let evidence := checks.flatMap fun c => c.evidence.getD []
  let derived := deriveVerdict checks
  let verdict := if derived = .passed ∧ evidence.length = 0 then .unknown else derived
  { id := id, target := target, checks := checks, evidence := evidence, verdict := verdict }

end AgentKernel
