/-
  File:      AgentKernel/Apps/RunRequest.lean
  Subject:   What the API server and the worker ask of a request to run a task, and what they tell
             of its outcome (apps/api/src/routes/run.ts, apps/worker/src/index.ts).

  * `parseRunRequest`: the task of a body, trimmed;
  * `publicOutcome`: the outcome that is sent; its parts have a text of JSON when the results have
    one;
  * `errorStatus`: what the two services make of the text of an error.
-/
import AgentKernel.Runner.SmokeRunner
import AgentKernel.Runner.Records

namespace AgentKernel.Apps

open Runner

/-! ## 1. The task of a body -/

/-- `typeof body === 'object' && 'task' in body && typeof body.task === 'string'`. -/
def taskOf : Json → Option String
  | .obj fields =>
      match fields.lookup "task" with
      | some (.str task) => some task
      | _ => none
  | _ => none

/-- The task of a body, or what is wrong with it. -/
def parseRunRequest (body : Json) : Except String String :=
  match taskOf body with
  | none => .error "request body must contain a string task"
  | some task =>
      let task := String.ofList (Lib.Regex.trim task.toList)
      if task = "" then .error "task must not be empty" else .ok task

/-- The status of an error, by the beginning of its text. -/
def errorStatus (message : String) : Nat :=
  if Immune.startsWith message "request body" || Immune.startsWith message "task " then 400 else 500

theorem errorStatus_ne (message : String) : errorStatus message ≠ 200 := by
  unfold errorStatus
  split_ifs <;> decide

theorem parseRunRequest_error {body : Json} {message : String}
    (h : parseRunRequest body = .error message) : errorStatus message = 400 := by
  unfold parseRunRequest at h
  split at h
  · cases h
    decide
  · dsimp only at h
    split_ifs at h
    cases h
    decide

/-! ## 2. The outcome -/

/-- A result as a payload. -/
def resultValue (r : Result) : Value :=
  .obj [("status", .str r.status.text), ("output", r.output),
    ("evidence", LocalRunner.evidenceValue r.evidence)]

/-- A check as a payload. -/
def checkValue (c : VerificationCheck) : Value :=
  .obj [("id", .str c.id), ("name", .str c.name), ("verdict", .str c.verdict.text),
    ("evidence", (c.evidence.map LocalRunner.evidenceValue).getD .undefined),
    ("detail", (c.detail.map Value.str).getD .undefined)]

/-- A verification as a payload. -/
def verificationValue (v : Verification) : Value :=
  .obj [("id", .str v.id), ("target", .str v.target), ("checks", .arr (v.checks.map checkValue)),
    ("evidence", LocalRunner.evidenceValue v.evidence), ("verdict", .str v.verdict.text)]

/-- Results as a payload. -/
def resultsValue (results : List Result) : Value := .arr (results.map resultValue)

/-- What is told of an outcome. -/
def publicOutcome (outcome : ProofCarryingOutcome) : Value :=
  .obj [("run_id", .str outcome.runId), ("task_id", .str outcome.taskId),
    ("task", .str outcome.intent), ("mode", .str outcome.mode.text),
    ("verdict", .str outcome.verdict.text), ("results", resultsValue outcome.results),
    ("verification", verificationValue outcome.verification), ("usage", outcome.usage.value),
    ("evidence", LocalRunner.evidenceValue outcome.verification.evidence)]

/-! ## 3. Its text -/

theorem writable_str (s : String) : (Value.str s).Writable := ⟨_, rfl⟩

theorem evidence_writable (evidence : List LedgerEvidence) :
    (LocalRunner.evidenceValue evidence).Writable := (LocalRunner.evidence_whole evidence).writable

theorem checkValue_writable (c : VerificationCheck) : (checkValue c).Writable := by
  obtain ⟨fs, hfs⟩ := @writable_obj [("id", .str c.id), ("name", .str c.name),
    ("verdict", .str c.verdict.text),
    ("evidence", (c.evidence.map LocalRunner.evidenceValue).getD .undefined),
    ("detail", (c.detail.map Value.str).getD .undefined)] fun f hf => by
      simp only [List.mem_cons, List.not_mem_nil, or_false] at hf
      rcases hf with rfl | rfl | rfl | rfl | rfl
      · exact writable_str _
      · exact writable_str _
      · exact writable_str _
      · cases c.evidence with
        | none => exact writable_undefined
        | some evidence => exact evidence_writable evidence
      · cases c.detail with
        | none => exact writable_undefined
        | some detail => exact writable_str detail
  exact ⟨_, hfs⟩

theorem verificationValue_json (v : Verification) : ∃ j, (verificationValue v).toJson = .ok (some j) := by
  obtain ⟨fs, hfs⟩ := @writable_obj [("id", .str v.id), ("target", .str v.target),
    ("checks", .arr (v.checks.map checkValue)),
    ("evidence", LocalRunner.evidenceValue v.evidence), ("verdict", .str v.verdict.text)]
    fun f hf => by
      simp only [List.mem_cons, List.not_mem_nil, or_false] at hf
      rcases hf with rfl | rfl | rfl | rfl | rfl
      · exact writable_str _
      · exact writable_str _
      · obtain ⟨js, hjs⟩ := @writable_arr (v.checks.map checkValue) fun w hw => by
          obtain ⟨c, -, rfl⟩ := List.mem_map.mp hw
          exact checkValue_writable c
        exact ⟨_, hjs⟩
      · exact evidence_writable _
      · exact writable_str _
  exact ⟨_, hfs⟩

theorem resultsValue_json {results : List Result} (h : ∀ r ∈ results, r.output.Writable) :
    ∃ j, (resultsValue results).toJson = .ok (some j) := by
  obtain ⟨js, hjs⟩ := @writable_arr (results.map resultValue) fun w hw => by
    obtain ⟨r, hr, rfl⟩ := List.mem_map.mp hw
    obtain ⟨fs, hfs⟩ := @writable_obj [("status", .str r.status.text), ("output", r.output),
      ("evidence", LocalRunner.evidenceValue r.evidence)] fun f hf => by
        simp only [List.mem_cons, List.not_mem_nil, or_false] at hf
        rcases hf with rfl | rfl | rfl
        · exact writable_str _
        · exact h r hr
        · exact evidence_writable _
    exact ⟨_, hfs⟩
  exact ⟨_, hjs⟩

theorem usage_json (usage : Usage) : ∃ j, usage.value.toJson = .ok (some j) :=
  whole_toJson (LocalRunner.usage_whole usage)

theorem evidence_json (evidence : List LedgerEvidence) :
    ∃ j, (LocalRunner.evidenceValue evidence).toJson = .ok (some j) :=
  whole_toJson (LocalRunner.evidence_whole evidence)

end AgentKernel.Apps
