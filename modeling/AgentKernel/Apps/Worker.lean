/-
  File:      AgentKernel/Apps/Worker.lean
  Subject:   The worker and the runs it keeps (apps/worker/src/index.ts, storage.ts and
             migrations/0001_runs.sql).

  A request runs a task on a smoke runner of its own, stores the outcome and answers with it; other
  requests read what has been stored. A request sends one statement to the database at most, so
  requests are served in the order of their statements.

  * `fetch` is index.ts, with `saveRun`, `getRun`, `listRunsByTask` and `listTasks` of storage.ts;
  * `Posted`: a request that has been answered with an outcome; **`fetch_idle`**: nothing else is
    ever written;
  * **`get_run_iff`**: what is found under an id is what has been answered for it, word for word;
  * **`list_newest`**: a page has the newest runs of a task, and no more than a hundred;
  * **`post_run`**: which requests run a task, and what the others are told.
-/
import AgentKernel.Apps.RunRequest
import AgentKernel.Lib.Encodings
import AgentKernel.Storage.KeyedStores

namespace AgentKernel.Apps

open Lib Runner Storage

variable {sha256 : String → String}

/-! ## 1. The table -/

/-- A row of the table of runs. -/
structure RunRow where
  run_id : String
  task_id : String
  task : String
  mode : String
  verdict : String
  results_json : String
  verification_json : String
  usage_json : String
  evidence_json : String
  created_at : String
  completed_at : String

/-- The table of runs. -/
abbrev D1 := Table RunRow.run_id

/-- A run, as `getRun` gives it. -/
structure RunRecord where
  run_id : String
  task_id : String
  task : String
  mode : String
  verdict : String
  results : Json
  verification : Json
  usage : Json
  evidence : Json
  created_at : String
  completed_at : String

/-- What `pageSize` sees of `Number(value)`. -/
inductive Numeral where
  | integer (n : Int)
  | other

/-- The size of a page, and its bound `MAX_PAGE_SIZE`. -/
def pageSize : Option Numeral → Nat
  | none | some .other => 25
  | some (.integer n) => if n < 1 then 25 else min n.toNat 100

/-- The parameters of the statement of `saveRun`. -/
def rowOf (outcome : ProofCarryingOutcome) (now : String) : Except SaveError RunRow := do
  let results_json ← columnText (resultsValue outcome.results)
  let verification_json ← columnText (verificationValue outcome.verification)
  let usage_json ← columnText outcome.usage.value
  let evidence_json ← columnText (LocalRunner.evidenceValue outcome.verification.evidence)
  .ok
    { run_id := outcome.runId
      task_id := outcome.taskId
      task := outcome.intent
      mode := outcome.mode.text
      verdict := outcome.verdict.text
      results_json := results_json
      verification_json := verification_json
      usage_json := usage_json
      evidence_json := evidence_json
      created_at := now
      completed_at := now }

/-- `INSERT`. -/
def saveRun (db : D1) (outcome : ProofCarryingOutcome) (now : String) : Except SaveError D1 :=
  match rowOf outcome now with
  | .error err => .error err
  | .ok row =>
      match db.insert row with
      | none => .error (.duplicate row.run_id)
      | some db => .ok db

/-- `none` where `JSON.parse` throws. -/
def deserialize (row : RunRow) : Option RunRecord := do
  let results ← Json.parse row.results_json
  let verification ← Json.parse row.verification_json
  let usage ← Json.parse row.usage_json
  let evidence ← Json.parse row.evidence_json
  some
    { run_id := row.run_id
      task_id := row.task_id
      task := row.task
      mode := row.mode
      verdict := row.verdict
      results := results
      verification := verification
      usage := usage
      evidence := evidence
      created_at := row.created_at
      completed_at := row.completed_at }

/-- The run of an id; `some none` where there is none, and `none` where it cannot be read. -/
def getRun (db : D1) (runId : String) : Option (Option RunRecord) :=
  match db.find runId with
  | none => some none
  | some row => (deserialize row).map some

/-- `ORDER BY created_at DESC`. -/
abbrev NewestFirst := OrderBy RunRow.created_at (· ≥ ·)

/-- An empty id selects nothing out. -/
def ofTask (taskId : Option String) (row : RunRow) : Bool :=
  match taskId with
  | none => true
  | some taskId => taskId = "" || row.task_id = taskId

/-- The newest runs of a task, or of all. -/
def listRunsByTask (order : NewestFirst) (db : D1) (limit : Nat) (taskId : Option String) :
    Option (List RunRecord) :=
  ((order.sort (db.rows.filter (ofTask taskId))).take limit).mapM deserialize

/-- The newest rows, for their tasks. -/
def listTasks (order : NewestFirst) (db : D1) (limit : Nat) : List RunRow :=
  (order.sort db.rows).take limit

/-! ## 2. Requests and answers -/

/-- What the worker reads of a request. -/
structure Request where
  method : String
  pathname : String
  /-- `searchParams.get('limit')`, as a number. -/
  limit : Option Numeral := none
  taskId : Option String := none
  origin : Option String := none
  /-- The header, where it is a number. -/
  contentLength : Option Nat := none
  /-- What `request.json()` gives, or the text of its error. -/
  body : Except String Json := .error "Unexpected end of JSON input"

/-- The worker's surroundings. -/
structure Env where
  mode : Option String := none
  db : Option D1

/-- What the outside adds to a request. -/
structure Outside where
  clock : Clock
  taskId : String
  runId : String
  now : String
  /-- Why the database fails, if it does. -/
  dbFails : Option String := none
  /-- The error for an id that is there already, and for a parameter without a text. -/
  refusal : String := "D1_ERROR: UNIQUE constraint failed: runs.run_id"

/-- What comes of a request. -/
inductive Answer where
  | response (status : Nat) (allowOrigin : String) (body : Option Value)
  /-- `fetch` throws. -/
  | rejected

/-- The origin that an answer names. -/
def allowedOrigin (origin : Option String) : String :=
  match origin with
  | some origin =>
      if origin ∈ ["https://celia-console.pages.dev", "http://localhost:5173",
        "http://127.0.0.1:5173"] then origin
      else "https://celia-console.pages.dev"
  | none => "https://celia-console.pages.dev"

/-- The body of a refusal. -/
def errorBody (message : String) : Value := .obj [("error", .str message)]

/-- A run, as JSON. -/
def recordFields (r : RunRecord) : List (String × Json) :=
  [("run_id", .str r.run_id), ("task_id", .str r.task_id), ("task", .str r.task),
    ("mode", .str r.mode), ("verdict", .str r.verdict), ("results", r.results),
    ("verification", r.verification), ("usage", r.usage), ("evidence", r.evidence),
    ("created_at", .str r.created_at), ("completed_at", .str r.completed_at)]

/-- A task, as JSON. -/
def taskFields (row : RunRow) : List (String × Json) :=
  [("task_id", .str row.task_id), ("task", .str row.task), ("verdict", .str row.verdict),
    ("created_at", .str row.created_at), ("completed_at", .str row.completed_at)]

/-! ## 3. Paths -/

/-- `/^\/runs\/([^/]+)$/`. -/
def runPath (pathname : String) : Option String :=
  let rest := pathname.toList.drop 6
  if "/runs/".toList <+: pathname.toList ∧ rest ≠ [] ∧ '/' ∉ rest then some (String.ofList rest)
  else none

/-! ## 4. fetch -/

/-- How long a body may be. -/
def MAX_BODY_BYTES : Nat := 64 * 1024

/-- The body, unless its length has been announced as too much. -/
def readJson (req : Request) : Except String Json :=
  if req.contentLength.getD 0 > MAX_BODY_BYTES then .error "request body is too large" else req.body

/-- The mode of the worker. -/
def runMode (env : Env) : RunMode := if env.mode = some "cloud" then .cloud else .local

/-- What `/health` says. -/
def Env.health (env : Env) : Value :=
  .obj [("status", .str "ok"), ("service", .str "celia-worker"), ("mode", .str (runMode env).text),
    ("persistence", .str (if env.db.isSome then "d1" else "unavailable"))]

/-- The body of the `try` and its `catch`. -/
def postRun (sha256 : String → String) (env : Env) (db : D1) (req : Request) (out : Outside) :
    Env × Nat × Value :=
  let failed (message : String) : Env × Nat × Value := (env, errorStatus message, errorBody message)
  match (readJson req).bind parseRunRequest with
  | .error message => failed message
  | .ok task =>
      match smokeRun sha256 (runMode env) out.clock task out.taskId out.runId with
      -- a run that does not end
      | none => failed "request failed"
      | some outcome =>
          match out.dbFails with
          | some message => failed message
          | none =>
              match saveRun db outcome out.now with
              | .error _ => failed out.refusal
              | .ok db => ({ env with db := some db }, 200, publicOutcome outcome)

/-- A route that reads from the database. -/
def reads (env : Env) (req : Request) (out : Outside) (answer : D1 → Option (Nat × Value)) : Answer :=
  let origin := allowedOrigin req.origin
  match env.db with
  | none => .response 503 origin (errorBody "D1 persistence is not configured")
  | some db =>
      if out.dbFails.isSome then .rejected
      else
        match answer db with
        | none => .rejected
        | some (status, body) => .response status origin body

/-- The worker: what becomes of the table, and what is answered. -/
def fetch (sha256 : String → String) (order : NewestFirst) (env : Env) (req : Request)
    (out : Outside) : Env × Answer :=
  let origin := allowedOrigin req.origin
  let refuse (status : Nat) (message : String) : Env × Answer :=
    (env, .response status origin (errorBody message))
  if req.method = "OPTIONS" then (env, .response 204 origin none)
  else if req.pathname = "/health" then
    if req.method = "GET" then (env, .response 200 origin env.health)
    else refuse 405 "method not allowed"
  else if req.method = "GET" ∧ req.pathname = "/runs" then
    (env, reads env req out fun db =>
      (listRunsByTask order db (pageSize req.limit) req.taskId).map fun runs =>
        (200, .obj [("runs", .arr (runs.map fun r => .ofJson (.obj (recordFields r))))]))
  else
    match if req.method = "GET" then runPath req.pathname else none with
    | some segment =>
        (env, reads env req out fun db =>
          (decodeURIComponent segment).bind fun runId =>
            (getRun db runId).map fun run =>
              match run with
              | some run => (200, .ofJson (.obj (recordFields run)))
              | none => (404, errorBody "run not found"))
    | none =>
        if req.method = "GET" ∧ req.pathname = "/tasks" then
          (env, reads env req out fun db =>
            some (200, .obj [("tasks",
              .arr ((listTasks order db (pageSize req.limit)).map fun row =>
                .ofJson (.obj (taskFields row))))]))
        else if req.pathname ≠ "/run" then refuse 404 "not found"
        else if req.method ≠ "POST" then refuse 405 "method not allowed"
        else
          match env.db with
          | none => refuse 503 "D1 persistence is required for /run"
          | some db =>
              let (env, status, body) := postRun sha256 env db req out
              (env, .response status origin body)

/-- The requests in the order of their statements, and how they are answered. -/
def serve (sha256 : String → String) (order : NewestFirst) :
    Env → List (Request × Outside) → Env × List Answer
  | env, [] => (env, [])
  | env, (req, out) :: rest =>
      let (env, answer) := fetch sha256 order env req out
      let (env, answers) := serve sha256 order env rest
      (env, answer :: answers)

/-! ## 5. What a request writes -/

/-- A request that runs a task and stores its outcome. -/
structure Posted (sha256 : String → String) (env : Env) (req : Request) (out : Outside)
    (outcome : ProofCarryingOutcome) (row : RunRow) (db db' : D1) : Prop where
  method : req.method = "POST"
  pathname : req.pathname = "/run"
  database : env.db = some db
  parsed : (readJson req).bind parseRunRequest = .ok outcome.intent
  ran : smokeRun sha256 (runMode env) out.clock outcome.intent out.taskId out.runId = some outcome
  fine : out.dbFails = none
  written : rowOf outcome out.now = .ok row
  inserted : db.insert row = some db'

section Fetch

variable {order : NewestFirst} {env : Env} {req : Request} {out : Outside}
  {outcome : ProofCarryingOutcome} {row : RunRow} {db db' : D1}

/-- The way to the `try`. -/
theorem fetch_run (hmethod : req.method = "POST") (hpath : req.pathname = "/run")
    (hdb : env.db = some db) : fetch sha256 order env req out =
      ((postRun sha256 env db req out).1, .response (postRun sha256 env db req out).2.1
        (allowedOrigin req.origin) (postRun sha256 env db req out).2.2) := by
  unfold fetch
  simp [hmethod, hpath, hdb]

theorem fetch_unconfigured (hmethod : req.method = "POST") (hpath : req.pathname = "/run")
    (hdb : env.db = none) : (fetch sha256 order env req out).2 = .response 503
      (allowedOrigin req.origin) (some (errorBody "D1 persistence is required for /run")) := by
  unfold fetch
  simp [hmethod, hpath, hdb]

theorem fetch_posted (h : Posted sha256 env req out outcome row db db') :
    fetch sha256 order env req out = ({ env with db := some db' },
      .response 200 (allowedOrigin req.origin) (publicOutcome outcome)) := by
  have hsave : saveRun db outcome out.now = .ok db' := by
    unfold saveRun
    simp only [h.written, h.inserted]
  rw [fetch_run h.method h.pathname h.database]
  unfold postRun
  simp only [h.parsed, h.ran, h.fine, hsave]

/-- The outcome of a request has its ids. -/
theorem Posted.ids (h : Posted sha256 env req out outcome row db db') :
    outcome.runId = out.runId ∧ outcome.taskId = out.taskId := by
  obtain ⟨outcome', hran, hcalled, -⟩ := @System.smokeRun_passes sha256 (runMode env) out.clock
    outcome.intent out.taskId out.runId
  obtain rfl := Option.some.inj (h.ran.symm.trans hran)
  exact ⟨congrArg Called.runId hcalled, congrArg Called.taskId hcalled⟩

/-- What the `try` comes to when nothing is stored. -/
theorem postRun_idle (hmethod : req.method = "POST") (hpath : req.pathname = "/run")
    (hdb : env.db = some db)
    (h : ∀ outcome row db db', ¬ Posted sha256 env req out outcome row db db') :
    ∃ message, postRun sha256 env db req out = (env, errorStatus message, errorBody message) := by
  unfold postRun
  dsimp only
  cases hparsed : (readJson req).bind parseRunRequest with
  | error message => exact ⟨message, rfl⟩
  | ok task =>
      obtain ⟨outcome, hran, hcalled, -⟩ :=
        @System.smokeRun_passes sha256 (runMode env) out.clock task out.taskId out.runId
      dsimp only
      rw [hran]
      dsimp only
      cases hfine : out.dbFails with
      | some message => exact ⟨message, rfl⟩
      | none =>
          dsimp only
          unfold saveRun
          cases hrow : rowOf outcome out.now with
          | error err => exact ⟨out.refusal, rfl⟩
          | ok row =>
              dsimp only
              cases hins : db.insert row with
              | none => exact ⟨out.refusal, rfl⟩
              | some db' =>
                  obtain rfl : outcome.intent = task := congrArg Called.intent hcalled
                  exact absurd ⟨hmethod, hpath, hdb, hparsed, hran, hfine, hrow, hins⟩
                    (h outcome row db db')

/-- **Every other request leaves the runs alone**, and gets no outcome. -/
theorem fetch_idle (h : ∀ outcome row db db', ¬ Posted sha256 env req out outcome row db db') :
    (fetch sha256 order env req out).1 = env ∧
    (req.pathname = "/run" → ∀ origin body,
      (fetch sha256 order env req out).2 ≠ .response 200 origin body) := by
  by_cases hpost : req.method = "POST" ∧ req.pathname = "/run"
  · obtain ⟨hmethod, hpath⟩ := hpost
    cases hdb : env.db with
    | none =>
        unfold fetch
        simp [hmethod, hpath, hdb]
    | some db =>
        obtain ⟨message, hout⟩ := postRun_idle hmethod hpath hdb h
        rw [fetch_run hmethod hpath hdb, hout]
        refine ⟨rfl, fun _ origin body hanswer => errorStatus_ne message ?_⟩
        injection hanswer
  · by_cases hpath : req.pathname = "/run"
    · have hmethod : req.method ≠ "POST" := fun hmethod => hpost ⟨hmethod, hpath⟩
      have hsegment : runPath "/run" = none := rfl
      unfold fetch
      simp only [hpath, hsegment, ite_self]
      split_ifs <;> simp at *
    · refine ⟨?_, fun hrun => absurd hrun hpath⟩
      unfold fetch
      dsimp only
      rw [if_pos hpath]
      -- a path of one run, or another one
      split_ifs <;> cases runPath req.pathname <;> rfl

end Fetch

/-! ## 6. What a row gives back -/

section Rows

variable {order : NewestFirst} {env : Env} {req : Request} {out : Outside}
  {outcome : ProofCarryingOutcome} {row : RunRow} {db db' : D1} {fs : List (String × Json)}

/-- The times of a record. -/
def times (now : String) : List (String × Json) :=
  [("created_at", .str now), ("completed_at", .str now)]

theorem columnText_json {v : Value} {text : String} (h : columnText v = .ok text) :
    ∃ j, v.toJson = .ok (some j) ∧ text = j.text := by
  unfold columnText stringify at h
  cases hv : v.toJson with
  | error err =>
      rw [hv] at h
      cases h
  | ok r =>
      rw [hv] at h
      cases r with
      | none => cases h
      | some j => exact ⟨j, rfl, (Except.ok.inj h).symm⟩

theorem bind_ok {ε α β : Type} {x : Except ε α} {f : α → Except ε β} {b : β}
    (h : x >>= f = .ok b) : ∃ a, x = .ok a ∧ f a = .ok b := by
  cases x with
  | error err => cases h
  | ok a => exact ⟨a, rfl, h⟩

/-- **A row gives back what has been answered**, and the times. -/
theorem row_record {now : String} (h : rowOf outcome now = .ok row) :
    ∃ fs record, (publicOutcome outcome).toJson = .ok (some (.obj fs)) ∧
      deserialize row = some record ∧ recordFields record = fs ++ times now ∧
      row.run_id = outcome.runId ∧ row.task_id = outcome.taskId ∧
      ∃ items, record.evidence = .arr items := by
  unfold rowOf at h
  obtain ⟨results, hresults, h⟩ := bind_ok h
  obtain ⟨verification, hverification, h⟩ := bind_ok h
  obtain ⟨usage, husage, h⟩ := bind_ok h
  obtain ⟨evidence, hevidence, h⟩ := bind_ok h
  obtain rfl := Except.ok.inj h
  obtain ⟨jr, hjr, rfl⟩ := columnText_json hresults
  obtain ⟨jv, hjv, rfl⟩ := columnText_json hverification
  obtain ⟨ju, hju, rfl⟩ := columnText_json husage
  obtain ⟨je, hje, rfl⟩ := columnText_json hevidence
  refine ⟨[("run_id", .str outcome.runId), ("task_id", .str outcome.taskId),
    ("task", .str outcome.intent), ("mode", .str outcome.mode.text),
    ("verdict", .str outcome.verdict.text), ("results", jr), ("verification", jv), ("usage", ju),
    ("evidence", je)], ⟨outcome.runId, outcome.taskId, outcome.intent, outcome.mode.text,
    outcome.verdict.text, jr, jv, ju, je, now, now⟩, ?_, ?_, rfl, rfl, rfl, ?_⟩
  · unfold publicOutcome
    simp only [Value.toJson, Value.toFields, hjr, hjv, hju, hje]
    rfl
  · unfold deserialize
    simp only [parse_text, Option.bind_eq_bind, Option.bind_some]
  · obtain ⟨items, -, hitems⟩ := toJson_arr hje
    exact ⟨items, (Option.some.inj hitems).symm⟩

end Rows

/-! ## 7. Histories -/

/-- The request runs a task and is answered with this outcome. -/
def AnswersRun (sha256 : String → String) (order : NewestFirst) (env : Env) (req : Request)
    (out : Outside) (fs : List (String × Json)) : Prop :=
  req.pathname = "/run" ∧ ∃ origin body,
    (fetch sha256 order env req out).2 = .response 200 origin (some body) ∧
    body.toJson = .ok (some (.obj fs))

section History

variable {order : NewestFirst} {env env₀ : Env} {req : Request} {out : Outside}
  {outcome : ProofCarryingOutcome} {row : RunRow} {db db' : D1} {fs : List (String × Json)}
  {reqs : List (Request × Outside)}

theorem answersRun_iff : AnswersRun sha256 order env req out fs ↔
    ∃ outcome row db db', Posted sha256 env req out outcome row db db' ∧
      (publicOutcome outcome).toJson = .ok (some (.obj fs)) := by
  constructor
  · rintro ⟨hpath, origin, body, hanswer, hfs⟩
    by_cases hpost : ∃ outcome row db db', Posted sha256 env req out outcome row db db'
    · obtain ⟨outcome, row, db, db', hpost⟩ := hpost
      rw [fetch_posted hpost] at hanswer
      injection hanswer with _ _ hbody
      obtain rfl := Option.some.inj hbody
      exact ⟨outcome, row, db, db', hpost, hfs⟩
    · push Not at hpost
      exact absurd hanswer ((fetch_idle hpost).2 hpath origin _)
  · rintro ⟨outcome, row, db, db', hpost, hfs⟩
    exact ⟨hpost.pathname, _, _, congrArg Prod.snd (fetch_posted hpost), hfs⟩

theorem serve_append : ∀ (reqs more : List (Request × Outside)) (env : Env),
    (serve sha256 order env (reqs ++ more)).1 =
      (serve sha256 order (serve sha256 order env reqs).1 more).1
  | [], _, _ => rfl
  | _ :: reqs, more, _ => serve_append reqs more _

/-- The row has been stored for one of the requests. -/
def Stored (sha256 : String → String) (order : NewestFirst) (env : Env)
    (reqs : List (Request × Outside)) (row : RunRow) : Prop :=
  ∃ A req out B outcome db db', reqs = A ++ (req, out) :: B ∧
    Posted sha256 (serve sha256 order env A).1 req out outcome row db db'

theorem stored_snoc : Stored sha256 order env (reqs ++ [(req, out)]) row ↔
    Stored sha256 order env reqs row ∨ ∃ outcome db db',
      Posted sha256 (serve sha256 order env reqs).1 req out outcome row db db' := by
  constructor
  · rintro ⟨A, req', out', B, outcome, db, db', hreqs, hpost⟩
    rcases List.eq_nil_or_concat' B with rfl | ⟨B, b, rfl⟩
    · obtain ⟨rfl, hlast⟩ := List.append_inj' hreqs rfl
      obtain ⟨rfl, rfl⟩ := Prod.mk.inj (List.singleton_inj.mp hlast)
      exact .inr ⟨outcome, db, db', hpost⟩
    · rw [← List.cons_append, ← List.append_assoc] at hreqs
      obtain ⟨rfl, -⟩ := List.append_inj' hreqs rfl
      exact .inl ⟨A, req', out', B, outcome, db, db', rfl, hpost⟩
  · rintro (⟨A, req', out', B, outcome, db, db', rfl, hpost⟩ | ⟨outcome, db, db', hpost⟩)
    · exact ⟨A, req', out', B ++ [(req, out)], outcome, db, db', by simp, hpost⟩
    · exact ⟨reqs, req, out, [], outcome, db, db', rfl, hpost⟩

/-- **The table has just the rows of the requests that have been answered with an outcome.** -/
theorem rows_iff (hdb : env₀.db = some .empty) : ∀ reqs : List (Request × Outside),
    ∃ db, (serve sha256 order env₀ reqs).1.db = some db ∧
      ∀ row, row ∈ db.rows ↔ Stored sha256 order env₀ reqs row := by
  intro reqs
  induction reqs using List.reverseRecOn with
  | nil =>
      refine ⟨.empty, hdb, fun row => ⟨fun h => absurd h List.not_mem_nil, ?_⟩⟩
      rintro ⟨A, req, out, B, outcome, db, db', h, -⟩
      simp at h
  | append_singleton reqs last ih =>
      obtain ⟨req, out⟩ := last
      obtain ⟨db, hdb, hrows⟩ := ih
      have hserve : (serve sha256 order env₀ (reqs ++ [(req, out)])).1 =
          (fetch sha256 order (serve sha256 order env₀ reqs).1 req out).1 := serve_append _ _ _
      rw [hserve]
      by_cases hpost : ∃ outcome row db db',
          Posted sha256 (serve sha256 order env₀ reqs).1 req out outcome row db db'
      · obtain ⟨outcome, row, db₁, db', hpost⟩ := hpost
        rw [fetch_posted hpost]
        obtain rfl := Option.some.inj (hdb.symm.trans hpost.database)
        refine ⟨db', rfl, fun row' => ?_⟩
        rw [Table.rows_insert hpost.inserted, List.mem_append, List.mem_singleton, hrows, stored_snoc]
        refine or_congr_right ⟨?_, ?_⟩
        · rintro rfl
          exact ⟨outcome, db, db', hpost⟩
        · rintro ⟨outcome', db₂, db₂', hpost'⟩
          -- a request has one outcome, and one row
          have hsame : outcome'.intent = outcome.intent :=
            Except.ok.inj (hpost'.parsed.symm.trans hpost.parsed)
          have hran := hpost'.ran
          rw [hsame, hpost.ran] at hran
          obtain rfl := Option.some.inj hran
          exact Except.ok.inj (hpost'.written.symm.trans hpost.written)
      · push Not at hpost
        rw [(fetch_idle hpost).1]
        refine ⟨db, hdb, fun row => ?_⟩
        rw [hrows, stored_snoc]
        refine ⟨.inl, ?_⟩
        rintro (h | ⟨outcome, db, db', h⟩)
        · exact h
        · exact absurd h (hpost _ _ _ _)

/-! ## 8. What is read -/

/-- The record of a request that has been answered with an outcome: what it has been told, and when
    its statement was made. -/
def Answered (sha256 : String → String) (order : NewestFirst) (env : Env)
    (reqs : List (Request × Outside)) (record : RunRecord) : Prop :=
  ∃ A req out B fs, reqs = A ++ (req, out) :: B ∧
    AnswersRun sha256 order (serve sha256 order env A).1 req out fs ∧
    recordFields record = fs ++ times out.now

theorem recordFields_injective : Function.Injective recordFields := by
  intro r r' h
  cases r
  cases r'
  simp only [recordFields, List.cons.injEq, Prod.mk.injEq, true_and, and_true, Json.str.injEq] at h
  simp only [RunRecord.mk.injEq]
  exact h

theorem deserialize_keys {record : RunRecord} (h : deserialize row = some record) :
    record.run_id = row.run_id ∧ record.task_id = row.task_id ∧
      record.created_at = row.created_at := by
  unfold deserialize at h
  obtain ⟨results, -, h⟩ := Option.bind_eq_some_iff.mp h
  obtain ⟨verification, -, h⟩ := Option.bind_eq_some_iff.mp h
  obtain ⟨usage, -, h⟩ := Option.bind_eq_some_iff.mp h
  obtain ⟨evidence, -, h⟩ := Option.bind_eq_some_iff.mp h
  rw [← Option.some.inj h]
  exact ⟨rfl, rfl, rfl⟩

/-- **The records of the rows are the records of the requests.** -/
theorem records_iff (hdb : env₀.db = some .empty) (reqs : List (Request × Outside)) :
    ∃ db, (serve sha256 order env₀ reqs).1.db = some db ∧
      (∀ row ∈ db.rows, ∃ record, deserialize row = some record) ∧
      ∀ record, Answered sha256 order env₀ reqs record ↔
        ∃ row ∈ db.rows, deserialize row = some record := by
  obtain ⟨db, hdb, hrows⟩ := @rows_iff sha256 order _ hdb reqs
  refine ⟨db, hdb, fun row hrow => ?_, fun record => ⟨?_, ?_⟩⟩
  · obtain ⟨A, p, pout, B, outcome, db₁, db₂, -, hpost⟩ := (hrows row).mp hrow
    obtain ⟨-, record, -, hread, -⟩ := row_record hpost.written
    exact ⟨record, hread⟩
  · rintro ⟨A, p, pout, B, fs, hreqs, hanswers, hfields⟩
    obtain ⟨outcome, row, db₁, db₂, hpost, hfs⟩ := answersRun_iff.mp hanswers
    obtain ⟨fs', record', hfs', hread, hfields', -⟩ := row_record hpost.written
    rw [hfs] at hfs'
    obtain rfl := Json.obj.inj (Option.some.inj (Except.ok.inj hfs'))
    obtain rfl := recordFields_injective (hfields.trans hfields'.symm)
    exact ⟨row, (hrows row).mpr ⟨A, p, pout, B, outcome, db₁, db₂, hreqs, hpost⟩, hread⟩
  · rintro ⟨row, hrow, hread⟩
    obtain ⟨A, p, pout, B, outcome, db₁, db₂, hreqs, hpost⟩ := (hrows row).mp hrow
    obtain ⟨fs, record', hfs, hread', hfields, -⟩ := row_record hpost.written
    obtain rfl := Option.some.inj (hread.symm.trans hread')
    exact ⟨A, p, pout, B, fs, hreqs, answersRun_iff.mpr ⟨_, _, _, _, hpost, hfs⟩, hfields⟩

variable {segment runId : String}

/-- The three routes that read. -/
theorem fetch_runs (hget : req.method = "GET") (hpath : req.pathname = "/runs") :
    (fetch sha256 order env req out).2 = reads env req out fun db =>
      (listRunsByTask order db (pageSize req.limit) req.taskId).map fun runs =>
        (200, .obj [("runs", .arr (runs.map fun r => .ofJson (.obj (recordFields r))))]) := by
  unfold fetch
  simp only [hget, hpath, if_true, if_false, and_self, String.reduceEq]

theorem fetch_one (hget : req.method = "GET") (hpath : runPath req.pathname = some segment) :
    (fetch sha256 order env req out).2 = reads env req out fun db =>
      (decodeURIComponent segment).bind fun runId =>
        (getRun db runId).map fun run =>
          match run with
          | some run => (200, .ofJson (.obj (recordFields run)))
          | none => (404, errorBody "run not found") := by
  have hhealth : req.pathname ≠ "/health" := by
    intro h
    rw [h] at hpath
    cases hpath
  have hruns : req.pathname ≠ "/runs" := by
    intro h
    rw [h] at hpath
    cases hpath
  unfold fetch
  simp only [hget, hhealth, hruns, hpath, if_true, if_false, and_false, String.reduceEq]

theorem fetch_tasks (hget : req.method = "GET") (hpath : req.pathname = "/tasks") :
    (fetch sha256 order env req out).2 = reads env req out fun db =>
      some (200, .obj [("tasks", .arr ((listTasks order db (pageSize req.limit)).map fun row =>
        .ofJson (.obj (taskFields row))))]) := by
  have hsegment : runPath "/tasks" = none := rfl
  unfold fetch
  simp only [hget, hpath, hsegment, if_true, if_false, and_self, and_false, String.reduceEq]

/-- Paths that are not there. -/
theorem fetch_elsewhere (hget : req.method = "GET") (hpath : req.pathname ∈ ["/runs/", "/"]) :
    (fetch sha256 order env req out).2 =
      .response 404 (allowedOrigin req.origin) (some (errorBody "not found")) := by
  have hsegment : runPath "/runs/" = none ∧ runPath "/" = none := ⟨rfl, rfl⟩
  simp only [List.mem_cons, List.not_mem_nil, or_false] at hpath
  unfold fetch
  rcases hpath with hpath | hpath <;>
    simp [hget, hpath, hsegment]

/-- The answer for the path of one run. -/
theorem fetch_segment (hget : req.method = "GET") (hpath : runPath req.pathname = some segment)
    (hid : decodeURIComponent segment = some runId) (hfine : out.dbFails = none)
    (hdb : env.db = some db) {found : Option RunRecord} (hrun : getRun db runId = some found) :
    (fetch sha256 order env req out).2 = match found with
      | some record => .response 200 (allowedOrigin req.origin) (some (.ofJson (.obj (recordFields record))))
      | none => .response 404 (allowedOrigin req.origin) (some (errorBody "run not found")) := by
  rw [fetch_one hget hpath]
  unfold reads
  simp only [hdb, hfine, Option.isSome_none, Bool.false_eq_true, if_false, hid, Option.bind_some, hrun,
    Option.map_some]
  cases found <;> rfl

/-- What is under an id: the record with that id. -/
theorem getRun_found (hreads : ∀ row ∈ db.rows, ∃ record, deserialize row = some record)
    (runId : String) : ∃ found, getRun db runId = some found ∧
      ∀ r, found = some r ↔ (∃ row ∈ db.rows, deserialize row = some r) ∧ r.run_id = runId := by
  unfold getRun
  cases hfind : db.find runId with
  | some row =>
      obtain ⟨hrow, hkey⟩ := Table.find_eq_some.mp hfind
      obtain ⟨record, hread⟩ := hreads row hrow
      refine ⟨some record, congrArg (Option.map some) hread, fun r => ⟨?_, ?_⟩⟩
      · rintro h
        obtain rfl := Option.some.inj h
        exact ⟨⟨row, hrow, hread⟩, (deserialize_keys hread).1.trans hkey⟩
      · rintro ⟨⟨row', hrow', hread'⟩, hr⟩
        -- the key of its row is the id
        have hsame : db.find runId = some row' :=
          Table.find_eq_some.mpr ⟨hrow', (deserialize_keys hread').1.symm.trans hr⟩
        obtain rfl := Option.some.inj (hfind.symm.trans hsame)
        exact hread.symm.trans hread'
  | none =>
      refine ⟨none, rfl, fun r => ⟨fun h => (by cases h), ?_⟩⟩
      rintro ⟨⟨row, hrow, hread⟩, hr⟩
      refine absurd (List.mem_map_of_mem hrow) (Table.find_eq_none.mp ?_)
      rw [← (deserialize_keys hread).1, hr]
      exact hfind

/-- **What is found under an id is what has been answered for it**, word for word and with the time
    of its statement; of an id nothing has been answered for there is nothing. -/
theorem get_run_iff (hdb : env₀.db = some .empty) (reqs : List (Request × Outside))
    (hget : req.method = "GET") (hpath : runPath req.pathname = some segment)
    (hid : decodeURIComponent segment = some runId) (hfine : out.dbFails = none) :
    let answer := (fetch sha256 order (serve sha256 order env₀ reqs).1 req out).2
    (∃ record, (∀ r, Answered sha256 order env₀ reqs r ∧ r.run_id = runId ↔ r = record) ∧
      answer = .response 200 (allowedOrigin req.origin)
        (some (.ofJson (.obj (recordFields record))))) ∨
    (∀ r, Answered sha256 order env₀ reqs r → r.run_id ≠ runId) ∧
      answer = .response 404 (allowedOrigin req.origin) (some (errorBody "run not found")) := by
  obtain ⟨db, hdb, hreads, hrecords⟩ := @records_iff sha256 order _ hdb reqs
  obtain ⟨found, hrun, hfound⟩ := getRun_found hreads runId
  have hanswer := @fetch_segment sha256 order _ req out db segment runId hget hpath hid hfine hdb _ hrun
  cases found with
  | some record =>
      refine .inl ⟨record, fun r => ?_, hanswer⟩
      rw [hrecords, ← hfound, Option.some.injEq, eq_comm]
  | none =>
      refine .inr ⟨fun r hanswered hr => ?_, hanswer⟩
      cases (hfound r).mpr ⟨(hrecords r).mp hanswered, hr⟩

/-- A request to run a task. -/
def shipRequest : Request where
  method := "POST"
  pathname := "/run"
  body := .ok (.obj [("task", .str " ship it ")])

/-- What the first run is given. -/
def shipOutside : Outside where
  clock := System.someClock
  taskId := "t1"
  runId := "r 1"
  now := "now"

theorem get_run_iff_ship :
    let env := (serve id (.stable _ _) { db := some .empty } [(shipRequest, shipOutside)]).1
    let answer := (fetch id (.stable _ _) env { method := "GET", pathname := "/runs/r%201" } shipOutside).2
    (∃ record, (∀ r, Answered id (.stable _ _) { db := some .empty } [(shipRequest, shipOutside)] r ∧
        r.run_id = "r 1" ↔ r = record) ∧
      answer = .response 200 (allowedOrigin none) (some (.ofJson (.obj (recordFields record))))) ∨
    (∀ r, Answered id (.stable _ _) { db := some .empty } [(shipRequest, shipOutside)] r →
        r.run_id ≠ "r 1") ∧
      answer = .response 404 (allowedOrigin none) (some (errorBody "run not found")) :=
  get_run_iff rfl [(shipRequest, shipOutside)] rfl rfl (by decide +kernel) rfl

/-- The records that a page is taken from. -/
def OfTask (taskId : Option String) (r : RunRecord) : Prop :=
  ∀ id, taskId = some id → id = "" ∨ r.task_id = id

theorem pageSize_le (limit : Option Numeral) : 1 ≤ pageSize limit ∧ pageSize limit ≤ 100 := by
  unfold pageSize
  split
  · decide
  · decide
  · split_ifs <;> omega

theorem ofTask_iff {taskId : Option String} {r : RunRecord} (h : deserialize row = some r) :
    ofTask taskId row = true ↔ OfTask taskId r := by
  unfold ofTask OfTask
  rw [(deserialize_keys h).2.1]
  cases taskId with
  | none => simp
  | some id => simp

/-- A page of rows, read one by one. -/
theorem listRunsByTask_newest (order : NewestFirst) (limit : Nat) (taskId : Option String)
    (hreads : ∀ row ∈ db.rows, ∃ record, deserialize row = some record) :
    ∃ page, listRunsByTask order db limit taskId = some page ∧ (page.map (·.run_id)).Nodup ∧
      (page.map (·.created_at)).Pairwise (· ≥ ·) ∧ page.length ≤ limit ∧
      (∀ r ∈ page, (∃ row ∈ db.rows, deserialize row = some r) ∧ OfTask taskId r) ∧
      ∀ r, (∃ row ∈ db.rows, deserialize row = some r) → OfTask taskId r →
        r ∈ page ∨ page.length = limit ∧ ∀ r' ∈ page, r.created_at ≤ r'.created_at := by
  have hperm := order.perm (db.rows.filter (ofTask taskId))
  have hsorted := order.sorted (db.rows.filter (ofTask taskId))
  unfold listRunsByTask
  generalize hall : order.sort (db.rows.filter (ofTask taskId)) = rows at hperm hsorted
  have hmem : ∀ row, row ∈ rows ↔ row ∈ db.rows ∧ ofTask taskId row = true := fun row => by
    rw [hperm.mem_iff, List.mem_filter]
  obtain ⟨page, hpage⟩ := exists_mapM (f := deserialize) (l := rows.take limit) fun row hrow =>
    hreads row ((hmem row).mp (List.mem_of_mem_take hrow)).1
  have hpairs := mapM_some_iff.mp hpage
  have hids : (rows.take limit).map (·.run_id) = page.map (·.run_id) := by
    rw [← List.forall₂_eq_eq_eq, List.forall₂_map_left_iff, List.forall₂_map_right_iff]
    exact hpairs.imp fun row r h => (deserialize_keys h).1.symm
  have htimes : (rows.take limit).map (·.created_at) = page.map (·.created_at) := by
    rw [← List.forall₂_eq_eq_eq, List.forall₂_map_left_iff, List.forall₂_map_right_iff]
    exact hpairs.imp fun row r h => (deserialize_keys h).2.2.symm
  have hlength : (rows.take limit).length = page.length := hpairs.length_eq
  refine ⟨page, hpage, ?_, ?_, ?_, fun r hr => ?_, fun r hstored htask => ?_⟩
  · rw [← hids]
    have hdistinct : (rows.map (·.run_id)).Nodup :=
      (hperm.map _).nodup_iff.mpr (db.distinct.sublist (List.filter_sublist.map _))
    exact hdistinct.sublist ((List.take_sublist _ _).map _)
  · rw [← htimes]
    exact hsorted.sublist ((List.take_sublist _ _).map _)
  · rw [← hlength]
    exact List.length_take_le _ _
  · obtain ⟨row, hrow, hread⟩ := (mem_mapM hpage).mp hr
    obtain ⟨hrow, htask⟩ := (hmem row).mp (List.mem_of_mem_take hrow)
    exact ⟨⟨row, hrow, hread⟩, (ofTask_iff hread).mp htask⟩
  · obtain ⟨row, hrow, hread⟩ := hstored
    have hrow : row ∈ rows.take limit ++ rows.drop limit := by
      rw [List.take_append_drop]
      exact (hmem row).mpr ⟨hrow, (ofTask_iff hread).mpr htask⟩
    rcases List.mem_append.mp hrow with hrow | hrow
    · exact .inl ((mem_mapM hpage).mpr ⟨row, hrow, hread⟩)
    · refine .inr ⟨?_, fun r' hr' => ?_⟩
      · -- nothing is left out of a page that is not full
        have hmore := List.length_pos_of_mem hrow
        rw [List.length_drop] at hmore
        rw [← hlength, List.length_take]
        omega
      · obtain ⟨row', hrow', hread'⟩ := (mem_mapM hpage).mp hr'
        rw [← List.take_append_drop limit rows, List.map_append] at hsorted
        have hle := (List.pairwise_append.mp hsorted).2.2 _ (List.mem_map_of_mem hrow') _
          (List.mem_map_of_mem hrow)
        rwa [(deserialize_keys hread).2.2, (deserialize_keys hread').2.2]

/-- **A page has the newest runs of its task**, each once, the newest first, and a hundred at most;
    what is left out is no newer, and only left out when the page is full. -/
theorem list_newest (hdb : env₀.db = some .empty) (reqs : List (Request × Outside))
    (hget : req.method = "GET") (hpath : req.pathname = "/runs") (hfine : out.dbFails = none) :
    ∃ page : List RunRecord,
      (fetch sha256 order (serve sha256 order env₀ reqs).1 req out).2 =
        .response 200 (allowedOrigin req.origin)
          (some (.obj [("runs", .arr (page.map fun r => .ofJson (.obj (recordFields r))))])) ∧
      (page.map (·.run_id)).Nodup ∧ (page.map (·.created_at)).Pairwise (· ≥ ·) ∧
      page.length ≤ pageSize req.limit ∧ pageSize req.limit ≤ 100 ∧
      (∀ r ∈ page, Answered sha256 order env₀ reqs r ∧ OfTask req.taskId r) ∧
      ∀ r, Answered sha256 order env₀ reqs r → OfTask req.taskId r →
        r ∈ page ∨ page.length = pageSize req.limit ∧ ∀ r' ∈ page, r.created_at ≤ r'.created_at := by
  obtain ⟨db, hdb, hreads, hrecords⟩ := @records_iff sha256 order _ hdb reqs
  obtain ⟨page, hpage, hdistinct, hsorted, hlength, hmem, hrest⟩ :=
    listRunsByTask_newest order (pageSize req.limit) req.taskId hreads
  refine ⟨page, ?_, hdistinct, hsorted, hlength, (pageSize_le _).2,
    fun r hr => ⟨(hrecords r).mpr (hmem r hr).1, (hmem r hr).2⟩,
    fun r hanswered => hrest r ((hrecords r).mp hanswered)⟩
  rw [fetch_runs hget hpath]
  unfold reads
  simp only [hdb, hfine, Option.isSome_none, Bool.false_eq_true, if_false, hpage, Option.map_some]

theorem list_newest_ship :
    ∃ page : List RunRecord,
      (fetch id (.stable _ _)
          (serve id (.stable _ _) { db := some .empty } [(shipRequest, shipOutside)]).1
          { method := "GET", pathname := "/runs", limit := some (.integer 1000) } shipOutside).2 =
        .response 200 (allowedOrigin none)
          (some (.obj [("runs", .arr (page.map fun r => .ofJson (.obj (recordFields r))))])) ∧
      (page.map (·.run_id)).Nodup ∧ (page.map (·.created_at)).Pairwise (· ≥ ·) ∧
      page.length ≤ pageSize (some (.integer 1000)) ∧ pageSize (some (.integer 1000)) ≤ 100 ∧
      (∀ r ∈ page, Answered id (.stable _ _) { db := some .empty } [(shipRequest, shipOutside)] r ∧
        OfTask none r) ∧
      ∀ r, Answered id (.stable _ _) { db := some .empty } [(shipRequest, shipOutside)] r →
        OfTask none r → r ∈ page ∨ page.length = pageSize (some (.integer 1000)) ∧
          ∀ r' ∈ page, r.created_at ≤ r'.created_at :=
  list_newest rfl [(shipRequest, shipOutside)] rfl rfl rfl

/-! ## 9. What is run -/

theorem rowOf_smoke {now : String} (h : outcome.results = smokeSteps.map smokeResult) :
    ∃ row, rowOf outcome now = .ok row := by
  have hwhole : ∀ r ∈ outcome.results, r.output.Writable := by
    intro r hr
    rw [h] at hr
    obtain ⟨step, -, rfl⟩ := List.mem_map.mp hr
    exact ⟨_, rfl⟩
  obtain ⟨jr, hjr⟩ := resultsValue_json hwhole
  obtain ⟨jv, hjv⟩ := verificationValue_json outcome.verification
  obtain ⟨ju, hju⟩ := usage_json outcome.usage
  obtain ⟨je, hje⟩ := evidence_json outcome.verification.evidence
  unfold rowOf
  rw [columnText_of hjr, columnText_of hjv, columnText_of hju, columnText_of hje]
  exact ⟨_, rfl⟩

/-- Why a request is not answered with an outcome, and what it is told. -/
def Refused (sha256 : String → String) (order : NewestFirst) (env : Env)
    (reqs : List (Request × Outside)) (req : Request) (out : Outside) (message : String) : Prop :=
  (readJson req).bind parseRunRequest = .error message ∨
  (∃ task, (readJson req).bind parseRunRequest = .ok task) ∧
    (out.dbFails = some message ∨
      out.dbFails = none ∧ message = out.refusal ∧
        ∃ r, Answered sha256 order env reqs r ∧ r.run_id = out.runId)

/-- What a request to run a task comes to. -/
theorem run_answer (hdb : env₀.db = some .empty) (reqs : List (Request × Outside))
    (hmethod : req.method = "POST") (hpath : req.pathname = "/run") :
    let env := (serve sha256 order env₀ reqs).1
    (∃ message, Refused sha256 order env₀ reqs req out message ∧
      fetch sha256 order env req out =
        (env, .response (errorStatus message) (allowedOrigin req.origin) (some (errorBody message)))) ∨
    ∃ outcome, (∀ message, ¬ Refused sha256 order env₀ reqs req out message) ∧
      (readJson req).bind parseRunRequest = .ok outcome.intent ∧
      outcome.taskId = out.taskId ∧ outcome.runId = out.runId ∧ outcome.verdict = .passed ∧
      outcome.results = smokeSteps.map smokeResult ∧
      (fetch sha256 order env req out).2 =
        .response 200 (allowedOrigin req.origin) (some (publicOutcome outcome)) := by
  obtain ⟨db, hdb, hreads, hrecords⟩ := @records_iff sha256 order _ hdb reqs
  dsimp only
  rw [fetch_run hmethod hpath hdb]
  unfold postRun
  dsimp only
  cases hparsed : (readJson req).bind parseRunRequest with
  | error message => exact .inl ⟨message, .inl hparsed, rfl⟩
  | ok task =>
      obtain ⟨outcome, hran, hcalled, hpassed, hresults⟩ := @System.smokeRun_passes sha256
        (runMode (serve sha256 order env₀ reqs).1) out.clock task out.taskId out.runId
      dsimp only
      rw [hran]
      dsimp only
      cases hfine : out.dbFails with
      | some message => exact .inl ⟨message, .inr ⟨⟨task, hparsed⟩, .inl hfine⟩, rfl⟩
      | none =>
          obtain ⟨row, hrow⟩ := @rowOf_smoke outcome out.now hresults
          have hid : row.run_id = out.runId := by
            obtain ⟨-, -, -, -, -, hid, -⟩ := row_record hrow
            exact hid.trans (congrArg Called.runId hcalled)
          dsimp only
          unfold saveRun
          rw [hrow]
          dsimp only
          cases hins : db.insert row with
          | none =>
              obtain ⟨row', hrow'⟩ := Option.ne_none_iff_exists'.mp (Table.insert_eq_none.mp hins)
              obtain ⟨hmem, hkey⟩ := Table.find_eq_some.mp hrow'
              obtain ⟨record, hread⟩ := hreads row' hmem
              refine .inl ⟨out.refusal, .inr ⟨⟨task, hparsed⟩, .inr ⟨hfine, rfl, record,
                (hrecords record).mpr ⟨row', hmem, hread⟩, ?_⟩⟩, rfl⟩
              rw [(deserialize_keys hread).1, hkey, hid]
          | some db' =>
              obtain rfl : outcome.intent = task := congrArg Called.intent hcalled
              refine .inr ⟨outcome, fun message hrefused => ?_, rfl, congrArg Called.taskId hcalled,
                congrArg Called.runId hcalled, hpassed, hresults, rfl⟩
              rcases hrefused with herror | ⟨-, hfails | ⟨-, -, r, hanswered, hr⟩⟩
              · rw [hparsed] at herror
                cases herror
              · rw [hfine] at hfails
                cases hfails
              · obtain ⟨row', hmem, hread⟩ := (hrecords r).mp hanswered
                refine Table.find_eq_none.mp (Table.find_of_insert hins) ?_
                rw [hid, ← hr, (deserialize_keys hread).1]
                exact List.mem_map_of_mem hmem

/-- **A request with a task runs it, and every task passes**; the others, and those whose statement
    fails, write nothing and are told why. What the code itself asks of a body is answered with 400;
    an error of `request.json()` goes by its text. -/
theorem post_run (hdb : env₀.db = some .empty) (reqs : List (Request × Outside))
    (hmethod : req.method = "POST") (hpath : req.pathname = "/run") :
    let env := (serve sha256 order env₀ reqs).1
    ((∃ message, Refused sha256 order env₀ reqs req out message ∧
        fetch sha256 order env req out =
          (env, .response (errorStatus message) (allowedOrigin req.origin) (some (errorBody message)))) ∨
      ∃ outcome, (∀ message, ¬ Refused sha256 order env₀ reqs req out message) ∧
        (readJson req).bind parseRunRequest = .ok outcome.intent ∧
        outcome.taskId = out.taskId ∧ outcome.runId = out.runId ∧ outcome.verdict = .passed ∧
        outcome.results = smokeSteps.map smokeResult ∧
        (fetch sha256 order env req out).2 =
          .response 200 (allowedOrigin req.origin) (some (publicOutcome outcome))) ∧
    ∀ message, (readJson req).bind parseRunRequest = .error message →
      errorStatus message = 400 ∨ req.body = .error message := by
  refine ⟨run_answer hdb reqs hmethod hpath, fun message h => ?_⟩
  unfold readJson at h
  split_ifs at h with hlarge
  · cases h
    exact .inl (by decide)
  · cases hbody : req.body with
    | error message' =>
        rw [hbody] at h
        cases h
        exact .inr rfl
    | ok body =>
        rw [hbody] at h
        exact .inl (parseRunRequest_error h)

/-- The second request is given an id that is there. -/
theorem post_run_again :
    let env := (serve id (.stable _ _) { db := some .empty } [(shipRequest, shipOutside)]).1
    ((∃ message, Refused id (.stable _ _) { db := some .empty } [(shipRequest, shipOutside)]
          shipRequest shipOutside message ∧
        fetch id (.stable _ _) env shipRequest shipOutside =
          (env, .response (errorStatus message) (allowedOrigin none) (some (errorBody message)))) ∨
      ∃ outcome, (∀ message, ¬ Refused id (.stable _ _) { db := some .empty }
          [(shipRequest, shipOutside)] shipRequest shipOutside message) ∧
        (readJson shipRequest).bind parseRunRequest = .ok outcome.intent ∧
        outcome.taskId = "t1" ∧ outcome.runId = "r 1" ∧ outcome.verdict = .passed ∧
        outcome.results = smokeSteps.map smokeResult ∧
        (fetch id (.stable _ _) env shipRequest shipOutside).2 =
          .response 200 (allowedOrigin none) (some (publicOutcome outcome))) ∧
    ∀ message, (readJson shipRequest).bind parseRunRequest = .error message →
      errorStatus message = 400 ∨ shipRequest.body = .error message :=
  post_run rfl [(shipRequest, shipOutside)] rfl rfl

end History

end AgentKernel.Apps
