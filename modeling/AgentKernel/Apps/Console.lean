/-
  File:      AgentKernel/Apps/Console.lean
  Subject:   The console's calls to the worker (apps/console/src/api.ts).

  A page of the console sends a request over a wire that may lose it or its answer, or cut the answer
  off, and reads the answer if the worker names the page's own origin. What it cannot read, or cannot
  make sense of, becomes a `RunRequestError` of one of four kinds.

  * `runTask`, `listTasks`, `listRuns` and `getRun` are api.ts; `send` is `fetch` of a page whose
    origin is not that of the worker;
  * **`errors_by_kind`**: what has happened, by the kind of the error; only an answer that is cut off
    makes no sense;
  * **`getRun_runTask`**: what a page has been told of its task, every page is told again, whatever
    else is asked.
-/
import AgentKernel.Apps.Worker
import AgentKernel.Contracts.Coercion

namespace AgentKernel.Apps

open Lib Runner Storage

variable {sha256 : String → String}

/-! ## 1. Requests of a page -/

/-- What becomes of a request under way. -/
inductive Wire where
  | through
  /-- It does not arrive. -/
  | lost
  /-- It is served, and the answer does not arrive. -/
  | unanswered
  /-- It is served, the head of the answer arrives, and its body breaks off: `response.json()`
      rejects. -/
  | cutOff
  deriving DecidableEq

/-- What comes of an answer: its status and its text, unless that breaks off. -/
def Wire.carry : Wire → Option (Nat × String) → Option (Nat × Option String)
  | .through, reply => reply.map fun r => (r.1, some r.2)
  | .cutOff, reply => reply.map fun r => (r.1, none)
  | .lost, _ | .unanswered, _ => none

/-- The text of a body; `none` where it cannot be written, and `fetch` throws. -/
def bodyText : Option Value → Option String
  | none => some ""
  | some body =>
      match stringify body with
      | .ok text => some (text.getD "")
      | .error _ => none

/-- The status and the text of an answer that a page of this origin may read. -/
def readable (origin : String) : Answer → Option (Nat × String)
  | .response status allowOrigin body =>
      if allowOrigin = origin then (bodyText body).map (status, ·) else none
  | .rejected => none

/-- The browser names the origin of the page. -/
def Request.sentFrom (req : Request) (origin : String) : Request := { req with origin := some origin }

@[simp] theorem sentFrom_origin (req : Request) (origin : String) :
    (req.sentFrom origin).origin = some origin := rfl

/-- The request the browser sends first, before one whose body is JSON. -/
def preflightOf (req : Request) : Request :=
  { method := "OPTIONS", pathname := req.pathname, origin := req.origin }

/-- `fetch` of a page: what becomes of the runs, and the answer unless it throws. -/
def send (sha256 : String → String) (order : NewestFirst) (env : Env) (origin : String)
    (wire : Wire) (req : Request) (out : Outside) : Env × Option (Nat × Option String) :=
  let req := req.sentFrom origin
  let allowed := req.method = "GET" ∨
    (readable origin (fetch sha256 order env (preflightOf req) out).2).isSome
  if wire = .lost ∨ ¬ allowed then (env, none)
  else
    let (env, answer) := fetch sha256 order env req out
    (env, wire.carry (readable origin answer))

/-! ## 2. api.ts -/

/-- The kinds of `RunRequestError`. -/
inductive RunErrorKind where
  | network | invalid_response | api_rejected | infrastructure_unavailable
  deriving DecidableEq

/-- What a call throws. -/
inductive CallError where
  /-- `RunRequestError` -/
  | request (message : String) (kind : RunErrorKind)
  | typeError (message : String)

/-- The texts of the errors of one call. -/
structure CallTexts where
  unreachable : String
  invalid : Nat → String
  unavailable : String
  failed : Nat → String
  incomplete : String

/-- `'error' in body && body.error ? body.error : …` -/
def rejection (body : Json) (failed : String) : CallError :=
  match body with
  | .obj fields =>
      match fields.lookup "error" with
      | none => .request failed .api_rejected
      | some err =>
          if err.truthy then
            match err.toText with
            | .ok message => .request message .api_rejected
            | .error message => .typeError message
          else .request failed .api_rejected
  | .arr _ => .request failed .api_rejected
  | _ => .typeError "Cannot use 'in' operator to search for 'error'"

/-- What every call does with its answer, up to the fields it looks for. -/
def receive (texts : CallTexts) (complete : List (String × Json) → Option Json) :
    Option (Nat × Option String) → Except CallError Json
  | none => .error (.request texts.unreachable .network)
  | some (status, text) =>
      match text.bind Json.parse with
      | none => .error (.request (texts.invalid status) .invalid_response)
      | some body =>
          if ¬ (200 ≤ status ∧ status ≤ 299) then
            if status = 503 then .error (.request texts.unavailable .infrastructure_unavailable)
            else .error (rejection body (texts.failed status))
          else
            match body with
            | .obj fields =>
                match complete fields with
                | some result => .ok result
                | none => .error (.request texts.incomplete .invalid_response)
            | .arr _ => .error (.request texts.incomplete .invalid_response)
            | _ => .error (.typeError "Cannot use 'in' operator")

/-- `key in body` -/
def has (fields : List (String × Json)) (key : String) : Bool := (fields.lookup key).isSome

/-- `body[key]`, as a condition. -/
def truthyAt (fields : List (String × Json)) (key : String) : Bool :=
  ((fields.lookup key).map Json.truthy).getD false

/-- `body[key]`, if it is an array. -/
def arrayAt (fields : List (String × Json)) (key : String) : Option Json :=
  match fields.lookup key with
  | some (.arr items) => some (.arr items)
  | _ => none

/-- The texts of `runTask`. -/
def runTaskTexts : CallTexts where
  unreachable := "تعذر الوصول إلى خدمة التنفيذ. تحقق من الاتصال وحاول مرة أخرى."
  invalid status := "استجابة غير صالحة من خدمة التنفيذ (" ++ toString status ++ ")."
  unavailable := "خدمة التنفيذ غير جاهزة مؤقتًا. حاول مرة أخرى لاحقًا."
  failed status := "فشل طلب التنفيذ (" ++ toString status ++ ")."
  incomplete := "استجابة التنفيذ ناقصة أو غير صالحة."

/-- The texts of `listTasks`. -/
def listTasksTexts : CallTexts where
  unreachable := "تعذر الوصول إلى سجل المهام."
  invalid status := "استجابة غير صالحة من سجل المهام (" ++ toString status ++ ")."
  unavailable := "سجل المهام غير جاهز مؤقتًا. حاول مرة أخرى لاحقًا."
  failed status := "فشل طلب سجل المهام (" ++ toString status ++ ")."
  incomplete := "استجابة سجل المهام ناقصة أو غير صالحة."

/-- The texts of `listRuns`. -/
def listRunsTexts : CallTexts where
  unreachable := "تعذر الوصول إلى سجل التشغيلات."
  invalid status := "استجابة غير صالحة من سجل التشغيلات (" ++ toString status ++ ")."
  unavailable := "سجل التشغيلات غير جاهز مؤقتًا. حاول مرة أخرى لاحقًا."
  failed status := "فشل طلب سجل التشغيلات (" ++ toString status ++ ")."
  incomplete := "استجابة سجل التشغيلات ناقصة أو غير صالحة."

/-- The texts of `getRun`. -/
def getRunTexts : CallTexts where
  unreachable := "تعذر الوصول إلى تفاصيل التشغيل."
  invalid status := "استجابة غير صالحة من تفاصيل التشغيل (" ++ toString status ++ ")."
  unavailable := "تفاصيل التشغيل غير جاهزة مؤقتًا. حاول مرة أخرى لاحقًا."
  failed status := "فشل طلب تفاصيل التشغيل (" ++ toString status ++ ")."
  incomplete := "استجابة تفاصيل التشغيل ناقصة أو غير صالحة."

/-- `JSON.stringify({ task })`. -/
def taskText (task : String) : String := (Json.obj [("task", .str task)]).text

/-- The request of `runTask`, as the worker gets it. -/
def taskRequest (task : String) : Request where
  method := "POST"
  pathname := "/run"
  contentLength := some (utf8 (taskText task)).length
  body := ((Json.parse (taskText task)).map .ok).getD (.error "Unexpected token in JSON")

/-- The path of `/runs/` and a segment: one of dots is resolved. -/
def segmentPath (segment : String) : String :=
  if segment = "." then "/runs/" else if segment = ".." then "/" else "/runs/" ++ segment

/-- The calls, with what they are called with. -/
inductive ConsoleCall where
  | runTask (task : String)
  | listTasks (limit : Numeral)
  | listRuns (taskId : String) (limit : Numeral)
  | getRun (runId : String)

namespace ConsoleCall

/-- The request of a call. -/
def request : ConsoleCall → Request
  | runTask task => taskRequest task
  | listTasks limit => { method := "GET", pathname := "/tasks", limit := some limit }
  | listRuns taskId limit =>
      { method := "GET", pathname := "/runs", limit := some limit, taskId := some taskId }
  | getRun runId => { method := "GET", pathname := segmentPath (encodeURIComponent runId) }

/-- The texts of a call. -/
def texts : ConsoleCall → CallTexts
  | runTask _ => runTaskTexts
  | listTasks _ => listTasksTexts
  | listRuns _ _ => listRunsTexts
  | getRun _ => getRunTexts

/-- What the call takes for a whole answer, and gives back of it. -/
def complete : ConsoleCall → List (String × Json) → Option Json
  | runTask _, fields =>
      if !has fields "verdict" || !truthyAt fields "run_id" || !truthyAt fields "task_id" then none
      else some (.obj fields)
  | listTasks _, fields => arrayAt fields "tasks"
  | listRuns _ _, fields => arrayAt fields "runs"
  | getRun _, fields =>
      if !truthyAt fields "run_id" || (arrayAt fields "evidence").isNone then none
      else some (.obj fields)

end ConsoleCall

/-- The four calls. -/
def callWorker (sha256 : String → String) (order : NewestFirst) (env : Env) (origin : String)
    (wire : Wire) (call : ConsoleCall) (out : Outside) : Env × Except CallError Json :=
  let (env, reply) := send sha256 order env origin wire call.request out
  (env, receive call.texts call.complete reply)

namespace Console

variable (sha256 : String → String) (order : NewestFirst) (env : Env) (origin : String) (wire : Wire)

/-- A task is run. -/
def runTask (task : String) (out : Outside) : Env × Except CallError Json :=
  callWorker sha256 order env origin wire (.runTask task) out

/-- The newest tasks. -/
def listTasks (limit : Numeral) (out : Outside) : Env × Except CallError Json :=
  callWorker sha256 order env origin wire (.listTasks limit) out

/-- The newest runs of a task. -/
def listRuns (taskId : String) (limit : Numeral) (out : Outside) : Env × Except CallError Json :=
  callWorker sha256 order env origin wire (.listRuns taskId limit) out

/-- The run of an id. -/
def getRun (runId : String) (out : Outside) : Env × Except CallError Json :=
  callWorker sha256 order env origin wire (.getRun runId) out

end Console

/-! ## 3. The wire -/

section Wire

variable {order : NewestFirst} {env : Env} {req : Request} {out : Outside} {origin : String}
  {wire : Wire} {call : ConsoleCall} {status : Nat} {body : Value} {j : Json}

theorem readable_response (h : allowedOrigin (some origin) = origin)
    (hj : body.toJson = .ok (some j)) :
    readable origin (.response status (allowedOrigin (some origin)) (some body)) =
      some (status, j.text) := by
  unfold readable bodyText stringify
  simp only [h, if_true, hj]
  rfl

theorem readable_error (h : allowedOrigin (some origin) = origin) (message : String) :
    readable origin (.response status (allowedOrigin (some origin)) (some (errorBody message))) =
      some (status, (Json.obj [("error", .str message)]).text) := readable_response h rfl

theorem readable_foreign (h : allowedOrigin (some origin) ≠ origin) (answer : Option Value) :
    readable origin (.response status (allowedOrigin (some origin)) answer) = none := if_neg h

/-- The worker lets a request through to the origins it names. -/
theorem preflight_iff (hreq : req.origin = some origin) :
    (readable origin (fetch sha256 order env (preflightOf req) out).2).isSome ↔
      allowedOrigin (some origin) = origin := by
  have hanswer : (fetch sha256 order env (preflightOf req) out).2 =
      .response 204 (allowedOrigin (some origin)) none := by
    unfold fetch preflightOf
    simp only [if_true, hreq]
  rw [hanswer]
  unfold readable bodyText
  dsimp only
  split_ifs with h
  · simp [h]
  · simp [h]

/-- A request of an origin that is named. -/
theorem send_served (h : allowedOrigin (some origin) = origin) (hwire : wire ≠ .lost) :
    send sha256 order env origin wire req out =
      ((fetch sha256 order env (req.sentFrom origin) out).1,
        wire.carry (readable origin (fetch sha256 order env (req.sentFrom origin) out).2)) := by
  have hallowed := (@preflight_iff sha256 order env (req.sentFrom origin) out origin rfl).mpr h
  unfold send
  simp only [hwire, hallowed, or_true, not_true_eq_false, or_self, if_false]

/-- Nothing comes of an answer that may not be read. -/
@[simp] theorem Wire.carry_none (wire : Wire) : wire.carry none = none := by
  cases wire <;> rfl

theorem Wire.carry_through (text : String) :
    Wire.through.carry (some (status, text)) = some (status, some text) := rfl

/-- What a page is not told. -/
theorem send_silent (h : wire = .lost ∨ wire = .unanswered ∨
    readable origin (fetch sha256 order env (req.sentFrom origin) out).2 = none) :
    (send sha256 order env origin wire req out).2 = none := by
  unfold send
  dsimp only
  split_ifs with hlost
  · rfl
  · rcases h with rfl | rfl | hnone
    · rfl
    · rfl
    · dsimp only
      rw [hnone, Wire.carry_none]

/-- A whole answer has come through. -/
theorem through_of_receive {texts : CallTexts} {complete : List (String × Json) → Option Json}
    {reply : Option (Nat × String)} {told : Json}
    (h : receive texts complete (wire.carry reply) = .ok told) : wire = .through := by
  cases wire with
  | through => rfl
  | lost | unanswered => cases h
  | cutOff =>
      cases reply with
      | none => cases h
      | some r => cases h

theorem receive_ok {texts : CallTexts} {complete : List (String × Json) → Option Json}
    {fields : List (String × Json)} {result : Json} (h : complete fields = some result) :
    receive texts complete (some (200, some (Json.obj fields).text)) = .ok result := by
  unfold receive
  simp only [Option.bind_some, parse_text]
  rw [if_neg (by decide), h]

/-- An error the worker has a text for. -/
theorem receive_error {texts : CallTexts} {complete : List (String × Json) → Option Json}
    (message : String) (hstatus : 300 ≤ status) :
    ∃ text, receive texts complete (some (status, some (Json.obj [("error", .str message)]).text)) =
      .error (.request text (if status = 503 then .infrastructure_unavailable else .api_rejected)) := by
  unfold receive
  simp only [Option.bind_some, parse_text]
  rw [if_pos (by omega)]
  split_ifs with h
  · exact ⟨_, rfl⟩
  · unfold rejection
    simp only [List.lookup_cons, BEq.rfl]
    split_ifs
    · exact ⟨_, rfl⟩
    · exact ⟨_, rfl⟩

end Wire

/-! ## 4. What the worker tells the console -/

namespace ConsoleCall

/-- The call reads. -/
def Reads : ConsoleCall → Prop
  | runTask _ => False
  | listTasks _ | listRuns _ _ | getRun _ => True

/-- The path of the call is one of the worker's. -/
def Reaches : ConsoleCall → Prop
  | getRun runId => runId ∉ ["", ".", ".."]
  | runTask _ | listTasks _ | listRuns _ _ => True

/-- The database that the call reads from fails. -/
def DbFails (call : ConsoleCall) (env : Env) (out : Outside) : Prop :=
  call.Reaches ∧ call.Reads ∧ env.db.isSome ∧ out.dbFails.isSome

end ConsoleCall

/-- The answers to a call. -/
inductive Tells (call : ConsoleCall) (env : Env) (out : Outside) (origin : String) : Answer → Prop where
  | failing (hfails : call.DbFails env out) : Tells call env out origin .rejected
  | missing (hreach : call.Reaches) (hdb : env.db = none) (message : String) :
      Tells call env out origin
        (.response 503 (allowedOrigin (some origin)) (some (errorBody message)))
  | refused (hdb : call.Reaches → env.db.isSome)
      (hfine : call.Reaches → call.Reads → out.dbFails = none) (status : Nat) (message : String)
      (hstatus : status ∈ [400, 404, 500]) :
      Tells call env out origin
        (.response status (allowedOrigin (some origin)) (some (errorBody message)))
  | answered (hdb : env.db.isSome) (hfine : call.Reads → out.dbFails = none) (body : Value)
      (fields : List (String × Json)) (result : Json)
      (hbody : body.toJson = .ok (some (.obj fields))) (hcomplete : call.complete fields = some result) :
      Tells call env out origin (.response 200 (allowedOrigin (some origin)) (some body))

section Paths

variable {runId : String}

theorem encodeURIComponent_ne {c : String} (h : decodeURIComponent c = some c) (hid : runId ≠ c) :
    encodeURIComponent runId ≠ c := by
  intro heq
  have hdecode := decode_encodeURIComponent runId
  rw [heq, h] at hdecode
  exact hid (Option.some.inj hdecode).symm

/-- The worker finds the id in the path. -/
theorem runPath_segmentPath (h : runId ∉ ["", ".", ".."]) :
    runPath (segmentPath (encodeURIComponent runId)) = some (encodeURIComponent runId) := by
  simp only [List.mem_cons, List.not_mem_nil, or_false, not_or] at h
  have hslash : '/' ∉ (encodeURIComponent runId).toList := fun hmem => by
    rcases mem_percentEncode hmem with h | h | h
    · exact absurd h (by decide)
    · exact absurd h (by decide)
    · exact absurd h (by decide)
  have hempty : (encodeURIComponent runId).toList ≠ [] := fun hnil =>
    h.1 (percentEncode_eq_empty.mp (String.toList_eq_nil_iff.mp hnil))
  have hdrop : (("/runs/" ++ encodeURIComponent runId).toList).drop 6 =
      (encodeURIComponent runId).toList := by
    rw [String.toList_append]
    rfl
  have hbegins : "/runs/".toList <+: ("/runs/" ++ encodeURIComponent runId).toList := by
    rw [String.toList_append]
    exact List.prefix_append _ _
  unfold segmentPath
  rw [if_neg (encodeURIComponent_ne (by decide +kernel) h.2.1),
    if_neg (encodeURIComponent_ne (by decide +kernel) h.2.2)]
  unfold runPath
  dsimp only
  rw [hdrop, if_pos ⟨hbegins, hempty, hslash⟩, String.ofList_toList]

/-- The paths that are not the worker's. -/
theorem runPath_lost (h : runId ∈ ["", ".", ".."]) :
    segmentPath (encodeURIComponent runId) ∈ ["/runs/", "/"] := by
  simp only [List.mem_cons, List.not_mem_nil, or_false] at h
  rcases h with rfl | rfl | rfl <;> decide +kernel

end Paths

section Answers

variable {order : NewestFirst} {env env₀ : Env} {req : Request} {out : Outside} {origin : String}
  {outcome : ProofCarryingOutcome} {record : RunRecord} {row : RunRow} {db : D1}

/-- A database that is not configured is not there later. -/
theorem serve_unconfigured (h : env₀.db = none) :
    ∀ reqs : List (Request × Outside), (serve sha256 order env₀ reqs).1.db = none := by
  intro reqs
  induction reqs using List.reverseRecOn with
  | nil => exact h
  | append_singleton reqs last ih =>
      rw [serve_append]
      change (fetch sha256 order _ last.1 last.2).1.db = none
      rw [(fetch_idle fun outcome row db db' hpost => ?_).1]
      · exact ih
      · rw [hpost.database] at ih
        cases ih

theorem ofItems_eq_map (js : List Json) : Value.ofItems js = js.map Value.ofJson := by
  induction js with
  | nil => rfl
  | cons j js ih => exact congrArg (_ :: ·) ih

/-- The JSON of a list of objects. -/
theorem listed_json (key : String) {α : Type} (rows : List α) (fields : α → List (String × Json)) :
    (Value.obj [(key, .arr (rows.map fun row => .ofJson (.obj (fields row))))]).toJson =
      .ok (some (.obj [(key, .arr (rows.map fun row => .obj (fields row)))])) := by
  have hvalue : Value.obj [(key, .arr (rows.map fun row => .ofJson (.obj (fields row))))] =
      .ofJson (.obj [(key, .arr (rows.map fun row => .obj (fields row)))]) := by
    simp only [Value.ofJson, Value.ofFields, ofItems_eq_map, List.map_map]
    rfl
  rw [hvalue, toJson_ofJson]

/-- The records of the rows have a list of evidence. -/
theorem evidence_listed (hdb : env₀.db = some .empty) (reqs : List (Request × Outside))
    (hafter : (serve sha256 order env₀ reqs).1.db = some db) (hrow : row ∈ db.rows)
    (hread : deserialize row = some record) : ∃ items, record.evidence = .arr items := by
  obtain ⟨db', hdb', hrows⟩ := @rows_iff sha256 order _ hdb reqs
  obtain rfl := Option.some.inj (hafter.symm.trans hdb')
  obtain ⟨A, p, pout, B, outcome, db₁, db₂, -, hpost⟩ := (hrows row).mp hrow
  obtain ⟨-, record', -, hread', -, -, -, hitems⟩ := row_record hpost.written
  obtain rfl := Option.some.inj (hread.symm.trans hread')
  exact hitems

/-- `getRun` takes a record for a whole answer. -/
theorem complete_record (hid : record.run_id ≠ "") {items : List Json}
    (hevidence : record.evidence = .arr items) (runId : String) :
    (ConsoleCall.getRun runId).complete (recordFields record) = some (.obj (recordFields record)) := by
  have htruthy : truthyAt (recordFields record) "run_id" = true := decide_eq_true hid
  have harray : arrayAt (recordFields record) "evidence" = some (.arr items) := by
    unfold arrayAt
    rw [show (recordFields record).lookup "evidence" = some record.evidence from rfl, hevidence]
  unfold ConsoleCall.complete
  dsimp only
  rw [htruthy, harray]
  rfl

/-- `runTask` takes an outcome for a whole answer. -/
theorem complete_outcome {fs : List (String × Json)} {now : String} (hids : record.run_id ≠ "" ∧ record.task_id ≠ "")
    (hfields : recordFields record = fs ++ times now) (task : String) :
    (ConsoleCall.runTask task).complete fs = some (.obj fs) := by
  have hsplit : (recordFields record).take 9 ++ (recordFields record).drop 9 = fs ++ times now :=
    (List.take_append_drop 9 _).trans hfields
  obtain ⟨rfl, -⟩ := List.append_inj' hsplit rfl
  have hrun : truthyAt ((recordFields record).take 9) "run_id" = true := decide_eq_true hids.1
  have htask : truthyAt ((recordFields record).take 9) "task_id" = true := decide_eq_true hids.2
  have hverdict : has ((recordFields record).take 9) "verdict" = true := rfl
  unfold ConsoleCall.complete
  dsimp only
  rw [hrun, htask, hverdict]
  rfl

/-- A route that reads from the database. -/
theorem tells_reads {call : ConsoleCall} {answer : D1 → Option (Nat × Value)} (hreach : call.Reaches)
    (hreads : call.Reads) (hreq : req.origin = some origin)
    (h : ∀ db, env.db = some db → out.dbFails = none → ∃ status body,
      answer db = some (status, body) ∧
        Tells call env out origin (.response status (allowedOrigin (some origin)) (some body))) :
    Tells call env out origin (reads env req out answer) := by
  unfold reads
  dsimp only
  rw [hreq]
  cases hdb : env.db with
  | none => exact .missing hreach hdb _
  | some db =>
      dsimp only
      split_ifs with hfails
      · exact .failing ⟨hreach, hreads, by rw [hdb]; rfl, hfails⟩
      · obtain ⟨status, body, hanswer, htells⟩ := h db hdb (by simpa using hfails)
        rw [hanswer]
        exact htells

/-- A call that runs a task. -/
theorem tells_runTask (h₀ : env₀.db = none ∨ env₀.db = some .empty)
    (reqs : List (Request × Outside)) (task : String) (hids : out.runId ≠ "" ∧ out.taskId ≠ "")
    (origin : String) :
    Tells (.runTask task) (serve sha256 order env₀ reqs).1 out origin
      (fetch sha256 order (serve sha256 order env₀ reqs).1
        ((taskRequest task).sentFrom origin) out).2 := by
  have hreach : (ConsoleCall.runTask task).Reaches := trivial
  have hwrites : ¬ (ConsoleCall.runTask task).Reads := id
  rcases h₀ with hnone | hempty
  · have hnone : (serve sha256 order env₀ reqs).1.db = none := serve_unconfigured hnone reqs
    rw [fetch_unconfigured rfl rfl hnone]
    exact .missing hreach hnone _
  · obtain ⟨db, hdb, -, -⟩ := @records_iff sha256 order _ hempty reqs
    have hsome : (serve sha256 order env₀ reqs).1.db.isSome := by
      rw [hdb]
      rfl
    rcases @run_answer sha256 order env₀ ((taskRequest task).sentFrom origin) out hempty
      reqs rfl rfl with ⟨message, -, hanswer⟩ | ⟨outcome, -, -, htask, hrun, -, hresults, hanswer⟩
    · have hstatus : errorStatus message ∈ [400, 404, 500] := by
        unfold errorStatus
        split_ifs <;> decide
      rw [hanswer]
      exact .refused (fun _ => hsome) (fun _ h => absurd h hwrites) _ _ hstatus
    · obtain ⟨row, hrow⟩ := @rowOf_smoke outcome out.now hresults
      obtain ⟨fs, record, hfs, hread, hfields, hrowRun, hrowTask, -⟩ := row_record hrow
      obtain ⟨hrecordRun, hrecordTask, -⟩ := deserialize_keys hread
      rw [← hrun, ← htask, ← hrowRun, ← hrowTask, ← hrecordRun, ← hrecordTask] at hids
      rw [hanswer]
      exact .answered hsome (fun h => absurd h hwrites) _ fs _ hfs (complete_outcome hids hfields task)

/-- A call for a run, given what the rows have. -/
theorem tells_getRun (runId : String) (origin : String)
    (hrows : ∀ db, env.db = some db → ∀ row ∈ db.rows, ∃ record items,
      deserialize row = some record ∧ record.evidence = .arr items) :
    Tells (.getRun runId) env out origin (fetch sha256 order env
      ((ConsoleCall.getRun runId).request.sentFrom origin) out).2 := by
  by_cases hlost : runId ∈ ["", ".", ".."]
  · have hnever : ¬ (ConsoleCall.getRun runId).Reaches := fun h => h hlost
    have hpath : ((ConsoleCall.getRun runId).request.sentFrom origin).pathname ∈
        ["/runs/", "/"] := runPath_lost hlost
    rw [fetch_elsewhere rfl hpath]
    exact .refused (fun h => absurd h hnever) (fun h => absurd h hnever) _ _ (by decide)
  · have hreach : (ConsoleCall.getRun runId).Reaches := hlost
    have hreads : (ConsoleCall.getRun runId).Reads := trivial
    have hpath : runPath ((ConsoleCall.getRun runId).request.sentFrom origin).pathname =
        some (encodeURIComponent runId) := runPath_segmentPath hlost
    rw [fetch_one rfl hpath]
    refine tells_reads hreach hreads rfl fun db hdb hfine => ?_
    obtain ⟨found, hrun, hfound⟩ := getRun_found (fun row hrow =>
      (hrows db hdb row hrow).imp fun record h => h.choose_spec.1) runId
    have hsome : env.db.isSome := by
      rw [hdb]
      rfl
    rw [decode_encodeURIComponent, Option.bind_some, hrun]
    cases found with
    | none => exact ⟨_, _, rfl, .refused (fun _ => hsome) (fun _ _ => hfine) _ _ (by decide)⟩
    | some record =>
        obtain ⟨⟨row, hrow, hread⟩, hid⟩ := (hfound record).mp rfl
        obtain ⟨record', items, hread', hitems⟩ := hrows db hdb row hrow
        obtain rfl := Option.some.inj (hread.symm.trans hread')
        have hnonempty : record.run_id ≠ "" := by
          rw [hid]
          rintro rfl
          exact hlost List.mem_cons_self
        exact ⟨_, _, rfl, .answered hsome (fun _ => hfine) _ _ _ (toJson_ofJson _)
          (complete_record hnonempty hitems runId)⟩

/-- **Every call is told something it can make sense of.** -/
theorem tells (h₀ : env₀.db = none ∨ env₀.db = some .empty) (reqs : List (Request × Outside))
    (call : ConsoleCall) (hids : out.runId ≠ "" ∧ out.taskId ≠ "") (origin : String) :
    Tells call (serve sha256 order env₀ reqs).1 out origin
      (fetch sha256 order (serve sha256 order env₀ reqs).1
        (call.request.sentFrom origin) out).2 := by
  -- the rows are there when there is a database
  have hrows : ∀ db, (serve sha256 order env₀ reqs).1.db = some db →
      ∀ row ∈ db.rows, ∃ record items, deserialize row = some record ∧ record.evidence = .arr items := by
    intro db hdb row hrow
    rcases h₀ with hnone | hempty
    · rw [serve_unconfigured hnone reqs] at hdb
      cases hdb
    · obtain ⟨db', hdb', hreads, -⟩ := @records_iff sha256 order _ hempty reqs
      obtain rfl := Option.some.inj (hdb.symm.trans hdb')
      obtain ⟨record, hread⟩ := hreads row hrow
      obtain ⟨items, hitems⟩ := evidence_listed hempty reqs hdb hrow hread
      exact ⟨record, items, hread, hitems⟩
  cases call with
  | runTask task => exact tells_runTask h₀ reqs task hids origin
  | getRun runId => exact tells_getRun runId origin hrows
  | listTasks limit =>
      have hreach : (ConsoleCall.listTasks limit).Reaches := trivial
      have hreads : (ConsoleCall.listTasks limit).Reads := trivial
      rw [fetch_tasks rfl rfl]
      refine tells_reads hreach hreads rfl fun db hdb hfine => ⟨_, _, rfl, ?_⟩
      exact .answered (by rw [hdb]; rfl) (fun _ => hfine) _ _ _ (listed_json _ _ _) rfl
  | listRuns taskId limit =>
      have hreach : (ConsoleCall.listRuns taskId limit).Reaches := trivial
      have hreads : (ConsoleCall.listRuns taskId limit).Reads := trivial
      rw [fetch_runs rfl rfl]
      refine tells_reads hreach hreads rfl fun db hdb hfine => ?_
      obtain ⟨page, hpage, -⟩ := listRunsByTask_newest order (pageSize (some limit)) (some taskId)
        fun row hrow => (hrows db hdb row hrow).imp fun record h => h.choose_spec.1
      refine ⟨_, _, congrArg (Option.map _) hpage, ?_⟩
      exact .answered (by rw [hdb]; rfl) (fun _ => hfine) _ _ _ (listed_json _ _ _) rfl

end Answers

/-! ## 5. What a page knows -/

section Pages

variable {order : NewestFirst} {env env₀ : Env} {out : Outside} {origin : String} {wire : Wire}
  {call : ConsoleCall} {answer : Answer}

theorem Tells.foreign (h : Tells call env out origin answer)
    (hforeign : allowedOrigin (some origin) ≠ origin) : readable origin answer = none := by
  cases h with
  | failing => rfl
  | missing | refused | answered => exact readable_foreign hforeign _

theorem ConsoleCall.not_dbFails (hfine : call.Reaches → call.Reads → out.dbFails = none) :
    ¬ call.DbFails env out := by
  rintro ⟨hreach, hreads, -, hfails⟩
  rw [hfine hreach hreads] at hfails
  cases hfails

theorem ConsoleCall.not_dbFails_of_none (hdb : env.db = none) : ¬ call.DbFails env out := by
  rintro ⟨-, -, hsome, -⟩
  rw [hdb] at hsome
  cases hsome

/-- What a page makes of an answer that has come through. -/
theorem Tells.received (h : Tells call env out origin answer)
    (hallowed : allowedOrigin (some origin) = origin) :
    let result := receive call.texts call.complete (Wire.through.carry (readable origin answer))
    (∃ message, result = .error (.request message .network)) ∧ call.DbFails env out ∨
      (∃ message, result = .error (.request message .infrastructure_unavailable)) ∧
        call.Reaches ∧ env.db = none ∨
      ((∃ message, result = .error (.request message .api_rejected)) ∨ ∃ told, result = .ok told) ∧
        (call.Reaches → env.db.isSome) ∧ ¬ call.DbFails env out := by
  cases h with
  | failing hfails => exact .inl ⟨⟨_, rfl⟩, hfails⟩
  | missing hreach hdb message =>
      rw [readable_error hallowed, Wire.carry_through]
      exact .inr (.inl ⟨receive_error message (by decide), hreach, hdb⟩)
  | refused hdb hfine status message hstatus =>
      have hrefused : 300 ≤ status ∧ status ≠ 503 := by
        simp only [List.mem_cons, List.not_mem_nil, or_false] at hstatus
        omega
      obtain ⟨text, htext⟩ := @receive_error status call.texts call.complete message hrefused.1
      rw [if_neg hrefused.2] at htext
      rw [readable_error hallowed, Wire.carry_through]
      exact .inr (.inr ⟨.inl ⟨text, htext⟩, hdb, call.not_dbFails hfine⟩)
  | answered hdb hfine body fields result hbody hcomplete =>
      rw [readable_response hallowed hbody, Wire.carry_through]
      exact .inr (.inr ⟨.inr ⟨result, receive_ok hcomplete⟩, fun _ => hdb,
        call.not_dbFails fun _ => hfine⟩)

/-- What it makes of one that breaks off. -/
theorem Tells.brokenOff (h : Tells call env out origin answer)
    (hallowed : allowedOrigin (some origin) = origin) :
    let result := receive call.texts call.complete (Wire.cutOff.carry (readable origin answer))
    (∃ message, result = .error (.request message .network)) ∧ call.DbFails env out ∨
      (∃ message, result = .error (.request message .invalid_response)) ∧
        ¬ call.DbFails env out := by
  cases h with
  | failing hfails => exact .inl ⟨⟨_, rfl⟩, hfails⟩
  | missing hreach hdb message =>
      rw [readable_error hallowed]
      exact .inr ⟨⟨_, rfl⟩, call.not_dbFails_of_none hdb⟩
  | refused hdb hfine status message hstatus =>
      rw [readable_error hallowed]
      exact .inr ⟨⟨_, rfl⟩, call.not_dbFails hfine⟩
  | answered hdb hfine body fields result hbody hcomplete =>
      rw [readable_response hallowed hbody]
      exact .inr ⟨⟨_, rfl⟩, call.not_dbFails fun _ => hfine⟩

theorem callWorker_result : (callWorker sha256 order env origin wire call out).2 =
    receive call.texts call.complete (send sha256 order env origin wire call.request out).2 := by
  unfold callWorker
  cases send sha256 order env origin wire call.request out
  rfl

/-- Why a call has thrown an error of this kind; `api_rejected` aside. -/
inductive Thrown (call : ConsoleCall) (env : Env) (out : Outside) (origin : String) (wire : Wire) :
    RunErrorKind → Prop where
  | network (h : wire = .lost ∨ wire = .unanswered ∨ allowedOrigin (some origin) ≠ origin ∨
      call.DbFails env out) : Thrown call env out origin wire .network
  | invalid_response (hwire : wire = .cutOff) (hallowed : allowedOrigin (some origin) = origin)
      (hfine : ¬ call.DbFails env out) : Thrown call env out origin wire .invalid_response
  | infrastructure_unavailable (hwire : wire = .through)
      (hallowed : allowedOrigin (some origin) = origin) (hreach : call.Reaches) (hdb : env.db = none) :
      Thrown call env out origin wire .infrastructure_unavailable

/-- Where there is no reason for an error. -/
theorem not_thrown {kind : RunErrorKind} (hwire : wire = .through)
    (hallowed : allowedOrigin (some origin) = origin) (hdb : call.Reaches → env.db.isSome)
    (hfine : ¬ call.DbFails env out) : ¬ Thrown call env out origin wire kind := by
  subst hwire
  rintro (⟨h | h | h | h⟩ | ⟨h, -, -⟩ | ⟨-, -, hreach, hnone⟩)
  · cases h
  · cases h
  · exact h hallowed
  · exact hfine h
  · cases h
  · have hsome := hdb hreach
    rw [hnone] at hsome
    cases hsome

theorem Thrown.unique {kind kind' : RunErrorKind} (h : Thrown call env out origin wire kind)
    (h' : Thrown call env out origin wire kind') : kind = kind' := by
  -- a reason for `network` leaves no room for the other two
  have hother : ∀ {kind : RunErrorKind}, Thrown call env out origin wire kind →
      (wire = .lost ∨ wire = .unanswered ∨ allowedOrigin (some origin) ≠ origin ∨
        call.DbFails env out) → kind = .network := by
    rintro kind (_ | ⟨rfl, hallowed, hfine⟩ | ⟨rfl, hallowed, -, hdb⟩) hnetwork
    · rfl
    · rcases hnetwork with h | h | h | h
      · cases h
      · cases h
      · exact absurd hallowed h
      · exact absurd h hfine
    · rcases hnetwork with h | h | h | h
      · cases h
      · cases h
      · exact absurd hallowed h
      · exact absurd h (call.not_dbFails_of_none hdb)
  cases h with
  | network h => exact (hother h' h).symm
  | invalid_response hwire _ _ =>
      cases h' with
      | network h' => exact hother (.invalid_response hwire ‹_› ‹_›) h'
      | invalid_response => rfl
      | infrastructure_unavailable hwire' =>
          rw [hwire] at hwire'
          cases hwire'
  | infrastructure_unavailable hwire _ _ _ =>
      cases h' with
      | network h' => exact hother (.infrastructure_unavailable hwire ‹_› ‹_› ‹_›) h'
      | invalid_response hwire' =>
          rw [hwire] at hwire'
          cases hwire'
      | infrastructure_unavailable => rfl

/-- Every error has its reason, or is the worker's own. -/
theorem Tells.thrown {req : Request} (h : Tells call env out origin
      (fetch sha256 order env (req.sentFrom origin) out).2) :
    let result := receive call.texts call.complete (send sha256 order env origin wire req out).2
    (∃ message kind, result = .error (.request message kind) ∧ Thrown call env out origin wire kind) ∨
      ((∃ message, result = .error (.request message .api_rejected)) ∨ ∃ told, result = .ok told) ∧
        ∀ kind, ¬ Thrown call env out origin wire kind := by
  by_cases hforeign : allowedOrigin (some origin) = origin
  swap
  · rw [send_silent (.inr (.inr (h.foreign hforeign)))]
    exact .inl ⟨_, _, rfl, .network (.inr (.inr (.inl hforeign)))⟩
  have hallowed := hforeign
  cases hwire : wire with
  | lost =>
      rw [send_silent (.inl rfl)]
      exact .inl ⟨_, _, rfl, .network (.inl rfl)⟩
  | unanswered =>
      rw [send_silent (.inr (.inl rfl))]
      exact .inl ⟨_, _, rfl, .network (.inr (.inl rfl))⟩
  | through =>
      rw [send_served hallowed (by decide)]
      rcases h.received hallowed with ⟨⟨message, hmessage⟩, hfails⟩ |
        ⟨⟨message, hmessage⟩, hreach, hdb⟩ | ⟨htold, hdb, hfine⟩
      · exact .inl ⟨message, _, hmessage, .network (.inr (.inr (.inr hfails)))⟩
      · exact .inl ⟨message, _, hmessage, .infrastructure_unavailable rfl hallowed hreach hdb⟩
      · exact .inr ⟨htold, fun kind => not_thrown rfl hallowed hdb hfine⟩
  | cutOff =>
      rw [send_served hallowed (by decide)]
      rcases h.brokenOff hallowed with ⟨⟨message, hmessage⟩, hfails⟩ | ⟨⟨message, hmessage⟩, hfine⟩
      · exact .inl ⟨message, _, hmessage, .network (.inr (.inr (.inr hfails)))⟩
      · exact .inl ⟨message, _, hmessage, .invalid_response rfl hallowed hfine⟩

/-- **The kinds of errors** say what has happened: `network`, that the wire, the origin or a failing
    database has kept the answer back; `invalid_response`, that it has broken off; and
    `infrastructure_unavailable`, that there is no database. -/
theorem errors_by_kind (h₀ : env₀.db = none ∨ env₀.db = some .empty)
    (reqs : List (Request × Outside)) (call : ConsoleCall) (hids : out.runId ≠ "" ∧ out.taskId ≠ "")
    (origin : String) (wire : Wire) :
    let env := (serve sha256 order env₀ reqs).1
    let result := (callWorker sha256 order env origin wire call out).2
    (∀ err, result = .error err → ∃ message kind, err = .request message kind) ∧
    ∀ kind, kind ≠ .api_rejected →
      ((∃ message, result = .error (.request message kind)) ↔
        Thrown call env out origin wire kind) := by
  have htells := @tells sha256 order env₀ out h₀ reqs call hids origin
  have hthrown := @Tells.thrown sha256 order _ out origin wire call _ htells
  dsimp only at hthrown ⊢
  rw [callWorker_result]
  rcases hthrown with ⟨message, kind, hresult, hreason⟩ | ⟨⟨message, hresult⟩ | ⟨told, hresult⟩, hnone⟩
  · rw [hresult]
    refine ⟨fun err herr => ⟨message, kind, (Except.error.inj herr).symm⟩, fun kind' _ =>
      ⟨fun ⟨text, htext⟩ => ?_, fun hreason' => ⟨message, ?_⟩⟩⟩
    · cases htext
      exact hreason
    · rw [hreason.unique hreason']
  · rw [hresult]
    refine ⟨fun err herr => ⟨message, .api_rejected, (Except.error.inj herr).symm⟩, fun kind hkind =>
      ⟨fun ⟨text, htext⟩ => ?_, fun hreason => absurd hreason (hnone kind)⟩⟩
    cases htext
    exact absurd rfl hkind
  · rw [hresult]
    refine ⟨fun err herr => (by cases herr), fun kind _ =>
      ⟨fun ⟨text, htext⟩ => ?_, fun hreason => absurd hreason (hnone kind)⟩⟩
    cases htext

theorem errors_by_kind_lookup :
    let env := (serve id (.stable _ _) { db := some .empty } [(shipRequest, shipOutside)]).1
    let result := (callWorker id (.stable _ _) env "http://localhost:5173" .cutOff (.getRun "r 1")
      shipOutside).2
    (∀ err, result = .error err → ∃ message kind, err = .request message kind) ∧
    ∀ kind, kind ≠ .api_rejected →
      ((∃ message, result = .error (.request message kind)) ↔
        Thrown (.getRun "r 1") env shipOutside "http://localhost:5173" .cutOff kind) :=
  errors_by_kind (.inr rfl) [(shipRequest, shipOutside)] (.getRun "r 1") (by decide)
    "http://localhost:5173" .cutOff

/-- A task a page has been told of has been stored. -/
theorem runTask_answers (hdb : env₀.db = some .empty) (reqs : List (Request × Outside)) (task : String)
    {told : Json}
    (h : (Console.runTask sha256 order (serve sha256 order env₀ reqs).1 origin wire task out).2 =
      .ok told) :
    wire = .through ∧ allowedOrigin (some origin) = origin ∧
    ∃ fs, told = .obj fs ∧ AnswersRun sha256 order (serve sha256 order env₀ reqs).1
      ((taskRequest task).sentFrom origin) out fs := by
  unfold Console.runTask at h
  rw [callWorker_result] at h
  have hallowed : allowedOrigin (some origin) = origin := by
    by_contra hforeign
    have hsilent : (send sha256 order (serve sha256 order env₀ reqs).1 origin wire
        (ConsoleCall.runTask task).request out).2 = none := by
      refine send_silent (.inr (.inr ?_))
      rcases @run_answer sha256 order env₀ ((taskRequest task).sentFrom origin) out hdb reqs rfl rfl with
        ⟨message, -, hanswer⟩ | ⟨outcome, -, -, -, -, -, -, hanswer⟩
      · exact (congrArg (readable origin) (congrArg Prod.snd hanswer)).trans (readable_foreign hforeign _)
      · exact (congrArg (readable origin) hanswer).trans (readable_foreign hforeign _)
    rw [hsilent] at h
    cases h
  have hlost : wire ≠ .lost := by
    rintro rfl
    rw [send_silent (.inl rfl)] at h
    cases h
  rw [send_served hallowed hlost] at h
  obtain rfl := through_of_receive h
  refine ⟨rfl, hallowed, ?_⟩
  change receive runTaskTexts _ (Wire.through.carry (readable origin (fetch sha256 order
    (serve sha256 order env₀ reqs).1 ((taskRequest task).sentFrom origin) out).2)) = .ok told at h
  rcases @run_answer sha256 order env₀ ((taskRequest task).sentFrom origin) out hdb reqs rfl rfl with
    ⟨message, -, hanswer⟩ | ⟨outcome, -, -, -, -, -, hresults, hanswer⟩
  · obtain ⟨text, htext⟩ := @receive_error (errorStatus message) runTaskTexts
      (ConsoleCall.runTask task).complete message (by unfold errorStatus; split_ifs <;> decide)
    rw [hanswer, sentFrom_origin, readable_error hallowed, Wire.carry_through, htext] at h
    cases h
  · obtain ⟨row, hrow⟩ := @rowOf_smoke outcome out.now hresults
    obtain ⟨fs, record, hfs, -⟩ := row_record hrow
    refine ⟨fs, ?_, rfl, _, _, hanswer, hfs⟩
    rw [hanswer, sentFrom_origin, readable_response hallowed hfs, Wire.carry_through] at h
    unfold receive at h
    simp only [Option.bind_some, parse_text] at h
    rw [if_neg (by decide)] at h
    unfold ConsoleCall.complete at h
    dsimp only at h
    split_ifs at h
    · exact (Except.ok.inj h).symm

/-- A task that is not refused. -/
theorem runTask_ok (hdb : env₀.db = some .empty) (reqs : List (Request × Outside)) (task : String)
    (hids : out.runId ≠ "" ∧ out.taskId ≠ "") (hallowed : allowedOrigin (some origin) = origin)
    (h : ∀ message, ¬ Refused sha256 order env₀ reqs ((taskRequest task).sentFrom origin) out message) :
    ∃ told, (Console.runTask sha256 order (serve sha256 order env₀ reqs).1 origin .through task out).2 =
      .ok told := by
  rcases @run_answer sha256 order env₀ ((taskRequest task).sentFrom origin) out hdb reqs rfl rfl with
    ⟨message, hrefused, -⟩ | ⟨outcome, -, -, htask, hrun, -, hresults, hanswer⟩
  · exact absurd hrefused (h message)
  · obtain ⟨row, hrow⟩ := @rowOf_smoke outcome out.now hresults
    obtain ⟨fs, record, hfs, hread, hfields, hrowRun, hrowTask, -⟩ := row_record hrow
    obtain ⟨hrecordRun, hrecordTask, -⟩ := deserialize_keys hread
    rw [← hrun, ← htask, ← hrowRun, ← hrowTask, ← hrecordRun, ← hrecordTask] at hids
    refine ⟨.obj fs, ?_⟩
    unfold Console.runTask
    rw [callWorker_result, send_served hallowed (by decide)]
    change receive _ _ (Wire.through.carry (readable origin (fetch sha256 order
      (serve sha256 order env₀ reqs).1 ((taskRequest task).sentFrom origin) out).2)) = _
    rw [hanswer, sentFrom_origin, readable_response hallowed hfs, Wire.carry_through]
    exact receive_ok (complete_outcome hids hfields task)

/-- **What a page has been told of its task, every page is told again**, with the time of its
    statement, whatever else is asked in the meantime. -/
theorem getRun_runTask (hdb : env₀.db = some .empty) (reqs : List (Request × Outside))
    (task : String) (hid : out.runId ∉ ["", ".", ".."]) {told : Json}
    (h : (Console.runTask sha256 order (serve sha256 order env₀ reqs).1 origin wire task out).2 =
      .ok told) :
    ∃ fs, told = .obj fs ∧ fs.lookup "run_id" = some (.str out.runId) ∧
      ∀ (more : List (Request × Outside)) (origin' : String) (out' : Outside),
        allowedOrigin (some origin') = origin' → out'.dbFails = none →
        (Console.getRun sha256 order (serve sha256 order
            (Console.runTask sha256 order (serve sha256 order env₀ reqs).1 origin wire task out).1
            more).1 origin' .through out.runId out').2 = .ok (.obj (fs ++ times out.now)) := by
  obtain ⟨rfl, hallowed, fs, rfl, hanswers⟩ := runTask_answers hdb reqs task h
  -- the record of the request
  obtain ⟨outcome, row, db₁, db₂, hpost, hfs⟩ := answersRun_iff.mp hanswers
  obtain ⟨fs', record, hfs', hread, hfields, hrun, -⟩ := row_record hpost.written
  rw [hfs] at hfs'
  obtain rfl := Json.obj.inj (Option.some.inj (Except.ok.inj hfs'))
  have hrecord : record.run_id = out.runId :=
    (deserialize_keys hread).1.trans (hrun.trans hpost.ids.1)
  have hsplit : (recordFields record).take 9 ++ (recordFields record).drop 9 = fs ++ times out.now :=
    (List.take_append_drop 9 _).trans hfields
  obtain ⟨hfs, -⟩ := List.append_inj' hsplit rfl
  refine ⟨fs, rfl, ?_, fun more origin' out' hallowed' hfine => ?_⟩
  · rw [← hfs, ← hrecord]
    rfl
  · -- it is among the records of all requests
    let all := reqs ++ ((taskRequest task).sentFrom origin, out) :: more
    have hall : (serve sha256 order (Console.runTask sha256 order (serve sha256 order env₀ reqs).1 origin
        .through task out).1 more).1 = (serve sha256 order env₀ all).1 := by
      have hsent : (Console.runTask sha256 order (serve sha256 order env₀ reqs).1 origin .through task
          out).1 = (fetch sha256 order (serve sha256 order env₀ reqs).1
            ((taskRequest task).sentFrom origin) out).1 := by
        unfold Console.runTask callWorker
        rw [send_served hallowed (by decide)]
        rfl
      rw [hsent, serve_append]
      rfl
    have hanswered : Answered sha256 order env₀ all record := ⟨reqs, _, out, more, fs, rfl, hanswers, hfields⟩
    obtain ⟨db, hdb', hreads, hrecords⟩ := @records_iff sha256 order _ hdb all
    obtain ⟨found, hget, hfound⟩ := getRun_found hreads out.runId
    obtain rfl := (hfound record).mpr ⟨(hrecords record).mp hanswered, hrecord⟩
    have hpath : runPath ((ConsoleCall.getRun out.runId).request.sentFrom origin').pathname =
        some (encodeURIComponent out.runId) := runPath_segmentPath hid
    obtain ⟨row', hrow', hread'⟩ := (hrecords record).mp hanswered
    obtain ⟨items, hitems⟩ := evidence_listed hdb all hdb' hrow' hread'
    have hnonempty : record.run_id ≠ "" := by
      rw [hrecord]
      intro h
      rw [h] at hid
      exact hid List.mem_cons_self
    unfold Console.getRun
    rw [callWorker_result, send_served hallowed' (by decide), hall,
      fetch_segment rfl hpath (decode_encodeURIComponent _) hfine hdb' hget]
    dsimp only
    rw [sentFrom_origin, readable_response hallowed' (toJson_ofJson _), ← hfields,
      Wire.carry_through]
    exact receive_ok (complete_record hnonempty hitems out.runId)

theorem getRun_runTask_ship :
    ∃ told, (Console.runTask id (.stable _ _) (serve id (.stable _ _) { db := some .empty } []).1
        "http://localhost:5173" .through " ship it " shipOutside).2 = .ok told ∧
      ∃ fs, told = .obj fs ∧ fs.lookup "run_id" = some (.str "r 1") ∧
        ∀ (more : List (Request × Outside)) (origin' : String) (out' : Outside),
          allowedOrigin (some origin') = origin' → out'.dbFails = none →
          (Console.getRun id (.stable _ _) (serve id (.stable _ _)
              (Console.runTask id (.stable _ _) (serve id (.stable _ _) { db := some .empty } []).1
                "http://localhost:5173" .through " ship it " shipOutside).1
              more).1 origin' .through "r 1" out').2 = .ok (.obj (fs ++ times "now")) := by
  have hparsed : (readJson ((taskRequest " ship it ").sentFrom "http://localhost:5173")).bind
      parseRunRequest = .ok "ship it" := by decide +kernel
  obtain ⟨told, h⟩ := @runTask_ok id (.stable _ _) { db := some .empty } shipOutside
    "http://localhost:5173" rfl [] " ship it " (by decide) (by decide) fun message hrefused => by
      rcases hrefused with herror | ⟨-, hfails | ⟨-, -, r, ⟨A, req, out, B, fs, hnil, -⟩, -⟩⟩
      · rw [hparsed] at herror
        cases herror
      · cases hfails
      · simp at hnil
  exact ⟨told, h, getRun_runTask rfl [] " ship it " (by decide) h⟩

end Pages

end AgentKernel.Apps
