/-
  File:      AgentKernel/Apps/Server.lean
  Subject:   The API server (apps/api/src/server.ts, health.ts and routes/run.ts).

  All requests share one smoke runner. A body comes chunk by chunk, then the request waits for its run,
  and at each of these waits other requests may come, be read further or go on with their runs. What
  `JSON.parse` makes of a text, and `new URL` of the target of a request, are parameters.

  * `Connection`: a request as it came, what of its body has been read, and how far it has got;
  * `Handled`: why a request is where it is;
  * **`server_answers`**: what every request is answered, in every order of all that happens.
-/
import AgentKernel.Apps.Worker

namespace AgentKernel

namespace Runner

/-- What a rejected run throws. -/
def RunError.message : RunError → String
  | .approval message | .input message | .canExecute message | .executor message | .verify message
  | .billing message | .flush message => message
  | .immune error => error.message
  | .executorNotFound action => "no executor registered for action '" ++ action ++ "'"

end Runner

namespace Apps

open Lib Runner

variable {sha256 : String → String}

/-! ## 1. The server -/

/-- How far a request is. -/
inductive ConnectionState where
  /-- The next chunk is awaited. -/
  | reading
  /-- The run is awaited. -/
  | running (i : Nat)
  | answered (status : Nat) (body : Value)

/-- A request, with what has come of its body. -/
structure Connection where
  method : String
  /-- The target, as it stands in the request. -/
  url : String
  /-- The bytes that have come of the body. -/
  received : List UInt8
  /-- What the stream of the body has thrown. -/
  broken : Option String
  state : ConnectionState

/-- The runner, and all requests so far. -/
structure ApiServer (sha256 : String → String) where
  system : System sha256
  connections : List Connection

/-- What can happen. -/
inductive ApiEvent where
  | arrives (method url : String)
  | chunk (k : Nat) (bytes : List UInt8)
  /-- The body has come. If it is a task, these are the ids of its run. -/
  | ends (k : Nat) (taskId runId : String)
  | breaks (k : Nat) (message : String)
  /-- The runner goes on with one of its runs. -/
  | goesOn (i : Nat)

/-- What `/health` says. -/
def healthResponse (mode : RunMode) : Value :=
  .obj [("status", .str "ok"), ("service", .str "celia-api"), ("mode", .str mode.text)]

/-- The `catch` of the server. -/
def failedRequest (message : String) : ConnectionState :=
  .answered (errorStatus message) (errorBody message)

/-- `handleRequest`, up to its first wait. `pathOf` is the path of a target; `none` where `new URL`
    throws, as on `//`. -/
def handleRequest (pathOf : String → Option String) (mode : RunMode) (method url : String) :
    ConnectionState :=
  match pathOf url with
  | none => failedRequest "Invalid URL"
  | some path =>
      if path = "/health" then
        if method = "GET" then .answered 200 (healthResponse mode)
        else .answered 405 (errorBody "method not allowed")
      else if path = "/run" then
        if method = "POST" then .reading else .answered 405 (errorBody "method not allowed")
      else .answered 404 (errorBody "not found")

/-- The task of a body, of which all has come. -/
def taskOfBody (parseJson : String → Option Json) (received : List UInt8) : Except String String :=
  match parseJson (toText received) with
  | none => .error "request body must be valid JSON"
  | some body => parseRunRequest body

/-- One more chunk. -/
def Connection.push (c : Connection) (bytes : List UInt8) : Connection :=
  { c with
    received := c.received ++ bytes
    state :=
      if (c.received ++ bytes).length > MAX_BODY_BYTES then failedRequest "request body is too large"
      else .reading }

namespace ApiServer

/-- A server without requests. -/
def create (mode : RunMode) (clock : Clock) : ApiServer sha256 where
  system := createLocalSmokeRunner mode clock
  connections := []

/-- One event; `none` where the request or the run cannot have it. -/
def step (pathOf : String → Option String) (parseJson : String → Option Json) (mode : RunMode)
    (s : ApiServer sha256) : ApiEvent → Option (ApiServer sha256)
  | .arrives method url =>
      some { s with
        connections := s.connections ++
          [{ method := method, url := url, received := [], broken := none
             state := handleRequest pathOf mode method url }] }
  | .chunk k bytes =>
      (s.connections[k]?).bind fun c =>
        match c.state with
        | .reading => some { s with connections := s.connections.set k (c.push bytes) }
        | _ => none
  | .ends k taskId runId =>
      (s.connections[k]?).bind fun c =>
        match c.state with
        | .reading =>
            match taskOfBody parseJson c.received with
            | .error message =>
                some { s with
                  connections := s.connections.set k { c with state := failedRequest message } }
            | .ok task =>
                (s.system.step (.run task {} taskId runId)).map fun system =>
                  { system := system
                    connections :=
                      s.connections.set k { c with state := .running s.system.runs.length } }
        | _ => none
  | .breaks k message =>
      (s.connections[k]?).bind fun c =>
        match c.state with
        | .reading =>
            some { s with
              connections := s.connections.set k
                { c with broken := some message, state := failedRequest message } }
        | _ => none
  | .goesOn i => (s.system.goOn i).map fun system => { s with system := system }

/-- What has been sent to a request. -/
def answer (s : ApiServer sha256) (c : Connection) : Option (Nat × Value) :=
  match c.state with
  | .reading => none
  | .answered status body => some (status, body)
  | .running i =>
      (s.system.runs[i]?).bind fun r =>
        match r.awaiting with
        | .settled (.ok outcome) => some (200, publicOutcome outcome)
        | .settled (.error error) => some (errorStatus error.message, errorBody error.message)
        | _ => none

end ApiServer

/-! ## 2. Why a request is where it is -/

/-- Why a request has been answered without a run. -/
inductive Connection.Answered (pathOf : String → Option String) (parseJson : String → Option Json)
    (mode : RunMode) (c : Connection) : Nat → Value → Prop where
  | url (hpath : pathOf c.url = none) :
      Answered pathOf parseJson mode c 500 (errorBody "Invalid URL")
  | health (hpath : pathOf c.url = some "/health") (hmethod : c.method = "GET") :
      Answered pathOf parseJson mode c 200 (healthResponse mode)
  | method (h : pathOf c.url = some "/health" ∧ c.method ≠ "GET" ∨
        pathOf c.url = some "/run" ∧ c.method ≠ "POST") :
      Answered pathOf parseJson mode c 405 (errorBody "method not allowed")
  | path (path : String) (hpath : pathOf c.url = some path) (hother : path ∉ ["/health", "/run"]) :
      Answered pathOf parseJson mode c 404 (errorBody "not found")
  | large (hpath : pathOf c.url = some "/run") (hmethod : c.method = "POST")
      (h : MAX_BODY_BYTES < c.received.length) :
      Answered pathOf parseJson mode c 400 (errorBody "request body is too large")
  | body (hpath : pathOf c.url = some "/run") (hmethod : c.method = "POST")
      (hsize : c.received.length ≤ MAX_BODY_BYTES) (message : String)
      (h : taskOfBody parseJson c.received = .error message) :
      Answered pathOf parseJson mode c 400 (errorBody message)
  | broken (hpath : pathOf c.url = some "/run") (hmethod : c.method = "POST") (message : String)
      (h : c.broken = some message) :
      Answered pathOf parseJson mode c (errorStatus message) (errorBody message)

/-- `tasks` are those of the runs so far. -/
inductive Connection.Handled (pathOf : String → Option String) (parseJson : String → Option Json)
    (mode : RunMode) (tasks : List String) (c : Connection) : Prop where
  | reading (h : c.state = .reading) (hpath : pathOf c.url = some "/run")
      (hmethod : c.method = "POST") (hsize : c.received.length ≤ MAX_BODY_BYTES)
  | running (i : Nat) (task : String) (h : c.state = .running i) (hpath : pathOf c.url = some "/run")
      (hmethod : c.method = "POST") (hsize : c.received.length ≤ MAX_BODY_BYTES)
      (htask : taskOfBody parseJson c.received = .ok task) (hrun : tasks[i]? = some task)
  | answered (status : Nat) (body : Value) (h : c.state = .answered status body)
      (hwhy : c.Answered pathOf parseJson mode status body)

section Handled

variable {pathOf : String → Option String} {parseJson : String → Option Json} {mode : RunMode}
  {tasks : List String} {c : Connection}

theorem taskOfBody_error {received : List UInt8} {message : String}
    (h : taskOfBody parseJson received = .error message) : errorStatus message = 400 := by
  unfold taskOfBody at h
  split at h
  · cases h
    decide
  · exact parseRunRequest_error h

theorem handleRequest_handled {method url : String} :
    Connection.Handled pathOf parseJson mode tasks
      { method := method, url := url, received := [], broken := none
        state := handleRequest pathOf mode method url } := by
  unfold handleRequest
  cases hpath : pathOf url with
  | none => exact .answered 500 _ rfl (.url hpath)
  | some path =>
      by_cases hhealth : path = "/health"
      · subst hhealth
        by_cases hget : method = "GET"
        · exact .answered _ _ (if_pos hget) (.health hpath hget)
        · exact .answered _ _ (if_neg hget) (.method (.inl ⟨hpath, hget⟩))
      · by_cases hrun : path = "/run"
        · subst hrun
          by_cases hpost : method = "POST"
          · exact .reading (if_pos hpost) hpath hpost (Nat.zero_le _)
          · exact .answered _ _ (if_neg hpost) (.method (.inr ⟨hpath, hpost⟩))
        · refine .answered 404 (errorBody "not found") ?_ (.path path hpath (by simp [hhealth, hrun]))
          dsimp only
          rw [if_neg hhealth, if_neg hrun]

theorem push_handled {bytes : List UInt8} (hpath : pathOf c.url = some "/run")
    (hmethod : c.method = "POST") : (c.push bytes).Handled pathOf parseJson mode tasks := by
  by_cases hlarge : (c.received ++ bytes).length > MAX_BODY_BYTES
  · exact .answered 400 _ (if_pos hlarge) (.large hpath hmethod hlarge)
  · exact .reading (if_neg hlarge) hpath hmethod (Nat.le_of_not_lt hlarge)

/-- More runs change nothing. -/
theorem Connection.Handled.mono {more : List String} (h : c.Handled pathOf parseJson mode tasks) :
    c.Handled pathOf parseJson mode (tasks ++ more) := by
  cases h with
  | reading h hpath hmethod hsize => exact .reading h hpath hmethod hsize
  | running i task h hpath hmethod hsize htask hrun =>
      have hlt := (List.getElem?_eq_some_iff.mp hrun).1
      exact .running i task h hpath hmethod hsize htask (by rw [List.getElem?_append_left hlt, hrun])
  | answered status body h hwhy => exact .answered status body h hwhy

/-- A request that is read is one to run a task. -/
theorem Connection.Handled.run (h : c.Handled pathOf parseJson mode tasks)
    (hreading : c.state = .reading) :
    pathOf c.url = some "/run" ∧ c.method = "POST" ∧ c.received.length ≤ MAX_BODY_BYTES := by
  cases h with
  | reading _ hpath hmethod hsize => exact ⟨hpath, hmethod, hsize⟩
  | running _ _ h | answered _ _ h =>
      rw [hreading] at h
      cases h

end Handled

/-! ## 3. Every order -/

/-- How often the runner has gone on with the `i`-th run. -/
def turns (i : Nat) (es : List ApiEvent) : Nat :=
  es.countP fun e =>
    match e with
    | .goesOn j => j = i
    | _ => false

/-- No two requests wait for one run. -/
def RunsApart (cs : List Connection) : Prop :=
  ∀ (k k' : Nat) (c c' : Connection) (i : Nat), cs[k]? = some c → cs[k']? = some c' →
    c.state = .running i → c'.state = .running i → k = k'

section RunsApart

variable {cs : List Connection} {c : Connection}

theorem RunsApart.concat (h : RunsApart cs) (hc : ∀ i, c.state ≠ .running i) :
    RunsApart (cs ++ [c]) := by
  have hold : ∀ {k : Nat} {a : Connection} {i : Nat}, (cs ++ [c])[k]? = some a →
      a.state = .running i → cs[k]? = some a := by
    intro k a i hk ha
    by_cases hlt : k < cs.length
    · rwa [List.getElem?_append_left hlt] at hk
    · rw [List.getElem?_append_right (Nat.le_of_not_lt hlt)] at hk
      obtain rfl := List.mem_singleton.mp (List.mem_of_getElem? hk)
      exact absurd ha (hc i)
  intro k k' a b i ha hb hai hbi
  exact h k k' a b i (hold ha hai) (hold hb hbi) hai hbi

theorem RunsApart.set {n : Nat} (h : RunsApart cs)
    (hc : ∀ i, c.state = .running i → ∀ c' ∈ cs, c'.state ≠ .running i) : RunsApart (cs.set n c) := by
  have hcases : ∀ {k : Nat} {a : Connection}, (cs.set n c)[k]? = some a →
      k = n ∧ a = c ∨ k ≠ n ∧ cs[k]? = some a := by
    intro k a hk
    by_cases hkn : n = k
    · subst hkn
      have hlt : n < cs.length := by
        simpa using (List.getElem?_eq_some_iff.mp hk).1
      rw [List.getElem?_set_self hlt] at hk
      exact .inl ⟨rfl, (Option.some.inj hk).symm⟩
    · rw [List.getElem?_set_ne hkn] at hk
      exact .inr ⟨Ne.symm hkn, hk⟩
  intro k k' a b i ha hb hai hbi
  rcases hcases ha with ⟨rfl, rfl⟩ | ⟨-, holda⟩
  · rcases hcases hb with ⟨rfl, -⟩ | ⟨-, holdb⟩
    · rfl
    · exact absurd hbi (hc i hai b (List.mem_of_getElem? holdb))
  · rcases hcases hb with ⟨rfl, rfl⟩ | ⟨-, holdb⟩
    · exact absurd hai (hc i hbi a (List.mem_of_getElem? holda))
    · exact h k k' a b i holda holdb hai hbi

end RunsApart

section Serving

variable {pathOf : String → Option String} {parseJson : String → Option Json} {mode : RunMode}
  {clock : Clock} {es : List ApiEvent} {ms : List Move} {s s' : ApiServer sha256} {e : ApiEvent}

/-- The runner serves, with `ms` so far, and every request is where it is for a reason. -/
structure Serving (pathOf : String → Option String) (parseJson : String → Option Json)
    (mode : RunMode) (es : List ApiEvent) (ms : List Move) (s : ApiServer sha256) : Prop where
  smoking : System.Smoking mode ms s.system
  turned : ∀ i, resumes i ms = turns i es
  handled : ∀ c ∈ s.connections, c.Handled pathOf parseJson mode (s.system.runs.map (·.intent))
  apart : RunsApart s.connections

theorem create_serving :
    Serving pathOf parseJson mode [] [] (ApiServer.create mode clock : ApiServer sha256) where
  smoking := System.create_smoking
  turned _ := rfl
  handled c hc := by cases hc
  apart k k' c c' i hc := by cases hc

/-- The tasks of the runs are what they have been called with. -/
theorem intents_eq {s : System sha256} (h : System.Smoking mode ms s) :
    s.runs.map (·.intent) = (ms.filterMap Move.called).map Called.intent := by
  rw [← h.called, List.map_map]
  rfl

/-- A request that is read becomes one for which the runner has nothing to do. -/
theorem Serving.set (h : Serving pathOf parseJson mode es ms s) {k : Nat} {c : Connection}
    (he : ∀ i, turns i [e] = 0) (hc : c.Handled pathOf parseJson mode (s.system.runs.map (·.intent)))
    (hstate : ∀ i, c.state ≠ .running i) :
    Serving pathOf parseJson mode (es ++ [e]) ms { s with connections := s.connections.set k c } where
  smoking := h.smoking
  turned i := by
    unfold turns at he ⊢
    rw [List.countP_append, he, h.turned i, Nat.add_zero]
    rfl
  handled c' hc' := by
    rcases List.mem_or_eq_of_mem_set hc' with hc' | rfl
    · exact h.handled c' hc'
    · exact hc
  apart := h.apart.set fun i hi => absurd hi (hstate i)

theorem failedRequest_ne {message : String} (i : Nat) : failedRequest message ≠ .running i := by
  unfold failedRequest
  exact ConnectionState.noConfusion

theorem push_ne {c : Connection} {bytes : List UInt8} (i : Nat) : (c.push bytes).state ≠ .running i := by
  unfold Connection.push
  dsimp only
  split_ifs
  · exact failedRequest_ne i
  · exact ConnectionState.noConfusion

theorem handleRequest_ne {method url : String} (i : Nat) :
    handleRequest pathOf mode method url ≠ .running i := by
  unfold handleRequest
  split
  · exact failedRequest_ne i
  · split_ifs <;> exact ConnectionState.noConfusion

/-- A task that has been read becomes a run. -/
theorem Serving.start (h : Serving pathOf parseJson mode es ms s) {k : Nat} {c : Connection}
    {task taskId runId : String} {system : System sha256} (hc : s.connections[k]? = some c)
    (hreading : c.state = .reading) (htask : taskOfBody parseJson c.received = .ok task)
    (hs : s.system.step (.run task {} taskId runId) = some system) :
    Serving pathOf parseJson mode (es ++ [.ends k taskId runId]) (ms ++ [.run task {} taskId runId])
      { system := system
        connections := s.connections.set k { c with state := .running s.system.runs.length } } := by
  have hsmoking := System.step_smoking (m := .run task {} taskId runId) h.smoking rfl hs
  have htasks : system.runs.map (·.intent) = s.system.runs.map (·.intent) ++ [task] := by
    rw [intents_eq hsmoking, intents_eq h.smoking, List.filterMap_append, List.map_append]
    rfl
  obtain ⟨hpath, hmethod, hsize⟩ := (h.handled c (List.mem_of_getElem? hc)).run hreading
  refine ⟨hsmoking, fun i => ?_, fun c' hc' => ?_, h.apart.set fun i hi c' hc' hrunning => ?_⟩
  · have hturned := h.turned i
    unfold turns resumes at hturned ⊢
    rw [List.countP_append, List.countP_append, hturned]
    rfl
  · dsimp only
    rw [htasks]
    rcases List.mem_or_eq_of_mem_set hc' with hc' | rfl
    · exact (h.handled c' hc').mono
    · refine .running _ task rfl hpath hmethod hsize htask ?_
      rw [← List.length_map (f := (·.intent)), List.getElem?_concat_length]
  · -- its run is a new one
    obtain rfl := ConnectionState.running.inj hi
    cases h.handled c' hc' with
    | reading h | answered _ _ h =>
        rw [hrunning] at h
        cases h
    | running i task h _ _ _ _ hrun =>
        rw [hrunning] at h
        obtain rfl := ConnectionState.running.inj h
        have hlt := (List.getElem?_eq_some_iff.mp hrun).1
        rw [List.length_map] at hlt
        exact Nat.lt_irrefl _ hlt

theorem Serving.goesOn (h : Serving pathOf parseJson mode es ms s) {i : Nat} {system : System sha256}
    (hs : s.system.goOn i = some system) :
    ∃ ms', Serving pathOf parseJson mode (es ++ [.goesOn i]) ms' { s with system := system } := by
  obtain ⟨r, hr, hstep⟩ := Option.bind_eq_some_iff.mp hs
  have hsmoking := System.step_smoking (m := .resume i (smokeWake r)) h.smoking ⟨r, hr, rfl⟩ hstep
  refine ⟨_, hsmoking, fun j => ?_, fun c hc => ?_, h.apart⟩
  · have hturned := h.turned j
    unfold turns resumes at hturned ⊢
    rw [List.countP_append, List.countP_append, hturned]
    rfl
  · have htasks : system.runs.map (·.intent) = s.system.runs.map (·.intent) := by
      rw [intents_eq hsmoking, intents_eq h.smoking, List.filterMap_append]
      simp [Move.called]
    dsimp only
    rw [htasks]
    exact h.handled c hc

/-- **Whatever happens keeps it.** -/
theorem step_serving (h : Serving pathOf parseJson mode es ms s)
    (hs : s.step pathOf parseJson mode e = some s') :
    ∃ ms', Serving pathOf parseJson mode (es ++ [e]) ms' s' := by
  cases e with
  | arrives method url =>
      cases hs
      refine ⟨ms, h.smoking, fun i => ?_, fun c hc => ?_, h.apart.concat handleRequest_ne⟩
      · have hturned := h.turned i
        unfold turns at hturned ⊢
        rw [List.countP_append, hturned]
        rfl
      · rcases List.mem_append.mp hc with hc | hc
        · exact h.handled c hc
        · rw [List.mem_singleton.mp hc]
          exact handleRequest_handled
  | chunk k bytes =>
      obtain ⟨c, hc, hs⟩ := Option.bind_eq_some_iff.mp hs
      split at hs
      · rename_i hreading
        cases hs
        obtain ⟨hpath, hmethod, -⟩ := (h.handled c (List.mem_of_getElem? hc)).run hreading
        exact ⟨ms, h.set (fun _ => rfl) (push_handled hpath hmethod) push_ne⟩
      · cases hs
  | ends k taskId runId =>
      obtain ⟨c, hc, hs⟩ := Option.bind_eq_some_iff.mp hs
      split at hs
      · rename_i hreading
        obtain ⟨hpath, hmethod, hsize⟩ := (h.handled c (List.mem_of_getElem? hc)).run hreading
        split at hs
        · rename_i message htask
          cases hs
          have hwhy : Connection.Answered pathOf parseJson mode { c with state := failedRequest message }
              (errorStatus message) (errorBody message) := by
            rw [taskOfBody_error htask]
            exact .body (c := { c with state := failedRequest message }) hpath hmethod hsize message
              htask
          exact ⟨ms, h.set (fun _ => rfl) (.answered _ _ rfl hwhy) failedRequest_ne⟩
        · rename_i task htask
          obtain ⟨system, hstep, rfl⟩ := Option.map_eq_some_iff.mp hs
          exact ⟨_, h.start hc hreading htask hstep⟩
      · cases hs
  | breaks k message =>
      obtain ⟨c, hc, hs⟩ := Option.bind_eq_some_iff.mp hs
      split at hs
      · rename_i hreading
        cases hs
        obtain ⟨hpath, hmethod, -⟩ := (h.handled c (List.mem_of_getElem? hc)).run hreading
        have hwhy : Connection.Answered pathOf parseJson mode
            { c with broken := some message, state := failedRequest message } (errorStatus message)
            (errorBody message) :=
          .broken (c := { c with broken := some message, state := failedRequest message }) hpath
            hmethod message rfl
        exact ⟨ms, h.set (fun _ => rfl) (.answered _ _ rfl hwhy) failedRequest_ne⟩
      · cases hs
  | goesOn i =>
      obtain ⟨system, hgo, rfl⟩ := Option.map_eq_some_iff.mp hs
      exact h.goesOn hgo

theorem serving (h : Run (ApiServer.step pathOf parseJson mode) (fun _ _ => True)
    (ApiServer.create mode clock : ApiServer sha256) es s) :
    ∃ ms, Serving pathOf parseJson mode es ms s := by
  induction h with
  | start => exact ⟨[], create_serving⟩
  | next _ _ hs ih =>
      obtain ⟨ms, hserving⟩ := ih
      exact step_serving hserving hs

/-- What becomes of a request, and of its run. -/
inductive ApiServer.Served (pathOf : String → Option String) (parseJson : String → Option Json)
    (mode : RunMode) (es : List ApiEvent) (s : ApiServer sha256) (k : Nat) (c : Connection) : Prop where
  /-- It is still read. -/
  | reading (hanswer : s.answer c = none) (hpath : pathOf c.url = some "/run")
      (hmethod : c.method = "POST") (hsize : c.received.length ≤ MAX_BODY_BYTES)
  /-- It has been answered at once. -/
  | answered (status : Nat) (body : Value) (hanswer : s.answer c = some (status, body))
      (hwhy : c.Answered pathOf parseJson mode status body)
  /-- It has a run of its own, for its task. -/
  | running (i : Nat) (task : String) (hstate : c.state = .running i) (hpath : pathOf c.url = some "/run")
      (hmethod : c.method = "POST") (hsize : c.received.length ≤ MAX_BODY_BYTES)
      (htask : taskOfBody parseJson c.received = .ok task)
      (hown : ∀ k' c', s.connections[k']? = some c' → c'.state = .running i → k' = k)
      (hturns : turns i es ≤ 18)
      (hanswer : (∃ s', s.step pathOf parseJson mode (.goesOn i) = some s') ∨
        ∃ outcome, s.answer c = some (200, publicOutcome outcome) ∧ outcome.intent = task ∧
          ((outcome.verdict = .passed ∧ outcome.results = smokeSteps.map smokeResult) ∨
            (outcome.verdict = .failed ∧ 100 ≤ s.system.runner.meter.total .toolCalls ∧
              33 < s.system.runs.length)))

/-- **What every request is answered, in every order.** It is still read, with a body that is not too
    large; or it has been answered at once, for one of the reasons there are; or its body is a task,
    which has a run of its own: the run goes on until the request is answered, which is after 18 turns
    at most, with an outcome of that task, which has passed, or failed since the runs of all requests
    have made a hundred calls together; while at most 33 runs have been started none fails. -/
theorem server_answers (h : Run (ApiServer.step pathOf parseJson mode) (fun _ _ => True)
      (ApiServer.create mode clock : ApiServer sha256) es s)
    {k : Nat} {c : Connection} (hc : s.connections[k]? = some c) :
    s.Served pathOf parseJson mode es k c := by
  obtain ⟨ms, hserving⟩ := serving h
  cases hserving.handled c (List.mem_of_getElem? hc) with
  | reading hstate hpath hmethod hsize =>
      refine .reading ?_ hpath hmethod hsize
      unfold ApiServer.answer
      rw [hstate]
  | answered status body hstate hwhy =>
      refine .answered status body ?_ hwhy
      unfold ApiServer.answer
      rw [hstate]
  | running i task hstate hpath hmethod hsize htask hrun =>
      obtain ⟨r, hr, hintent⟩ : ∃ r, s.system.runs[i]? = some r ∧ r.intent = task := by
        rw [List.getElem?_map] at hrun
        exact Option.map_eq_some_iff.mp hrun
      obtain ⟨hturns, hgoes⟩ := hserving.smoking.goes hr
      refine .running i task hstate hpath hmethod hsize htask
        (fun k' c' hc' hrunning => hserving.apart k' k c' c i hc' hc hrunning hstate)
        (hserving.turned i ▸ hturns) ?_
      rcases hgoes with ⟨system, hstep⟩ | ⟨outcome, hsettled, hcalled, hverdict⟩
      · left
        refine ⟨{ s with system := system }, ?_⟩
        unfold ApiServer.step System.goOn
        dsimp only
        rw [hr, Option.bind_some, hstep]
        rfl
      · refine .inr ⟨outcome, ?_, ?_, hverdict⟩
        · unfold ApiServer.answer
          rw [hstate]
          dsimp only
          rw [hr, Option.bind_some, hsettled]
        · rw [intents_eq hserving.smoking, List.getElem?_map, hcalled] at hrun
          exact Option.some.inj hrun

end Serving

/-- Every text is read as one task. -/
def parseShip (_ : String) : Option Json := some (.obj [("task", .str "ship")])

/-- The targets that are paths, and one that is not. -/
def plainPath (url : String) : Option String := if url = "//" then none else some url

/-- A request, in two chunks, to the end of its run, and two that are refused in between. -/
def shipEvents : List ApiEvent :=
  [.arrives "POST" "/run", .chunk 0 [0x7b], .arrives "GET" "/run", .arrives "GET" "//",
    .chunk 0 [0x7d], .ends 0 "t1" "r1"] ++ List.replicate 18 (.goesOn 0)

/-- The server at the end. -/
def shipServer : ApiServer id :=
  (exec (ApiServer.step plainPath parseShip .local) (ApiServer.create .local System.someClock)
    shipEvents).getD (ApiServer.create .local System.someClock)

theorem server_answers_ship :
    (shipServer.connections.map fun c => (shipServer.answer c).map Prod.fst) =
      [some 200, some 405, some 500] ∧
    ∃ c, shipServer.connections[0]? = some c ∧
      shipServer.Served plainPath parseShip .local shipEvents 0 c := by
  have hrun : Run (ApiServer.step plainPath parseShip .local) (fun _ _ => True)
      (ApiServer.create .local System.someClock) shipEvents shipServer :=
    run_of_exec (fun _ _ => trivial) rfl
  exact ⟨rfl, _, rfl, server_answers hrun rfl⟩

end Apps

end AgentKernel
