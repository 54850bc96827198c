/-
  File:      AgentKernel/Tools/GitHub.lean
  Subject:   GitHub as a plugin (plugins/tools/github/src/transport.ts, operations.ts and tools.ts).

  An operation asks GitHub and goes on with what it is told, which can be any JSON. What `JSON.parse`
  makes of a text, and what zod, Node's `Buffer` of a value that is no text, and the network say are
  parameters.

  * `HttpGitHubTransport.request`, the operations, `dispatch` and `execute` are the source's;
  * **`execute_exchange`**: what an action may ask of GitHub, and what its result says of that.
-/
import AgentKernel.Lib.Asking
import AgentKernel.Lib.Encodings
import AgentKernel.Lib.UrlPaths
import AgentKernel.Contracts.Coercion
import AgentKernel.Contracts.Stringify
import AgentKernel.Verification

namespace AgentKernel.GitHub

open Lib

/-! ## 1. The transport -/

/-- What an operation asks the transport for. -/
structure GitHubRequest where
  method : String
  path : String
  body : Option Value := none

/-- What the transport gives back. -/
structure GitHubResponse where
  status : Nat
  json : Option Json

/-- What a request or an operation throws. -/
inductive GitHubError where
  /-- `GitHubRequestError` -/
  | request (status : Nat) (message path : String)
  | thrown (message : String)

/-- The text of what is thrown. -/
def GitHubError.message : GitHubError → String
  | .request status message path =>
      "GitHub API " ++ toString status ++ " on " ++ path ++ ": " ++ message
  | .thrown message => message

/-- An operation, as a conversation with GitHub. -/
abbrev Talk (α : Type) := Asking GitHubRequest GitHubResponse GitHubError α

/-- What `fetch` is called with. -/
structure HttpRequest where
  url : String
  method : String
  headers : List (String × String)
  body : Option String

/-- What `fetch` gives back. -/
structure HttpResponse where
  status : Nat
  text : String

/-- `res.ok`. -/
def HttpResponse.ok (res : HttpResponse) : Bool := 200 ≤ res.status && res.status ≤ 299

/-- What is not a text of JSON is a text. -/
def HttpResponse.json (parseJson : String → Option Json) (res : HttpResponse) : Option Json :=
  if res.text = "" then none else some ((parseJson res.text).getD (.str res.text))

/-- The transport that goes over HTTP. -/
structure HttpGitHubTransport where
  baseUrl : String
  token : String

namespace HttpGitHubTransport

variable (parseJson : String → Option Json) (t : HttpGitHubTransport)

/-- The headers of every request. -/
def headers : List (String × String) :=
  [("Accept", "application/vnd.github+json"), ("Authorization", "Bearer " ++ t.token),
    ("X-GitHub-Api-Version", "2022-11-28"), ("Content-Type", "application/json")]

/-- `JSON.stringify` of a body; none is sent where there is none. -/
def bodyText : Option Value → Except GitHubError (Option String)
  | none => .ok none
  | some body => (stringify body).mapError fun _ => .thrown "Do not know how to serialize a BigInt"

/-- `json?.message ?? text`. -/
def complaint (res : HttpResponse) : Json :=
  match res.json parseJson with
  | none | some .null => .str res.text
  | some json =>
      match json.property "message" with
      | none | some .null => .str res.text
      | some message => message

/-- One request, up to the answer or the complaint about it. -/
def request (r : GitHubRequest) : Asking HttpRequest HttpResponse GitHubError GitHubResponse := do
  let body ← Asking.lift (bodyText r.body)
  let res ← Asking.request
    { url := t.baseUrl ++ r.path, method := r.method, headers := t.headers, body := body }
  if res.ok then pure { status := res.status, json := res.json parseJson }
  else do
    let message ← Asking.lift ((complaint parseJson res).toText.mapError .thrown)
    Asking.lift (.error (.request res.status message r.path))

end HttpGitHubTransport

/-! ## 2. Schemas -/

/-- `z.string()`. -/
def zString : Option Json → Option String
  | some (.str s) => some s
  | _ => none

/-- `z.string().min(1)`. -/
def zNonempty (j : Option Json) : Option String := (zString j).filter (· ≠ "")

/-- `z.number()`. -/
def zNumber : Option Json → Option JsonNumber
  | some (.num n) => some n
  | _ => none

/-- `schema.optional()`. -/
def zOptional {α : Type} (schema : Option Json → Option α) : Option Json → Option (Option α)
  | none => some none
  | j => (schema j).map some

/-- `z.object`, by its fields; the others are passed over. -/
def zObject {α : Type} (shape : (String → Option Json) → Option α) : Option Json → Option α
  | some (.obj fields) => shape (fields.lookup ·)
  | _ => none

/-- The actions of the plugin. -/
inductive GithubAction where
  | repoRead | branchCreate | fileRead | fileWrite | gitCommit | pullRequestCreate | pullRequestRead
  deriving DecidableEq

/-- The name an action is registered under. -/
def GithubAction.name : GithubAction → String
  | repoRead => "github.repo.read"
  | branchCreate => "github.repo.branch.create"
  | fileRead => "github.repo.file.read"
  | fileWrite => "github.repo.file.write"
  | gitCommit => "github.git.commit"
  | pullRequestCreate => "github.pull_request.create"
  | pullRequestRead => "github.pull_request.read"

/-- The inputs the schemas let through. -/
inductive GithubInput where
  | repoRead (owner repo : String)
  | branchCreate (owner repo branch source : String)
  | fileRead (owner repo path : String) (ref : Option String)
  | fileWrite (owner repo path branch content message : String)
  | gitCommit (owner repo branch message : String)
  | pullRequestCreate (owner repo title head base : String) (body : Option String)
  | pullRequestRead (owner repo : String) (number : JsonNumber)

/-- `GITHUB_TOOL_SCHEMAS[action].input.parse`. -/
def parseInput : GithubAction → Option Json → Option GithubInput
  | .repoRead => zObject fun f => do
      some (.repoRead (← zNonempty (f "owner")) (← zNonempty (f "repo")))
  | .branchCreate => zObject fun f => do
      some (.branchCreate (← zNonempty (f "owner")) (← zNonempty (f "repo")) (← zNonempty (f "branch"))
        (← zNonempty (f "from")))
  | .fileRead => zObject fun f => do
      some (.fileRead (← zNonempty (f "owner")) (← zNonempty (f "repo")) (← zNonempty (f "path"))
        (← zOptional zString (f "ref")))
  | .fileWrite => zObject fun f => do
      some (.fileWrite (← zNonempty (f "owner")) (← zNonempty (f "repo")) (← zNonempty (f "path"))
        (← zNonempty (f "branch")) (← zString (f "content")) (← zNonempty (f "message")))
  | .gitCommit => zObject fun f => do
      some (.gitCommit (← zNonempty (f "owner")) (← zNonempty (f "repo")) (← zNonempty (f "branch"))
        (← zNonempty (f "message")))
  | .pullRequestCreate => zObject fun f => do
      some (.pullRequestCreate (← zNonempty (f "owner")) (← zNonempty (f "repo"))
        (← zNonempty (f "title")) (← zNonempty (f "head")) (← zNonempty (f "base"))
        (← zOptional zString (f "body")))
  | .pullRequestRead => zObject fun f => do
      some (.pullRequestRead (← zNonempty (f "owner")) (← zNonempty (f "repo")) (← zNumber (f "number")))

/-- The object an operation returns; a field may be `undefined`. -/
abbrev Output := List (String × Option Json)

/-- A property of an output; one that is `undefined` is as good as absent. -/
def field (out : Output) (key : String) : Option Json := (out.lookup key).join

/-- `z.array(z.object({ filename: z.string(), status: z.string() }))`. -/
def isFileList : Option Json → Bool
  | some (.arr items) => items.all fun item =>
      (zObject (fun f => do some ((← zString (f "filename")), (← zString (f "status")))) (some item)).isSome
  | _ => false

/-- Each of these properties is a text. -/
def areTexts (out : Output) (keys : List String) : Bool :=
  keys.all fun key => (zString (field out key)).isSome

/-- `GITHUB_TOOL_SCHEMAS[action].output` takes the output. -/
def fitsOutput (out : Output) : GithubAction → Bool
  | .repoRead => areTexts out ["owner", "repo", "fullName", "defaultBranch", "defaultBranchSha"]
  | .branchCreate => areTexts out ["ref", "sha"]
  | .fileRead => areTexts out ["path", "content", "sha"]
  | .fileWrite => areTexts out ["commitSha", "contentSha"]
  | .gitCommit => areTexts out ["sha"]
  | .pullRequestCreate =>
      (zNumber (field out "number")).isSome &&
        areTexts out ["url", "headSha", "headRef", "baseRef", "state"]
  | .pullRequestRead =>
      (zNumber (field out "number")).isSome &&
        areTexts out ["state", "headSha", "headRef", "baseRef", "title", "url"] &&
        isFileList (field out "files")

/-! ## 3. Operations -/

section Operations

variable (bytesOf : Option Json → Except String (List UInt8))

/-- A property; `undefined` and `null` have none. -/
def get (key : String) (j : Option Json) : Talk (Option Json) :=
  Asking.lift ((readProperty key j).mapError .thrown)

/-- A value in a template. -/
def textOf (j : Option Json) : Talk String := Asking.lift ((coerce j).mapError .thrown)

/-- A part of an answer, as it goes into a body or an output. -/
def valueOf (j : Option Json) : Value := (j.map Value.ofJson).getD .undefined

/-- `Buffer.from(text, 'utf8').toString('base64')`. -/
def b64encode (text : String) : String := base64 (utf8 text)

/-- `bytesOf` is `Buffer.from` of what is no text. -/
def b64decode : Option Json → Except String String
  | some (.str encoded) => .ok (toText (unbase64 encoded))
  | j => (bytesOf j).map toText

/-- The path of a repository. -/
def repoPath (owner repo : String) : String := "/repos/" ++ owner ++ "/" ++ repo

/-- A path below it. -/
def subPath (owner repo rest : String) : String := repoPath owner repo ++ "/" ++ rest

/-- The repository, and the head of its default branch. -/
def repoRead (owner repo : String) : Talk Output := do
  let repoRes ← Asking.request { method := "GET", path := repoPath owner repo }
  let branch ← get "default_branch" repoRes.json
  let branchText ← textOf branch
  let refRes ← Asking.request
    { method := "GET", path := subPath owner repo ("git/ref/heads/" ++ branchText) }
  let fullName ← get "full_name" repoRes.json
  let object ← get "object" refRes.json
  let sha ← get "sha" object
  pure [("owner", some (.str owner)), ("repo", some (.str repo)), ("fullName", fullName),
    ("defaultBranch", branch), ("defaultBranchSha", sha)]

/-- A branch that begins at a commit. -/
def branchCreate (owner repo branch source : String) : Talk Output := do
  let res ← Asking.request
    { method := "POST", path := subPath owner repo "git/refs"
      body := some (.obj [("ref", .str ("refs/heads/" ++ branch)), ("sha", .str source)]) }
  let ref ← get "ref" res.json
  let object ← get "object" res.json
  let sha ← get "sha" object
  pure [("ref", ref), ("sha", sha)]

/-- The path of a file, at a branch if there is one. -/
def contentsPath (owner repo path : String) (ref : Option String) : String :=
  subPath owner repo ("contents/" ++ path ++
    match ref with
    | none | some "" => ""
    | some ref => "?ref=" ++ encodeURIComponent ref)

/-- The text of a file. -/
def fileRead (owner repo path : String) (ref : Option String) : Talk Output := do
  let res ← Asking.request { method := "GET", path := contentsPath owner repo path ref }
  let encoded ← get "content" res.json
  let content ← Asking.lift ((b64decode bytesOf encoded).mapError .thrown)
  let sha ← get "sha" res.json
  pure [("path", some (.str path)), ("content", some (.str content)), ("sha", sha)]

/-- A file is written in a commit of its own. -/
def fileWrite (owner repo path branch content message : String) : Talk Output := do
  let res ← Asking.request
    { method := "PUT", path := contentsPath owner repo path none
      body := some (.obj [("message", .str message), ("content", .str (b64encode content)),
        ("branch", .str branch)]) }
  let commit ← get "commit" res.json
  let commitSha ← get "sha" commit
  let contents ← get "content" res.json
  let contentSha ← get "sha" contents
  pure [("commitSha", commitSha), ("contentSha", contentSha)]

/-- Asks for the head of a branch. -/
def refRequest (owner repo branch : String) : GitHubRequest :=
  { method := "GET", path := subPath owner repo ("git/ref/heads/" ++ branch) }

/-- Asks for a commit. -/
def parentRequest (owner repo parent : String) : GitHubRequest :=
  { method := "GET", path := subPath owner repo ("git/commits/" ++ parent) }

/-- Makes a commit on top of another one. -/
def commitRequest (owner repo message : String) (tree parent : Option Json) : GitHubRequest :=
  { method := "POST", path := subPath owner repo "git/commits"
    body := some (.obj [("message", .str message), ("tree", valueOf tree),
      ("parents", .arr [valueOf parent])]) }

/-- Moves a branch to a commit. -/
def moveRequest (owner repo branch : String) (sha : Option Json) : GitHubRequest :=
  { method := "PATCH", path := subPath owner repo ("git/refs/heads/" ++ branch)
    body := some (.obj [("sha", valueOf sha)]) }

/-- The head is read, a commit of the same tree is made on top of it, and the branch is moved
    there. -/
def gitCommit (owner repo branch message : String) : Talk Output := do
  let refRes ← Asking.request (refRequest owner repo branch)
  let object ← get "object" refRes.json
  let parentSha ← get "sha" object
  let parentText ← textOf parentSha
  let parentRes ← Asking.request (parentRequest owner repo parentText)
  let tree ← get "tree" parentRes.json
  let treeSha ← get "sha" tree
  let commitRes ← Asking.request (commitRequest owner repo message treeSha parentSha)
  let sha ← get "sha" commitRes.json
  let _ ← Asking.request (moveRequest owner repo branch sha)
  pure [("sha", sha)]

/-- A pull request is opened. -/
def prCreate (owner repo title head base : String) (body : Option String) : Talk Output := do
  let res ← Asking.request
    { method := "POST", path := subPath owner repo "pulls"
      body := some (.obj [("title", .str title), ("head", .str head), ("base", .str base),
        ("body", .str (body.getD ""))]) }
  let number ← get "number" res.json
  let url ← get "html_url" res.json
  let headOf ← get "head" res.json
  let headSha ← get "sha" headOf
  let headRef ← get "ref" headOf
  let baseOf ← get "base" res.json
  let baseRef ← get "ref" baseOf
  let state ← get "state" res.json
  pure [("number", number), ("url", url), ("headSha", headSha), ("headRef", headRef),
    ("baseRef", baseRef), ("state", state)]

/-- A pull request, and the files it touches. -/
def prRead (owner repo : String) (number : JsonNumber) : Talk Output := do
  let res ← Asking.request
    { method := "GET", path := subPath owner repo ("pulls/" ++ number.text) }
  let filesRes ← Asking.request
    { method := "GET", path := subPath owner repo ("pulls/" ++ number.text ++ "/files") }
  let number ← get "number" res.json
  let state ← get "state" res.json
  let headOf ← get "head" res.json
  let headSha ← get "sha" headOf
  let headRef ← get "ref" headOf
  let baseOf ← get "base" res.json
  let baseRef ← get "ref" baseOf
  let title ← get "title" res.json
  let url ← get "html_url" res.json
  pure [("number", number), ("state", state), ("headSha", headSha), ("headRef", headRef),
    ("baseRef", baseRef), ("title", title), ("url", url), ("files", filesRes.json)]

/-- An output, with its piece of evidence. -/
def withEvidence (out : Output) (label key kind : String) : Talk (Output × List LedgerEvidence) := do
  let id ← textOf (field out key)
  pure (out, [{ evidenceId := label ++ id, kind := kind }])

/-- The operation of an input, with the evidence of what it has come to. -/
def dispatch : GithubInput → Talk (Output × List LedgerEvidence)
  | .repoRead owner repo => do
      withEvidence (← repoRead owner repo) "github.repo.read:" "fullName" "http_check"
  | .branchCreate owner repo branch source => do
      withEvidence (← branchCreate owner repo branch source) "github.repo.branch.create:" "sha"
        "git_commit"
  | .fileRead owner repo path ref => do
      withEvidence (← fileRead bytesOf owner repo path ref) "github.repo.file.read:" "sha" "file"
  | .fileWrite owner repo path branch content message => do
      withEvidence (← fileWrite owner repo path branch content message) "github.repo.file.write:"
        "commitSha" "git_commit"
  | .gitCommit owner repo branch message => do
      withEvidence (← gitCommit owner repo branch message) "github.git.commit:" "sha" "git_commit"
  | .pullRequestCreate owner repo title head base body => do
      withEvidence (← prCreate owner repo title head base body) "github.pull_request.create:#" "number"
        "artifact"
  | .pullRequestRead owner repo number => do
      withEvidence (← prRead owner repo number) "github.pull_request.read:#" "number" "http_check"

end Operations

/-! ## 4. The executor -/

/-- What is not under our control: the texts of zod's errors, and `Buffer.from`. -/
structure Platform where
  inputError : GithubAction → Option Json → String
  outputError : GithubAction → Output → String
  bytesOf : Option Json → Except String (List UInt8)

variable (platform : Platform)

/-- The body of the `try`. -/
def attempt (action : GithubAction) (input : Option Json) : Talk (Output × List LedgerEvidence) :=
  match parseInput action input with
  | none => Asking.lift (.error (.thrown (platform.inputError action input)))
  | some parsed => do
      let (out, evidence) ← dispatch platform.bytesOf parsed
      if fitsOutput out action then pure (out, evidence)
      else Asking.lift (.error (.thrown (platform.outputError action out)))

/-- The output as a payload. -/
def outputValue (out : Output) : Value := .obj (out.map fun f => (f.1, valueOf f.2))

/-- The result of what an operation has come to; a failure has no evidence. -/
def settle : Except GitHubError (Output × List LedgerEvidence) → Result
  | .ok (out, evidence) => { status := .success, output := outputValue out, evidence := evidence }
  | .error err => { status := .failure, output := .obj [("error", .str err.message)], evidence := [] }

/-- `execute`, with any transport: what has been said, and the result. -/
def execute {σ : Type} (transport : σ → GitHubRequest → σ × Except GitHubError GitHubResponse)
    (action : GithubAction) (input : Option Json) (s : σ) :
    σ × List (GitHubRequest × Except GitHubError GitHubResponse) × Result :=
  let (s, said, result) := Asking.run transport s (attempt platform action input)
  (s, said, settle result)

/-! ## 5. What an action asks -/

namespace GithubInput

/-- The owner an input names. -/
def owner : GithubInput → String
  | repoRead owner _ | branchCreate owner _ _ _ | fileRead owner _ _ _ | fileWrite owner _ _ _ _ _
  | gitCommit owner _ _ _ | pullRequestCreate owner _ _ _ _ _ | pullRequestRead owner _ _ => owner

/-- The repository an input names. -/
def repo : GithubInput → String
  | repoRead _ repo | branchCreate _ repo _ _ | fileRead _ repo _ _ | fileWrite _ repo _ _ _ _
  | gitCommit _ repo _ _ | pullRequestCreate _ repo _ _ _ _ | pullRequestRead _ repo _ => repo

/-- Nothing is to be changed. -/
def Reads : GithubInput → Prop
  | repoRead _ _ | fileRead _ _ _ _ | pullRequestRead _ _ _ => True
  | branchCreate _ _ _ _ | fileWrite _ _ _ _ _ _ | gitCommit _ _ _ _
  | pullRequestCreate _ _ _ _ _ _ => False

/-- The requests an action makes for the input; what GitHub has said has a part in some of them. -/
def Requests : GithubInput → GitHubRequest → Prop
  | repoRead owner repo, r =>
      r = { method := "GET", path := repoPath owner repo } ∨ ∃ branch, r = refRequest owner repo branch
  | branchCreate owner repo branch source, r =>
      r = { method := "POST", path := subPath owner repo "git/refs"
            body := some (.obj [("ref", .str ("refs/heads/" ++ branch)), ("sha", .str source)]) }
  | fileRead owner repo path ref, r =>
      r = { method := "GET", path := contentsPath owner repo path ref }
  | fileWrite owner repo path branch content message, r =>
      r = { method := "PUT", path := contentsPath owner repo path none
            body := some (.obj [("message", .str message), ("content", .str (b64encode content)),
              ("branch", .str branch)]) }
  | gitCommit owner repo branch message, r =>
      r = refRequest owner repo branch ∨ (∃ parent, r = parentRequest owner repo parent) ∨
        (∃ tree parent, r = commitRequest owner repo message tree parent) ∨
        ∃ sha, r = moveRequest owner repo branch sha
  | pullRequestCreate owner repo title head base body, r =>
      r = { method := "POST", path := subPath owner repo "pulls"
            body := some (.obj [("title", .str title), ("head", .str head), ("base", .str base),
              ("body", .str (body.getD ""))]) }
  | pullRequestRead owner repo number, r =>
      r = { method := "GET", path := subPath owner repo ("pulls/" ++ number.text) } ∨
        r = { method := "GET", path := subPath owner repo ("pulls/" ++ number.text ++ "/files") }

/-- What the path asks for is in the repository of the input. -/
def Inside (input : GithubInput) (r : GitHubRequest) : Prop :=
  ["repos".toList, input.owner.toList, input.repo.toList] <+: UrlPath.resolve r.path.toList

/-- The request is one for the input, changes nothing if the action reads, and stays in the repository
    as long as no dots in its path lead out of it. -/
structure Permits (input : GithubInput) (r : GitHubRequest) : Prop where
  requests : input.Requests r
  reads : input.Reads → r.method = "GET"
  inside : UrlPath.Name input.owner.toList → UrlPath.Name input.repo.toList →
    UrlPath.Plain r.path.toList → input.Inside r

section Requests

variable {input : GithubInput} {r : GitHubRequest}

theorem Requests.path (h : input.Requests r) : r.path = repoPath input.owner input.repo ∨
    ∃ rest, r.path = subPath input.owner input.repo rest := by
  cases input with
  | repoRead owner repo =>
      rcases h with rfl | ⟨branch, rfl⟩
      · exact .inl rfl
      · exact .inr ⟨_, rfl⟩
  | gitCommit owner repo branch message =>
      rcases h with rfl | ⟨parent, rfl⟩ | ⟨tree, parent, rfl⟩ | ⟨sha, rfl⟩ <;> exact .inr ⟨_, rfl⟩
  | pullRequestRead owner repo number =>
      rcases h with rfl | rfl <;> exact .inr ⟨_, rfl⟩
  | branchCreate | fileRead | fileWrite | pullRequestCreate =>
      rw [show r = _ from h]
      exact .inr ⟨_, rfl⟩

theorem Requests.reads (h : input.Requests r) (hreads : input.Reads) : r.method = "GET" := by
  cases input with
  | repoRead owner repo =>
      rcases h with rfl | ⟨branch, rfl⟩ <;> rfl
  | fileRead owner repo path ref =>
      rw [show r = _ from h]
  | pullRequestRead owner repo number =>
      rcases h with rfl | rfl <;> rfl
  | branchCreate | fileWrite | gitCommit | pullRequestCreate => exact hreads.elim

/-- The first segments of a path are the repository's. -/
theorem repoPath_segments {owner repo : String} (howner : UrlPath.Name owner.toList)
    (hrepo : UrlPath.Name repo.toList) :
    UrlPath.segments (repoPath owner repo).toList =
      [[], "repos".toList, owner.toList, repo.toList] := by
  have hempty : UrlPath.Name [] := by decide
  have hrepos : UrlPath.Name "repos".toList := by decide
  have htext : (repoPath owner repo).toList =
      [] ++ '/' :: ("repos".toList ++ '/' :: (owner.toList ++ '/' :: repo.toList)) := by
    simp [repoPath]
  rw [htext, UrlPath.segments_name_cons hempty, UrlPath.segments_name_cons hrepos,
    UrlPath.segments_name_cons howner, UrlPath.segments_name hrepo]

theorem subPath_segments {owner repo rest : String} (howner : UrlPath.Name owner.toList)
    (hrepo : UrlPath.Name repo.toList) :
    UrlPath.segments (subPath owner repo rest).toList =
      [] :: "repos".toList :: owner.toList :: repo.toList :: UrlPath.segments rest.toList := by
  have hempty : UrlPath.Name [] := by decide
  have hrepos : UrlPath.Name "repos".toList := by decide
  have htext : (subPath owner repo rest).toList = [] ++ '/' :: ("repos".toList ++ '/' ::
      (owner.toList ++ '/' :: (repo.toList ++ '/' :: rest.toList))) := by
    simp [subPath, repoPath]
  rw [htext, UrlPath.segments_name_cons hempty, UrlPath.segments_name_cons hrepos,
    UrlPath.segments_name_cons howner, UrlPath.segments_name_cons hrepo]

theorem Requests.permits (h : input.Requests r) : input.Permits r where
  requests := h
  reads := h.reads
  inside howner hrepo hplain := by
    unfold Inside
    rw [UrlPath.resolve_plain hplain]
    rcases h.path with hpath | ⟨rest, hpath⟩
    · rw [hpath, repoPath_segments howner hrepo]
      exact List.prefix_refl _
    · rw [hpath, subPath_segments howner hrepo]
      exact List.prefix_append [_, _, _] _

end Requests

end GithubInput

section Asks

variable {P : GitHubRequest → Prop} {bytesOf : Option Json → Except String (List UInt8)}

theorem asks_get (key : String) (j : Option Json) : (get key j).Asks P := Asking.asks_lift

theorem asks_textOf (j : Option Json) : (textOf j).Asks P := Asking.asks_lift

theorem asks_withEvidence (out : Output) (label key kind : String) :
    (withEvidence out label key kind).Asks P :=
  Asking.asks_bind (asks_textOf _) fun _ => Asking.asks_pure

/-- **Every request of an action is one for its input.** -/
theorem dispatch_asks (input : GithubInput) : (dispatch bytesOf input).Asks input.Permits := by
  suffices h : (dispatch bytesOf input).Asks input.Requests from h.mono fun _ hr => hr.permits
  cases input <;> refine Asking.asks_bind ?_ fun _ => asks_withEvidence _ _ _ _
  case repoRead owner repo =>
    refine Asking.asks_bind (Asking.asks_request.mpr (.inl rfl)) fun _ => ?_
    refine Asking.asks_bind (asks_get _ _) fun _ => Asking.asks_bind (asks_textOf _) fun _ => ?_
    refine Asking.asks_bind (Asking.asks_request.mpr (.inr ⟨_, rfl⟩)) fun _ => ?_
    repeat refine Asking.asks_bind (asks_get _ _) fun _ => ?_
    exact Asking.asks_pure
  case fileRead owner repo path ref =>
    refine Asking.asks_bind (Asking.asks_request.mpr rfl) fun _ => ?_
    refine Asking.asks_bind (asks_get _ _) fun _ => Asking.asks_bind Asking.asks_lift fun _ => ?_
    exact Asking.asks_bind (asks_get _ _) fun _ => Asking.asks_pure
  case pullRequestRead owner repo number =>
    refine Asking.asks_bind (Asking.asks_request.mpr (.inl rfl)) fun _ => ?_
    refine Asking.asks_bind (Asking.asks_request.mpr (.inr rfl)) fun _ => ?_
    repeat refine Asking.asks_bind (asks_get _ _) fun _ => ?_
    exact Asking.asks_pure
  case gitCommit owner repo branch message =>
    refine Asking.asks_bind (Asking.asks_request.mpr (.inl rfl)) fun _ => ?_
    repeat refine Asking.asks_bind (asks_get _ _) fun _ => ?_
    refine Asking.asks_bind (asks_textOf _) fun _ => ?_
    refine Asking.asks_bind (Asking.asks_request.mpr (.inr (.inl ⟨_, rfl⟩))) fun _ => ?_
    repeat refine Asking.asks_bind (asks_get _ _) fun _ => ?_
    refine Asking.asks_bind (Asking.asks_request.mpr (.inr (.inr (.inl ⟨_, _, rfl⟩)))) fun _ => ?_
    refine Asking.asks_bind (asks_get _ _) fun _ => ?_
    refine Asking.asks_bind (Asking.asks_request.mpr (.inr (.inr (.inr ⟨_, rfl⟩)))) fun _ => ?_
    exact Asking.asks_pure
  all_goals
    -- one request
    refine Asking.asks_bind (Asking.asks_request.mpr rfl) fun _ => ?_
    repeat refine Asking.asks_bind (asks_get _ _) fun _ => ?_
    exact Asking.asks_pure

end Asks

/-! ## 6. What its result says -/

/-- The action an input is one of. -/
def GithubInput.action : GithubInput → GithubAction
  | repoRead _ _ => .repoRead
  | branchCreate _ _ _ _ => .branchCreate
  | fileRead _ _ _ _ => .fileRead
  | fileWrite _ _ _ _ _ _ => .fileWrite
  | gitCommit _ _ _ _ => .gitCommit
  | pullRequestCreate _ _ _ _ _ _ => .pullRequestCreate
  | pullRequestRead _ _ _ => .pullRequestRead

section Results

variable {platform : Platform} {bytesOf : Option Json → Except String (List UInt8)}
  {action : GithubAction} {input : Option Json} {parsed : GithubInput} {out : Output}
  {evidence : List LedgerEvidence} {t : List (GitHubRequest × Except GitHubError GitHubResponse)}
  {r : Except GitHubError (Output × List LedgerEvidence)}

theorem zObject_eq_some {α : Type} {shape : (String → Option Json) → Option α} {j : Option Json} {a : α} :
    zObject shape j = some a ↔ ∃ fields, j = some (.obj fields) ∧ shape (fields.lookup ·) = some a := by
  constructor
  · intro h
    unfold zObject at h
    split at h
    · exact ⟨_, rfl, h⟩
    · cases h
  · rintro ⟨fields, rfl, h⟩
    exact h

/-- An action parses inputs of its own. -/
theorem parseInput_action (h : parseInput action input = some parsed) : parsed.action = action := by
  cases action <;>
    (simp only [parseInput, zObject_eq_some, Option.bind_eq_bind, Option.bind_eq_some_iff,
       Option.some.injEq] at h
     obtain ⟨fields, -, h⟩ := h
     repeat obtain ⟨x, -, h⟩ : ∃ x, _ ∧ _ := h
     rw [← h]
     rfl)

theorem withEvidence_said {label key kind : String} {out' : Output}
    (h : Asking.Said (withEvidence out label key kind) t (.ok (out', evidence))) :
    t = [] ∧ out' = out ∧ ∃ id, coerce (field out key) = .ok id ∧
      evidence = [{ evidenceId := label ++ id, kind := kind }] := by
  unfold withEvidence textOf at h
  rw [Asking.said_lift_bind] at h
  rcases h with ⟨err, -, -, h⟩ | ⟨id, hid, h⟩
  · cases h
  · obtain ⟨rfl, hsame⟩ := Asking.said_pure.mp h
    obtain ⟨rfl, rfl⟩ := Prod.mk.inj (Except.ok.inj hsame)
    refine ⟨rfl, rfl, id, ?_, rfl⟩
    cases hcoerce : coerce (field out' key) with
    | error err =>
        rw [hcoerce] at hid
        cases hid
    | ok id' =>
        rw [hcoerce] at hid
        exact congrArg Except.ok (Except.ok.inj hid)

/-- What is proved of an outcome names the action and what it has come to. -/
theorem dispatch_evidence (h : Asking.Said (dispatch bytesOf parsed) t (.ok (out, evidence))) :
    ∃ e key id, evidence = [e] ∧ coerce (field out key) = .ok id ∧
      (e.evidenceId = parsed.action.name ++ ":" ++ id ∨ e.evidenceId = parsed.action.name ++ ":#" ++ id) := by
  cases parsed <;>
    (rcases Asking.said_bind.mp h with ⟨err, h, -⟩ | ⟨out', t₁, t₂, -, -, h⟩
     · cases h
     · obtain ⟨-, rfl, id, hid, rfl⟩ := withEvidence_said h
       first
         | exact ⟨_, _, id, rfl, hid, .inl rfl⟩
         | exact ⟨_, _, id, rfl, hid, .inr rfl⟩)

/-- How an attempt goes. -/
theorem attempt_said (h : Asking.Said (attempt platform action input) t r) :
    (parseInput action input = none ∧ t = [] ∧ r = .error (.thrown (platform.inputError action input))) ∨
    ∃ parsed, parseInput action input = some parsed ∧
      ((∃ err, r = .error err ∧ Asking.Said (dispatch platform.bytesOf parsed) t (.error err)) ∨
        ∃ out evidence, Asking.Said (dispatch platform.bytesOf parsed) t (.ok (out, evidence)) ∧
          r = if fitsOutput out action then .ok (out, evidence)
            else .error (.thrown (platform.outputError action out))) := by
  unfold attempt at h
  cases hparsed : parseInput action input with
  | none =>
      rw [hparsed] at h
      exact .inl ⟨rfl, Asking.said_lift.mp h⟩
  | some parsed =>
      rw [hparsed] at h
      refine .inr ⟨parsed, rfl, ?_⟩
      rcases Asking.said_bind.mp h with ⟨err, hr, hsaid⟩ | ⟨⟨out, evidence⟩, t₁, t₂, rfl, hsaid, hrest⟩
      · exact .inl ⟨err, hr, hsaid⟩
      · refine .inr ⟨out, evidence, ?_⟩
        dsimp only at hrest
        split_ifs at hrest ⊢ with hfits
        · obtain ⟨rfl, rfl⟩ := Asking.said_pure.mp hrest
          exact ⟨by rwa [List.append_nil], rfl⟩
        · obtain ⟨rfl, rfl⟩ := Asking.said_lift.mp hrest
          exact ⟨by rwa [List.append_nil], rfl⟩

/-- What an attempt asks. -/
theorem attempt_asks : (attempt platform action input).Asks
    fun q => ∃ parsed, parseInput action input = some parsed ∧ parsed.Permits q := by
  unfold attempt
  cases hparsed : parseInput action input with
  | none => exact Asking.asks_lift
  | some parsed =>
      refine Asking.asks_bind ((dispatch_asks parsed).mono fun q hq => ⟨parsed, rfl, hq⟩) fun done => ?_
      dsimp only
      split_ifs
      · exact Asking.asks_pure
      · exact Asking.asks_lift

/-- **What an action may ask, and what its result says.** An input that does not fit asks nothing. A
    success has an output that fits and one piece of evidence, for what has all been answered; a
    failure has none, and the error of the last answer, if that is one, is its own. -/
theorem execute_exchange {σ : Type}
    (transport : σ → GitHubRequest → σ × Except GitHubError GitHubResponse) (action : GithubAction)
    (input : Option Json) (s : σ) :
    let (s', said, result) := execute platform transport action input s
    (parseInput action input = none → said = [] ∧ s' = s ∧ result.status = .failure) ∧
    (∀ x ∈ said, ∃ parsed, parseInput action input = some parsed ∧ parsed.Permits x.1) ∧
    ((∃ out e key id, result = { status := .success, output := outputValue out, evidence := [e] } ∧
        fitsOutput out action = true ∧ coerce (field out key) = .ok id ∧
        (e.evidenceId = action.name ++ ":" ++ id ∨ e.evidenceId = action.name ++ ":#" ++ id) ∧
        ∀ x ∈ said, ∃ res, x.2 = .ok res) ∨
      ∃ err : GitHubError,
        result = { status := .failure, output := .obj [("error", .str err.message)], evidence := [] } ∧
        ∀ x ∈ said, ∀ err', x.2 = .error err' → err' = err) := by
  have hsaid := Asking.run_said transport (attempt platform action input) s
  have hnone : parseInput action input = none →
      (Asking.run transport s (attempt platform action input)).1 = s := by
    intro h
    unfold attempt
    rw [h]
    rfl
  unfold execute
  dsimp only
  generalize Asking.run transport s (attempt platform action input) = result at hsaid hnone
  obtain ⟨s', said, r⟩ := result
  dsimp only at hsaid hnone ⊢
  have hasks := attempt_asks.said hsaid
  rcases attempt_said hsaid with ⟨hparsed, rfl, rfl⟩ | ⟨parsed, hparsed, hrest⟩
  · exact ⟨fun _ => ⟨rfl, hnone hparsed, rfl⟩, hasks, .inr ⟨_, rfl, by simp⟩⟩
  · refine ⟨fun h => ?_, hasks, ?_⟩
    · rw [h] at hparsed
      cases hparsed
    rcases hrest with ⟨err, rfl, hdispatch⟩ | ⟨out, evidence, hdispatch, rfl⟩
    · refine .inr ⟨err, rfl, fun x hx err' herr => ?_⟩
      exact (Except.error.inj (hdispatch.thrown hx herr)).symm
    · split_ifs with hfits
      · obtain ⟨e, key, id, rfl, hid, he⟩ := dispatch_evidence hdispatch
        rw [parseInput_action hparsed] at he
        exact .inl ⟨out, e, key, id, rfl, hfits, hid, he, hdispatch.answered⟩
      · refine .inr ⟨_, rfl, fun x hx err' herr => ?_⟩
        cases hdispatch.thrown hx herr

end Results

end AgentKernel.GitHub
