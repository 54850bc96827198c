/-
  File:      AgentKernel/Tools/Exchanges.lean
  Subject:   What GitHub is told, action by action (plugins/tools/github/src/operations.ts and
             transport.ts).

  Nothing is assumed of GitHub: an answer may be any JSON, or an error. A commit reads the head of its
  branch before it writes anything (`gitCommit_said`).

  * **`commit_exchange`**: a branch is moved to a commit that has just been made on its head;
  * **`http_exchange`**: what goes over the wire, and what ends an action there;
  * **`file_reads_back`**: a file reads as it has been written, however GitHub breaks its lines.
-/
import AgentKernel.Tools.GitHub

namespace AgentKernel.GitHub

open Lib

/-! ## 1. Commits -/

/-- A property of a property. -/
def shaOf (key : String) (j : Option Json) : Except String (Option Json) :=
  (readProperty key j).bind (readProperty "sha")

/-- The head of the branch and its tree have been read. -/
inductive Based (owner repo branch : String) (parent tree : Option Json) :
    List (GitHubRequest × Except GitHubError GitHubResponse) → Prop where
  | intro (refRes parentRes : GitHubResponse) (parentText : String)
      (hparent : shaOf "object" refRes.json = .ok parent) (htext : coerce parent = .ok parentText)
      (htree : shaOf "tree" parentRes.json = .ok tree) :
      Based owner repo branch parent tree
        [(refRequest owner repo branch, .ok refRes), (parentRequest owner repo parentText, .ok parentRes)]

/-- A commit has been made on the head, with its tree. -/
inductive Committed (owner repo branch message : String) (sha : Option Json) :
    List (GitHubRequest × Except GitHubError GitHubResponse) → Prop where
  | intro (parent tree : Option Json) (commitRes : GitHubResponse)
      (told : List (GitHubRequest × Except GitHubError GitHubResponse))
      (hbased : Based owner repo branch parent tree told)
      (hsha : readProperty "sha" commitRes.json = .ok sha) :
      Committed owner repo branch message sha
        (told ++ [(commitRequest owner repo message tree parent, .ok commitRes)])

section Commits

variable {platform : Platform} {owner repo branch message : String} {input : Option Json}
  {t : List (GitHubRequest × Except GitHubError GitHubResponse)} {β : Type} {r : Except GitHubError β}

theorem said_get_bind {key : String} {j : Option Json} {f : Option Json → Talk β} :
    Asking.Said (get key j >>= f) t r ↔
      (∃ text, readProperty key j = .error text ∧ t = [] ∧ r = .error (.thrown text)) ∨
      ∃ v, readProperty key j = .ok v ∧ Asking.Said (f v) t r := by
  unfold get
  rw [Asking.said_lift_bind]
  cases readProperty key j <;> simp [Except.mapError]

theorem said_textOf_bind {j : Option Json} {f : String → Talk β} :
    Asking.Said (textOf j >>= f) t r ↔
      (∃ text, coerce j = .error text ∧ t = [] ∧ r = .error (.thrown text)) ∨
      ∃ v, coerce j = .ok v ∧ Asking.Said (f v) t r := by
  unfold textOf
  rw [Asking.said_lift_bind]
  cases coerce j <;> simp [Except.mapError]

/-- How far a commit gets. -/
theorem gitCommit_said {r : Except GitHubError Output}
    (h : Asking.Said (gitCommit owner repo branch message) t r) :
    ((∀ x ∈ t, x.1.method = "GET") ∧ ∃ err, r = .error err) ∨
    (∃ told parent tree a, t = told ++ [(commitRequest owner repo message tree parent, a)] ∧
      Based owner repo branch parent tree told ∧ ∃ err, r = .error err) ∨
    ∃ told sha a, t = told ++ [(moveRequest owner repo branch sha, a)] ∧
      Committed owner repo branch message sha told ∧ r = a.map fun _ => [("sha", sha)] := by
  unfold gitCommit at h
  -- the head of the branch
  rcases Asking.said_request_bind.mp h with ⟨err, rfl, rfl⟩ | ⟨refRes, t, rfl, h₁⟩
  · exact .inl ⟨by simp [refRequest], err, rfl⟩
  rcases said_get_bind.mp h₁ with ⟨text, -, rfl, rfl⟩ | ⟨object, hobject, h₂⟩
  · exact .inl ⟨by simp [refRequest], _, rfl⟩
  rcases said_get_bind.mp h₂ with ⟨text, -, rfl, rfl⟩ | ⟨parent, hparent, h₃⟩
  · exact .inl ⟨by simp [refRequest], _, rfl⟩
  rcases said_textOf_bind.mp h₃ with ⟨text, -, rfl, rfl⟩ | ⟨parentText, htext, h₄⟩
  · exact .inl ⟨by simp [refRequest], _, rfl⟩
  -- its tree
  rcases Asking.said_request_bind.mp h₄ with ⟨err, rfl, rfl⟩ | ⟨parentRes, t, rfl, h₅⟩
  · exact .inl ⟨by simp [refRequest, parentRequest], err, rfl⟩
  rcases said_get_bind.mp h₅ with ⟨text, -, rfl, rfl⟩ | ⟨treeObject, htreeObject, h₆⟩
  · exact .inl ⟨by simp [refRequest, parentRequest], _, rfl⟩
  rcases said_get_bind.mp h₆ with ⟨text, -, rfl, rfl⟩ | ⟨tree, htree, h₇⟩
  · exact .inl ⟨by simp [refRequest, parentRequest], _, rfl⟩
  have hbased : Based owner repo branch parent tree [(refRequest owner repo branch, .ok refRes),
      (parentRequest owner repo parentText, .ok parentRes)] := by
    refine .intro refRes parentRes parentText ?_ htext ?_
    · unfold shaOf
      rw [hobject]
      exact hparent
    · unfold shaOf
      rw [htreeObject]
      exact htree
  -- the commit
  rcases Asking.said_request_bind.mp h₇ with ⟨err, rfl, rfl⟩ | ⟨commitRes, t, rfl, h₈⟩
  · exact .inr (.inl ⟨_, parent, tree, _, rfl, hbased, err, rfl⟩)
  rcases said_get_bind.mp h₈ with ⟨text, -, rfl, rfl⟩ | ⟨sha, hsha, h₉⟩
  · exact .inr (.inl ⟨_, parent, tree, _, rfl, hbased, _, rfl⟩)
  have hcommitted : Committed owner repo branch message sha _ :=
    .intro parent tree commitRes _ hbased hsha
  -- and the move
  rcases Asking.said_request_bind.mp h₉ with ⟨err, rfl, rfl⟩ | ⟨moved, t, rfl, hlast⟩
  · exact .inr (.inr ⟨_, sha, _, rfl, hcommitted, rfl⟩)
  · obtain ⟨rfl, rfl⟩ := Asking.said_pure.mp hlast
    exact .inr (.inr ⟨_, sha, _, rfl, hcommitted, rfl⟩)

/-- A commit, as an action, is the operation and then its evidence. -/
theorem dispatch_commit {bytesOf : Option Json → Except String (List UInt8)}
    {r : Except GitHubError (Output × List LedgerEvidence)}
    (h : Asking.Said (dispatch bytesOf (.gitCommit owner repo branch message)) t r) :
    ∃ r', Asking.Said (gitCommit owner repo branch message) t r' ∧
      ((∃ err, r' = .error err ∧ r = .error err) ∨
        ∃ out, r' = .ok out ∧
          ((∃ text, coerce (field out "sha") = .error text ∧ r = .error (.thrown text)) ∨
            ∃ id, coerce (field out "sha") = .ok id ∧
              r = .ok (out, [{ evidenceId := "github.git.commit:" ++ id, kind := "git_commit" }]))) := by
  rcases Asking.said_bind.mp h with ⟨err, rfl, hsaid⟩ | ⟨out, t₁, t₂, rfl, hsaid, hrest⟩
  · exact ⟨_, hsaid, .inl ⟨err, rfl, rfl⟩⟩
  · rcases said_textOf_bind.mp hrest with ⟨text, hthrown, rfl, rfl⟩ | ⟨id, hid, hpure⟩
    · exact ⟨_, by rwa [List.append_nil], .inr ⟨out, rfl, .inl ⟨text, hthrown, rfl⟩⟩⟩
    · obtain ⟨rfl, rfl⟩ := Asking.said_pure.mp hpure
      exact ⟨_, by rwa [List.append_nil], .inr ⟨out, rfl, .inr ⟨id, hid, rfl⟩⟩⟩

theorem valueOf_str {j : Option Json} {s : String} : valueOf j = .str s ↔ j = some (.str s) := by
  constructor
  · intro h
    cases j with
    | none => cases h
    | some j =>
        cases j with
        | str s' =>
            injection h with h
            rw [h]
        | null | bool b | num n | arr items | obj fields => cases h
  · rintro rfl
    rfl

/-- The output of a commit fits if its hash is a text. -/
theorem fitsOutput_commit {sha : Option Json} :
    fitsOutput [("sha", sha)] .gitCommit = true ↔ ∃ text, sha = some (.str text) := by
  have hfits : fitsOutput [("sha", sha)] .gitCommit = (zString sha).isSome := by
    simp [fitsOutput, areTexts, field]
  rw [hfits]
  cases sha with
  | none => simp [zString]
  | some j => cases j <;> simp [zString]

/-- The outcome of a commit, of its hash. -/
def committedResult (sha : String) : Result :=
  { status := .success, output := .obj [("sha", .str sha)]
    evidence := [{ evidenceId := "github.git.commit:" ++ sha, kind := "git_commit" }] }

/-- What an action makes of a commit. -/
theorem attempt_commit {r : Except GitHubError (Output × List LedgerEvidence)}
    (h : Asking.Said (attempt platform .gitCommit input) t r) :
    (t = [] ∧ ∃ err, r = .error err) ∨
    ∃ owner repo branch message r',
      parseInput .gitCommit input = some (.gitCommit owner repo branch message) ∧
      Asking.Said (gitCommit owner repo branch message) t r' ∧
      ((∃ err, r' = .error err) → ∃ err, r = .error err) ∧
      ∀ sha, r' = .ok [("sha", sha)] →
        (∃ text, sha = some (.str text) ∧ settle r = committedResult text) ∨
        (∀ text, sha ≠ some (.str text)) ∧ ∃ err, r = .error err := by
  rcases attempt_said h with ⟨-, rfl, rfl⟩ | ⟨parsed, hparsed, hrest⟩
  · exact .inl ⟨rfl, _, rfl⟩
  have haction := parseInput_action hparsed
  cases parsed with
  | repoRead | branchCreate | fileRead | fileWrite | pullRequestCreate | pullRequestRead => cases haction
  | gitCommit owner repo branch message =>
      refine .inr ⟨owner, repo, branch, message, ?_⟩
      rcases hrest with ⟨err, rfl, hdispatch⟩ | ⟨out, evidence, hdispatch, rfl⟩
      · obtain ⟨r', hcommit, hcases⟩ := dispatch_commit hdispatch
        refine ⟨r', hparsed, hcommit, fun _ => ⟨err, rfl⟩, fun sha hsha => .inr ⟨?_, err, rfl⟩⟩
        rintro text rfl
        rcases hcases with ⟨err', rfl, -⟩ | ⟨out, hout, ⟨thrown, hthrown, -⟩ | ⟨id, -, hid⟩⟩
        · cases hsha
        · rw [hsha] at hout
          obtain rfl := Except.ok.inj hout
          cases hthrown
        · cases hid
      · obtain ⟨r', hcommit, hcases⟩ := dispatch_commit hdispatch
        rcases hcases with ⟨err, -, hnot⟩ | ⟨out, rfl, ⟨thrown, -, hnot⟩ | ⟨id, hid, hsame⟩⟩
        · cases hnot
        · cases hnot
        obtain ⟨rfl, rfl⟩ := Prod.mk.inj (Except.ok.inj hsame)
        refine ⟨_, hparsed, hcommit, ?_, fun sha hsha => ?_⟩
        · rintro ⟨err, hnot⟩
          cases hnot
        obtain rfl := Except.ok.inj hsha
        split_ifs with hfits
        · obtain ⟨text, rfl⟩ := fitsOutput_commit.mp hfits
          obtain rfl : text = id := Except.ok.inj hid
          exact .inl ⟨text, rfl, rfl⟩
        · exact .inr ⟨fun text htext => hfits (fitsOutput_commit.mpr ⟨text, htext⟩), _, rfl⟩

theorem Based.reads {parent tree : Option Json} (h : Based owner repo branch parent tree t) :
    ∀ x ∈ t, x.1.method = "GET" := by
  cases h
  simp [refRequest, parentRequest]

/-- The branch of the input has been moved to a commit of this hash, made on its head. -/
def Moved (input : Option Json) (sha : Option Json)
    (t : List (GitHubRequest × Except GitHubError GitHubResponse)) : Prop :=
  ∃ owner repo branch message told res,
    parseInput .gitCommit input = some (.gitCommit owner repo branch message) ∧
    Committed owner repo branch message sha told ∧
    t = told ++ [(moveRequest owner repo branch sha, .ok res)]

/-- An exchange that ends with a move has moved the branch if that was answered, to what was asked. -/
theorem moved_iff {told : List (GitHubRequest × Except GitHubError GitHubResponse)} {sha : Option Json}
    {a : Except GitHubError GitHubResponse} {text : String}
    (hparsed : parseInput .gitCommit input = some (.gitCommit owner repo branch message))
    (hcommitted : Committed owner repo branch message sha told) :
    Moved input (some (.str text)) (told ++ [(moveRequest owner repo branch sha, a)]) ↔
      sha = some (.str text) ∧ ∃ res, a = .ok res := by
  constructor
  · rintro ⟨owner', repo', branch', message', told', res, -, -, hsame⟩
    have hlast := List.singleton_inj.mp (List.append_inj' hsame rfl).2
    have hbody := congrArg (·.1.body) hlast
    simp only [moveRequest, Option.some.injEq, Value.obj.injEq, List.cons.injEq, Prod.mk.injEq, true_and,
      and_true] at hbody
    exact ⟨valueOf_str.mp hbody, res, congrArg (·.2) hlast⟩
  · rintro ⟨rfl, res, rfl⟩
    exact ⟨owner, repo, branch, message, told, res, hparsed, hcommitted, rfl⟩

/-- What does not end with a move has moved nothing. -/
theorem not_moved {sha : Option Json}
    (h : ∀ x ∈ t, x.1.method ≠ "PATCH") : ¬ Moved input sha t := by
  rintro ⟨owner, repo, branch, message, told, res, -, -, rfl⟩
  exact h _ (List.mem_append_right _ (List.mem_singleton_self _)) rfl

theorem Committed.writes {sha : Option Json} (h : Committed owner repo branch message sha t) :
    ∃ parent tree told a, t = told ++ [(commitRequest owner repo message tree parent, a)] ∧
      Based owner repo branch parent tree told := by
  cases h with
  | intro parent tree commitRes told hbased hsha => exact ⟨parent, tree, told, _, rfl, hbased⟩

/-- **A branch is moved to a commit that has just been made on its head, with the tree of its head**,
    and nothing else is changed. The action succeeds if and only if the branch has been moved to a
    commit with a hash, which is then its output and its evidence. -/
theorem commit_exchange {σ : Type}
    (transport : σ → GitHubRequest → σ × Except GitHubError GitHubResponse) (input : Option Json)
    (s : σ) :
    let (_, said, result) := execute platform transport .gitCommit input s
    (∀ x ∈ said, x.1.method ≠ "GET" → ∃ owner repo branch message told,
      parseInput .gitCommit input = some (.gitCommit owner repo branch message) ∧
      ((∃ parent tree, x.1 = commitRequest owner repo message tree parent ∧
          Based owner repo branch parent tree told ∧ told ++ [x] <+: said) ∨
        ∃ sha, x.1 = moveRequest owner repo branch sha ∧
          Committed owner repo branch message sha told ∧ said = told ++ [x])) ∧
    (result.status = .success → ∃ sha, result = committedResult sha) ∧
    ∀ sha, result = committedResult sha ↔ Moved input (some (.str sha)) said := by
  have hsaid := Asking.run_said transport (attempt platform .gitCommit input) s
  unfold execute
  dsimp only
  generalize Asking.run transport s (attempt platform .gitCommit input) = result at hsaid
  obtain ⟨s', said, r⟩ := result
  dsimp only at hsaid ⊢
  -- where nothing has been moved, the action fails
  have hfails : (∃ err, r = .error err) → (∀ x ∈ said, x.1.method ≠ "PATCH") →
      ((settle r).status = .success → ∃ sha, settle r = committedResult sha) ∧
      ∀ sha, settle r = committedResult sha ↔ Moved input (some (.str sha)) said := by
    rintro ⟨err, rfl⟩ hunmoved
    refine ⟨fun h => (by cases h), fun sha => ⟨fun h => ?_, fun h => (not_moved hunmoved h).elim⟩⟩
    cases congrArg Result.status h
  rcases attempt_commit hsaid with ⟨rfl, hr⟩ |
    ⟨owner, repo, branch, message, r', hparsed, hcommit, herr, hok⟩
  · exact ⟨by simp, hfails hr (by simp)⟩
  rcases gitCommit_said hcommit with ⟨hreads, hr'⟩ | ⟨told, parent, tree, a, rfl, hbased, hr'⟩ |
    ⟨told, sha, a, rfl, hcommitted, rfl⟩
  · refine ⟨fun x hx hwrites => (hwrites (hreads x hx)).elim, hfails (herr hr') fun x hx => ?_⟩
    rw [hreads x hx]
    decide
  · refine ⟨fun x hx hwrites => ?_, hfails (herr hr') fun x hx => ?_⟩
    · rcases List.mem_append.mp hx with hx | hx
      · exact (hwrites (hbased.reads x hx)).elim
      · obtain rfl := List.mem_singleton.mp hx
        exact ⟨owner, repo, branch, message, told, hparsed,
          .inl ⟨parent, tree, rfl, hbased, List.prefix_refl _⟩⟩
    · rcases List.mem_append.mp hx with hx | hx
      · rw [hbased.reads x hx]
        decide
      · obtain rfl := List.mem_singleton.mp hx
        simp [commitRequest]
  · constructor
    · intro x hx hwrites
      refine ⟨owner, repo, branch, message, ?_⟩
      rcases List.mem_append.mp hx with hx | hx
      · obtain ⟨parent, tree, before, b, rfl, hbased⟩ := hcommitted.writes
        rcases List.mem_append.mp hx with hx | hx
        · exact (hwrites (hbased.reads x hx)).elim
        · obtain rfl := List.mem_singleton.mp hx
          exact ⟨before, hparsed, .inl ⟨parent, tree, rfl, hbased, List.prefix_append _ _⟩⟩
      · obtain rfl := List.mem_singleton.mp hx
        exact ⟨told, hparsed, .inr ⟨sha, rfl, hcommitted, rfl⟩⟩
    · simp only [moved_iff hparsed hcommitted]
      cases a with
      | error err =>
          obtain ⟨err', rfl⟩ := herr ⟨err, rfl⟩
          refine ⟨fun h => (by cases h), fun text => ⟨fun h => ?_, fun h => ?_⟩⟩
          · cases congrArg Result.status h
          · obtain ⟨-, res, hres⟩ := h
            cases hres
      | ok res =>
          rcases hok sha rfl with ⟨text, rfl, hsettled⟩ | ⟨hnone, err, rfl⟩
          · rw [hsettled]
            refine ⟨fun _ => ⟨text, rfl⟩, fun text' => ⟨fun h => ?_, fun h => ?_⟩⟩
            · have houtput := congrArg Result.output h
              simp only [committedResult, Value.obj.injEq, List.cons.injEq, Prod.mk.injEq,
                Value.str.injEq, true_and, and_true] at houtput
              exact ⟨by rw [houtput], res, rfl⟩
            · obtain rfl : text = text' := by simpa using h.1
              rfl
          · refine ⟨fun h => (by cases h), fun text => ⟨fun h => ?_, fun h => (hnone text h.1).elim⟩⟩
            cases congrArg Result.status h

end Commits

/-! ## 2. Over HTTP -/

namespace HttpGitHubTransport

variable (parseJson : String → Option Json) (t : HttpGitHubTransport)

/-- The request on the wire. -/
def onWire (r : GitHubRequest) (body : Option String) : HttpRequest :=
  { url := t.baseUrl ++ r.path, method := r.method, headers := t.headers, body := body }

/-- What an answer that is not ok is to the operation. -/
def refusal (res : HttpResponse) (path : String) : GitHubError :=
  match (complaint parseJson res).toText with
  | .ok message => .request res.status message path
  | .error text => .thrown text

/-- A request goes over the wire once, or not at all where its body cannot be written. -/
theorem request_said {r : GitHubRequest} {said : List (HttpRequest × Except GitHubError HttpResponse)}
    {a : Except GitHubError GitHubResponse} (h : Asking.Said (t.request parseJson r) said a) :
    (said = [] ∧ ∃ err, a = .error err) ∨
    ∃ body, bodyText r.body = .ok body ∧
      ((∃ err, said = [(t.onWire r body, .error err)] ∧ a = .error err) ∨
        ∃ res, said = [(t.onWire r body, .ok res)] ∧
          a = if res.ok then .ok { status := res.status, json := res.json parseJson }
            else .error (refusal parseJson res r.path)) := by
  unfold request at h
  rcases Asking.said_lift_bind.mp h with ⟨err, -, rfl, rfl⟩ | ⟨body, hbody, h₁⟩
  · exact .inl ⟨rfl, err, rfl⟩
  refine .inr ⟨body, hbody, ?_⟩
  rcases Asking.said_request_bind.mp h₁ with ⟨err, rfl, rfl⟩ | ⟨res, said, rfl, h₂⟩
  · exact .inl ⟨err, rfl, rfl⟩
  refine .inr ⟨res, ?_⟩
  split_ifs at h₂ ⊢ with hok
  · obtain ⟨rfl, rfl⟩ := Asking.said_pure.mp h₂
    exact ⟨rfl, rfl⟩
  · unfold refusal
    rcases Asking.said_lift_bind.mp h₂ with ⟨err, hthrown, rfl, rfl⟩ | ⟨message, hmessage, h₃⟩
    · cases htext : (complaint parseJson res).toText with
      | error text =>
          rw [htext] at hthrown
          exact ⟨rfl, congrArg Except.error (Except.error.inj hthrown).symm⟩
      | ok message =>
          rw [htext] at hthrown
          cases hthrown
    · obtain ⟨rfl, rfl⟩ := Asking.said_lift.mp h₃
      cases htext : (complaint parseJson res).toText with
      | error text =>
          rw [htext] at hmessage
          cases hmessage
      | ok message' =>
          rw [htext] at hmessage
          obtain rfl := Except.ok.inj hmessage
          exact ⟨rfl, rfl⟩

/-- An action of the plugin on this transport. -/
def execute {σ : Type} (platform : Platform)
    (http : σ → HttpRequest → σ × Except GitHubError HttpResponse) (action : GithubAction)
    (input : Option Json) (s : σ) :
    σ × List (HttpRequest × Except GitHubError HttpResponse) × Result :=
  let (s, said, result) :=
    Asking.run http s ((attempt platform action input).through (t.request parseJson))
  (s, said, settle result)

/-- **What goes over the wire.** Every request is one that the action may make, under the address and
    with the token of the transport. The first answer that is not ok ends the action, and its result is
    the complaint; an action that succeeds has been answered with ok each time. -/
theorem http_exchange {σ : Type} (platform : Platform)
    (http : σ → HttpRequest → σ × Except GitHubError HttpResponse) (action : GithubAction)
    (input : Option Json) (s : σ) :
    let (_, said, result) := t.execute parseJson platform http action input s
    (∀ x ∈ said, ∃ parsed r body, parseInput action input = some parsed ∧ parsed.Permits r ∧
      bodyText r.body = .ok body ∧ x.1 = t.onWire r body ∧
      (∀ err, x.2 = .error err → result = settle (.error err)) ∧
      ∀ res, x.2 = .ok res → res.ok = false →
        result = settle (.error (refusal parseJson res r.path))) ∧
    (result.status = .success → ∀ x ∈ said, ∃ res, x.2 = .ok res ∧ res.ok = true) := by
  have hsaid :=
    Asking.run_said http ((attempt platform action input).through (t.request parseJson)) s
  unfold execute
  dsimp only
  generalize Asking.run http s ((attempt platform action input).through (t.request parseJson)) =
    result at hsaid
  obtain ⟨s', said, r⟩ := result
  dsimp only at hsaid ⊢
  obtain ⟨told, rfl, habove, hbelow⟩ := Asking.said_through hsaid
  -- what is on the wire belongs to one request of the operation
  have hpart : ∀ x ∈ (told.map (·.2)).flatten, ∃ y ∈ told, x ∈ y.2 := by
    intro x hx
    obtain ⟨part, hpart, hmem⟩ := List.mem_flatten.mp hx
    obtain ⟨y, hy, rfl⟩ := List.mem_map.mp hpart
    exact ⟨y, hy, hmem⟩
  constructor
  · intro x hx
    obtain ⟨y, hy, hmem⟩ := hpart x hx
    have hfirst : y.1 ∈ told.map (·.1) := List.mem_map_of_mem hy
    obtain ⟨parsed, hparsed, hpermits⟩ := attempt_asks.said habove y.1 hfirst
    rcases t.request_said parseJson (hbelow y hy) with ⟨hnone, -⟩ | ⟨body, hbody, hsent⟩
    · rw [hnone] at hmem
      cases hmem
    refine ⟨parsed, y.1.1, body, hparsed, hpermits, hbody, ?_⟩
    rcases hsent with ⟨err, hone, hanswer⟩ | ⟨res, hone, hanswer⟩
    · rw [hone] at hmem
      obtain rfl := List.mem_singleton.mp hmem
      refine ⟨rfl, fun err' herr => ?_, fun res hres => (by cases hres)⟩
      obtain rfl := Except.error.inj herr
      rw [habove.thrown hfirst hanswer]
    · rw [hone] at hmem
      obtain rfl := List.mem_singleton.mp hmem
      refine ⟨rfl, fun err herr => (by cases herr), fun res' hres hnot => ?_⟩
      obtain rfl := Except.ok.inj hres
      rw [if_neg (by simp [hnot])] at hanswer
      rw [habove.thrown hfirst hanswer]
  · intro hsuccess x hx
    obtain ⟨y, hy, hmem⟩ := hpart x hx
    cases r with
    | error err => cases hsuccess
    | ok out =>
        obtain ⟨answer, hanswer⟩ := habove.answered y.1 (List.mem_map_of_mem hy)
        rcases t.request_said parseJson (hbelow y hy) with ⟨-, err, hnot⟩ | ⟨body, -, hsent⟩
        · rw [hanswer] at hnot
          cases hnot
        rcases hsent with ⟨err, -, hnot⟩ | ⟨res, hone, hres⟩
        · rw [hanswer] at hnot
          cases hnot
        · rw [hone] at hmem
          obtain rfl := List.mem_singleton.mp hmem
          refine ⟨res, rfl, ?_⟩
          by_contra hnot
          rw [if_neg hnot, hanswer] at hres
          cases hres

end HttpGitHubTransport

/-! ## 3. Files -/

/-- A content has been asked to be written. -/
def Sent (encoded : String) (t : List (GitHubRequest × Except GitHubError GitHubResponse)) : Prop :=
  ∃ x ∈ t, ∃ fields, x.1.body = some (.obj fields) ∧ ("content", .str encoded) ∈ fields

/-- A content has been answered. -/
def Got (encoded : String) (t : List (GitHubRequest × Except GitHubError GitHubResponse)) : Prop :=
  ∃ x ∈ t, ∃ res, x.2 = .ok res ∧ readProperty "content" res.json = .ok (some (.str encoded))

section Files

variable {platform : Platform} {owner repo path branch content message encoded : String}
  {input : Option Json} {t : List (GitHubRequest × Except GitHubError GitHubResponse)}

/-- What is written is the text in Base64. -/
theorem write_sent {r : Except GitHubError (Output × List LedgerEvidence)}
    (h : Asking.Said (attempt platform .fileWrite input) t r)
    (hparsed : parseInput .fileWrite input = some (.fileWrite owner repo path branch content message))
    (hsent : Sent encoded t) : encoded = b64encode content := by
  have hasks : (dispatch platform.bytesOf (.fileWrite owner repo path branch content message)).Asks
      fun q => ∀ fields, q.body = some (.obj fields) →
        ∀ encoded, ("content", .str encoded) ∈ fields → encoded = b64encode content := by
    refine Asking.asks_bind (Asking.asks_bind (Asking.asks_request.mpr ?_) fun res => ?_) fun out =>
      asks_withEvidence _ _ _ _
    · intro fields hfields encoded hmem
      obtain rfl := Value.obj.inj (Option.some.inj hfields)
      simpa using hmem
    · exact Asking.asks_bind (asks_get _ _) fun commit => Asking.asks_bind (asks_get _ _) fun commitSha =>
        Asking.asks_bind (asks_get _ _) fun contents => Asking.asks_bind (asks_get _ _) fun contentSha =>
          Asking.asks_pure
  obtain ⟨x, hx, fields, hfields, hmem⟩ := hsent
  rcases attempt_said h with ⟨-, rfl, -⟩ | ⟨parsed, hparsed', hrest⟩
  · cases hx
  rw [hparsed] at hparsed'
  obtain rfl := Option.some.inj hparsed'
  rcases hrest with ⟨err, -, hdispatch⟩ | ⟨out, evidence, hdispatch, -⟩
  · exact hasks.said hdispatch x hx fields hfields encoded hmem
  · exact hasks.said hdispatch x hx fields hfields encoded hmem

/-- What is read is what the answer has, as a text. -/
theorem read_got {out : Output} {evidence : List LedgerEvidence}
    (h : Asking.Said (attempt platform .fileRead input) t (.ok (out, evidence)))
    (hgot : Got encoded t) : field out "content" = some (.str (toText (unbase64 encoded))) := by
  rcases attempt_said h with ⟨-, -, hnot⟩ | ⟨parsed, hparsed, hrest⟩
  · cases hnot
  have haction := parseInput_action hparsed
  cases parsed with
  | repoRead | branchCreate | fileWrite | gitCommit | pullRequestCreate | pullRequestRead => cases haction
  | fileRead owner repo path ref =>
      rcases hrest with ⟨err, hnot, -⟩ | ⟨out', evidence', hdispatch, hsame⟩
      · cases hnot
      split_ifs at hsame
      obtain ⟨rfl, rfl⟩ := Prod.mk.inj (Except.ok.inj hsame)
      rcases Asking.said_bind.mp hdispatch with ⟨err, hnot, -⟩ | ⟨out', t₁, t₂, rfl, hread, hrest⟩
      · cases hnot
      obtain ⟨rfl, rfl, -⟩ := withEvidence_said hrest
      -- the one answer
      rcases Asking.said_request_bind.mp hread with ⟨err, -, hnot⟩ | ⟨res, t, rfl, h₁⟩
      · cases hnot
      rcases said_get_bind.mp h₁ with ⟨text, -, -, hnot⟩ | ⟨found, hfound, h₂⟩
      · cases hnot
      rcases Asking.said_lift_bind.mp h₂ with ⟨err, -, -, hnot⟩ | ⟨content, hcontent, h₃⟩
      · cases hnot
      rcases said_get_bind.mp h₃ with ⟨text, -, -, hnot⟩ | ⟨sha, -, h₄⟩
      · cases hnot
      obtain ⟨rfl, hout⟩ := Asking.said_pure.mp h₄
      obtain rfl := Except.ok.inj hout
      obtain ⟨x, hx, res', hres, hencoded⟩ := hgot
      obtain rfl := List.mem_singleton.mp (by simpa using hx)
      obtain rfl := Except.ok.inj hres
      obtain rfl := Except.ok.inj (hfound.symm.trans hencoded)
      obtain rfl : toText (unbase64 encoded) = content := Except.ok.inj hcontent
      rfl

theorem lookup_output {out : Output} {key : String} {j : Json} (h : field out key = some j) :
    (out.map fun f => (f.1, valueOf f.2)).lookup key = some (Value.ofJson j) := by
  unfold field at h
  induction out with
  | nil => cases h
  | cons f out ih =>
      obtain ⟨k, v⟩ := f
      simp only [List.map_cons, List.lookup_cons] at h ⊢
      cases hkey : key == k with
      | true =>
          rw [hkey] at h
          obtain rfl : v = some j := h
          rfl
      | false =>
          rw [hkey] at h
          exact ih h

/-- **A file reads as it has been written**, whatever its text, if GitHub answers with what it has been
    sent; where GitHub breaks the lines does not matter. -/
theorem file_reads_back {σ : Type}
    (transport : σ → GitHubRequest → σ × Except GitHubError GitHubResponse) (s s' : σ)
    (input input' : Option Json) {sent got : String}
    (hparsed : parseInput .fileWrite input = some (.fileWrite owner repo path branch content message))
    (hsent : Sent sent (execute platform transport .fileWrite input s).2.1)
    (hgot : Got got (execute platform transport .fileRead input' s').2.1)
    (hsame : got.toList.filter (fun c => !c.isWhitespace) = sent.toList)
    (hread : (execute platform transport .fileRead input' s').2.2.status = .success) :
    ∃ fields, (execute platform transport .fileRead input' s').2.2.output = .obj fields ∧
      fields.lookup "content" = some (.str content) := by
  obtain rfl := write_sent (Asking.run_said transport (attempt platform .fileWrite input) s) hparsed hsent
  have hsaid := Asking.run_said transport (attempt platform .fileRead input') s'
  unfold execute at hgot hread ⊢
  dsimp only at hgot hread ⊢
  generalize Asking.run transport s' (attempt platform .fileRead input') = result at hsaid hgot hread ⊢
  obtain ⟨s'', said, r⟩ := result
  dsimp only at hsaid hgot hread ⊢
  cases r with
  | error err => cases hread
  | ok done =>
      obtain ⟨out, evidence⟩ := done
      refine ⟨_, rfl, ?_⟩
      have hcontent := read_got hsaid hgot
      rw [unbase64_wrapped hsame, toText_utf8] at hcontent
      exact lookup_output hcontent

/-- A platform with one text for every error. -/
def plainPlatform : Platform :=
  { bytesOf := fun _ => .ok [], inputError := fun _ _ => "input", outputError := fun _ _ => "output" }

/-- It takes any file, and reads it with its lines broken. -/
def brokenLines (s : Unit) (_ : GitHubRequest) : Unit × Except GitHubError GitHubResponse :=
  (s, .ok { status := 200, json := some (.obj [("sha", .str "7f"), ("content", .str "aM\nOp\n"),
    ("commit", .obj [("sha", .str "3c")])]) })

/-- A note is written. -/
def writeNote : Json :=
  .obj [("owner", .str "o"), ("repo", .str "r"), ("path", .str "note"), ("branch", .str "main"),
    ("content", .str "hé"), ("message", .str "a note")]

/-- It is read. -/
def readNote : Json := .obj [("owner", .str "o"), ("repo", .str "r"), ("path", .str "note")]

theorem file_reads_back_note :
    ∃ fields, (execute plainPlatform brokenLines .fileRead readNote ()).2.2.output = .obj fields ∧
      fields.lookup "content" = some (.str "hé") :=
  file_reads_back brokenLines () () (some writeNote) (some readNote) rfl
    ⟨_, .head _, _, rfl, .tail _ (.head _)⟩ ⟨_, .head _, _, rfl, rfl⟩ (by decide +kernel) rfl

end Files

end AgentKernel.GitHub
