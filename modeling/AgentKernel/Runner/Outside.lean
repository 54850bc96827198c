/-
  File:      AgentKernel/Runner/Outside.lean
  Subject:   What others do to a runner between the moves of its runs.

  A runner shares what it works with. It may be given a ledger that others have written to and go on
  writing to: an executor has `ctx.emit`, and runs other executors with it. Its meter and its immune
  runtime are open to whoever holds the runner, its grants to whoever has given them. The array of
  results is handed to the steps that compute their inputs from it, and the results in it are the
  objects the executors have returned.

  * `Deed`: a move, or what one of these others does;
  * `HidesNothing`: who changes results hides no failure and adds no evidence;
  * **`follows_of_deeds`**: each run keeps to its trail, as far as its results are kept.
-/
import AgentKernel.Runner.Trails
import AgentKernel.Runner.Budgets

namespace AgentKernel.Runner

open Lib Events Immune

variable {sha256 : String → String}

/-! ## 1. Results in other hands -/

namespace Running

/-- Others may have the results: there is an array, and the run has not settled. -/
def shared (r : Running) : Bool :=
  match r.awaiting with
  | .plan | .settled _ => false
  | _ => true

/-- The run has its verdict. -/
def judged (r : Running) : Bool :=
  match r.awaiting with
  | .billing _ _ | .flush _ _ | .settled _ => true
  | _ => false

/-- The result that is on its way into the array. -/
def inHand (r : Running) : Option Result :=
  match r.awaiting with
  | .execute (.completed result) _ _ | .execute (.returned result) _ _ => some result
  | _ => none

/-- The array has been changed, and the object on its way into it. -/
def touched (r : Running) (results : List Result) (inHand : Result) : Running :=
  { r with
    results := results
    awaiting :=
      match r.awaiting with
      | .execute (.completed _) step rest => .execute (.completed inHand) step rest
      | .execute (.returned _) step rest => .execute (.returned inHand) step rest
      | awaiting => awaiting }

end Running

/-! ## 2. Deeds -/

/-- A move of the runner, or what one of these others does. -/
inductive Deed (sha256 : String → String) where
  | move (m : Move)
  /-- The results of a run are changed. -/
  | touch (i : Nat) (results : List Result) (inHand : Result)
  /-- An event that is not of the runner. -/
  | append (draft : LedgerEventDraft) (stamp : Stamp)
  /-- A reading of the meter that is not of the runner. -/
  | record (event : UsageEvent)
  /-- The immune runtime is used for something else. -/
  | immune (immune : ImmuneRuntime sha256)
  /-- Grants, which the runner shares with its options, are added or removed, or approvals are asked
      for otherwise. -/
  | policy (policy : PolicyEngine)

/-- `meter.record`, by anyone. -/
def LocalRunner.meters (s : LocalRunner sha256) (event : UsageEvent) : LocalRunner sha256 :=
  let meter := s.meter.record event
  append { s with meter := meter } systemActor "UsageRecorded" event.runId event.runId
    (.obj [("event", event.value), ("usage", meter.total.value)])

namespace System

/-- A runner with the option `ledger`. -/
def createOn (opts : RunnerOptions) (clock : Clock) (ledger : Ledger sha256) : System sha256 where
  runner := { LocalRunner.create opts clock with ledger := ledger }
  runs := []

/-- One deed; `none` where it does not fit. -/
def deed (s : System sha256) : Deed sha256 → Option (System sha256)
  | .move m => s.step m
  | .touch i results inHand =>
      (s.runs[i]?).bind fun r =>
        if r.shared then some { s with runs := s.runs.set i (r.touched results inHand) } else none
  | .append draft stamp =>
      some { s with runner := { s.runner with ledger := s.runner.ledger.append draft stamp } }
  | .record event => some { s with runner := s.runner.meters event }
  | .immune immune => some { s with runner := { s.runner with immune := immune } }
  | .policy policy => some { s with runner := { s.runner with policy := policy } }

/-- What is seen of a run with a deed. -/
def observeDeed (s : System sha256) (i : Nat) : Deed sha256 → List Obs
  | .move m => s.observe i m
  | .touch _ _ _ | .append _ _ | .record _ | .immune _ | .policy _ => []

/-- All that has been seen of the `i`-th run along the deeds. -/
def deedTrace (s₀ : System sha256) (ds : List (Deed sha256)) (i : Nat) : List Obs :=
  collect System.deed (fun s d => s.observeDeed i d) s₀ ds

end System

/-! ## 3. Honest changes -/

/-- Where one of `given` has failed, one of `now` has, and the evidence of `now` was given. -/
structure Keeps (given now : List Result) : Prop where
  failure : (∃ r ∈ given, r.status ≠ .success) → ∃ r ∈ now, r.status ≠ .success
  evidence : (∃ r ∈ now, r.evidence ≠ []) → ∃ r ∈ given, r.evidence ≠ []

theorem Keeps.refl (results : List Result) : Keeps results results := ⟨id, id⟩

theorem Keeps.trans {as bs cs : List Result} (h : Keeps as bs) (h' : Keeps bs cs) : Keeps as cs :=
  ⟨h'.failure ∘ h.failure, h.evidence ∘ h'.evidence⟩

theorem Keeps.push {given now : List Result} (h : Keeps given now) (result : Result) :
    Keeps (given ++ [result]) (now ++ [result]) where
  failure := by
    rintro ⟨r, hr, hfailed⟩
    rcases List.mem_append.mp hr with hr | hr
    · obtain ⟨r', hr', hfailed'⟩ := h.failure ⟨r, hr, hfailed⟩
      exact ⟨r', List.mem_append_left _ hr', hfailed'⟩
    · exact ⟨r, List.mem_append_right _ hr, hfailed⟩
  evidence := by
    rintro ⟨r, hr, hsome⟩
    rcases List.mem_append.mp hr with hr | hr
    · obtain ⟨r', hr', hsome'⟩ := h.evidence ⟨r, hr, hsome⟩
      exact ⟨r', List.mem_append_left _ hr', hsome'⟩
    · exact ⟨r, List.mem_append_right _ hr, hsome⟩

/-- Until the verdict no failure is hidden and no evidence added. -/
def Sharing.honest : Sharing where
  object given now := Keeps [given] [now]
  array := Keeps
  late _ _ := True
  object_refl result := .refl [result]
  array_nil := .refl []
  array_push result h := h.push result
  late_of_array _ := trivial

/-- Anything may be done to them. -/
def Sharing.free : Sharing where
  object _ _ := True
  array _ _ := True
  late _ _ := True
  object_refl _ := trivial
  array_nil := trivial
  array_push _ _ := trivial
  late_of_array _ := trivial

/-- Who changes the results of a run before its verdict hides no failure and adds no evidence. -/
def System.HidesNothing (s : System sha256) : Deed sha256 → Prop
  | .touch i results inHand => ∀ r, s.runs[i]? = some r → r.judged = false →
      Keeps r.results results ∧ ∀ given, r.inHand = some given → Keeps [given] [inHand]
  | _ => True

/-! ## 4. Trails under changes -/

section Touched

variable {K : Sharing} {r : Running} {pushed results : List Result} {inHand : Result}
  {seen : List Obs}

theorem Left.touched (h : Left K r pushed seen) : Left K (r.touched results inHand) pushed seen := by
  obtain ⟨hsteps, hdone, hrest⟩ := h
  exact .intro hsteps hdone hrest

/-- A run with changed results keeps to its trail. -/
theorem Trail.touched (h : Trail K r seen) (hshared : r.shared = true)
    (harray : r.judged = false → ∀ {pushed}, K.array pushed r.results → K.array pushed results)
    (hobject : ∀ {now}, r.inHand = some now → ∀ {given}, K.object given now →
      K.object given inHand)
    (hlate : r.judged = true → ∀ {pushed}, K.late pushed r.results → K.late pushed results) :
    Trail K (r.touched results inHand) seen := by
  unfold Running.shared at hshared
  unfold Running.judged at harray hlate
  unfold Running.inHand at hobject
  cases h with
  | planning hr | broken hr | unverified hr =>
      rw [hr] at hshared
      cases hshared
  | asking hr hsteps hdone hkept hallowed hrequired =>
      rw [hr] at harray
      refine .asking ?_ hsteps hdone (harray rfl hkept) hallowed hrequired
      unfold Running.touched
      rw [hr]
  | @executing done rest step point pushed seen seen' hr hsteps hdone hkept hat =>
      rw [hr] at harray hobject
      obtain ⟨point', hawaits, hat'⟩ : ∃ point',
          (r.touched results inHand).awaiting = .execute point' step rest ∧
            At K step.action point' seen' := by
        unfold Running.touched
        rw [hr]
        cases hat with
        | denied h hdenied => exact ⟨_, rfl, .denied h hdenied⟩
        | requested h => exact ⟨_, rfl, .requested h⟩
        | asked h => exact ⟨_, rfl, .asked h⟩
        | refused h => exact ⟨_, rfl, .refused h⟩
        | executing h => exact ⟨_, rfl, .executing h⟩
        | completed h hobj => exact ⟨_, rfl, .completed h (hobject rfl hobj)⟩
        | deniedBack h hobj => exact ⟨_, rfl, .deniedBack h (hobject rfl hobj)⟩
        | refusedBack h hobj => exact ⟨_, rfl, .refusedBack h (hobject rfl hobj)⟩
        | back h =>
            cases h with
            | completed h hobj => exact ⟨_, rfl, .back (.completed h (hobject rfl hobj))⟩
      exact .executing hawaits hsteps hdone (harray rfl hkept) hat'
  | verifying hr hverifies hleft hkept =>
      rw [hr] at harray
      refine .verifying ?_ hverifies hleft.touched (harray rfl hkept)
      unfold Running.touched
      rw [hr]
  | concluded hr hleft hkept hverdict =>
      refine .concluded ?_ hleft.touched ?_ hverdict
      · unfold Running.Concluded Running.touched at *
        cases hawaits : r.awaiting with
        | billing | flush =>
            rw [hawaits] at hr
            exact hr
        | settled =>
            rw [hawaits] at hshared
            cases hshared
        | plan | approval | execute | verify =>
            rw [hawaits] at hr
            exact hr.elim
      · unfold Running.Concluded at hr
        refine hlate ?_ hkept
        cases hawaits : r.awaiting with
        | billing | flush | settled => rfl
        | plan | approval | execute | verify =>
            rw [hawaits] at hr
            exact hr.elim

end Touched

/-! ## 5. Histories -/

namespace System

variable {K : Sharing} {opts : RunnerOptions} {clock : Clock} {ledger : Ledger sha256}
  {ds : List (Deed sha256)} {s s' : System sha256}

/-- The deed keeps the results of its run, as far as `K` says. -/
def Within (K : Sharing) (s : System sha256) : Deed sha256 → Prop
  | .touch i results inHand => ∀ r, s.runs[i]? = some r →
      (r.judged = false → ∀ {pushed}, K.array pushed r.results → K.array pushed results) ∧
      (∀ {now}, r.inHand = some now → ∀ {given}, K.object given now → K.object given inHand) ∧
      (r.judged = true → ∀ {pushed}, K.late pushed r.results → K.late pushed results)
  | _ => True

theorem within_free (d : Deed sha256) : s.Within .free d := by
  cases d with
  | touch => exact fun _ _ => ⟨fun _ _ _ => trivial, fun _ _ _ => trivial, fun _ _ _ => trivial⟩
  | move | append | record | immune | policy => trivial

theorem HidesNothing.within {d : Deed sha256} (h : s.HidesNothing d) : s.Within .honest d := by
  cases d with
  | touch i results inHand =>
      intro r hr
      refine ⟨fun hjudged _ hkept => hkept.trans (h r hr hjudged).1, fun {now} hnow _ hkept => ?_,
        fun _ _ _ => trivial⟩
      have hjudged : r.judged = false := by
        unfold Running.judged
        unfold Running.inHand at hnow
        split at hnow
        · rename_i hawaits
          rw [hawaits]
        · rename_i hawaits
          rw [hawaits]
        · cases hnow
      exact hkept.trans ((h r hr hjudged).2 now hnow)
  | move | append | record | immune | policy => trivial

/-- **Each run keeps to its trail with every deed.** -/
theorem deed_follows {d : Deed sha256} {seen : Nat → List Obs}
    (hseen : ∀ i, s.Follows K i (seen i)) (hd : s.Within K d) (h : s.deed d = some s') (i : Nat) :
    s'.Follows K i (seen i ++ s.observeDeed i d) := by
  cases d with
  | move m => exact (step_moves hseen h).follows hseen i
  | append | record | immune | policy =>
      cases h
      rw [observeDeed, List.append_nil]
      exact hseen i
  | touch j results inHand =>
      obtain ⟨r, hr, hout⟩ := Option.bind_eq_some_iff.mp h
      rw [observeDeed, List.append_nil]
      split_ifs at hout with hshared
      cases hout
      have hi := hseen i
      unfold Follows at hi ⊢
      dsimp only
      by_cases heq : i = j
      · subst heq
        rw [hr] at hi
        rw [List.getElem?_set_self (List.getElem?_eq_some_iff.mp hr).1]
        obtain ⟨harray, hobject, hlate⟩ := hd r hr
        exact Trail.touched hi hshared harray hobject hlate
      · rwa [List.getElem?_set_ne (Ne.symm heq)]

theorem createOn_follows (i : Nat) : (createOn opts clock ledger).Follows K i [] := rfl

/-- **In any history of deeds each run keeps to its trail.** -/
theorem follows_of_deeds {ok : System sha256 → Deed sha256 → Prop}
    (hok : ∀ s d, ok s d → s.Within K d) (h : Run System.deed ok (createOn opts clock ledger) ds s)
    (i : Nat) : s.Follows K i (deedTrace (createOn opts clock ledger) ds i) := by
  refine h.invariant_collect (f := fun i s d => s.observeDeed i d)
    (I := fun s seen => ∀ i, s.Follows K i (seen i)) createOn_follows ?_ i
  exact fun s d s' seen hseen hd hs i => deed_follows hseen (hok s d hd) hs i

/-- The executions, told apart by the ids of the runs, are what is seen of each. -/
theorem invoked_of_deeds {ok : System sha256 → Deed sha256 → Prop}
    (hok : ∀ s d, ok s d → s.Within K d) (h : Run System.deed ok (createOn opts clock ledger) ds s)
    (hdistinct : s.ids.Nodup) : Attributed s.ids (invocationsOf s.runner.invoked)
      fun i => (deedTrace (createOn opts clock ledger) ds i).filterMap Obs.invocation := by
  refine (h.invariant_collect (f := fun i s d => s.observeDeed i d)
    (I := fun s seen => (∀ i, s.Follows K i (seen i)) ∧ (s.ids.Nodup → Attributed s.ids
      (invocationsOf s.runner.invoked) fun i => (seen i).filterMap Obs.invocation))
    ⟨createOn_follows, fun _ => .nil⟩ ?_).2 hdistinct
  intro s d s' seen ⟨hseen, hinvoked⟩ hd hs
  refine ⟨deed_follows hseen (hok s d hd) hs, fun hdistinct => ?_⟩
  cases d with
  | move m =>
      have hmoves := step_moves hseen hs
      exact hmoves.attributed (fun _ _ hshows => hshows.invoked) hseen
        (hinvoked (hdistinct.sublist hmoves.ids.sublist)) hdistinct
  | append | record | immune | policy =>
      cases hs
      simp only [observeDeed, List.append_nil]
      exact hinvoked hdistinct
  | touch j results inHand =>
      obtain ⟨r, hr, hout⟩ := Option.bind_eq_some_iff.mp hs
      split_ifs at hout with hshared
      cases hout
      have hids : System.ids { s with runs := s.runs.set j (r.touched results inHand) } = s.ids :=
        ids_set hr rfl
      rw [hids] at hdistinct ⊢
      simp only [observeDeed, List.append_nil]
      exact hinvoked hdistinct

/-- The state to which a list of deeds leads. -/
def afterDeeds (opts : RunnerOptions) (ds : List (Deed id)) : System id :=
  let s₀ := createOn opts someClock (.empty id)
  (exec System.deed s₀ ds).getD s₀

end System

end AgentKernel.Runner
