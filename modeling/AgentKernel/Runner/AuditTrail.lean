/-
  File:      AgentKernel/Runner/AuditTrail.lean
  Subject:   Which runs the ledger has closed once they have settled.

  The loop catches what the guard of names throws and nothing else. Whatever throws later ends the
  run where it stands: no event answers the request, and none ends the run.

  * `Trail.closes`: what is seen of a settled run is closed, or something has thrown;
  * **`all_closed_iff`**: the ledger has closed the settled runs just as long as nothing throws.
-/
import AgentKernel.Runner.Trails
import AgentKernel.Runner.Budgets

namespace AgentKernel.Runner

open Lib Events Immune

variable {sha256 : String → String}

/-! ## 1. Closed accounts -/

/-- The answers to a request, up to the next one. -/
def answersOf : List Mark → List String
  | [] => []
  | .requested _ :: _ => []
  | .completed action :: marks | .rejected action :: marks => action :: answersOf marks
  | _ :: marks => answersOf marks

/-- Each request is followed, up to the next one, by one answer, and this for the same action. -/
def Answered : List Mark → Prop
  | [] => True
  | .requested action :: marks => answersOf marks = [action] ∧ Answered marks
  | _ :: marks => Answered marks

/-- The run has been created and has ended, once, and its requests are answered. -/
def Closed (marks : List Mark) : Prop :=
  ∃ rest, marks = .created :: rest ∧ rest.count .ended = 1 ∧ Answered rest

/-- An account to which none of the entries before it matters. -/
structure Tidy (marks : List Mark) : Prop where
  answered : Answered marks
  first : answersOf marks = []
  running : .ended ∉ marks

section Tidy

variable {A B : List Mark}

theorem answersOf_append (h : answersOf B = []) : answersOf (A ++ B) = answersOf A := by
  induction A with
  | nil => exact h
  | cons mark A ih => cases mark <;> simp [answersOf, ih]

theorem Answered.append (hA : Answered A) (hB : Answered B) (h : answersOf B = []) :
    Answered (A ++ B) := by
  induction A with
  | nil => exact hB
  | cons mark A ih =>
      cases mark with
      | requested action =>
          obtain ⟨hanswers, hA⟩ := hA
          exact ⟨(answersOf_append h).trans hanswers, ih hA⟩
      | created | planned | completed | rejected | denied | ended => exact ih hA

theorem Tidy.append (hA : Tidy A) (hB : Tidy B) : Tidy (A ++ B) where
  answered := hA.answered.append hB.answered hB.first
  first := by rw [answersOf_append hB.first, hA.first]
  running h := (List.mem_append.mp h).elim hA.running hB.running

theorem Tidy.nil : Tidy [] := ⟨trivial, rfl, List.not_mem_nil⟩

theorem Tidy.closed (h : Tidy A) : Closed (.created :: .planned :: (A ++ [.ended])) := by
  refine ⟨_, rfl, ?_, h.answered.append trivial rfl⟩
  have hcount : A.count .ended = 0 := List.count_eq_zero.mpr h.running
  simp [hcount]

end Tidy

/-! ## 2. What a run leaves in its account -/

/-- Something has thrown, or there is no executor. -/
def Obs.throws : Obs → Bool
  | .approved _ (.error _) | .immune _ (.error _) | .input _ (.error _) | .resolved _ false
  | .canExecute _ (.error _) | .returned _ (.error _) | .verifyThrew => true
  | _ => false

/-- Nothing has thrown, and these are the entries of the account. -/
structure Leaves (seen : List Obs) (marks : List Mark) : Prop where
  marks : seen.filterMap Obs.mark = marks
  calm : seen.any Obs.throws = false

theorem Leaves.append {seen seen' : List Obs} {marks marks' : List Mark} (h : Leaves seen marks)
    (h' : Leaves seen' marks') : Leaves (seen ++ seen') (marks ++ marks') where
  marks := by rw [List.filterMap_append, h.marks, h'.marks]
  calm := by rw [List.any_append, h.calm, h'.calm]; rfl

section Steps

variable {K : Sharing} {action : String} {v : Value} {seen : List Obs} {point : ExecutePoint}
  {result : Result}

theorem Cleared.leaves (h : Cleared action seen) : Leaves seen [] := by
  cases h with
  | atOnce | approved => exact ⟨rfl, rfl⟩

theorem Gated.leaves (h : Gated action v seen) : Leaves seen [] := by
  obtain ⟨hcleared, -, -⟩ := h
  exact hcleared.leaves.append ⟨rfl, rfl⟩

theorem Requested.leaves (h : Requested action v seen) : Leaves seen [.requested action] := by
  obtain ⟨hgated, hallowed⟩ := h
  exact hgated.leaves.append ⟨by simp [Obs.mark, hallowed], rfl⟩

theorem At.calm (h : At K action point seen) : seen.any Obs.throws = false := by
  induction h with
  | denied h => exact (h.leaves.append ⟨rfl, rfl⟩).calm
  | requested h => exact h.leaves.calm
  | asked h | refused h | executing h | completed h => exact (h.leaves.append ⟨rfl, rfl⟩).calm
  | deniedBack _ _ ih | refusedBack _ _ ih | back _ ih => exact ih

/-- A request that has its answer. -/
theorem tidy_answered : Tidy [.requested action, .completed action] ∧
    Tidy [.requested action, .rejected action] ∧ Tidy [.denied action] :=
  ⟨⟨⟨rfl, trivial⟩, rfl, by simp⟩, ⟨⟨rfl, trivial⟩, rfl, by simp⟩, ⟨trivial, rfl, by simp⟩⟩

/-- An execution that is over has had its answer. -/
theorem At.tidy (h : At K action (.returned result) seen) :
    ∃ marks, Leaves seen marks ∧ Tidy marks := by
  cases h with
  | deniedBack hat =>
      cases hat with
      | denied hgated hdenied =>
          exact ⟨[.denied action], hgated.leaves.append ⟨by simp [Obs.mark, hdenied], rfl⟩,
            tidy_answered.2.2⟩
  | refusedBack hat =>
      cases hat with
      | refused hrequested => exact ⟨_, hrequested.leaves.append ⟨rfl, rfl⟩, tidy_answered.2.1⟩
  | back hat =>
      cases hat with
      | completed hrequested => exact ⟨_, hrequested.leaves.append ⟨rfl, rfl⟩, tidy_answered.1⟩

theorem Handled.tidy (h : Handled K action result seen) :
    ∃ marks, Leaves seen marks ∧ Tidy marks := by
  cases h with
  | guard | policy | approval => exact ⟨[], ⟨rfl, rfl⟩, .nil⟩
  | quota hcleared | immune hcleared => exact ⟨[], hcleared.leaves.append ⟨rfl, rfl⟩, .nil⟩
  | executed hat =>
      obtain ⟨marks, hleaves, htidy⟩ := hat.tidy
      refine ⟨marks, ?_, htidy⟩
      rw [← List.append_nil marks]
      exact hleaves.append ⟨rfl, rfl⟩

theorem Handles.tidy {steps : List RunStep} {results : List Result}
    (h : Handles K steps results seen) : ∃ marks, Leaves seen marks ∧ Tidy marks := by
  induction h with
  | nil => exact ⟨[], ⟨rfl, rfl⟩, .nil⟩
  | snoc _ hstep ih =>
      obtain ⟨marks, hleaves, htidy⟩ := ih
      obtain ⟨marks', hleaves', htidy'⟩ := hstep.tidy
      exact ⟨_, hleaves.append hleaves', htidy.append htidy'⟩

/-- What a step leaves in the account that has thrown: a request at most. -/
theorem Broken.leaves (h : Broken action seen) :
    seen.any Obs.throws = true ∧ .ended ∉ seen.filterMap Obs.mark := by
  cases h with
  | approval => exact ⟨rfl, List.not_mem_nil⟩
  | immune hcleared | input hcleared =>
      refine ⟨by rw [List.any_append]; exact Bool.or_true _, ?_⟩
      rw [List.filterMap_append, hcleared.leaves.marks]
      exact List.not_mem_nil
  | unresolved hrequested | canExecute hrequested | executor hrequested =>
      refine ⟨by rw [List.any_append]; exact Bool.or_true _, ?_⟩
      rw [List.filterMap_append, hrequested.leaves.marks]
      simp [Obs.mark]

end Steps

/-- The run has resolved or rejected. -/
def Running.Settled (r : Running) : Prop := ∃ outcome, r.awaiting = .settled outcome

/-- **A settled run has closed its account, unless something has thrown.** -/
theorem Trail.closes {K : Sharing} {r : Running} {seen : List Obs} (h : Trail K r seen) :
    (seen.any Obs.throws = false ∧ (r.Settled → Closed (seen.filterMap Obs.mark))) ∨
      (seen.any Obs.throws = true ∧ r.Settled ∧ .ended ∉ seen.filterMap Obs.mark) := by
  have hopening : Leaves opening [.created, .planned] := ⟨rfl, rfl⟩
  cases h with
  | planning hr =>
      refine .inl ⟨rfl, fun ⟨outcome, hsettled⟩ => ?_⟩
      rw [hr] at hsettled
      cases hsettled
  | asking hr _ hdone =>
      obtain ⟨marks, hleaves, -⟩ := hdone.tidy
      refine .inl ⟨((hopening.append hleaves).append ⟨rfl, rfl⟩).calm,
        fun ⟨outcome, hsettled⟩ => ?_⟩
      rw [hr] at hsettled
      cases hsettled
  | executing hr _ hdone _ hat =>
      obtain ⟨marks, hleaves, -⟩ := hdone.tidy
      refine .inl ⟨((hopening.append hleaves).append ⟨rfl, hat.calm⟩).calm,
        fun ⟨outcome, hsettled⟩ => ?_⟩
      rw [hr] at hsettled
      cases hsettled
  | verifying hr _ hleft =>
      obtain ⟨-, hdone, -⟩ := hleft
      obtain ⟨marks, hleaves, -⟩ := hdone.tidy
      refine .inl ⟨(hopening.append hleaves).calm, fun ⟨outcome, hsettled⟩ => ?_⟩
      rw [hr] at hsettled
      cases hsettled
  | @concluded _ _ verification _ hleft =>
      obtain ⟨-, hdone, -⟩ := hleft
      obtain ⟨marks, hleaves, htidy⟩ := hdone.tidy
      have hall := (hopening.append hleaves).append
        (⟨rfl, rfl⟩ : Leaves [.concluded verification.verdict] [.ended])
      refine .inl ⟨hall.calm, fun _ => ?_⟩
      rw [hall.marks]
      exact htidy.closed
  | @broken _ _ _ error _ _ seen' hr _ hdone _ hbroken =>
      obtain ⟨marks, hleaves, htidy⟩ := hdone.tidy
      obtain ⟨hthrows, hended⟩ := hbroken.leaves
      refine .inr ⟨?_, ⟨.error error, hr⟩, ?_⟩
      · rw [List.any_append, hthrows]
        exact Bool.or_true _
      · rw [List.filterMap_append, (hopening.append hleaves).marks]
        simpa [htidy.running] using hended
  | unverified hr hleft =>
      obtain ⟨-, hdone, -⟩ := hleft
      obtain ⟨marks, hleaves, htidy⟩ := hdone.tidy
      refine .inr ⟨?_, ⟨_, hr⟩, ?_⟩
      · rw [List.any_append]
        exact Bool.or_true _
      · rw [List.filterMap_append, (hopening.append hleaves).marks]
        simp [htidy.running, Obs.mark]

theorem Closed.ended {marks : List Mark} (h : Closed marks) : .ended ∈ marks := by
  obtain ⟨rest, rfl, hcount, -⟩ := h
  refine List.mem_cons_of_mem _ (List.count_pos_iff.mp ?_)
  rw [hcount]
  exact Nat.one_pos

/-! ## 3. Histories -/

namespace System

/-- The account of a run in the ledger. -/
def accountOf (s : System sha256) (runId : String) : List Mark :=
  taggedWith runId (marksOf s.runner.ledger.events)

/-- Every settled run has closed its account. -/
def AllClosed (s : System sha256) : Prop :=
  ∀ (i : Nat) (r : Running), s.runs[i]? = some r → r.Settled → Closed (s.accountOf r.runId)

/-- Nothing throws with the move, and what is requested has an executor. -/
def Answers (s : System sha256) (m : Move) : Prop :=
  ∀ i, (s.observe i m).any Obs.throws = false

section History

variable {opts : RunnerOptions} {clock : Clock} {ms : List Move} {s : System sha256}

/-- The guard, read off what has been seen. -/
theorem answers_iff {ok : System sha256 → Move → Prop}
    (h : Run System.step ok (@create sha256 opts clock) ms s) :
    Run System.step (fun s m => ok s m ∧ s.Answers m) (@create sha256 opts clock) ms s ↔
      ∀ i, (trace (@create sha256 opts clock) ms i).any Obs.throws = false := by
  refine h.and_iff (P := fun ms => ∀ i, (trace (@create sha256 opts clock) ms i).any Obs.throws =
    false) (fun _ => rfl) fun ms m s s' hr _ hs => ?_
  have hsnoc : ∀ i, trace (@create sha256 opts clock) (ms ++ [m]) i =
    trace (@create sha256 opts clock) ms i ++ s.observe i m := fun _ => hr.collect_snoc hs
  simp only [hsnoc, List.any_append, Bool.or_eq_false_iff, forall_and, Answers]

/-- **The ledger has closed all the runs that have settled just in the histories in which nothing
    has thrown.** -/
theorem all_closed_iff (h : Run System.step FreshId (@create sha256 opts clock) ms s) :
    s.AllClosed ↔
      Run System.step (fun s m => FreshId s m ∧ Answers s m) (@create sha256 opts clock) ms s := by
  obtain ⟨hseen, hrecorded⟩ := seen_of_run h
  have htrail : ∀ (i : Nat) (r : Running), s.runs[i]? = some r →
      Trail .untouched r (trace (@create sha256 opts clock) ms i) := by
    intro i r hr
    have hi := hseen i
    unfold Follows at hi
    rwa [hr] at hi
  have haccount : ∀ (i : Nat) (r : Running), s.runs[i]? = some r → s.accountOf r.runId =
      (trace (@create sha256 opts clock) ms i).filterMap Obs.mark := by
    intro i r hr
    have hid : s.ids[i]? = some r.runId := by
      unfold ids
      rw [List.getElem?_map, hr]
      rfl
    exact (hrecorded (distinct_of_run h)).marks.own i r.runId hid
  rw [answers_iff h]
  constructor
  · intro hclosed i
    have hi := hseen i
    unfold Follows at hi
    cases hr : s.runs[i]? with
    | none =>
        rw [hr] at hi
        rw [show trace _ ms i = [] from hi]
        rfl
    | some r =>
        rcases (htrail i r hr).closes with ⟨hcalm, -⟩ | ⟨-, hsettled, hno⟩
        · exact hcalm
        · have hends := (hclosed i r hr hsettled).ended
          rw [haccount i r hr] at hends
          exact absurd hends hno
  · intro hcalm i r hr hsettled
    rw [haccount i r hr]
    rcases (htrail i r hr).closes with ⟨-, hcloses⟩ | ⟨hthrows, -, -⟩
    · exact hcloses hsettled
    · rw [hcalm i] at hthrows
      cases hthrows

/-- `FreshId`, to be computed. -/
def freshId (s : System sha256) : Move → Bool
  | .run _ _ _ runId => !s.ids.contains runId
  | _ => true

theorem freshId_sound {m : Move} (h : s.freshId m = true) : s.FreshId m := by
  cases m with
  | run intent opts taskId runId =>
      intro hmem
      have hcontains : s.ids.contains runId = true := List.contains_iff_mem.mpr hmem
      rw [freshId, hcontains] at h
      cases h
  | resume | grant | registerExecutor => trivial

theorem all_closed_iff_readToTheEnd :
    (∃ r, (afterMoves oneCall readToTheEnd).runs[0]? = some r ∧ r.Settled) ∧
    ((afterMoves oneCall readToTheEnd).AllClosed ↔
      Run System.step (fun s m => FreshId s m ∧ Answers s m) (.create oneCall someClock)
        readToTheEnd (afterMoves oneCall readToTheEnd)) :=
  ⟨⟨_, rfl, ⟨_, rfl⟩⟩, all_closed_iff (run_of_exec_check (fun _ _ => freshId_sound) rfl)⟩

/-- The executor has done something, and then throws. -/
def executorThrows : List Move :=
  [.registerExecutor "repo.read", readOnce "t1" "r1", .resume 0 .done, .resume 0 (.answer true),
    .resume 0 (.thrown "connection lost")]

/-- **The run has rejected, and the ledger still waits for the execution and for the run.** -/
theorem thrown_execution_stays_open :
    Run System.step FreshId (.create oneCall someClock) executorThrows
      (afterMoves oneCall executorThrows) ∧
    (∃ r, (afterMoves oneCall executorThrows).runs[0]? = some r ∧ r.Settled ∧
      (afterMoves oneCall executorThrows).accountOf r.runId =
        [.created, .planned, .requested "repo.read"]) ∧
    ¬ (afterMoves oneCall executorThrows).AllClosed := by
  refine ⟨run_of_exec_check (fun _ _ => freshId_sound) rfl, ⟨_, rfl, ⟨_, rfl⟩, by decide⟩,
    fun hclosed => ?_⟩
  have hended := (hclosed 0 _ rfl ⟨_, rfl⟩).ended
  revert hended
  decide

end History

end System

end AgentKernel.Runner
