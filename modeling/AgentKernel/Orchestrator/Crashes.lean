/-
  File:      AgentKernel/Orchestrator/Crashes.lean
  Subject:   The errors no catch of the executor keeps.

  Both catches, that of an attempt and that of a job, pass a `CrashInjectedError` on
  (`if (err instanceof CrashInjectedError) throw err`). A hook, a call and an approval request may
  reject with one. `crashStep` is the machine with this branch: an answer is marked as such an error,
  the execution rejects with it as it is, and so does every worker that waits for the execution.

  * `Doomed.step`: from then on the run can only abort;
  * **`failures_contained`**: a run is contained if no answer is such an error and no step
    misfires, and a run that has come to its end is contained in no other case.
-/
import AgentKernel.Orchestrator.Progress

namespace AgentKernel.Orchestrator

open Lib

/-! ## 1. The machine with the branch -/

/-- An executor, and the keys of the executions that have been thrown a `CrashInjectedError`. -/
structure CrashState where
  state : State
  crashed : List String

/-- What can happen, with what crashes. -/
inductive CrashLabel where
  /-- a stretch of the code; an answer in it is no `CrashInjectedError` -/
  | code (l : Label)
  /-- what the attempt under `key` awaits rejects with a `CrashInjectedError` -/
  | crash (key : String) (a : Answer)

/-- An executor that has met no such error. -/
def State.uncrashed (s : State) : CrashState := ⟨s, []⟩

/-- `run(graph)` after `WorkflowRunCreated`. -/
def CrashState.initial (c : Context) (w : World) : CrashState := (State.initial c w).uncrashed

/-- The awaits within the try block of an attempt. -/
def FlightPc.inTry : FlightPc → Bool
  | .ran | .waiting _ | .calling .. => true
  | _ => false

/-- What is awaited rejects. -/
def Answer.rejects : Answer → Bool
  | .hookFailed _ | .run (.rejected _) | .approvalRejected _ => true
  | _ => false

/-- The two catches, if what they catch is a `CrashInjectedError`: that of an attempt rejects the
    execution with it, that of a job releases the seat and rejects the worker with it. -/
def rethrow (x : CrashState) : Label → Option State
  | .flight key .tick =>
      match x.state.core.store.inFlight key with
      | some f =>
          match f.pc with
          | .threw e =>
              if key ∈ x.crashed then
                some { x.state with core := x.state.core.setFlight key { f with pc := .rejected e } }
              else none
          | _ => none
      | none => none
  | .worker i .tick =>
      match x.state.workers[i]? with
      | some (.holding job n _ none) =>
          match settledAs x.state.core job.idempotencyKey with
          | some (.error e) =>
              if job.idempotencyKey ∈ x.crashed then some (release x.state i job n (.died e))
              else none
          | _ => none
      | _ => none
  | _ => none

/-- One step of the run, or a crash. -/
def crashStep (c : Context) (x : CrashState) : CrashLabel → Option CrashState
  | .code l =>
      match rethrow x l with
      | some s => some { x with state := s }
      | none => (step c x.state l).map fun s => { x with state := s }
  | .crash key a =>
      match x.state.core.store.inFlight key with
      | some f =>
          if f.pc.inTry && a.rejects then
            (step c x.state (.flight key a)).map fun s => ⟨s, key :: x.crashed⟩
          else none
      | none => none

/-! ## 2. The property and its condition -/

/-- A run that the failures of its handler cannot break: no event is refused and nothing is aborted,
    throughout; until it is resolved some code can go on; and its code takes no more steps than
    there is to do, with four more for each redelivery. -/
structure Contained (c : Context) (w : World) (ls : List CrashLabel) (x : CrashState) : Prop where
  unbroken : Throughout (crashStep c) (.initial c w) ls fun x => Unbroken x.state
  enabled : x.state.drive ≠ .resolved →
    ∃ l x', works c x.state l = true ∧ crashStep c x (.code l) = some x'
  ends : occurrences (crashStep c) (fun x => fun | .code l => works c x.state l | _ => false)
      (.initial c w) ls ≤
    runWork c + 4 * occurrences (crashStep c)
      (fun x => fun | .code l => redelivers x.state l | _ => false) (.initial c w) ls

/-- An answer that is a `CrashInjectedError`, or a step that feeds the state machine an event it
    refuses. -/
inductive Breaks (c : Context) (x : CrashState) : CrashLabel → Prop where
  | crashes {key : String} {a : Answer} : Breaks c x (.crash key a)
  | misfires {l : Label} (h : Misfires c x.state l) : Breaks c x (.code l)

/-- `run()` has settled. -/
def CrashState.Ended (x : CrashState) : Prop :=
  x.state.drive = .resolved ∨ ∃ e, x.state.drive = .aborted e

/-! ## 3. Runs without such an error -/

section Uncrashed

variable {c : Context} {w : World} {ls : List CrashLabel} {x : CrashState}

theorem rethrow_uncrashed (s : State) (l : Label) : rethrow s.uncrashed l = none := by
  unfold rethrow State.uncrashed
  split
  · split
    · split
      · simp
      · rfl
    · rfl
  · split
    · split
      · simp
      · rfl
    · rfl
  · rfl

/-- Until an error of that kind is thrown the machine is the one without the branch. -/
theorem crashStep_uncrashed (s : State) (l : Label) :
    crashStep c s.uncrashed (.code l) = (step c s l).map State.uncrashed := by
  simp only [crashStep, rethrow_uncrashed]
  rfl

theorem labels_of_unbroken (h : Run (crashStep c) (fun x l => ¬ Breaks c x l) (.initial c w) ls x) :
    ∃ ls' : List Label, ls = ls'.map .code := by
  induction h with
  | start => exact ⟨[], rfl⟩
  | @next ls x x' l h hno hs ih =>
      obtain ⟨ls', rfl⟩ := ih
      cases l with
      | code l => exact ⟨ls' ++ [l], by simp⟩
      | crash key a => exact absurd .crashes hno

theorem run_uncrashed (h : Run (crashStep c) (fun x l => ¬ Breaks c x l) (.initial c w) ls x) :
    ∃ (ls' : List Label) (s : State), ls = ls'.map .code ∧ x = s.uncrashed ∧
      Run (step c) (fun s l => ¬ Misfires c s l) (.initial c w) ls' s := by
  obtain ⟨ls', rfl⟩ := labels_of_unbroken h
  obtain ⟨s, rfl, hr⟩ := h.embedded crashStep_uncrashed
  exact ⟨ls', s, rfl, rfl, hr.mono fun _ _ hno hm => hno (.misfires hm)⟩

/-- **Such a run is contained.** -/
theorem contained_of_unbroken (hv : validateGraph c.graph = .ok ()) (hk : NoCollision c)
    (hpos : c.limits.Positive)
    (h : Run (crashStep c) (fun x l => ¬ Breaks c x l) (.initial c w) ls x) :
    Contained c w ls x := by
  obtain ⟨ls', s, rfl, rfl, hr⟩ := run_uncrashed h
  obtain ⟨hunbroken, henabled, hends⟩ := run_contained hv hk hpos hr
  refine ⟨fun ls₁ x₁ hpre hr₁ => ?_, fun hd => ?_, ?_⟩
  · obtain ⟨ls₂, hls⟩ := hpre
    obtain ⟨ls₁', ls₂', rfl, rfl, -⟩ := List.map_eq_append_iff.mp hls.symm
    obtain ⟨s₁, rfl, hbase⟩ := hr₁.embedded crashStep_uncrashed
    exact hunbroken ls₁' s₁ ⟨ls₂', rfl⟩ hbase
  · obtain ⟨l, s', hworks, hs⟩ := henabled hd
    exact ⟨l, s'.uncrashed, hworks, by rw [crashStep_uncrashed, hs]; rfl⟩
  · have hcount := occurrences_embedded (crashStep_uncrashed (c := c))
    rw [CrashState.initial, hcount, hcount]
    exact hends

end Uncrashed

/-! ## 4. Runs with one -/

/-- Nothing but the end in an error lies ahead: the drive loop is aborted, or it waits for workers
    one of which has died, or waits for an execution that has been thrown a `CrashInjectedError`. -/
inductive Doomed (x : CrashState) : Prop where
  | aborted {e : String} (hd : x.state.drive = .aborted e)
  | dead {e : String} (hd : x.state.drive = .dispatching) (hw : .died e ∈ x.state.workers)
  | ahead {i : Nat} {job : WorkflowJob} {n : WorkflowNode} {d : Bool} {f : Flight}
      (hd : x.state.drive = .dispatching)
      (hw : x.state.workers[i]? = some (.holding job n d none))
      (hc : job.idempotencyKey ∈ x.crashed)
      (hf : x.state.core.store.inFlight job.idempotencyKey = some f)
      (hpc : (∃ e, f.pc = .threw e) ∨ ∃ e, f.pc = .rejected e)

section Doom

variable {c : Context} {s s' : State} {x x' : CrashState} {l : Label} {w : World}

theorem Doomed.not_resolved (h : Doomed x) : x.state.drive ≠ .resolved := by
  intro hd
  cases h with
  | aborted he | dead he | ahead he =>
      rw [hd] at he
      cases he

/-- Nobody but the execution itself writes its entry. -/
theorem step_inFlight {key : String} {f : Flight} (hnd : (c.graph.map (·.id)).Nodup)
    (hS : State.Sound c s) (hs : step c s l = some s') (hl : ∀ a, l ≠ .flight key a)
    (hf : s.core.store.inFlight key = some f) : s'.core.store.inFlight key = some f := by
  refine (step_core hS hnd hs).keeps (I := fun z => z.store.inFlight key = some f) hnd hS.core
    (fun z ha => ?_) (fun z z' T q _ _ hz ht => by rw [ht.sameRest.store]; exact hz)
    fun z id st _ hz => hz
  cases ha with
  | idle | completes | endRefused | late | world => exact hf
  | @flight k g a z pc hg hrow =>
      rw [Core.setFlight_inFlight, if_neg (fun hk => hl a (by rw [hk])), hrow.own.store]
      exact hf
  | @settles k g r hg hpc =>
      simp only [IdempotencyStore.settle]
      rw [if_neg fun hk => hl .tick (by rw [hk])]
      exact hf
  | @begins i n job s₀ hh hn hid hkey hnone hnew =>
      rw [Core.setFlight_inFlight, if_neg, beginAttempt_own.store]
      · exact hf
      · intro hk
        rw [← hk, hf] at hnew
        cases hnew
  | givesUp hw hn hend ht hcore hcaught hrow =>
      rw [hrow.own.store]
      rcases hcore with rfl | rfl <;> exact hf
  | ending hw hn hend hrow =>
      rw [hrow.own.store]
      exact hf

/-- An execution that rejects: nothing else changes. -/
theorem State.Sound.rejects {key e : String} {f : Flight} (hS : State.Sound c s)
    (hf : s.core.store.inFlight key = some f) :
    State.Sound c { s with core := s.core.setFlight key { f with pc := .rejected e } } := by
  obtain ⟨hn, hkey, -⟩ := hS.core.flight key f hf
  have hgrows : Grows s.core (s.core.setFlight key { f with pc := .rejected e }) := by
    refine ⟨fun k r hr => hr, fun k hknown => ?_, fun k _ hstill g hg => ?_⟩
    · refine hknown.imp_right fun ⟨g, hg⟩ => ?_
      rw [Core.setFlight_inFlight]
      split_ifs
      · exact ⟨_, rfl⟩
      · exact ⟨g, hg⟩
    · rw [Core.setFlight_inFlight] at hg
      split_ifs at hg
      · cases hg
        exact ⟨e, rfl⟩
      · exact hstill g hg
  refine ⟨⟨fun k g hg => ?_, fun k g hg => ?_, hS.core.live, fun k g hg hgo => ?_⟩,
    ⟨hS.orderly.jobs, hS.orderly.resting⟩, fun w hw => (hS.workers w hw).mono hgrows,
    fun k g hg hgo => ?_⟩
  · rw [Core.setFlight_inFlight] at hg
    split_ifs at hg with hk
    · cases hg
      exact ⟨hn, hkey.trans hk.symm, trivial⟩
    · exact hS.core.flight k g hg
  · rw [Core.setFlight_inFlight] at hg
    split_ifs at hg with hk
    · rw [hk]
      exact hS.core.excl key f hf
    · exact hS.core.excl k g hg
  · rw [Core.setFlight_inFlight] at hg
    split_ifs at hg with hk
    · cases hg
      exact absurd rfl (hgo e)
    · exact hS.core.working k g hg hgo
  · rw [Core.setFlight_inFlight] at hg
    split_ifs at hg with hk
    · cases hg
      exact absurd rfl (hgo e)
    · exact hS.held k g hg hgo

/-- A worker that rejects with what it has waited for. -/
theorem State.Sound.dies {i : Nat} {job : WorkflowJob} {n : WorkflowNode} {d : Bool} {e : String}
    (hS : State.Sound c s) (hw : s.workers[i]? = some (.holding job n d none))
    (he : settledAs s.core job.idempotencyKey = some (.error e)) :
    State.Sound c (release s i job n (.died e)) := by
  refine ⟨hS.core, ⟨hS.orderly.jobs, fun hd ha => ?_⟩, fun w hmem => ?_, fun k g hg hgo => ?_⟩
  · rcases hS.busy (List.mem_of_getElem? hw) (by simp) with hd' | ⟨e', hd'⟩
    · exact absurd hd' hd
    · exact absurd hd' (ha e')
  · rcases List.mem_or_eq_of_mem_set hmem with hmem | rfl
    · exact hS.workers w hmem
    · trivial
  · obtain ⟨job', n', d', hmem, hkey⟩ := hS.held k g hg hgo
    refine ⟨job', n', d', mem_set_of_ne hw hmem fun hsame => ?_, hkey⟩
    cases hsame
    -- the execution that goes on is not the one that has rejected
    rw [hkey] at he
    unfold settledAs at he
    rw [hS.core.excl k g hg, show s.core.store.inFlight k = some g from hg] at he
    obtain ⟨m, j, pc⟩ := g
    cases pc with
    | rejected e' => exact absurd rfl (hgo e')
    | _ => cases he

theorem rethrow_sound (hS : State.Sound c x.state) (h : rethrow x l = some s') :
    State.Sound c s' := by
  unfold rethrow at h
  split at h
  · split at h
    · rename_i key _ f hf
      split at h
      · split_ifs at h
        cases h
        exact hS.rejects hf
      · cases h
    · cases h
  · split at h
    · rename_i i _ job n d hw
      split at h
      · rename_i e he
        split_ifs at h
        cases h
        exact hS.dies hw he
      · cases h
    · cases h
  · cases h

/-- The invariant of the machine holds with the branch, too. -/
theorem crashStep_sound {l : CrashLabel} (hnd : (c.graph.map (·.id)).Nodup)
    (hS : State.Sound c x.state) (h : crashStep c x l = some x') : State.Sound c x'.state := by
  unfold crashStep at h
  split at h
  · split at h
    · rename_i l s hs
      cases h
      exact rethrow_sound hS hs
    · obtain ⟨s, hs, rfl⟩ := Option.map_eq_some_iff.mp h
      exact hS.step hnd hs
  · split at h
    · split_ifs at h
      obtain ⟨s, hs, rfl⟩ := Option.map_eq_some_iff.mp h
      exact hS.step hnd hs
    · cases h

/-! ### The run ends in an error -/

/-- An execution that has thrown takes no step but that of the catch. -/
theorem flightStep_thrown {y : Core} {key : String} {f : Flight} {a : Answer}
    (hf : s.core.store.inFlight key = some f)
    (hpc : (∃ e, f.pc = .threw e) ∨ ∃ e, f.pc = .rejected e)
    (h : flightStep c s.core key a = some y) : a = .tick ∧ ∃ e, f.pc = .threw e := by
  unfold flightStep at h
  rw [hf] at h
  obtain ⟨m, j, pc⟩ := f
  rcases hpc with ⟨e, rfl⟩ | ⟨e, rfl⟩
  · cases a with
    | tick => exact ⟨rfl, e, rfl⟩
    | _ => cases h
  · cases h

/-- Without the branch nothing changes for an execution that has been thrown the error, nor for who
    waits for it. -/
theorem Doomed.base (hnd : (c.graph.map (·.id)).Nodup) (hS : State.Sound c x.state) (h : Doomed x)
    (hno : rethrow x l = none) (hs : step c x.state l = some s') {crashed : List String}
    (hsub : x.crashed ⊆ crashed) : Doomed ⟨s', crashed⟩ := by
  have hstay : s'.drive = x.state.drive → s'.workers = x.state.workers → l ≠ .drive →
      (∀ i a, l ≠ .worker i a) → Doomed ⟨s', crashed⟩ := by
    intro hdrive hws hld hlw
    cases h with
    | aborted hd => exact .aborted (hdrive.trans hd)
    | dead hd hw => exact .dead (hdrive.trans hd) (hws ▸ hw)
    | @ahead i job n d f hd hw hc hf hpc =>
        refine .ahead (hdrive.trans hd) ((congrArg (·[i]?) hws).trans hw) (hsub hc) ?_ hpc
        refine step_inFlight hnd hS hs (fun a hl => ?_) hf
        subst hl
        obtain ⟨y, hy, -⟩ := Option.map_eq_some_iff.mp hs
        obtain ⟨rfl, e, he⟩ := flightStep_thrown hf hpc hy
        simp [rethrow, hf, he, hc] at hno
  cases l with
  | drive =>
      have hm := driveStep_move hs
      cases h with
      | aborted hd => cases hm <;> simp_all
      | dead hd hw =>
          cases hm with
          | aborts => exact .aborted rfl
          | loops _ hall => cases hall _ hw
          | _ => simp_all
      | ahead hd hw =>
          cases hm with
          | aborts => exact .aborted rfl
          | loops _ hall => cases hall _ (List.mem_of_getElem? hw)
          | _ => simp_all
  | worker j a =>
      obtain ⟨old, new, hj, -, hws, -, -, hdrive, -⟩ := (workerStep_move hs).frame
      cases h with
      | aborted hd => exact .aborted (hdrive.trans hd)
      | @dead e hd hw =>
          refine .dead (hdrive.trans hd) (e := e) ?_
          show _ ∈ s'.workers
          rw [hws]
          refine mem_set_of_ne hj hw fun he => ?_
          rw [← he] at hj
          simp [step, workerStep, hj] at hs
      | @ahead i job n d f hd hw hc hf hpc =>
          have hij : j ≠ i := by
            rintro rfl
            have hnone := hS.core.excl _ f hf
            obtain ⟨m, g, pc⟩ := f
            cases a with
            | tick =>
                rcases hpc with ⟨e, rfl⟩ | ⟨e, rfl⟩
                · simp [step, workerStep, hw, settledAs, hnone, hf] at hs
                · simp [rethrow, hw, settledAs, hnone, hf, hc] at hno
            | _ => simp [step, workerStep, hw] at hs
          have hstill : s'.workers[i]? = some (.holding job n d none) := by
            rw [hws, List.getElem?_set_ne hij, hw]
          exact .ahead (hdrive.trans hd) hstill (hsub hc) (step_inFlight hnd hS hs (by simp) hf) hpc
  | flight key a | late call o | redeliver k at_ =>
      obtain ⟨y, hy, rfl⟩ := Option.map_eq_some_iff.mp hs
      exact hstay rfl rfl (by simp) (by simp)
  | cancel reason | world w =>
      cases hs
      exact hstay rfl rfl (by simp) (by simp)

/-- The catches bring the end nearer. -/
theorem Doomed.rethrow (hS : State.Sound c x.state) (h : Doomed x)
    (hs : rethrow x l = some s') : Doomed { x with state := s' } := by
  unfold Orchestrator.rethrow at hs
  split at hs
  · split at hs
    · rename_i key _ g hg
      split at hs
      · rename_i e he
        split_ifs at hs
        cases hs
        cases h with
        | aborted hd => exact .aborted hd
        | dead hd hw => exact .dead hd hw
        | @ahead i job n d f hd hw hc hf hpc =>
            by_cases hk : job.idempotencyKey = key
            · refine .ahead hd hw hc (f := { g with pc := .rejected e }) ?_ (.inr ⟨e, rfl⟩)
              show (Core.setFlight _ _ _).store.inFlight _ = _
              rw [Core.setFlight_inFlight, if_pos hk]
            · refine .ahead hd hw hc (f := f) ?_ hpc
              show (Core.setFlight _ _ _).store.inFlight _ = _
              rw [Core.setFlight_inFlight, if_neg hk, hf]
      · cases hs
    · cases hs
  · split at hs
    · rename_i i _ job n d hw
      split at hs
      · rename_i e he
        split_ifs at hs
        cases hs
        rcases hS.busy (List.mem_of_getElem? hw) (by simp) with hd | ⟨e', hd⟩
        · exact .dead hd (mem_set_self hw)
        · exact .aborted hd
      · cases hs
    · cases hs
  · cases hs

theorem Doomed.step {l : CrashLabel} (hnd : (c.graph.map (·.id)).Nodup)
    (hS : State.Sound c x.state) (h : Doomed x) (hs : crashStep c x l = some x') : Doomed x' := by
  unfold crashStep at hs
  split at hs
  · split at hs
    · rename_i l s hl
      cases hs
      exact h.rethrow hS hl
    · rename_i l hl
      obtain ⟨s, hbase, rfl⟩ := Option.map_eq_some_iff.mp hs
      exact h.base hnd hS hl hbase (List.Subset.refl _)
  · split at hs
    · rename_i key a _ f hf
      split_ifs at hs with hin
      obtain ⟨s, hbase, rfl⟩ := Option.map_eq_some_iff.mp hs
      refine h.base hnd hS ?_ hbase (List.subset_cons_self _ _)
      cases a with
      | tick => simp [Answer.rejects] at hin
      | _ => rfl
    · cases hs

/-- An answer that rejects ends the try block. -/
theorem flightNext_rejects {y : Core} {f : Flight} {pc : FlightPc} {a : Answer}
    (hin : f.pc.inTry = true) (hrejects : a.rejects = true)
    (h : flightNext c s.core f f.pc a = some (y, pc)) : ∃ e, pc = .threw e := by
  obtain ⟨m, j, p⟩ := f
  cases p with
  | ran =>
      cases a with
      | hookFailed e =>
          cases h
          exact ⟨e, rfl⟩
      | tick => cases hrejects
      | _ => cases h
  | waiting req =>
      cases a with
      | approvalRejected e =>
          cases h
          exact ⟨e, rfl⟩
      | approval => cases hrejects
      | _ => cases h
  | calling =>
      cases a with
      | run o =>
          cases o with
          | rejected e =>
              cases h
              exact ⟨e, rfl⟩
          | resolved => cases hrejects
      | timeout => cases hrejects
      | _ => cases h
  | _ => cases hin

/-- **An answer of that kind dooms the run.** -/
theorem doomed_of_crash {key : String} {a : Answer} (hS : State.Sound c x.state)
    (hs : crashStep c x (.crash key a) = some x') : Doomed x' := by
  simp only [crashStep] at hs
  split at hs
  · rename_i f hf
    split_ifs at hs with hboth
    obtain ⟨hin, hrejects⟩ := Bool.and_eq_true_iff.mp hboth
    have hgo : Going f.pc := by
      intro e he
      rw [he] at hin
      cases hin
    obtain ⟨s, hbase, rfl⟩ := Option.map_eq_some_iff.mp hs
    obtain ⟨y, hy, rfl⟩ := Option.map_eq_some_iff.mp hbase
    obtain ⟨job, n, d, hmem, rfl⟩ := hS.held _ f hf hgo
    obtain ⟨i, hi⟩ := List.mem_iff_getElem?.mp hmem
    rcases hS.busy hmem (by simp) with hd | ⟨e, hd⟩
    · unfold flightStep at hy
      rw [hf] at hy
      dsimp only at hy
      split at hy
      · rename_i hr
        rw [hr] at hin
        cases hin
      · obtain ⟨⟨z, pc⟩, hnext, rfl⟩ := Option.map_eq_some_iff.mp hy
        obtain ⟨e, rfl⟩ := flightNext_rejects hin hrejects hnext
        refine .ahead hd hi List.mem_cons_self (f := { f with job := nextJob f, pc := .threw e }) ?_
          (.inl ⟨e, rfl⟩)
        show (Core.setFlight _ _ _).store.inFlight _ = _
        rw [Core.setFlight_inFlight, if_pos rfl]
    · exact .aborted hd
  · cases hs

theorem run_doomed {ls : List CrashLabel} (hnd : (c.graph.map (·.id)).Nodup)
    (hS : State.Sound c x.state) (h : Doomed x)
    (hr : Run (crashStep c) (fun _ _ => True) x ls x') : Doomed x' :=
  (Run.invariant (I := fun x => State.Sound c x.state ∧ Doomed x) ⟨hS, h⟩
    (fun _ _ _ hI _ hs => ⟨crashStep_sound hnd hI.1 hs, hI.2.step hnd hI.1 hs⟩) hr).2

end Doom

/-! ## 5. Both together -/

section Whole

variable {c : Context} {w : World} {ls : List CrashLabel} {x : CrashState}

/-- **Node failures are contained in every run without a `CrashInjectedError` no step of which
    misfires, and of the runs that have come to their end in no other**, where the bulkhead admits
    anybody. -/
theorem failures_contained (hv : validateGraph c.graph = .ok ()) (hk : NoCollision c)
    (hpos : c.limits.Positive)
    (h : Run (crashStep c) (fun _ _ => True) (.initial c w) ls x) :
    (Run (crashStep c) (fun x l => ¬ Breaks c x l) (.initial c w) ls x → Contained c w ls x) ∧
    (x.Ended → Contained c w ls x →
      Run (crashStep c) (fun x l => ¬ Breaks c x l) (.initial c w) ls x) := by
  have hnd := validateGraph_nodup hv
  have hdk := hk.distinctKeys hnd
  refine ⟨contained_of_unbroken hv hk hpos, fun hend hc => ?_⟩
  rcases h.and_or_bad (fun x l => ¬ Breaks c x l) with hall | ⟨ls₁, l, ls₂, x₁, x₂, rfl, hr, -, hbad, hs, hrest⟩
  · exact hall.mono fun _ _ => And.right
  · exfalso
    have hfirst : Run (crashStep c) (fun _ _ => True) (.initial c w) ls₁ x₁ :=
      hr.mono fun _ _ _ => trivial
    obtain ⟨ls', s₁, rfl, rfl, hbase⟩ := run_uncrashed (hr.mono fun _ _ => And.right)
    obtain ⟨hS, -, hu⟩ := run_unlost hnd hdk hbase
    cases not_not.mp hbad with
    | crashes =>
        have hdoom := run_doomed hnd (crashStep_sound hnd hS hs) (doomed_of_crash hS hs) hrest
        rcases hend with hd | ⟨e, hd⟩
        · exact hdoom.not_resolved hd
        · exact (hc.unbroken _ x List.prefix_rfl h).driving e hd
    | misfires hm =>
        have hs₂ := hs
        rw [crashStep_uncrashed] at hs₂
        obtain ⟨s₂, hstep, rfl⟩ := Option.map_eq_some_iff.mp hs₂
        exact hm.breaks hnd hS hu hstep (hc.unbroken (_ ++ [_]) _ ⟨ls₂, by simp⟩ (hfirst.next trivial hs))

end Whole

/-- The machine of a node has refused an event. -/
def refusedCheck (trace : List Obs) : Bool :=
  trace.any fun
    | .illegal .. => true
    | _ => false

/-- The lint fails, and the run comes to its end. -/
theorem failures_contained_pipeline : ∃ x, x.Ended ∧ x.state.core.status "lint" = .failed ∧
    Run (crashStep pipelineContext) (fun x l => ¬ Breaks pipelineContext x l)
      (.initial pipelineContext quietWorld) (pipelineRun.map .code) x ∧
    Contained pipelineContext quietWorld (pipelineRun.map .code) x := by
  obtain ⟨s, hs, hend⟩ := Option.map_eq_some_iff.mp (show (exec (step pipelineContext)
    (.initial pipelineContext quietWorld) pipelineRun).map
      (fun s => (s.drive, s.core.status "lint", refusedCheck s.core.trace)) =
        some (.resolved, .failed, false) by rfl)
  obtain ⟨hd, hrest⟩ := Prod.mk.inj hend
  obtain ⟨hst, hlegal⟩ := Prod.mk.inj hrest
  have hbase : Run (step pipelineContext) (fun s l => ¬ Misfires pipelineContext s l)
      (.initial pipelineContext quietWorld) pipelineRun s := by
    refine run_legal (by decide) (noCollision_pipeline.distinctKeys (by decide))
      (run_of_exec (fun _ _ => trivial) hs) fun ⟨id, st, e, hm⟩ => ?_
    have hany : refusedCheck s.core.trace = true := List.any_eq_true.mpr ⟨_, hm, rfl⟩
    rw [hlegal] at hany
    cases hany
  have hrun : Run (crashStep pipelineContext) (fun x l => ¬ Breaks pipelineContext x l)
      (.initial pipelineContext quietWorld) (pipelineRun.map .code) s.uncrashed := by
    refine Run.embed crashStep_uncrashed (hbase.mono fun s l hno hb => ?_)
    cases hb with
    | misfires hm => exact hno hm
  exact ⟨s.uncrashed, .inl hd, hst, hrun,
    (failures_contained (by rfl) noCollision_pipeline
      ⟨by decide, by decide, by decide, by decide⟩ (hrun.mono fun _ _ _ => trivial)).1 hrun⟩

/-- A node that asks for approval, under the default policy. -/
def askNode : WorkflowNode :=
  { id := "ask", kind := .approval, deps := [], retry := none
    approval := some ⟨"release", "sign-off"⟩ }

/-- A graph of this node. -/
def askContext : Context :=
  { limits := defaultBulkhead, compensations := .empty, sha256 := fun s => s
    runId := "run", taskId := "task", graph := [askNode] }

/-- The approval request is rejected. -/
def askRejected : List Label :=
  [.drive, .drive, .drive, .worker 0 .tick] ++
    [Answer.tick, .approvalRejected "down", .tick].map (.flight (keyOf askContext askNode)) ++
    [.worker 0 .tick, .drive]

/-- The catch feeds FAIL to a node that is WAITING; the error ends the worker, and the run with it. -/
theorem rejected_request_aborts : ∃ c w ls x, validateGraph c.graph = .ok () ∧ NoCollision c ∧
    c.limits.Positive ∧ Run (crashStep c) (fun _ _ => True) (.initial c w) ls x ∧
    .illegal "ask" .waiting .fail ∈ x.state.core.trace ∧ (∃ e, x.state.drive = .aborted e) ∧
    ¬ Contained c w ls x := by
  obtain ⟨x, hx, hend⟩ := Option.map_eq_some_iff.mp (show
    (exec (crashStep askContext) (.initial askContext quietWorld) (askRejected.map .code)).map
      (fun x => (x.state.drive, x.state.core.trace.getLast?)) =
        some (.aborted "Illegal state transition: event 'FAIL' is not allowed from state 'WAITING'",
          some (.illegal "ask" .waiting .fail)) by rfl)
  obtain ⟨hd, hlast⟩ := Prod.mk.inj hend
  have hrun : Run (crashStep askContext) (fun _ _ => True) (.initial askContext quietWorld) _ x :=
    run_of_exec (fun _ _ => trivial) hx
  exact ⟨askContext, quietWorld, _, x, by rfl, fun _ _ _ _ h => h,
    ⟨by decide, by decide, by decide, by decide⟩, hrun, List.mem_of_getLast? hlast, ⟨_, hd⟩,
    fun hc => (hc.unbroken _ x List.prefix_rfl hrun).driving _ hd⟩

end AgentKernel.Orchestrator
