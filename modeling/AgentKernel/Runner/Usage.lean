/-
  File:      AgentKernel/Runner/Usage.lean
  Subject:   The usage that is rebuilt from the ledger, and the usage that is metered.

  Runs and plans are recorded in pairs, one event and one reading of the meter. A tool call is
  metered whatever `execute` returns, and is an event only where the executor has returned. An event
  that is not of the runner is read all the same, and so is a reading of the meter by others.

  * `Trail.balanced`: what is seen of a run, in events and in readings;
  * `Tally`: what sets the two apart;
  * **`usage_rebuilt_iff`**: of runs that have all resolved, the rebuilt usage is the metered one
    just where these cancel out.
-/
import AgentKernel.Runner.Outside
import AgentKernel.Storage.Projections

namespace AgentKernel.Runner

open Lib Events Immune Storage

variable {sha256 : String → String}

/-! ## 1. Events and readings -/

namespace Mark

/-- A run has been created. -/
def creates : Mark → Bool
  | .created => true
  | _ => false

/-- A plan has been recorded. -/
def plans : Mark → Bool
  | .planned => true
  | _ => false

/-- An execution has been completed. -/
def completes : Mark → Bool
  | .completed _ => true
  | _ => false

/-- `execute` has refused the action, by its policy or because the executor cannot. -/
def refuses : Mark → Bool
  | .rejected _ | .denied _ => true
  | _ => false

end Mark

/-- Events and readings agree, with `n` calls still to be metered. -/
structure Balanced (seen : List Obs) (n : Nat) : Prop where
  runs : (seen.filterMap Obs.mark).countP Mark.creates = seen.countP (Obs.meters .runs)
  plans : (seen.filterMap Obs.mark).countP Mark.plans = seen.countP (Obs.meters .modelCalls)
  calls : (seen.filterMap Obs.mark).countP Mark.completes +
    (seen.filterMap Obs.mark).countP Mark.refuses = seen.countP (Obs.meters .toolCalls) + n

section Balanced

variable {K : Sharing} {action : String} {v : Value} {seen obs : List Obs} {point : ExecutePoint}
  {result : Result} {m n : Nat}

theorem Balanced.append (h : Balanced seen m) (h' : Balanced obs n) :
    Balanced (seen ++ obs) (m + n) where
  runs := by simp only [List.filterMap_append, List.countP_append, h.runs, h'.runs]
  plans := by simp only [List.filterMap_append, List.countP_append, h.plans, h'.plans]
  calls := by
    have hcalls := h.calls
    have hcalls' := h'.calls
    simp only [List.filterMap_append, List.countP_append]
    omega

theorem Balanced.then (h : Balanced seen m) (h' : Balanced obs 0) : Balanced (seen ++ obs) m :=
  h.append h'

/-- What the second part has done to the balance. -/
theorem Balanced.diff (h : Balanced seen m) (hall : Balanced (seen ++ obs) n) :
    (obs.filterMap Obs.mark).countP Mark.creates = obs.countP (Obs.meters .runs) ∧
    (obs.filterMap Obs.mark).countP Mark.plans = obs.countP (Obs.meters .modelCalls) ∧
    (obs.filterMap Obs.mark).countP Mark.completes + (obs.filterMap Obs.mark).countP Mark.refuses +
      m = obs.countP (Obs.meters .toolCalls) + n := by
  obtain ⟨hruns, hplans, hcalls⟩ := h
  obtain ⟨hruns', hplans', hcalls'⟩ := hall
  simp only [List.filterMap_append, List.countP_append] at hruns' hplans' hcalls'
  exact ⟨by omega, by omega, by omega⟩

/-- The call is metered. -/
theorem Balanced.recorded (h : Balanced seen 1) : Balanced (seen ++ [.metered .toolCalls]) 0 where
  runs := by
    rw [List.filterMap_append, List.countP_append, List.countP_append, h.runs]
    rfl
  plans := by
    rw [List.filterMap_append, List.countP_append, List.countP_append, h.plans]
    rfl
  calls := by
    rw [List.filterMap_append, List.countP_append, List.countP_append, List.countP_append]
    exact h.calls

/-- 1 where `execute` has had its last event, and the call is not metered. -/
def ExecutePoint.pending : ExecutePoint → Nat
  | .denied _ | .refused | .completed _ | .returned _ => 1
  | .requested _ | .asked _ | .executing => 0

/-- The calls of the run that are still to be metered. -/
def Running.pending (r : Running) : Nat :=
  match r.awaiting with
  | .execute point _ _ => point.pending
  | _ => 0

theorem Cleared.balanced (h : Cleared action seen) : Balanced seen 0 := by
  cases h with
  | atOnce | approved => exact ⟨rfl, rfl, rfl⟩

theorem Gated.balanced (h : Gated action v seen) : Balanced seen 0 := by
  obtain ⟨hcleared, -, -⟩ := h
  exact hcleared.balanced.then ⟨rfl, rfl, rfl⟩

theorem Requested.balanced (h : Requested action v seen) : Balanced seen 0 := by
  obtain @⟨seen, decision, hgated, hallowed⟩ := h
  have hmark : [Obs.decidedAgain action decision].filterMap Obs.mark = [.requested action] := by
    simp [Obs.mark, hallowed]
  refine hgated.balanced.then ⟨?_, ?_, ?_⟩
  all_goals
    rw [hmark]
    rfl

theorem At.balanced (h : At K action point seen) : Balanced seen point.pending := by
  induction h with
  | @denied seen v decision hgated hdenied =>
      have hmark : [Obs.decidedAgain action decision].filterMap Obs.mark = [.denied action] := by
        simp [Obs.mark, hdenied]
      refine hgated.balanced.append (n := 1) ⟨?_, ?_, ?_⟩
      all_goals
        rw [hmark]
        rfl
  | requested hrequested => exact hrequested.balanced
  | asked hrequested | executing hrequested =>
      exact hrequested.balanced.then ⟨rfl, rfl, rfl⟩
  | refused hrequested | completed hrequested =>
      exact hrequested.balanced.append (n := 1) ⟨rfl, rfl, rfl⟩
  | deniedBack _ _ ih | refusedBack _ _ ih | back _ ih => exact ih

theorem Handled.balanced (h : Handled K action result seen) : Balanced seen 0 := by
  cases h with
  | guard | policy | approval => exact ⟨rfl, rfl, rfl⟩
  | quota hcleared | immune hcleared => exact hcleared.balanced.then ⟨rfl, rfl, rfl⟩
  | executed hat => exact hat.balanced.recorded

theorem Handles.balanced {steps : List RunStep} {results : List Result}
    (h : Handles K steps results seen) : Balanced (opening ++ seen) 0 := by
  induction h with
  | nil => exact ⟨rfl, rfl, rfl⟩
  | snoc _ hstep ih =>
      rw [← List.append_assoc]
      exact ih.then hstep.balanced

theorem Broken.balanced (h : Broken action seen) : Balanced seen 0 := by
  cases h with
  | approval => exact ⟨rfl, rfl, rfl⟩
  | immune hcleared | input hcleared => exact hcleared.balanced.then ⟨rfl, rfl, rfl⟩
  | unresolved hrequested | canExecute hrequested | executor hrequested =>
      exact hrequested.balanced.then ⟨rfl, rfl, rfl⟩

theorem Left.balanced {r : Running} {pushed : List Result} (h : Left K r pushed seen) : Balanced seen 0 := by
  obtain ⟨-, hdone, -⟩ := h
  exact hdone.balanced

/-- **Events and readings of a run**: only a call that `execute` is through with is not metered. -/
theorem Trail.balanced {r : Running} (h : Trail K r seen) : Balanced seen r.pending := by
  unfold Running.pending
  cases h with
  | planning hr =>
      rw [hr]
      exact ⟨rfl, rfl, rfl⟩
  | asking hr _ hdone =>
      rw [hr]
      exact hdone.balanced.then ⟨rfl, rfl, rfl⟩
  | @executing _ _ _ point _ _ _ hr _ hdone _ hat =>
      rw [hr]
      have hall := hdone.balanced.append hat.balanced
      rwa [Nat.zero_add] at hall
  | verifying hr _ hleft =>
      rw [hr]
      exact hleft.balanced
  | @concluded _ _ verification hr hleft =>
      have hverdict : Balanced [.concluded verification.verdict] 0 := ⟨rfl, rfl, rfl⟩
      have hall := hleft.balanced.then hverdict
      unfold Running.Concluded at hr
      cases hawaits : r.awaiting with
      | billing | flush | settled => exact hall
      | plan | approval | execute | verify =>
          rw [hawaits] at hr
          exact hr.elim
  | broken hr _ hdone _ hbroken =>
      rw [hr]
      exact hdone.balanced.then hbroken.balanced
  | unverified hr hleft =>
      rw [hr]
      exact hleft.balanced.then ⟨rfl, rfl, rfl⟩

end Balanced

/-! ## 2. The ledger and the meter -/

/-- How many marks of the ledger are of a kind. -/
def markCount (f : Mark → Bool) (events : List LedgerEvent) : Nat :=
  (marksOf events).countP fun p => f p.2

theorem LocalRunner.Shows.markCount {s s' : LocalRunner sha256} {runId : String} {obs : List Obs}
    (h : Shows s s' runId obs) (f : Mark → Bool) : markCount f s'.ledger.events =
      markCount f s.ledger.events + (obs.filterMap Obs.mark).countP f := by
  unfold Runner.markCount
  rw [h.marks, List.countP_append, List.countP_map]
  rfl

/-- What the ledger counts of a type is what its marks count. -/
theorem typed_eq_markCount {type : String} {f : Mark → Bool}
    (hf : ∀ t payload, (markOf t payload).any f = decide (t = type)) :
    ∀ events : List LedgerEvent, typed type events = markCount f events
  | [] => rfl
  | e :: events => by
      have ih := typed_eq_markCount hf events
      have he := hf e.type e.payload
      unfold markCount marksOf at ih ⊢
      rw [typed_cons, ih, List.filterMap_cons]
      cases hmark : markOf e.type e.payload with
      | none =>
          rw [hmark] at he
          have hne : e.type ≠ type := of_decide_eq_false he.symm
          simp [hne]
      | some mark =>
          rw [hmark] at he
          simp only [Option.any_some] at he
          simp [List.countP_cons, he]

theorem markOf_creates (t : String) (payload : Value) :
    (markOf t payload).any Mark.creates = decide (t = "RunCreated") := by
  unfold markOf
  split_ifs <;> simp_all [Mark.creates]

theorem markOf_plans (t : String) (payload : Value) :
    (markOf t payload).any Mark.plans = decide (t = "PlanGenerated") := by
  unfold markOf
  split_ifs <;> simp_all [Mark.plans]

theorem markOf_completes (t : String) (payload : Value) :
    (markOf t payload).any Mark.completes = decide (t = "execution.completed") := by
  unfold markOf
  split_ifs <;> simp_all [Mark.completes]

/-- `execute` refuses the action. -/
def Obs.refuses : Obs → Bool
  | .canExecute _ (.ok false) => true
  | .decidedAgain _ decision => !decision.allowed
  | _ => false

theorem Obs.refuses_eq (o : Obs) : (o.mark.map Mark.refuses).getD false = o.refuses := by
  cases o with
  | decidedAgain action decision =>
      cases h : decision.allowed <;> simp [mark, refuses, h, Mark.refuses]
  | canExecute action answer =>
      cases answer with
      | error message => rfl
      | ok yes => cases yes <;> rfl
  | returned action answer => cases answer <;> rfl
  | created | metered | planned | guarded | decided | approved | quota | immune | input | resolved
  | invoked | verifyThrew | concluded => rfl

theorem countP_refuses (obs : List Obs) :
    (obs.filterMap Obs.mark).countP Mark.refuses = obs.countP Obs.refuses := by
  rw [List.countP_filterMap]
  exact List.countP_congr fun o _ => by rw [Obs.refuses_eq]

/-! ## 3. What sets them apart -/

/-- A call that `execute` refuses, an event or a reading that is not of the runner. -/
inductive Tally where
  | refusal
  | event (type : String)
  | reading (event : UsageEvent)

namespace Tally

/-- A step was refused after its quota had been asked. -/
def isRefusal : Tally → Bool
  | .refusal => true
  | _ => false

/-- An event of this type. -/
def isEvent (type : String) : Tally → Bool
  | .event t => t = type
  | _ => false

/-- How much of this resource a reading is. -/
def amount (x : UsageResource) : Tally → Nat
  | .reading e => if e.resource = x then e.amount else 0
  | _ => 0

/-- The refusals among them. -/
def refusals (ts : List Tally) : Nat := ts.countP isRefusal

/-- The events of this type among them. -/
def events (type : String) (ts : List Tally) : Nat := ts.countP (isEvent type)

/-- The readings of this resource, together. -/
def readings (x : UsageResource) (ts : List Tally) : Nat := (ts.map (amount x)).sum

variable {ts ts' : List Tally} {type : String} {x : UsageResource}

@[simp] theorem refusals_append : refusals (ts ++ ts') = refusals ts + refusals ts' :=
  List.countP_append

@[simp] theorem events_append : events type (ts ++ ts') = events type ts + events type ts' :=
  List.countP_append

@[simp] theorem readings_append :
    readings x (ts ++ ts') = readings x ts + readings x ts' := by
  rw [readings, List.map_append, List.sum_append]
  rfl

theorem readings_event (t : String) : readings x [.event t] = 0 := rfl

theorem events_other {t : String} (h : t ≠ type) : events type [.event t] = 0 := by
  simp [events, isEvent, h]

theorem refusals_event (t : String) : refusals [.event t] = 0 := rfl

theorem events_reading (e : UsageEvent) : events type [.reading e] = 0 := rfl

theorem refusals_reading (e : UsageEvent) : refusals [.reading e] = 0 := rfl

/-- The events of the ledger that a runner is given. -/
def ofLedger (ledger : Ledger sha256) : List Tally := ledger.events.map fun e => .event e.type

theorem ofLedger_events (ledger : Ledger sha256) :
    events type (ofLedger ledger) = typed type ledger.events := List.countP_map

theorem ofLedger_refusals (ledger : Ledger sha256) : refusals (ofLedger ledger) = 0 := by
  rw [refusals, ofLedger, List.countP_map]
  exact List.countP_eq_zero.mpr fun _ _ => Bool.false_ne_true

theorem ofLedger_readings (ledger : Ledger sha256) : readings x (ofLedger ledger) = 0 := by
  rw [readings, ofLedger, List.map_map]
  exact List.sum_eq_zero fun n hn => by
    obtain ⟨e, -, rfl⟩ := List.mem_map.mp hn
    rfl

/-- The refusals among some observations. -/
def ofObs (obs : List Obs) : List Tally := (obs.filter Obs.refuses).map fun _ => .refusal

theorem ofObs_refusals (obs : List Obs) : refusals (ofObs obs) = obs.countP Obs.refuses := by
  rw [refusals, ofObs, List.countP_map, List.countP_eq_length_filter (p := Obs.refuses)]
  exact List.countP_eq_length.mpr fun _ _ => rfl

theorem ofObs_events (obs : List Obs) : events type (ofObs obs) = 0 := by
  rw [events, ofObs, List.countP_map]
  exact List.countP_eq_zero.mpr fun _ _ => Bool.false_ne_true

theorem ofObs_readings (obs : List Obs) : readings x (ofObs obs) = 0 := by
  rw [readings, ofObs, List.map_map]
  exact List.sum_eq_zero fun n hn => by
    obtain ⟨o, -, rfl⟩ := List.mem_map.mp hn
    rfl

end Tally

namespace System

/-- The run that a move is of. -/
def runOf (s : System sha256) : Move → Nat
  | .resume j _ => j
  | _ => s.runs.length

/-- What a deed adds. -/
def tally (s : System sha256) : Deed sha256 → List Tally
  | .move m => Tally.ofObs (s.observe (s.runOf m) m)
  | .append draft _ => [.event draft.type]
  | .record event => [.reading event]
  | .touch _ _ _ | .immune _ | .policy _ => []

/-- Events and readings of all the runs, and of others. -/
structure Accounts (s : System sha256) (ts : List Tally) : Prop where
  runs : typed "RunCreated" s.runner.ledger.events + Tally.readings .runs ts =
    s.runner.meter.total .runs + Tally.events "RunCreated" ts
  plans : typed "PlanGenerated" s.runner.ledger.events + Tally.readings .modelCalls ts =
    s.runner.meter.total .modelCalls + Tally.events "PlanGenerated" ts
  calls : typed "execution.completed" s.runner.ledger.events + Tally.refusals ts +
      Tally.readings .toolCalls ts =
    s.runner.meter.total .toolCalls + (s.runs.map Running.pending).sum +
      Tally.events "execution.completed" ts

section Accounts

variable {K : Sharing} {s s' : System sha256} {m : Move} {seen : Nat → List Obs} {ts : List Tally}

theorem createOn_accounts {opts : RunnerOptions} {clock : Clock} {ledger : Ledger sha256} :
    (createOn opts clock ledger).Accounts (Tally.ofLedger ledger) where
  runs := by
    rw [Tally.ofLedger_readings, Tally.ofLedger_events]
    exact Nat.add_comm _ _
  plans := by
    rw [Tally.ofLedger_readings, Tally.ofLedger_events]
    exact Nat.add_comm _ _
  calls := by
    rw [Tally.ofLedger_readings, Tally.ofLedger_refusals, Tally.ofLedger_events]
    exact Nat.add_comm _ _

/-- What a stretch adds whose events and readings are known. -/
theorem Accounts.grow {runId : String} {obs : List Obs} (hs : s.Accounts ts)
    (hshows : s.runner.Shows s'.runner runId obs)
    (hruns : (obs.filterMap Obs.mark).countP Mark.creates = obs.countP (Obs.meters .runs))
    (hplans : (obs.filterMap Obs.mark).countP Mark.plans = obs.countP (Obs.meters .modelCalls))
    (hcalls : (obs.filterMap Obs.mark).countP Mark.completes +
        (obs.filterMap Obs.mark).countP Mark.refuses + (s.runs.map Running.pending).sum =
      obs.countP (Obs.meters .toolCalls) + (s'.runs.map Running.pending).sum) :
    s'.Accounts (ts ++ Tally.ofObs obs) := by
  obtain ⟨hsruns, hsplans, hscalls⟩ := hs
  rw [typed_eq_markCount markOf_creates] at hsruns
  rw [typed_eq_markCount markOf_plans] at hsplans
  rw [typed_eq_markCount markOf_completes] at hscalls
  refine ⟨?_, ?_, ?_⟩
  · rw [typed_eq_markCount markOf_creates, hshows.markCount, hshows.meter, hruns,
      Tally.readings_append, Tally.events_append, Tally.ofObs_readings, Tally.ofObs_events]
    omega
  · rw [typed_eq_markCount markOf_plans, hshows.markCount, hshows.meter, hplans,
      Tally.readings_append, Tally.events_append, Tally.ofObs_readings, Tally.ofObs_events]
    omega
  · rw [countP_refuses] at hcalls
    rw [typed_eq_markCount markOf_completes, hshows.markCount, hshows.meter,
      Tally.refusals_append, Tally.readings_append, Tally.events_append, Tally.ofObs_refusals,
      Tally.ofObs_readings, Tally.ofObs_events]
    omega

/-- **What a move does to the balance.** -/
theorem Moves.accounts (h : Moves K s s' m seen) (hs : s.Accounts ts) :
    s'.Accounts (ts ++ Tally.ofObs (s.observe (s.runOf m) m)) := by
  cases h with
  | aside hsame hshows hobs =>
      rw [hobs]
      refine hs.grow (hshows "") rfl rfl ?_
      rw [hsame]
      rfl
  | @starts r' intent taskId opts hm hadd hshows htrail =>
      have hrun : s.runOf m = s.runs.length := by
        rw [hm]
        rfl
      have hpending : (s'.runs.map Running.pending).sum =
          (s.runs.map Running.pending).sum + r'.pending := by
        rw [hadd, List.map_append, List.sum_append]
        rfl
      have hcalls := htrail.balanced.calls
      rw [hrun]
      refine hs.grow hshows htrail.balanced.runs htrail.balanced.plans ?_
      omega
  | @resumes j wake r r' hm hr hset _ hold hshows htrail =>
      have hrun : s.runOf m = j := by
        rw [hm]
        rfl
      obtain ⟨hruns, hplans, hcalls⟩ := hold.balanced.diff htrail.balanced
      have hpending := sum_map_set Running.pending r' hr
      rw [← hset] at hpending
      rw [hrun]
      refine hs.grow hshows hruns hplans ?_
      omega

/-- An event that is appended, of the runner or not. -/
theorem typed_append (ledger : Ledger sha256) (draft : LedgerEventDraft) (stamp : Stamp)
    (type : String) : typed type (ledger.append draft stamp).events =
      typed type ledger.events + Tally.events type [.event draft.type] := by
  change typed type (ledger.events ++ [_]) = _
  simp [typed, Tally.events, Tally.isEvent, Ledger.event, List.countP_cons]

theorem record_total (meter : UsageMeter) (event : UsageEvent) (x : UsageResource) :
    (meter.record event).total x = meter.total x + Tally.readings x [.reading event] := by
  change Function.update meter.total event.resource _ x = _
  by_cases hx : event.resource = x
  · subst hx
    simp [Tally.readings, Tally.amount]
  · simp [Tally.readings, Tally.amount, hx, Ne.symm hx]

/-- Changed results change nothing that is still to be metered. -/
theorem touched_pending {r : Running} {results : List Result} {inHand : Result} :
    (r.touched results inHand).pending = r.pending := by
  unfold Running.pending Running.touched
  cases r.awaiting with
  | execute point => cases point <;> rfl
  | plan | approval | verify | billing | flush | settled => rfl

/-- **What a deed does to the balance.** -/
theorem deed_accounts {d : Deed sha256} (hseen : ∀ i, s.Follows K i (seen i)) (hs : s.Accounts ts)
    (h : s.deed d = some s') : s'.Accounts (ts ++ s.tally d) := by
  cases d with
  | move m => exact (step_moves hseen h).accounts hs
  | touch j results inHand =>
      obtain ⟨r, hr, hout⟩ := Option.bind_eq_some_iff.mp h
      split_ifs at hout
      cases hout
      have hpending := sum_map_set Running.pending (r.touched results inHand) hr
      rw [touched_pending] at hpending
      obtain ⟨hruns, hplans, hcalls⟩ := hs
      rw [tally, List.append_nil]
      refine ⟨hruns, hplans, ?_⟩
      dsimp only
      omega
  | immune | policy =>
      cases h
      rw [tally, List.append_nil]
      exact ⟨hs.runs, hs.plans, hs.calls⟩
  | append draft stamp =>
      cases h
      obtain ⟨hruns, hplans, hcalls⟩ := hs
      refine ⟨?_, ?_, ?_⟩
      all_goals
        dsimp only [tally]
        simp only [typed_append, Tally.events_append, Tally.readings_append, Tally.refusals_append,
          Tally.readings_event, Tally.refusals_event]
        omega
  | record event =>
      cases h
      obtain ⟨hruns, hplans, hcalls⟩ := hs
      refine ⟨?_, ?_, ?_⟩
      all_goals
        dsimp only [tally, LocalRunner.meters, LocalRunner.append]
        simp (disch := decide) only [typed_append, record_total, Tally.events_other,
          Tally.events_append, Tally.readings_append, Tally.refusals_append, Tally.events_reading,
          Tally.refusals_reading]
        omega

end Accounts

/-! ## 4. Histories -/

/-- The usage that is rebuilt from the ledger is the metered one. -/
def Rebuilt (s : System sha256) : Prop :=
  (projectSystem s.runner.ledger.events).usage =
    { runs := s.runner.meter.total .runs, modelCalls := s.runner.meter.total .modelCalls
      toolCalls := s.runner.meter.total .toolCalls }

/-- What sets events and readings apart along the deeds. -/
def tallies (opts : RunnerOptions) (clock : Clock) (ledger : Ledger sha256)
    (ds : List (Deed sha256)) : List Tally :=
  Tally.ofLedger ledger ++ collect System.deed tally (createOn opts clock ledger) ds

/-- The events of others stand for runs and plans that others have metered, and for calls that others
    have metered or `execute` has refused. -/
structure Evened (ts : List Tally) : Prop where
  runs : Tally.events "RunCreated" ts = Tally.readings .runs ts
  plans : Tally.events "PlanGenerated" ts = Tally.readings .modelCalls ts
  calls : Tally.events "execution.completed" ts = Tally.refusals ts + Tally.readings .toolCalls ts

section History

variable {opts : RunnerOptions} {clock : Clock} {ledger : Ledger sha256}
  {ds : List (Deed sha256)} {s : System sha256}

theorem accounts_of_deeds
    (h : Run System.deed (fun _ _ => True) (createOn opts clock ledger) ds s) :
    s.Accounts (tallies opts clock ledger ds) := by
  induction h with
  | start =>
      rw [tallies, collect, List.append_nil]
      exact createOn_accounts
  | next hr _ hs ih =>
      have hseen := follows_of_deeds (K := .free) (fun _ _ _ => within_free _) hr
      have hnext := deed_accounts hseen ih hs
      rw [tallies, List.append_assoc] at hnext
      rwa [tallies, hr.collect_snoc hs]

/-- **Of runs that have all resolved, the rebuilt usage is the metered one just in the histories in
    which what is not of the runner and what `execute` has refused cancel out.** -/
theorem usage_rebuilt_iff
    (h : Run System.deed (fun _ _ => True) (createOn opts clock ledger) ds s)
    (hresolved : ∀ r ∈ s.runs, ∃ outcome, r.awaiting = .settled (.ok outcome)) :
    s.Rebuilt ↔ Evened (tallies opts clock ledger ds) := by
  have hpending : (s.runs.map Running.pending).sum = 0 := by
    rw [List.sum_eq_zero_iff]
    intro n hn
    obtain ⟨r, hr, rfl⟩ := List.mem_map.mp hn
    obtain ⟨outcome, hsettled⟩ := hresolved r hr
    rw [Running.pending, hsettled]
  obtain ⟨hruns, hplans, hcalls⟩ := accounts_of_deeds h
  rw [Rebuilt, projectSystem_eq, UsageProjection.mk.injEq]
  constructor
  · rintro ⟨hr, hp, hc⟩
    exact ⟨by omega, by omega, by omega⟩
  · rintro ⟨hr, hp, hc⟩
    exact ⟨by omega, by omega, by omega⟩

/-- The executor runs another one, meters it, and the ledger is told of both. -/
def nestedCall : List (Deed id) :=
  [.move (.registerExecutor "repo.read"), .move (readOnce "t1" "r1"), .move (.resume 0 .done),
    .move (.resume 0 (.answer true)),
    .append { actor := { type := .agent, id := "coder" }, type := "execution.completed"
              taskId := "t1", runId := "r1", payload := .obj [] } { id := "e", timestamp := "t" },
    .record { resource := .toolCalls, amount := 1, time := 0, actorId := "coder", runId := "r1" },
    .move (.resume 0 (.result haveRead)), .move (.resume 0 .done), .move (.resume 0 .done),
    .move (.resume 0 .done), .move (.resume 0 .done)]

theorem usage_rebuilt_iff_nestedCall :
    (afterDeeds oneCall nestedCall).runner.meter.total .toolCalls = 2 ∧
    (afterDeeds oneCall nestedCall).Rebuilt := by
  have hrun : Run System.deed (fun _ _ => True) (createOn oneCall someClock (.empty id)) nestedCall
      (afterDeeds oneCall nestedCall) := run_of_exec (fun _ _ => trivial) rfl
  refine ⟨rfl, (usage_rebuilt_iff hrun fun r hr => ?_).mpr ⟨rfl, rfl, rfl⟩⟩
  obtain rfl := List.mem_singleton.mp hr
  exact ⟨_, rfl⟩

/-- The executor says that it cannot. -/
def refusedOnce : List Move :=
  [.registerExecutor "repo.read", readOnce "t1" "r1", .resume 0 .done, .resume 0 (.answer false),
    .resume 0 .done, .resume 0 .done, .resume 0 .done, .resume 0 .done]

/-- **A refused call is metered, and lost when the usage is rebuilt.** -/
theorem refused_call_is_lost :
    Run System.step (fun _ _ => True) (.create oneCall someClock) refusedOnce
      (afterMoves oneCall refusedOnce) ∧
    (∀ r ∈ (afterMoves oneCall refusedOnce).runs, ∃ outcome, r.awaiting = .settled (.ok outcome)) ∧
    (afterMoves oneCall refusedOnce).runner.meter.total .toolCalls = 1 ∧
    (projectSystem (afterMoves oneCall refusedOnce).runner.ledger.events).usage.toolCalls = 0 ∧
    ¬ (afterMoves oneCall refusedOnce).Rebuilt := by
  refine ⟨run_of_exec (fun _ _ => trivial) rfl, fun r hr => ?_, rfl, by decide, fun hrebuilt => ?_⟩
  · obtain rfl := List.mem_singleton.mp hr
    exact ⟨_, rfl⟩
  · have hcalls := congrArg UsageProjection.toolCalls hrebuilt
    revert hcalls
    decide

end History

end System

end AgentKernel.Runner
