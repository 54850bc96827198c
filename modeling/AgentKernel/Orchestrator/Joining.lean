/-
  File:      AgentKernel/Orchestrator/Joining.lean
  Subject:   Callers of the idempotency store (runtime/orchestrator/src/idempotency.ts): who is
             answered from a result, who joins an execution and who starts one.

  `run(key, fn)` calls `fn` before it puts the promise into `inFlight`, so what `fn` does before it
  returns its promise comes in between: a call of `run` there finds nothing under way
  (`entering`). A promise that rejects stays in `inFlight`, since only the `then` of a success
  deletes it.

  * `Served`: the answer a call should get, from what was stored and under way when it came;
  * `KeysApart`: along runs that meet the guard, an execution under way is entering or in flight,
    and no key has two;
  * **`joined_iff`**: a run keeps the protocol exactly if nobody calls `run` for a key without a
    result while its promise in flight has rejected, or out of the function of that key itself.
-/
import AgentKernel.Orchestrator.Idempotency
import AgentKernel.Lib.Runs

namespace AgentKernel.Orchestrator

open Lib

/-! ## 1. Executions and calls -/

/-- How a promise settles. -/
inductive Settlement where
  | resolved (result : NodeResult)
  | rejected (error : String)

/-- A started `fn`, with its outcome once it has settled. -/
structure Execution where
  key : String
  outcome : Option Settlement

/-- The executions, by their numbers. -/
abbrev Executions := Nat → Option Execution

/-- An execution of a key that has not settled. -/
def Underway (executions : Executions) (key : String) (e : Nat) : Prop :=
  executions e = some ⟨key, none⟩

/-- A call of `run`: what it found, the answer, whose promise it waits for and what it got. -/
structure RunCall where
  key : String
  stored : Option NodeResult
  found : Executions
  answer : RunAnswer Nat
  execution : Option Nat
  outcome : Option Settlement

/-- The store in use. `entering` are the functions that run now, before their promise is there,
    and `kept` the keys that have had a result. -/
structure StoreUse where
  store : IdempotencyStore Nat
  executions : Executions
  started : Nat
  entering : List (String × Nat)
  calls : List RunCall
  kept : List String

/-- What can happen to a store. -/
inductive StoreEvent where
  | run (key : String)
  /-- The function called last returns its promise. -/
  | returned
  /-- The function called last throws instead. -/
  | threw (error : String)
  | settle (e : Nat) (outcome : Settlement)
  | seedCompleted (key : String) (result : NodeResult)

namespace StoreUse

/-- Nothing has been asked of it. -/
def start : StoreUse := ⟨.empty, fun _ => none, 0, [], [], []⟩

/-- An outcome, for the execution and for all who wait for it. -/
def deliver (s : StoreUse) (key : String) (e : Nat) (outcome : Settlement) : StoreUse :=
  { s with
    executions := Function.update s.executions e (some ⟨key, some outcome⟩)
    calls := s.calls.map fun c =>
      if c.execution = some e then { c with outcome := some outcome } else c }

/-- The record of a call that finds `s`. -/
def record (s : StoreUse) (key : String) (execution : Option Nat) (outcome : Option Settlement) :
    RunCall :=
  { key := key, stored := s.store.completed key, found := s.executions, answer := s.store.run key
    execution := execution, outcome := outcome }

/-- A key is asked for: what is done is given again, what is under way is joined, the rest begins. -/
def run (s : StoreUse) (key : String) : StoreUse :=
  match s.store.run key with
  | .done r => { s with calls := s.calls ++ [s.record key none (some (.resolved r))] }
  | .joined e =>
      { s with calls := s.calls ++ [s.record key (some e) ((s.executions e).bind (·.outcome))] }
  | .fresh =>
      { s with
        executions := Function.update s.executions s.started (some ⟨key, none⟩)
        started := s.started + 1
        entering := (key, s.started) :: s.entering
        calls := s.calls ++ [s.record key (some s.started) none] }

/-- Promises settle when no function is running. -/
def step (s : StoreUse) : StoreEvent → Option StoreUse
  | .run key => some (s.run key)
  | .returned =>
      match s.entering with
      | [] => none
      | (key, e) :: rest => some { s with store := s.store.setInFlight key e, entering := rest }
  | .threw error =>
      match s.entering with
      | [] => none
      | (key, e) :: rest => some { s.deliver key e (.rejected error) with entering := rest }
  | .settle e outcome =>
      match s.executions e, s.entering with
      | some ⟨key, none⟩, [] =>
          match outcome with
          | .resolved r =>
              some { s.deliver key e outcome with
                store := s.store.settle key r
                kept := key :: s.kept }
          | .rejected _ => some (s.deliver key e outcome)
      | _, _ => none
  | .seedCompleted key r =>
      some { s with store := s.store.seedCompleted key r, kept := key :: s.kept }

end StoreUse

/-! ## 2. The protocol -/

/-- **The answer that is due**: the stored result, else the execution under way, else a start. -/
structure Served (c : RunCall) : Prop where
  done : ∀ r, c.stored = some r →
    c.answer = .done r ∧ c.execution = none ∧ c.outcome = some (.resolved r)
  joined : c.stored = none → ∀ e, Underway c.found c.key e → c.answer = .joined e
  fresh : c.stored = none → (∀ e, ¬ Underway c.found c.key e) → c.answer = .fresh

/-- What the store promises its callers. -/
structure Protocol (s : StoreUse) : Prop where
  single : ∀ key e e', Underway s.executions key e → Underway s.executions key e' → e = e'
  served : ∀ c ∈ s.calls, Served c
  shared : ∀ c ∈ s.calls, ∀ c' ∈ s.calls, ∀ e, c.execution = some e → c'.execution = some e →
    c.outcome = c'.outcome
  kept : ∀ key ∈ s.kept, s.store.completed key ≠ none

/-- No caller finds, for a key without a result, a settled promise in flight or a function of the
    key that has not returned. -/
def Clear (s : StoreUse) : StoreEvent → Prop
  | .run key => s.store.completed key = none →
      (∀ e, s.store.inFlight key = some e → Underway s.executions key e) ∧
      ∀ e, (key, e) ∉ s.entering
  | _ => True

/-! ## 3. What runs that meet the guard keep -/

/-- Of every key one execution is under way at most, and the store knows it. -/
structure KeysApart (s : StoreUse) : Prop where
  known : ∀ e x, s.executions e = some x → e < s.started
  placed : ∀ key e, Underway s.executions key e →
    (key, e) ∈ s.entering ∨ s.store.inFlight key = some e
  entering : ∀ key e, (key, e) ∈ s.entering →
    Underway s.executions key e ∧ s.store.inFlight key = none
  once : (s.entering.map Prod.fst).Nodup
  inFlight : ∀ key e, s.store.inFlight key = some e → s.executions e ≠ none
  served : ∀ c ∈ s.calls, Served c
  waiting : ∀ c ∈ s.calls, ∀ e, c.execution = some e →
    s.executions e ≠ none ∧ c.outcome = (s.executions e).bind (·.outcome)
  kept : ∀ key ∈ s.kept, s.store.completed key ≠ none

section Kept

variable {s s' : StoreUse} {key : String} {e e' : Nat}

/-- Of two executions of one key under way, both are the same. -/
theorem KeysApart.single (h : KeysApart s) (hu : Underway s.executions key e)
    (hu' : Underway s.executions key e') : e = e' := by
  rcases h.placed key e hu with hin | hfl <;> rcases h.placed key e' hu' with hin' | hfl'
  · have hpairs := List.inj_on_of_nodup_map h.once hin hin' rfl
    exact (Prod.mk.inj hpairs).2
  · rw [(h.entering key e hin).2] at hfl'
    cases hfl'
  · rw [(h.entering key e' hin').2] at hfl
    cases hfl
  · rw [hfl] at hfl'
    exact Option.some.inj hfl'

theorem KeysApart.protocol (h : KeysApart s) : Protocol s where
  single _ _ _ hu hu' := h.single hu hu'
  served := h.served
  shared c hc c' hc' e he he' := by
    rw [(h.waiting c hc e he).2, (h.waiting c' hc' e he').2]
  kept := h.kept

theorem keysApart_start : KeysApart StoreUse.start :=
  ⟨nofun, nofun, nofun, List.nodup_nil, nofun, nofun, nofun, nofun⟩

/-- Who finds a promise in flight joins the only execution under way. -/
theorem KeysApart.served_joined (h : KeysApart s) (hstored : s.store.completed key = none)
    (hin : s.store.inFlight key = some e) (hu : Underway s.executions key e)
    (execution : Option Nat) (outcome : Option Settlement) :
    Served (s.record key execution outcome) := by
  have hrun : s.store.run key = .joined e := by
    unfold IdempotencyStore.run
    rw [hstored, hin]
  refine ⟨fun r hr => ?_, fun _ e' hu' => ?_, fun _ hnone => absurd hu (hnone e)⟩
  · have hr' : s.store.completed key = some r := hr
    rw [hstored] at hr'
    cases hr'
  · obtain rfl := h.single hu hu'
    exact hrun

/-- Who finds neither a result nor a function of the key running starts one, rightly. -/
theorem KeysApart.none_underway (h : KeysApart s) (hfree : s.store.inFlight key = none)
    (hout : ∀ e, (key, e) ∉ s.entering) (e : Nat) : ¬ Underway s.executions key e := by
  intro hu
  rcases h.placed key e hu with hin | hfl
  · exact hout e hin
  · rw [hfree] at hfl
    cases hfl

/-- A call that only adds its record. -/
theorem KeysApart.add_call (h : KeysApart s) {c : RunCall} (hserved : Served c)
    (hwaits : ∀ e, c.execution = some e →
      s.executions e ≠ none ∧ c.outcome = (s.executions e).bind (·.outcome)) :
    KeysApart { s with calls := s.calls ++ [c] } where
  known := h.known
  placed := h.placed
  entering := h.entering
  once := h.once
  inFlight := h.inFlight
  served c' hc' := by
    rcases List.mem_append.mp hc' with hold | hnew
    · exact h.served c' hold
    · rw [List.mem_singleton.mp hnew]
      exact hserved
  waiting c' hc' := by
    rcases List.mem_append.mp hc' with hold | hnew
    · exact h.waiting c' hold
    · rw [List.mem_singleton.mp hnew]
      exact hwaits
  kept := h.kept

/-- An execution that starts: its number is new, and nothing of its key is under way. -/
theorem KeysApart.start (h : KeysApart s) (hfree : s.store.inFlight key = none)
    (hout : ∀ e, (key, e) ∉ s.entering) :
    KeysApart { s with
      executions := Function.update s.executions s.started (some ⟨key, none⟩)
      started := s.started + 1
      entering := (key, s.started) :: s.entering } := by
  have hnew : s.executions s.started = none := by
    cases hx : s.executions s.started with
    | none => rfl
    | some x => exact absurd (h.known _ _ hx) (Nat.lt_irrefl _)
  have hold : ∀ e, s.executions e ≠ none → e ≠ s.started := by
    rintro e hsome rfl
    exact hsome hnew
  have hkeep : ∀ e, s.executions e ≠ none →
      Function.update s.executions s.started (some ⟨key, none⟩) e = s.executions e :=
    fun e hsome => Function.update_of_ne (hold e hsome) _ _
  constructor
  · intro e x hx
    by_cases he : e = s.started
    · subst he
      exact Nat.lt_succ_self _
    · dsimp only at hx
      rw [Function.update_of_ne he] at hx
      exact Nat.lt_succ_of_lt (h.known e x hx)
  · intro key' e hu
    unfold Underway at hu
    by_cases he : e = s.started
    · subst he
      dsimp only at hu
      rw [Function.update_self] at hu
      cases hu
      exact .inl List.mem_cons_self
    · dsimp only at hu
      rw [Function.update_of_ne he] at hu
      exact (h.placed key' e hu).imp_left (List.mem_cons_of_mem _)
  · intro key' e hin
    rcases List.mem_cons.mp hin with heq | hin
    · cases heq
      exact ⟨Function.update_self _ _ _, hfree⟩
    · obtain ⟨hu, hfl⟩ := h.entering key' e hin
      refine ⟨?_, hfl⟩
      unfold Underway at hu ⊢
      dsimp only
      rw [hkeep e (by rw [hu]; exact Option.some_ne_none _)]
      exact hu
  · refine List.nodup_cons.mpr ⟨?_, h.once⟩
    intro hin
    obtain ⟨⟨key', e⟩, hpair, rfl⟩ := List.mem_map.mp hin
    exact hout e hpair
  · intro key' e hfl
    dsimp only at hfl ⊢
    rw [hkeep e (h.inFlight key' e hfl)]
    exact h.inFlight key' e hfl
  · exact h.served
  · intro c hc e he
    obtain ⟨hsome, houtcome⟩ := h.waiting c hc e he
    dsimp only
    rw [hkeep e hsome]
    exact ⟨hsome, houtcome⟩
  · exact h.kept

/-- **A call of `run` that meets the guard.** -/
theorem KeysApart.run (h : KeysApart s) (hclear : Clear s (.run key)) : KeysApart (s.run key) := by
  unfold StoreUse.run
  cases hstored : s.store.completed key with
  | some r =>
      have hrun : s.store.run key = .done r := IdempotencyStore.run_eq_done.mpr hstored
      rw [hrun]
      refine h.add_call ⟨fun r' hr' => ?_, fun hnone => ?_, fun hnone => ?_⟩ nofun
      · obtain rfl : r = r' := Option.some.inj (hstored.symm.trans hr')
        exact ⟨hrun, rfl, rfl⟩
      · cases hstored.symm.trans hnone
      · cases hstored.symm.trans hnone
  | none =>
      obtain ⟨hsound, hout⟩ := hclear hstored
      cases hin : s.store.inFlight key with
      | some e =>
          have hrun : s.store.run key = .joined e := by
            unfold IdempotencyStore.run
            rw [hstored, hin]
          rw [hrun]
          refine h.add_call (h.served_joined hstored hin (hsound e hin) _ _) ?_
          rintro e' ⟨⟩
          exact ⟨h.inFlight key e hin, rfl⟩
      | none =>
          have hrun : s.store.run key = .fresh := IdempotencyStore.run_eq_fresh.mpr ⟨hstored, hin⟩
          have hnone := h.none_underway hin hout
          rw [hrun]
          refine (h.start hin hout).add_call ⟨fun r hr => ?_, fun _ e hu => ?_, fun _ _ => hrun⟩ ?_
          · cases hstored.symm.trans hr
          · exact absurd hu (hnone e)
          · rintro e ⟨⟩
            dsimp only
            rw [Function.update_self]
            exact ⟨Option.some_ne_none _, rfl⟩

theorem KeysApart.returned (h : KeysApart s) {rest : List (String × Nat)}
    (hs : s.entering = (key, e) :: rest) :
    KeysApart { s with store := s.store.setInFlight key e, entering := rest } := by
  have hhead : (key, e) ∈ s.entering := by
    rw [hs]
    exact List.mem_cons_self
  obtain ⟨hu, hfree⟩ := h.entering key e hhead
  have honce := h.once
  rw [hs, List.map_cons, List.nodup_cons] at honce
  have hother : ∀ key' e', (key', e') ∈ rest → key' ≠ key := by
    rintro key' e' hin rfl
    exact honce.1 (List.mem_map.mpr ⟨_, hin, rfl⟩)
  constructor
  · exact h.known
  · intro key' e' hu'
    dsimp only [IdempotencyStore.setInFlight]
    rcases h.placed key' e' hu' with hin | hfl
    · rw [hs] at hin
      rcases List.mem_cons.mp hin with heq | hin
      · cases heq
        exact .inr (if_pos rfl)
      · exact .inl hin
    · refine .inr ?_
      rw [if_neg]
      · exact hfl
      · rintro rfl
        rw [hfree] at hfl
        cases hfl
  · intro key' e' hin
    obtain ⟨hu', hfl⟩ := h.entering key' e' (by rw [hs]; exact List.mem_cons_of_mem _ hin)
    refine ⟨hu', ?_⟩
    dsimp only [IdempotencyStore.setInFlight]
    rw [if_neg (hother key' e' hin)]
    exact hfl
  · exact honce.2
  · intro key' e' hfl
    dsimp only [IdempotencyStore.setInFlight] at hfl
    split_ifs at hfl with hk
    · cases hfl
      rw [hu]
      exact Option.some_ne_none _
    · exact h.inFlight key' e' hfl
  · exact h.served
  · exact h.waiting
  · exact h.kept

/-- An outcome that arrives, with what becomes of the places of the other executions. -/
theorem KeysApart.deliver (h : KeysApart s) (hu : Underway s.executions key e) (outcome : Settlement)
    (entering : List (String × Nat)) {store : IdempotencyStore Nat} {kept : List String}
    (hplaced : ∀ key' e', e' ≠ e → Underway s.executions key' e' →
      (key', e') ∈ entering ∨ store.inFlight key' = some e')
    (hentering : ∀ key' e', (key', e') ∈ entering →
      e' ≠ e ∧ (key', e') ∈ s.entering ∧ store.inFlight key' = none)
    (honce : (entering.map Prod.fst).Nodup)
    (hinFlight : ∀ key' e', store.inFlight key' = some e' → s.store.inFlight key' = some e')
    (hkept : ∀ key' ∈ kept, store.completed key' ≠ none) :
    KeysApart { s.deliver key e outcome with store := store, entering := entering, kept := kept } := by
  have hkeep : ∀ e', e' ≠ e → (s.deliver key e outcome).executions e' = s.executions e' :=
    fun e' he => Function.update_of_ne he _ _
  have hself : (s.deliver key e outcome).executions e = some ⟨key, some outcome⟩ :=
    Function.update_self _ _ _
  constructor
  · intro e' x hx
    dsimp only at hx
    by_cases he : e' = e
    · subst he
      exact h.known e' _ hu
    · rw [hkeep e' he] at hx
      exact h.known e' x hx
  · intro key' e' hu'
    unfold Underway at hu'
    dsimp only at hu'
    by_cases he : e' = e
    · subst he
      rw [hself] at hu'
      cases hu'
    · rw [hkeep e' he] at hu'
      exact hplaced key' e' he hu'
  · intro key' e' hin
    obtain ⟨he, hin', hfl⟩ := hentering key' e' hin
    refine ⟨?_, hfl⟩
    unfold Underway
    dsimp only
    rw [hkeep e' he]
    exact (h.entering key' e' hin').1
  · exact honce
  · intro key' e' hfl
    dsimp only
    by_cases he : e' = e
    · subst he
      rw [hself]
      exact Option.some_ne_none _
    · rw [hkeep e' he]
      exact h.inFlight key' e' (hinFlight key' e' hfl)
  · intro c hc
    obtain ⟨c₀, hc₀, rfl⟩ := List.mem_map.mp hc
    split_ifs with he
    · obtain ⟨hdone, hjoined, hfresh⟩ := h.served c₀ hc₀
      refine ⟨fun r hr => ?_, hjoined, hfresh⟩
      -- who is answered from a result waits for nobody
      rw [(hdone r hr).2.1] at he
      cases he
    · exact h.served c₀ hc₀
  · intro c hc e' he'
    obtain ⟨c₀, hc₀, rfl⟩ := List.mem_map.mp hc
    dsimp only
    split_ifs at he' ⊢ with he
    · obtain rfl : e = e' := Option.some.inj (he.symm.trans he')
      rw [hself]
      exact ⟨Option.some_ne_none _, rfl⟩
    · have hne : e' ≠ e := by
        rintro rfl
        exact he he'
      rw [hkeep e' hne]
      exact h.waiting c₀ hc₀ e' he'
  · exact hkept

theorem KeysApart.threw (h : KeysApart s) {rest : List (String × Nat)}
    (hs : s.entering = (key, e) :: rest) (error : String) :
    KeysApart { s.deliver key e (.rejected error) with entering := rest } := by
  have hhead : (key, e) ∈ s.entering := by
    rw [hs]
    exact List.mem_cons_self
  obtain ⟨hu, hfree⟩ := h.entering key e hhead
  have honce := h.once
  rw [hs, List.map_cons, List.nodup_cons] at honce
  refine h.deliver hu _ rest ?_ ?_ honce.2 (fun _ _ hfl => hfl) h.kept
  · intro key' e' hne hu'
    refine (h.placed key' e' hu').imp_left fun hin => ?_
    rw [hs] at hin
    rcases List.mem_cons.mp hin with heq | hin
    · exact absurd (Prod.mk.inj heq).2 hne
    · exact hin
  · intro key' e' hin
    have hin' : (key', e') ∈ s.entering := by
      rw [hs]
      exact List.mem_cons_of_mem _ hin
    obtain ⟨hu', hfl⟩ := h.entering key' e' hin'
    refine ⟨?_, hin', hfl⟩
    rintro rfl
    -- one execution has one key
    unfold Underway at hu hu'
    rw [hu] at hu'
    cases hu'
    exact honce.1 (List.mem_map.mpr ⟨_, hin, rfl⟩)

theorem KeysApart.resolved (h : KeysApart s) (hu : Underway s.executions key e) (hs : s.entering = [])
    (r : NodeResult) :
    KeysApart { s.deliver key e (.resolved r) with
      store := s.store.settle key r
      kept := key :: s.kept } := by
  refine h.deliver hu (.resolved r) s.entering ?_ ?_ h.once ?_ ?_
  · intro key' e' hne hu'
    refine (h.placed key' e' hu').imp_right fun hfl => ?_
    dsimp only [IdempotencyStore.settle]
    rw [if_neg]
    · exact hfl
    · rintro rfl
      exact hne (h.single hu' hu)
  · intro key' e' hin
    rw [hs] at hin
    cases hin
  · intro key' e' hfl
    dsimp only [IdempotencyStore.settle] at hfl
    split_ifs at hfl
    exact hfl
  · intro key' hin
    dsimp only [IdempotencyStore.settle]
    split_ifs with hk
    · exact Option.some_ne_none _
    · exact h.kept key' ((List.mem_cons.mp hin).resolve_left hk)

theorem KeysApart.rejected (h : KeysApart s) (hu : Underway s.executions key e) (hs : s.entering = [])
    (error : String) : KeysApart (s.deliver key e (.rejected error)) := by
  refine h.deliver hu (.rejected error) s.entering (fun key' e' _ => h.placed key' e') ?_
    h.once (fun _ _ hfl => hfl) h.kept
  intro key' e' hin
  rw [hs] at hin
  cases hin

theorem KeysApart.seedCompleted (h : KeysApart s) (key : String) (r : NodeResult) :
    KeysApart { s with store := s.store.seedCompleted key r, kept := key :: s.kept } where
  known := h.known
  placed := h.placed
  entering := h.entering
  once := h.once
  inFlight := h.inFlight
  served := h.served
  waiting := h.waiting
  kept key' hin := by
    dsimp only [IdempotencyStore.seedCompleted]
    split_ifs with hk
    · exact Option.some_ne_none _
    · exact h.kept key' ((List.mem_cons.mp hin).resolve_left hk)

/-- **The step lemma**, one case for each kind of event. -/
theorem KeysApart.step (h : KeysApart s) {event : StoreEvent} (hclear : Clear s event)
    (hs : s.step event = some s') : KeysApart s' := by
  cases event with
  | run key =>
      obtain rfl := Option.some.inj hs
      exact h.run hclear
  | returned =>
      unfold StoreUse.step at hs
      dsimp only at hs
      split at hs
      · cases hs
      · rename_i key e rest hentering
        obtain rfl := Option.some.inj hs
        exact h.returned hentering
  | threw error =>
      unfold StoreUse.step at hs
      dsimp only at hs
      split at hs
      · cases hs
      · rename_i key e rest hentering
        obtain rfl := Option.some.inj hs
        exact h.threw hentering error
  | settle e outcome =>
      unfold StoreUse.step at hs
      dsimp only at hs
      split at hs
      · rename_i key hu hentering
        cases outcome with
        | resolved r =>
            obtain rfl := Option.some.inj hs
            exact h.resolved hu hentering r
        | rejected error =>
            obtain rfl := Option.some.inj hs
            exact h.rejected hu hentering error
      · cases hs
  | seedCompleted key r =>
      obtain rfl := Option.some.inj hs
      exact h.seedCompleted key r

/-! ## 4. The first caller against the guard -/

/-- A rejected promise in flight is joined, though nothing of the key is under way. -/
theorem KeysApart.joins_settled (h : KeysApart s) (hstored : s.store.completed key = none)
    (hin : s.store.inFlight key = some e) (hsettled : ¬ Underway s.executions key e) :
    ¬ Protocol (s.run key) := by
  intro hprotocol
  have hrun : s.store.run key = .joined e := by
    unfold IdempotencyStore.run
    rw [hstored, hin]
  have hnone : ∀ e', ¬ Underway s.executions key e' := by
    intro e' hu
    rcases h.placed key e' hu with hent | hfl
    · rw [(h.entering key e' hent).2] at hin
      cases hin
    · rw [hin] at hfl
      cases hfl
      exact hsettled hu
  have hcall : s.record key (some e) ((s.executions e).bind (·.outcome)) ∈ (s.run key).calls := by
    unfold StoreUse.run
    rw [hrun]
    exact List.mem_append_right _ (List.mem_singleton_self _)
  have hfresh : s.store.run key = .fresh := (hprotocol.served _ hcall).fresh hstored hnone
  rw [hrun] at hfresh
  cases hfresh

/-- A call out of the function of the key itself starts a second one. -/
theorem KeysApart.starts_second (h : KeysApart s) (hstored : s.store.completed key = none)
    (hin : (key, e) ∈ s.entering) : ¬ Protocol (s.run key) := by
  intro hprotocol
  obtain ⟨hu, hfree⟩ := h.entering key e hin
  have hrun : s.store.run key = .fresh := IdempotencyStore.run_eq_fresh.mpr ⟨hstored, hfree⟩
  have hne : e ≠ s.started := (h.known e _ hu).ne
  have hold : Underway (s.run key).executions key e := by
    unfold StoreUse.run
    rw [hrun]
    exact (Function.update_of_ne hne _ _).trans hu
  have hnew : Underway (s.run key).executions key s.started := by
    unfold StoreUse.run
    rw [hrun]
    exact Function.update_self _ _ _
  exact hne (hprotocol.single key e s.started hold hnew)

/-! ## 5. Runs -/

theorem keysApart_of_run {events : List StoreEvent} (h : Run StoreUse.step Clear .start events s) :
    KeysApart s :=
  h.invariant keysApart_start fun _ _ _ hinv hclear hs => hinv.step hclear hs

/-- **The store keeps its protocol exactly in the runs that meet the guard.** -/
theorem joined_iff {events : List StoreEvent}
    (h : Run StoreUse.step (fun _ _ => True) .start events s) :
    Throughout StoreUse.step .start events Protocol ↔
      Run StoreUse.step Clear .start events s := by
  refine h.throughout_iff (fun _ _ hrun => (keysApart_of_run hrun).protocol) ?_
  rintro events s event s' hrun hunclear hs
  have hinv := keysApart_of_run hrun
  cases event with
  | run key =>
      obtain rfl := Option.some.inj hs
      obtain ⟨hstored, hbad⟩ := Classical.not_imp.mp hunclear
      by_cases hsound : ∀ e, s.store.inFlight key = some e → Underway s.executions key e
      · obtain ⟨e, hin⟩ := not_forall.mp (fun hout => hbad ⟨hsound, hout⟩)
        exact hinv.starts_second hstored (not_not.mp hin)
      · obtain ⟨e, he⟩ := not_forall.mp hsound
        obtain ⟨hin, hsettled⟩ := Classical.not_imp.mp he
        exact hinv.joins_settled hstored hin hsettled
  | returned => exact absurd trivial hunclear
  | threw error => exact absurd trivial hunclear
  | settle e outcome => exact absurd trivial hunclear
  | seedCompleted key r => exact absurd trivial hunclear

end Kept

/-- What is fetched. -/
def fetched : NodeResult := ⟨.success, .null, []⟩

/-- Two callers of one execution, and a third who finds its result. -/
theorem joined_fetched : ∃ s, Run StoreUse.step (fun _ _ => True) .start
      [.run "k", .returned, .run "k", .settle 0 (.resolved fetched), .run "k"] s ∧
    (Throughout StoreUse.step .start
        [.run "k", .returned, .run "k", .settle 0 (.resolved fetched), .run "k"] Protocol ↔
      Run StoreUse.step Clear .start
        [.run "k", .returned, .run "k", .settle 0 (.resolved fetched), .run "k"] s) := by
  have hall : ∀ (s : StoreUse) (l : StoreEvent), True := fun _ _ => trivial
  have hrun := run_of_exec hall (show exec StoreUse.step .start [.run "k", .returned, .run "k",
      .settle 0 (.resolved fetched), .run "k"] = some _ from rfl)
  exact ⟨_, hrun, joined_iff hrun⟩

/-- After a rejection the next caller gets the rejection, and its function is not called. -/
theorem rejection_joined : ∃ s, Run StoreUse.step (fun _ _ => True) .start
      [.run "k", .returned, .settle 0 (.rejected "crash injected"), .run "k"] s ∧
    ¬ Protocol s := by
  obtain ⟨s, hrun, hstored, hin, hsettled⟩ : ∃ s, Run StoreUse.step Clear .start
      [.run "k", .returned, .settle 0 (.rejected "crash injected")] s ∧
      s.store.completed "k" = none ∧ s.store.inFlight "k" = some 0 ∧
      s.executions 0 = some ⟨"k", some (.rejected "crash injected")⟩ := by
    have hclear : Clear StoreUse.start (.run "k") := fun _ => ⟨nofun, fun _ => List.not_mem_nil⟩
    have hreturned (s : StoreUse) : Clear s .returned := trivial
    have hsettle (s : StoreUse) : Clear s (.settle 0 (.rejected "crash injected")) := trivial
    have hrun : Run StoreUse.step Clear .start [.run "k"] (StoreUse.start.run "k") :=
      Run.start.next hclear rfl
    exact ⟨_, (hrun.next (hreturned _) rfl).next (hsettle _) rfl, rfl, rfl, rfl⟩
  have hagain : StoreUse.step s (.run "k") = some (s.run "k") := rfl
  have hall : Run StoreUse.step (fun _ _ => True) .start _ s := hrun.mono fun _ _ _ => trivial
  refine ⟨s.run "k", hall.next trivial hagain, ?_⟩
  refine (keysApart_of_run hrun).joins_settled hstored hin ?_
  unfold Underway
  rw [hsettled]
  exact nofun

end AgentKernel.Orchestrator
