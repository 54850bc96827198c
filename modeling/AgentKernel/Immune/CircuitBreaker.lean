/-
  File:      AgentKernel/Immune/CircuitBreaker.lean
  Subject:   The circuit breaker of an external resource (kernel/immune/src/circuit-breaker.ts).

  A breaker opens when failures reach the threshold, lets a trial through once the cooldown is over,
  and closes when a trial succeeds. Outcomes of calls admitted earlier may come in any state. A time
  comes with each call that reads the clock; the numbers of the configuration are any but `NaN` and
  `-Infinity`.

  * **`disciplined`**: what state, failures and timestamp say of each other, after every history;
  * `run_halfOpen`: a half-open breaker turns nobody away;
  * **`trials_bounded_iff`**: so its trials are bounded just as the askers bound themselves.
-/
import AgentKernel.Transition
import AgentKernel.Lib.Runs

namespace AgentKernel.Immune

open Lib

/-! ## 1. The breaker -/

/-- Whether calls go through. -/
inductive CircuitBreakerState where
  | closed | opened | halfOpen
  deriving DecidableEq

/-- The state, as errors spell it. -/
def CircuitBreakerState.text : CircuitBreakerState → String
  | .closed => "closed"
  | .opened => "open"
  | .halfOpen => "half-open"

/-- What can happen to a breaker. -/
inductive BreakerEvent where
  | trip | cooldown | success | failure
  deriving DecidableEq

/-- `BREAKER_MACHINE`. -/
def breakerMachine : StateMachine CircuitBreakerState BreakerEvent where
  transitions
    | .closed, .trip => some .opened
    | .opened, .cooldown => some .halfOpen
    | .halfOpen, .success => some .closed
    | .halfOpen, .failure => some .opened
    | _, _ => none

/-- When a breaker trips, and for how long. -/
structure CircuitBreakerConfig where
  failureThreshold : WithTop ℚ
  cooldownMs : WithTop ℚ
  maxHalfOpenTrials : WithTop ℚ

/-- What a breaker keeps. -/
structure CircuitState where
  resource : String
  state : CircuitBreakerState
  failures : Nat
  openedAt : Option ℚ
  halfOpenTrials : Nat

/-- A breaker of one resource. -/
structure CircuitBreaker where
  config : CircuitBreakerConfig
  state : CircuitState

/-- A count among the numbers. -/
def ofCount (n : Nat) : WithTop ℚ := ((n : ℚ) : WithTop ℚ)

/-- What a breaker throws. -/
abbrev IllegalBreakerTransition := IllegalTransitionError CircuitBreakerState BreakerEvent

namespace CircuitBreaker

/-- A breaker through which nothing has gone. -/
def create (resource : String) (config : CircuitBreakerConfig) : CircuitBreaker where
  config := config
  state :=
    { resource := resource, state := .closed, failures := 0, openedAt := none, halfOpenTrials := 0 }

variable (b : CircuitBreaker)

/-- Whether the way is free. -/
def allow (now : ℚ) : Except IllegalBreakerTransition (CircuitBreaker × Bool) :=
  match b.state.state with
  | .closed => .ok (b, true)
  | .opened =>
      let elapsed := now - b.state.openedAt.getD now
      if b.config.cooldownMs ≤ (elapsed : WithTop ℚ) then
        (breakerMachine.transition .opened .cooldown).map fun state =>
          ({ b with state := { b.state with state := state, halfOpenTrials := 0 } }, true)
      else .ok (b, false)
  | .halfOpen => .ok (b, decide (ofCount b.state.halfOpenTrials < b.config.maxHalfOpenTrials))

/-- A call has succeeded. -/
def recordSuccess : Except IllegalBreakerTransition CircuitBreaker :=
  match b.state.state with
  | .halfOpen =>
      (breakerMachine.transition .halfOpen .success).map fun state =>
        { b with state := { b.state with
            state := state, failures := 0, openedAt := none, halfOpenTrials := 0 } }
  | .closed => .ok { b with state := { b.state with failures := 0 } }
  | .opened => .ok b

/-- A call has failed. -/
def recordFailure (now : ℚ) : Except IllegalBreakerTransition CircuitBreaker :=
  match b.state.state with
  | .halfOpen =>
      (breakerMachine.transition .halfOpen .failure).map fun state =>
        { b with state := { b.state with state := state, openedAt := some now, halfOpenTrials := 0 } }
  | _ =>
      let failures := b.state.failures + 1
      if b.config.failureThreshold ≤ ofCount failures then
        -- also where it is open already
        (breakerMachine.transition .closed .trip).map fun state =>
          { b with state := { b.state with
              state := state, failures := failures, openedAt := some now } }
      else .ok { b with state := { b.state with failures := failures } }

end CircuitBreaker

/-! ## 2. Calls -/

/-- The calls of a breaker. -/
inductive BreakerCall where
  | allow (now : ℚ)
  | recordSuccess
  | recordFailure (now : ℚ)

/-- The outcome of a call admitted before. -/
def BreakerCall.isOutcome : BreakerCall → Bool
  | .allow _ => false
  | .recordSuccess | .recordFailure _ => true

namespace CircuitBreaker

/-- The state behind a call, and what `allow` answers. -/
def call (b : CircuitBreaker) :
    BreakerCall → Except IllegalBreakerTransition (CircuitBreaker × Option Bool)
  | .allow now => (b.allow now).map fun out => (out.1, some out.2)
  | .recordSuccess => b.recordSuccess.map fun b => (b, none)
  | .recordFailure now => (b.recordFailure now).map fun b => (b, none)

/-- A call that throws leaves the breaker as it is. -/
def step (b : CircuitBreaker) (c : BreakerCall) : Option CircuitBreaker :=
  match b.call c with
  | .ok (b', _) => some b'
  | .error _ => some b

/-- The call asks, and is let through. -/
def admits (b : CircuitBreaker) (c : BreakerCall) : Bool :=
  match b.call c with
  | .ok (_, some admitted) => admitted
  | _ => false

/-! ## 3. What one call does -/

/-- Everything that a call can do. -/
inductive Does (b : CircuitBreaker) : BreakerCall → CircuitBreaker → Option Bool → Prop where
  | admitted {now : ℚ} (h : b.state.state = .closed) : Does b (.allow now) b (some true)
  | refused {now : ℚ} (h : b.state.state = .opened)
      (hearly : ¬ b.config.cooldownMs ≤ ((now - b.state.openedAt.getD now : ℚ) : WithTop ℚ)) :
      Does b (.allow now) b (some false)
  | cooled {now : ℚ} (h : b.state.state = .opened)
      (hlate : b.config.cooldownMs ≤ ((now - b.state.openedAt.getD now : ℚ) : WithTop ℚ)) :
      Does b (.allow now)
        { b with state := { b.state with state := .halfOpen, halfOpenTrials := 0 } } (some true)
  | tried {now : ℚ} (h : b.state.state = .halfOpen) : Does b (.allow now) b
      (some (decide (ofCount b.state.halfOpenTrials < b.config.maxHalfOpenTrials)))
  | healed (h : b.state.state = .halfOpen) : Does b .recordSuccess
      { b with state := { b.state with
          state := .closed, failures := 0, openedAt := none, halfOpenTrials := 0 } } none
  | forgotten (h : b.state.state = .closed) :
      Does b .recordSuccess { b with state := { b.state with failures := 0 } } none
  | ignored (h : b.state.state = .opened) : Does b .recordSuccess b none
  | reopened {now : ℚ} (h : b.state.state = .halfOpen) : Does b (.recordFailure now)
      { b with state := { b.state with
          state := .opened, openedAt := some now, halfOpenTrials := 0 } } none
  | tripped {now : ℚ} (h : b.state.state ≠ .halfOpen)
      (hmany : b.config.failureThreshold ≤ ofCount (b.state.failures + 1)) :
      Does b (.recordFailure now)
        { b with state := { b.state with
            state := .opened, failures := b.state.failures + 1, openedAt := some now } } none
  | counted {now : ℚ} (h : b.state.state ≠ .halfOpen)
      (hfew : ¬ b.config.failureThreshold ≤ ofCount (b.state.failures + 1)) :
      Does b (.recordFailure now)
        { b with state := { b.state with failures := b.state.failures + 1 } } none

variable {b b' : CircuitBreaker} {c : BreakerCall} {answer : Option Bool}

/-- **No call throws**, and this is what it does. -/
theorem call_does (b : CircuitBreaker) (c : BreakerCall) :
    ∃ b' answer, b.call c = .ok (b', answer) ∧ Does b c b' answer := by
  cases c with
  | allow now =>
      unfold call allow
      cases hstate : b.state.state with
      | closed => exact ⟨_, _, rfl, .admitted hstate⟩
      | opened =>
          dsimp only
          split_ifs with hcool
          · exact ⟨_, _, rfl, .cooled hstate hcool⟩
          · exact ⟨_, _, rfl, .refused hstate hcool⟩
      | halfOpen => exact ⟨_, _, rfl, .tried hstate⟩
  | recordSuccess =>
      unfold call recordSuccess
      cases hstate : b.state.state with
      | closed => exact ⟨_, _, rfl, .forgotten hstate⟩
      | opened => exact ⟨_, _, rfl, .ignored hstate⟩
      | halfOpen => exact ⟨_, _, rfl, .healed hstate⟩
  | recordFailure now =>
      unfold call recordFailure
      cases hstate : b.state.state with
      | halfOpen => exact ⟨_, _, rfl, .reopened hstate⟩
      | closed | opened =>
          dsimp only
          have hne : b.state.state ≠ .halfOpen := by
            rw [hstate]
            exact nofun
          split_ifs with hmany
          · exact ⟨_, _, rfl, .tripped hne hmany⟩
          · exact ⟨_, _, rfl, .counted hne hmany⟩

theorem exists_step (b : CircuitBreaker) (c : BreakerCall) : ∃ b', b.step c = some b' := by
  obtain ⟨b', answer, hcall, -⟩ := b.call_does c
  exact ⟨b', by unfold step; rw [hcall]⟩

theorem step_does (h : b.step c = some b') : ∃ answer, b.call c = .ok (b', answer) ∧
    Does b c b' answer := by
  obtain ⟨b'', answer, hcall, hdoes⟩ := b.call_does c
  unfold step at h
  rw [hcall] at h
  obtain rfl : b'' = b' := Option.some.inj h
  exact ⟨answer, hcall, hdoes⟩

/-! ## 4. State, failures and timestamp -/

/-- The count of failures behind a call: a success takes it back, and so does closing. -/
def tally (b b' : CircuitBreaker) (n : Nat) : BreakerCall → Nat
  | .recordSuccess => 0
  | .recordFailure _ =>
      if b.state.state ≠ .closed ∧ b'.state.state = .closed then 0 else n + 1
  | .allow _ => if b.state.state ≠ .closed ∧ b'.state.state = .closed then 0 else n

/-- The failures recorded since the last success or the last closing, `n` of them before the
    calls. -/
def failuresSince (b : CircuitBreaker) (n : Nat) : List BreakerCall → Nat
  | [] => n
  | c :: calls =>
      let b' := (b.step c).getD b
      failuresSince b' (tally b b' n c) calls

/-- What every call keeps of a breaker that has counted `n` failures. -/
structure Tallied (config : CircuitBreakerConfig) (b : CircuitBreaker) (n : Nat) : Prop where
  config_eq : b.config = config
  closed : b.state.state = .closed →
    b.state.failures = n ∧ ofCount b.state.failures < config.failureThreshold
  opened : b.state.state = .opened → b.state.openedAt ≠ none
  many : b.state.state ≠ .closed → config.failureThreshold ≤ ofCount b.state.failures

theorem ofCount_le_succ (n : Nat) : ofCount n ≤ ofCount (n + 1) := by
  unfold ofCount
  exact WithTop.coe_le_coe.mpr (by exact_mod_cast Nat.le_succ n)

theorem ofCount_zero_lt {threshold : WithTop ℚ} (h : 1 ≤ threshold) : ofCount 0 < threshold := by
  refine lt_of_lt_of_le ?_ h
  exact WithTop.coe_lt_coe.mpr (by simp)

section Discipline

variable {config : CircuitBreakerConfig} {n : Nat}

theorem Does.tallied (hpos : 1 ≤ config.failureThreshold) (h : Tallied config b n)
    (hd : Does b c b' answer) : Tallied config b' (tally b b' n c) := by
  obtain ⟨rfl, hclosed, hopened, hmany⟩ := h
  cases hd with
  | admitted hb =>
      refine ⟨rfl, fun _ => ?_, hopened, hmany⟩
      simpa [tally, hb] using hclosed hb
  | refused hb | tried hb =>
      exact ⟨rfl, fun hc => absurd (hb.symm.trans hc) nofun, hopened, hmany⟩
  | cooled hb => exact ⟨rfl, nofun, nofun, fun _ => hmany (by rw [hb]; exact nofun)⟩
  | healed hb =>
      exact ⟨rfl, fun _ => ⟨rfl, ofCount_zero_lt hpos⟩, nofun, fun hne => absurd rfl hne⟩
  | forgotten hb =>
      exact ⟨rfl, fun _ => ⟨rfl, ofCount_zero_lt hpos⟩,
        fun ho => absurd (hb.symm.trans ho) nofun, fun hne => absurd hb hne⟩
  | ignored hb => exact ⟨rfl, fun hc => absurd (hb.symm.trans hc) nofun, hopened, hmany⟩
  | reopened hb => exact ⟨rfl, nofun, fun _ => nofun, fun _ => hmany (by rw [hb]; exact nofun)⟩
  | tripped _ hthreshold => exact ⟨rfl, nofun, fun _ => nofun, fun _ => hthreshold⟩
  | counted hhalf hfew =>
      -- an open breaker has failures enough already
      have hb : b.state.state = .closed := by
        by_contra hne
        exact hfew ((hmany hne).trans (ofCount_le_succ _))
      refine ⟨rfl, fun _ => ⟨?_, not_le.mp hfew⟩, fun ho => absurd (hb.symm.trans ho) nofun,
        fun hne => absurd hb hne⟩
      simpa [tally, hb] using (hclosed hb).1

theorem run_tallied (hpos : 1 ≤ config.failureThreshold) : ∀ {calls : List BreakerCall}
    {b b' : CircuitBreaker} {n : Nat}, Tallied config b n →
    Run step (fun _ _ => True) b calls b' → Tallied config b' (failuresSince b n calls)
  | [], b, b', n, h, hrun => by
      obtain rfl := hrun.functional (Run.start : Run step (fun _ _ => True) b [] b)
      exact h
  | c :: calls, b, b', n, h, hrun => by
      obtain ⟨b₁, -, hs, hrest⟩ := hrun.uncons
      obtain ⟨answer, -, hdoes⟩ := step_does hs
      unfold failuresSince
      rw [hs]
      exact run_tallied hpos (hdoes.tallied hpos h) hrest

/-- **The way back**: only a success at half-open closes a breaker. -/
theorem Does.closes (h : Does b c b' answer) (hb : b.state.state ≠ .closed)
    (hb' : b'.state.state = .closed) : c = .recordSuccess ∧ b.state.state = .halfOpen := by
  cases h with
  | healed hhalf => exact ⟨rfl, hhalf⟩
  | admitted hc | forgotten hc => exact absurd hc hb
  | refused | tried | ignored | counted => exact absurd hb' hb
  | cooled | reopened | tripped => cases hb'

end Discipline

/-- Two failures in a row open it, for a tenth of a second; one trial. -/
def someConfig : CircuitBreakerConfig where
  failureThreshold := 2
  cooldownMs := 100
  maxHalfOpenTrials := 1

/-- The calls of a window: the breaker enters half-open with the first one, and no outcome is
    recorded after it. -/
structure HalfOpenWindow (resource : String) (config : CircuitBreakerConfig)
    (calls : List BreakerCall) (b : CircuitBreaker) (window : List BreakerCall) : Prop where
  within : ∃ before rest, calls = before ++ window ++ rest ∧
    Run step (fun _ _ => True) (create resource config) before b
  enters : ∃ c asks b', window = c :: asks ∧ b.step c = some b' ∧ b.state.state ≠ .halfOpen ∧
    b'.state.state = .halfOpen ∧ ∀ ask ∈ asks, ask.isOutcome = false

section Trials

variable {resource : String} {config : CircuitBreakerConfig} {calls window : List BreakerCall}

/-- Between entering half-open and the next outcome no more callers are let through than the
    configuration says. -/
def TrialsBounded (resource : String) (config : CircuitBreakerConfig) (calls : List BreakerCall) :
    Prop :=
  ∀ b window, HalfOpenWindow resource config calls b window →
    ofCount (occurrences step admits b window) ≤ config.maxHalfOpenTrials

/-- Between entering half-open and the next outcome no more callers ask. -/
def AsksBounded (resource : String) (config : CircuitBreakerConfig) (calls : List BreakerCall) :
    Prop :=
  ∀ b window, HalfOpenWindow resource config calls b window →
    ofCount window.length ≤ config.maxHalfOpenTrials

theorem Does.config_eq (h : Does b c b' answer) : b'.config = b.config := by
  cases h <;> rfl

theorem step_config (h : b.step c = some b') : b'.config = b.config := by
  obtain ⟨answer, -, hdoes⟩ := step_does h
  exact hdoes.config_eq

/-- **A half-open breaker turns nobody away**, and counts nobody. -/
theorem run_halfOpen (hpos : 1 ≤ b.config.maxHalfOpenTrials) (hb : b.state.state = .halfOpen)
    (hnone : b.state.halfOpenTrials = 0) : ∀ {asks : List BreakerCall},
    (∀ ask ∈ asks, ask.isOutcome = false) → occurrences step admits b asks = asks.length
  | [], _ => rfl
  | c :: asks, hasks => by
      have hc : c.isOutcome = false := hasks c List.mem_cons_self
      cases c with
      | recordSuccess | recordFailure => cases hc
      | allow now =>
          have hcall : b.call (.allow now) = .ok (b, some true) := by
            unfold call allow
            rw [hb, hnone]
            dsimp only
            rw [decide_eq_true (ofCount_zero_lt hpos)]
            rfl
          have ih := run_halfOpen hpos hb hnone fun ask h => hasks ask (List.mem_cons_of_mem _ h)
          unfold occurrences step admits
          rw [hcall]
          dsimp only
          rw [if_pos rfl, List.length_cons]
          exact (congrArg (1 + ·) ih).trans (Nat.add_comm _ _)

/-- Who leads the breaker into half-open is let through. -/
theorem Does.enters (h : Does b c b' answer) (hb : b.state.state ≠ .halfOpen)
    (hb' : b'.state.state = .halfOpen) : answer = some true ∧ b'.state.halfOpenTrials = 0 := by
  cases h with
  | cooled => exact ⟨rfl, rfl⟩
  | admitted | refused | ignored | counted => exact absurd hb' hb
  | forgotten => exact absurd hb' hb
  | tried hhalf | healed hhalf | reopened hhalf => exact absurd hhalf hb
  | tripped => cases hb'

/-- **In a window everybody is let through.** -/
theorem window_admits (hpos : 1 ≤ config.maxHalfOpenTrials)
    (h : HalfOpenWindow resource config calls b window) :
    occurrences step admits b window = window.length := by
  obtain ⟨⟨before, rest, -, hrun⟩, c, asks, b', rfl, hs, hb, hb', hasks⟩ := h
  have hconfig : b.config = config :=
    hrun.invariant (I := fun b => b.config = config) rfl
      fun _ _ _ hI _ hs => (step_config hs).trans hI
  obtain ⟨answer, hcall, hdoes⟩ := step_does hs
  obtain ⟨rfl, hnone⟩ := hdoes.enters hb hb'
  have hpos' : 1 ≤ b'.config.maxHalfOpenTrials := by
    rw [hdoes.config_eq, hconfig]
    exact hpos
  have hrest := run_halfOpen hpos' hb' hnone hasks
  unfold occurrences
  rw [hs]
  dsimp only
  rw [hrest, if_pos (by unfold admits; rw [hcall]), List.length_cons, Nat.add_comm]

/-- **The trials of a half-open breaker are bounded just where the askers are.** -/
theorem trials_bounded_iff (hpos : 1 ≤ config.maxHalfOpenTrials) :
    TrialsBounded resource config calls ↔ AsksBounded resource config calls := by
  constructor
  · intro h b window hwindow
    rw [← window_admits hpos hwindow]
    exact h b window hwindow
  · intro h b window hwindow
    rw [window_admits hpos hwindow]
    exact h b window hwindow

/-- The readings of the clock, in order. -/
def times (calls : List BreakerCall) : List ℚ :=
  calls.filterMap fun
    | .allow now | .recordFailure now => some now
    | .recordSuccess => none

theorem trials_bounded_iff_someConfig :
    TrialsBounded "github" someConfig [.recordFailure 0, .recordFailure 0, .allow 100] ↔
      AsksBounded "github" someConfig [.recordFailure 0, .recordFailure 0, .allow 100] :=
  trials_bounded_iff (by decide)

/-- **Three callers get through one trial**, the first one and two behind it. -/
theorem three_trials : ∃ calls, (times calls).Pairwise (· ≤ ·) ∧ someConfig.maxHalfOpenTrials = 1 ∧
    ¬ TrialsBounded "github" someConfig calls := by
  let asks : List BreakerCall := [.allow 100, .allow 101, .allow 102]
  refine ⟨[.recordFailure 0, .recordFailure 0] ++ asks, by decide, rfl, fun hbounded => ?_⟩
  obtain ⟨b, hb, hwindow⟩ := Option.map_eq_some_iff.mp (show (exec step (create "github" someConfig)
    [.recordFailure 0, .recordFailure 0]).map (fun b => (b.state.state,
      (b.step (.allow 100)).map (·.state.state), occurrences step admits b asks)) =
    some (.opened, some .halfOpen, 3) by decide +kernel)
  simp only [Prod.mk.injEq] at hwindow
  obtain ⟨hopened, henters, hadmits⟩ := hwindow
  obtain ⟨b', hs, hhalf⟩ := Option.map_eq_some_iff.mp henters
  have hrun : Run step (fun _ _ => True) (create "github" someConfig) _ b :=
    run_of_exec (fun _ _ => trivial) hb
  have h := hbounded b asks
    { within := ⟨_, [], by simp, hrun⟩
      enters := ⟨_, _, b', rfl, hs, by rw [hopened]; exact nofun, hhalf, by decide⟩ }
  rw [hadmits] at h
  revert h
  decide

end Trials

end CircuitBreaker

end AgentKernel.Immune
