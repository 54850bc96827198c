/-
  File:      AgentKernel/Lib/Asking.lean
  Subject:   Programs that ask a service outside, and what has been said between the two.

  A program is done, or asks and goes on with the answer; an answer that is an error ends it.
  `Said p t r` is what may be said whatever the service is: the exchange `t`, and the result `r`.
  A service that keeps a state answers one way (`run`), and what it says is among this (`run_said`).

  * `said_bind`, `said_request`, `said_lift`: what a program says, by how it is written;
  * `Said.thrown`: an answer that is an error is what the program throws;
  * `Asks p P`, `Asks.said`: what every request of a program has;
  * `through`, **`said_through`**: requests that are themselves programs which ask a service below;
  * `Leads`: where an exchange that goes on has led, answer by answer.
-/
import Mathlib

namespace AgentKernel.Lib

/-- A program that asks for answers, and may throw. -/
inductive Asking (Q A ε α : Type) where
  | done (result : Except ε α)
  | ask (q : Q) (next : A → Asking Q A ε α)

namespace Asking

variable {Q A ε α β σ : Type}

/-! ## 1. Programs -/

/-- The rest goes on with the result; an error ends all. -/
def bind : Asking Q A ε α → (α → Asking Q A ε β) → Asking Q A ε β
  | .done (.ok a), f => f a
  | .done (.error err), _ => .done (.error err)
  | .ask q next, f => .ask q fun a => (next a).bind f

instance : Monad (Asking Q A ε) where
  pure a := .done (.ok a)
  bind := bind

/-- One question, and its answer. -/
def request (q : Q) : Asking Q A ε A := .ask q fun a => .done (.ok a)

/-- What is computed without asking. -/
def lift (result : Except ε α) : Asking Q A ε α := .done result

/-- An exchange with a service: what is asked and answered, and what comes of it. -/
def run (service : σ → Q → σ × Except ε A) :
    σ → Asking Q A ε α → σ × List (Q × Except ε A) × Except ε α
  | s, .done result => (s, [], result)
  | s, .ask q next =>
      match service s q with
      | (s, .error err) => (s, [(q, .error err)], .error err)
      | (s, .ok a) =>
          let (s, said, result) := run service s (next a)
          (s, (q, .ok a) :: said, result)

/-! ## 2. Exchanges -/

/-- These questions have been asked and answered so, and this is what has come of it. -/
inductive Said : Asking Q A ε α → List (Q × Except ε A) → Except ε α → Prop where
  | done (result : Except ε α) : Said (.done result) [] result
  | refused (q : Q) (next : A → Asking Q A ε α) (err : ε) :
      Said (.ask q next) [(q, .error err)] (.error err)
  | told (q : Q) {next : A → Asking Q A ε α} {a : A} {t : List (Q × Except ε A)} {r : Except ε α}
      (h : Said (next a) t r) : Said (.ask q next) ((q, .ok a) :: t) r

section Said

variable {p : Asking Q A ε α} {f : α → Asking Q A ε β} {t : List (Q × Except ε A)}
  {r : Except ε α} {r' : Except ε β} {q : Q}

theorem run_said (service : σ → Q → σ × Except ε A) (p : Asking Q A ε α) (s : σ) :
    Said p (run service s p).2.1 (run service s p).2.2 := by
  induction p generalizing s with
  | done result => exact .done result
  | ask q next ih =>
      unfold run
      rcases service s q with ⟨s', err | a⟩
      · exact .refused q next err
      · exact .told q (ih a s')

@[simp] theorem said_lift {result : Except ε α} :
    Said (lift result : Asking Q A ε α) t r ↔ t = [] ∧ r = result := by
  constructor
  · intro h
    cases h
    exact ⟨rfl, rfl⟩
  · rintro ⟨rfl, rfl⟩
    exact .done _

@[simp] theorem said_pure {a : α} : Said (pure a : Asking Q A ε α) t r ↔ t = [] ∧ r = .ok a :=
  said_lift

@[simp] theorem said_request {r : Except ε A} :
    Said (request q : Asking Q A ε A) t r ↔ t = [(q, r)] := by
  constructor
  · intro h
    cases h with
    | refused => rfl
    | told _ h =>
        cases h
        rfl
  · rintro rfl
    cases r with
    | error err => exact .refused q _ err
    | ok a => exact .told q (.done _)

/-- **One program after another.** -/
theorem said_bind : Said (p >>= f) t r' ↔
    (∃ err, r' = .error err ∧ Said p t (.error err)) ∨
    ∃ a t₁ t₂, t = t₁ ++ t₂ ∧ Said p t₁ (.ok a) ∧ Said (f a) t₂ r' := by
  constructor
  · intro h
    induction p generalizing t with
    | done result =>
        cases result with
        | error err =>
            cases h
            exact .inl ⟨err, rfl, .done _⟩
        | ok a => exact .inr ⟨a, [], t, rfl, .done _, h⟩
    | ask q next ih =>
        cases h with
        | refused _ _ err => exact .inl ⟨err, rfl, .refused q next err⟩
        | told _ h =>
            rcases ih _ h with ⟨err, hr, hsaid⟩ | ⟨a, t₁, t₂, ht, hsaid, hrest⟩
            · exact .inl ⟨err, hr, .told q hsaid⟩
            · exact .inr ⟨a, _, t₂, congrArg (_ :: ·) ht, .told q hsaid, hrest⟩
  · rintro (⟨err, rfl, h⟩ | ⟨a, t₁, t₂, rfl, h, hrest⟩)
    · induction p generalizing t with
      | done result =>
          cases h
          exact .done _
      | ask q next ih =>
          cases h with
          | refused => exact .refused q _ err
          | told _ h => exact .told q (ih _ h)
    · induction p generalizing t₁ with
      | done result =>
          cases h
          exact hrest
      | ask q next ih =>
          cases h with
          | told _ h => exact .told q (ih _ _ h)

/-- Something computed first. -/
theorem said_lift_bind {result : Except ε α} : Said (lift result >>= f) t r' ↔
    (∃ err, result = .error err ∧ t = [] ∧ r' = .error err) ∨
    ∃ a, result = .ok a ∧ Said (f a) t r' := by
  rw [said_bind]
  cases result with
  | error err => simp [and_comm]
  | ok a => simp

/-- A request first. -/
theorem said_request_bind {f : A → Asking Q A ε β} : Said (request q >>= f) t r' ↔
    (∃ err, t = [(q, .error err)] ∧ r' = .error err) ∨
    ∃ a rest, t = (q, .ok a) :: rest ∧ Said (f a) rest r' := by
  rw [said_bind]
  simp only [said_request]
  constructor
  · rintro (⟨err, hr, ht⟩ | ⟨a, t₁, t₂, rfl, rfl, h⟩)
    · exact .inl ⟨err, ht, hr⟩
    · exact .inr ⟨a, t₂, rfl, h⟩
  · rintro (⟨err, ht, hr⟩ | ⟨a, rest, rfl, h⟩)
    · exact .inl ⟨err, hr, ht⟩
    · exact .inr ⟨a, [_], rest, rfl, rfl, h⟩

/-- **An answer that is an error is what the program throws.** -/
theorem Said.thrown (h : Said p t r) {x : Q × Except ε A} (hx : x ∈ t) {err : ε}
    (herr : x.2 = .error err) : r = .error err := by
  induction h with
  | done => cases hx
  | refused q _ err' =>
      obtain rfl := List.mem_singleton.mp hx
      obtain rfl := Except.error.inj herr
      rfl
  | told q h ih =>
      rcases List.mem_cons.mp hx with rfl | hx
      · cases herr
      · exact ih hx

/-- So a program that does not throw has been answered. -/
theorem Said.answered {a : α} (h : Said p t (.ok a)) : ∀ x ∈ t, ∃ b, x.2 = .ok b := by
  intro x hx
  cases hx2 : x.2 with
  | error err => cases h.thrown hx hx2
  | ok b => exact ⟨b, rfl⟩

end Said

/-! ## 3. What every request has -/

/-- Every request has `P`, whatever has been answered before. -/
def Asks (P : Q → Prop) : Asking Q A ε α → Prop
  | .done _ => True
  | .ask q next => P q ∧ ∀ a, (next a).Asks P

section Asks

variable {P : Q → Prop} {p : Asking Q A ε α} {f : α → Asking Q A ε β}

@[simp] theorem asks_lift {result : Except ε α} : (lift result : Asking Q A ε α).Asks P := trivial

@[simp] theorem asks_pure {a : α} : (pure a : Asking Q A ε α).Asks P := trivial

@[simp] theorem asks_request {q : Q} : (request q : Asking Q A ε A).Asks P ↔ P q :=
  and_iff_left fun _ => trivial

theorem asks_bind (hp : p.Asks P) (hf : ∀ a, (f a).Asks P) : (p >>= f).Asks P := by
  induction p with
  | done result =>
      cases result with
      | error err => trivial
      | ok a => exact hf a
  | ask q next ih => exact ⟨hp.1, fun a => ih a (hp.2 a)⟩

theorem Asks.mono {P' : Q → Prop} (hP : ∀ q, P q → P' q) (hp : p.Asks P) : p.Asks P' := by
  induction p with
  | done => trivial
  | ask q next ih => exact ⟨hP q hp.1, fun a => ih a (hp.2 a)⟩

theorem Asks.said (hp : p.Asks P) {t : List (Q × Except ε A)} {r : Except ε α} (h : Said p t r) :
    ∀ x ∈ t, P x.1 := by
  induction h with
  | done => simp
  | refused q _ err => simpa using hp.1
  | told q h ih => exact List.forall_mem_cons.mpr ⟨hp.1, ih (hp.2 _)⟩

end Asks

/-! ## 4. Requests that ask below -/

variable {Q' A' : Type}

/-- The program with each of its requests made by a program of its own. -/
def through (serve : Q → Asking Q' A' ε A) : Asking Q A ε α → Asking Q' A' ε α
  | .done result => .done result
  | .ask q next => (serve q).bind fun a => (next a).through serve

/-- **An exchange below is one above**: every request above with its part of what is said below. -/
theorem said_through {serve : Q → Asking Q' A' ε A} {p : Asking Q A ε α} {t : List (Q' × Except ε A')}
    {r : Except ε α} (h : Said (p.through serve) t r) :
    ∃ told : List ((Q × Except ε A) × List (Q' × Except ε A')),
      t = (told.map (·.2)).flatten ∧ Said p (told.map (·.1)) r ∧
      ∀ x ∈ told, Said (serve x.1.1) x.2 x.1.2 := by
  induction p generalizing t with
  | done result =>
      cases h
      exact ⟨[], rfl, .done _, by simp⟩
  | ask q next ih =>
      rcases said_bind.mp (show Said (serve q >>= fun a => (next a).through serve) t r from h) with
        ⟨err, rfl, hfirst⟩ | ⟨a, t₁, t₂, rfl, hfirst, hrest⟩
      · exact ⟨[((q, .error err), t)], by simp, .refused q next err, by simpa using hfirst⟩
      · obtain ⟨told, rfl, habove, hbelow⟩ := ih a hrest
        exact ⟨((q, .ok a), t₁) :: told, by simp, .told q habove,
          List.forall_mem_cons.mpr ⟨hfirst, hbelow⟩⟩

/-! ## 5. Exchanges under way -/

/-- Where a program is after an exchange that goes on. -/
inductive Leads (p : Asking Q A ε α) : List (Q × Except ε A) → Asking Q A ε α → Prop where
  | start : Leads p [] p
  | refused {t : List (Q × Except ε A)} {q : Q} {next : A → Asking Q A ε α}
      (h : Leads p t (.ask q next)) (err : ε) : Leads p (t ++ [(q, .error err)]) (.done (.error err))
  | told {t : List (Q × Except ε A)} {q : Q} {next : A → Asking Q A ε α}
      (h : Leads p t (.ask q next)) (a : A) : Leads p (t ++ [(q, .ok a)]) (next a)

section Leads

variable {p p' : Asking Q A ε α} {t t' : List (Q × Except ε A)} {r : Except ε α}

/-- What is said from there on continues the exchange. -/
theorem Leads.said_append (h : Leads p t p') (h' : Said p' t' r) : Said p (t ++ t') r := by
  induction h generalizing t' with
  | start => exact h'
  | @refused _ q next _ err ih =>
      obtain ⟨rfl, rfl⟩ := said_lift.mp h'
      rw [List.append_nil]
      exact ih (.refused q next err)
  | @told _ q next _ a ih =>
      rw [List.append_assoc]
      exact ih (.told q h')

/-- An exchange that is over has all been said. -/
theorem Leads.said (h : Leads p t (.done r)) : Said p t r := by
  simpa using h.said_append (.done r)

theorem Leads.asks {P : Q → Prop} (hp : p.Asks P) (h : Leads p t p') :
    p'.Asks P ∧ ∀ x ∈ t, P x.1 := by
  induction h with
  | start => exact ⟨hp, by simp⟩
  | refused _ err ih =>
      obtain ⟨⟨hq, -⟩, ht⟩ := ih
      refine ⟨trivial, fun x hx => ?_⟩
      rcases List.mem_append.mp hx with hx | hx
      · exact ht x hx
      · rw [List.mem_singleton.mp hx]
        exact hq
  | told _ a ih =>
      obtain ⟨⟨hq, hnext⟩, ht⟩ := ih
      refine ⟨hnext a, fun x hx => ?_⟩
      rcases List.mem_append.mp hx with hx | hx
      · exact ht x hx
      · rw [List.mem_singleton.mp hx]
        exact hq

end Leads

end Asking

end AgentKernel.Lib
