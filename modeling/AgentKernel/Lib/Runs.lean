/-
  File:      AgentKernel/Lib/Runs.lean
  Subject:   Guarded runs of a labelled step function, and histories in which every entry is
             justified by what precedes it.

  A system is a partial function `step : σ → α → Option σ`: the label carries every choice the
  environment makes, so a label list determines the run. `Run step ok s₀ ls s` says that `ls`
  leads from `s₀` to `s` and that every step meets the guard `ok`. Two guards on one label list
  are compared by `Run.and_or_bad`: either every step also meets the second guard, or there is a
  first step that does not.

  * `Run.invariant`: what the start has and every step keeps holds where a run ends;
  * `Run.invariant_collect`: the same for an invariant that speaks of all that has been seen;
  * `Run.occurrences_le`, `Run.occurrences_spent`: how often a run can take steps of one kind;
  * `Run.embedded`: the runs of a system that is part of another one;
  * `Run.throughout_iff`: a property at every moment of a run, and the guard that is exact for it;
  * `Justified R L`: each entry of the history `L` stands in relation `R` to the entries before
    it. The notion is closed under taking an initial part, which is what a crash does to a log.
-/
import Mathlib

namespace AgentKernel.Lib

variable {σ α : Type}

/-! ## 1. Runs -/

/-- `Run step ok s₀ ls s`: the labels `ls` lead from `s₀` to `s`, each step meeting `ok`. -/
inductive Run (step : σ → α → Option σ) (ok : σ → α → Prop) (s₀ : σ) : List α → σ → Prop where
  | start : Run step ok s₀ [] s₀
  | next {ls : List α} {s s' : σ} {l : α} (h : Run step ok s₀ ls s) (hok : ok s l)
      (hs : step s l = some s') : Run step ok s₀ (ls ++ [l]) s'

section Run

variable {step : σ → α → Option σ} {ok ok' : σ → α → Prop} {s₀ s s' : σ} {ls ls' : List α}

theorem Run.mono (hok : ∀ s l, ok s l → ok' s l) (h : Run step ok s₀ ls s) :
    Run step ok' s₀ ls s := by
  induction h with
  | start => exact .start
  | next _ hg hs ih => exact .next ih (hok _ _ hg) hs

/-- **The invariant rule.** -/
theorem Run.invariant {I : σ → Prop} (h₀ : I s₀)
    (hstep : ∀ s l s', I s → ok s l → step s l = some s' → I s')
    (h : Run step ok s₀ ls s) : I s := by
  induction h with
  | start => exact h₀
  | next _ hg hs ih => exact hstep _ _ _ ih hg hs

theorem Run.append (h : Run step ok s₀ ls s) (h' : Run step ok s ls' s') :
    Run step ok s₀ (ls ++ ls') s' := by
  induction h' with
  | start => simpa using h
  | next _ hg hs ih => simpa using ih.next hg hs

/-- Along one label list a second guard is met by every step, or there is a first step that
    does not meet it. -/
theorem Run.and_or_bad (ok' : σ → α → Prop) (h : Run step ok s₀ ls s) :
    Run step (fun s l => ok s l ∧ ok' s l) s₀ ls s ∨
    ∃ ls₁ l ls₂ s₁ s₂, ls = ls₁ ++ l :: ls₂ ∧ Run step (fun s l => ok s l ∧ ok' s l) s₀ ls₁ s₁ ∧
      ok s₁ l ∧ ¬ ok' s₁ l ∧ step s₁ l = some s₂ ∧ Run step ok s₂ ls₂ s := by
  induction h with
  | start => exact .inl .start
  | @next ls s s' l h hg hs ih =>
      rcases ih with ih | ⟨ls₁, m, ls₂, s₁, s₂, rfl, hr, hm, hbad, hs₁, hrest⟩
      · by_cases hc : ok' s l
        · exact .inl (ih.next ⟨hg, hc⟩ hs)
        · exact .inr ⟨ls, l, [], s, s', rfl, ih, hg, hc, hs, .start⟩
      · exact .inr ⟨ls₁, m, ls₂ ++ [l], s₁, s₂, by simp, hr, hm, hbad, hs₁, hrest.next hg hs⟩

/-- A run can be cut anywhere. -/
theorem Run.cut : ∀ {ls' ls : List α} {s : σ}, Run step ok s₀ (ls ++ ls') s →
    ∃ s₁, Run step ok s₀ ls s₁ ∧ Run step ok s₁ ls' s := by
  intro ls'
  induction hl : ls'.length generalizing ls' with
  | zero =>
      intro ls s h
      obtain rfl := List.eq_nil_of_length_eq_zero hl
      exact ⟨s, by simpa using h, .start⟩
  | succ k ih =>
      intro ls s h
      -- the last step of the run is the last one of the second part
      obtain ⟨init, l, rfl⟩ := List.eq_nil_or_concat' ls' |>.resolve_left (by rintro rfl; cases hl)
      rw [← List.append_assoc] at h
      generalize hall : ls ++ init ++ [l] = all at h
      cases h with
      | start => simp at hall
      | next h hg hs =>
          obtain ⟨rfl, hlast⟩ := List.append_inj' hall rfl
          obtain rfl := List.singleton_inj.mp hlast
          obtain ⟨s₁, h₁, h₂⟩ := ih (by simpa using hl) h
          exact ⟨s₁, h₁, h₂.next hg hs⟩

/-- The first step of a run. -/
theorem Run.uncons {l : α} (h : Run step ok s₀ (l :: ls) s) :
    ∃ s₁, ok s₀ l ∧ step s₀ l = some s₁ ∧ Run step ok s₁ ls s := by
  obtain ⟨s₁, h₁, h₂⟩ := (show Run step ok s₀ ([l] ++ ls) s from h).cut
  generalize hl : [l] = one at h₁
  cases h₁ with
  | start => cases hl
  | @next init s' _ l' h hok hs =>
      obtain ⟨rfl, hl⟩ := List.append_inj' (show [] ++ [l] = init ++ [l'] from hl) rfl
      obtain rfl := List.singleton_inj.mp hl
      generalize hnil : ([] : List α) = none at h
      cases h with
      | start => exact ⟨_, hok, hs, h₂⟩
      | next => simp at hnil

/-- The labels determine the run. -/
theorem Run.functional (h : Run step ok s₀ ls s) (h' : Run step ok' s₀ ls s') : s = s' := by
  induction h generalizing s' with
  | start =>
      generalize hl : ([] : List α) = ls at h'
      cases h' with
      | start => rfl
      | next => simp at hl
  | @next ls s s₁ l h hg hs ih =>
      generalize hl : ls ++ [l] = ls' at h'
      cases h' with
      | start => simp at hl
      | next h' hg' hs' =>
          obtain ⟨rfl, hlast⟩ := List.append_inj' hl rfl
          obtain rfl := List.singleton_inj.mp hlast
          obtain rfl := ih h'
          rw [hs] at hs'
          exact Option.some.inj hs'

/-- How many steps along `ls` are of the kind `p`. -/
def occurrences (step : σ → α → Option σ) (p : σ → α → Bool) : σ → List α → Nat
  | _, [] => 0
  | s, l :: ls =>
      (if p s l then 1 else 0) +
        match step s l with
        | some s' => occurrences step p s' ls
        | none => 0

theorem Run.occurrences_append {p : σ → α → Bool} : ∀ {ls : List α} {s₀ s : σ} {ls' : List α},
    Run step ok s₀ ls s →
      occurrences step p s₀ (ls ++ ls') = occurrences step p s₀ ls + occurrences step p s ls'
  | [], s₀, s, ls', h => by
      obtain rfl := h.functional (Run.start : Run step ok s₀ [] s₀)
      simp [occurrences]
  | l :: ls, s₀, s, ls', h => by
      obtain ⟨s₁, -, hs, h₂⟩ := h.uncons
      simp only [List.cons_append, occurrences, hs]
      rw [h₂.occurrences_append, Nat.add_assoc]

/-- **The counting rule.** A number that no step lowers, and every step of the kind `p` raises,
    bounds how many of these there have been. -/
theorem Run.occurrences_le {p : σ → α → Bool} {μ : σ → Nat} {I : σ → Prop} (h₀ : I s₀)
    (hstep : ∀ s l s', I s → ok s l → step s l = some s' →
      I s' ∧ μ s + (if p s l then 1 else 0) ≤ μ s')
    (h : Run step ok s₀ ls s) : I s ∧ μ s₀ + occurrences step p s₀ ls ≤ μ s := by
  induction h with
  | start => exact ⟨h₀, Nat.le_refl _⟩
  | @next ls s s' l h hg hs ih =>
      obtain ⟨hI, hle⟩ := ih
      obtain ⟨hI', hle'⟩ := hstep s l s' hI hg hs
      refine ⟨hI', ?_⟩
      have hlast : occurrences step p s [l] = if p s l then 1 else 0 := by
        simp [occurrences, hs]
      rw [h.occurrences_append, hlast]
      omega

/-- **The spending rule.** A number that every step of the kind `p` lowers, and that only a step of
    the kind `q` raises, and by `k` at most, bounds how many steps of the kind `p` there have been. -/
theorem Run.occurrences_spent {p q : σ → α → Bool} {k : Nat} {μ : σ → Nat} {I : σ → Prop} (h₀ : I s₀)
    (hstep : ∀ s l s', I s → ok s l → step s l = some s' →
      I s' ∧ μ s' + (if p s l then 1 else 0) ≤ μ s + if q s l then k else 0)
    (h : Run step ok s₀ ls s) :
    I s ∧ μ s + occurrences step p s₀ ls ≤ μ s₀ + k * occurrences step q s₀ ls := by
  induction h with
  | start => exact ⟨h₀, Nat.le_refl _⟩
  | @next ls s s' l h hg hs ih =>
      obtain ⟨hI, hle⟩ := ih
      obtain ⟨hI', hle'⟩ := hstep s l s' hI hg hs
      refine ⟨hI', ?_⟩
      have hlast : ∀ r : σ → α → Bool, occurrences step r s [l] = if r s l then 1 else 0 := by
        intro r
        simp [occurrences, hs]
      have hk : k * (if q s l then 1 else 0) = if q s l then k else 0 := by
        split_ifs
        · exact Nat.mul_one k
        · rfl
      rw [h.occurrences_append, h.occurrences_append, hlast, hlast, Nat.mul_add, hk]
      omega

/-- A number that rises by one with every step of the kind `p`, and with no other, counts them. -/
theorem Run.occurrences_eq {p : σ → α → Bool} {μ : σ → Nat}
    (hstep : ∀ s l s', ok s l → step s l = some s' → μ s' = μ s + if p s l then 1 else 0)
    (h : Run step ok s₀ ls s) : μ s = μ s₀ + occurrences step p s₀ ls := by
  induction h with
  | start => rfl
  | @next ls s s' l h hg hs ih =>
      have hlast : occurrences step p s [l] = if p s l then 1 else 0 := by
        simp [occurrences, hs]
      rw [h.occurrences_append, hlast, hstep s l s' hg hs, ih, Nat.add_assoc]

section Embedded

variable {τ β : Type} {step' : τ → β → Option τ} {ok' : τ → β → Prop} {g : σ → τ} {e : α → β}

/-- **A system within another**: where the second one, started in a state of the first and given
    labels of the first, goes on as the first does, its runs are runs of the first. -/
theorem Run.embedded (hstep : ∀ s l, step' (g s) (e l) = (step s l).map g) : ∀ {ls : List α} {s₀ : σ}
    {t : τ}, Run step' ok' (g s₀) (ls.map e) t →
      ∃ s, t = g s ∧ Run step (fun s l => ok' (g s) (e l)) s₀ ls s
  | [], s₀, t, h => by
      obtain rfl := h.functional (Run.start : Run step' ok' (g s₀) [] (g s₀))
      exact ⟨s₀, rfl, .start⟩
  | l :: ls, s₀, t, h => by
      obtain ⟨t₁, hok, ht, h₂⟩ := h.uncons
      obtain ⟨s₁, hs, rfl⟩ := Option.map_eq_some_iff.mp ((hstep s₀ l).symm.trans ht)
      obtain ⟨s, rfl, h₁⟩ := h₂.embedded hstep
      have hone : Run step (fun s l => ok' (g s) (e l)) s₀ [l] s₁ := Run.next .start hok hs
      exact ⟨s, rfl, by simpa using hone.append h₁⟩

theorem Run.embed (hstep : ∀ s l, step' (g s) (e l) = (step s l).map g)
    (h : Run step (fun s l => ok' (g s) (e l)) s₀ ls s) : Run step' ok' (g s₀) (ls.map e) (g s) := by
  induction h with
  | start => exact .start
  | next _ hok hs ih =>
      rw [List.map_append]
      exact ih.next hok (by rw [hstep, hs]; rfl)

theorem occurrences_embedded (hstep : ∀ s l, step' (g s) (e l) = (step s l).map g)
    (p : τ → β → Bool) : ∀ (ls : List α) (s : σ),
    occurrences step' p (g s) (ls.map e) = occurrences step (fun s l => p (g s) (e l)) s ls
  | [], s => rfl
  | l :: ls, s => by
      simp only [List.map_cons, occurrences, hstep]
      cases hs : step s l with
      | none => rfl
      | some s' => exact congrArg _ (occurrences_embedded hstep p ls s')

end Embedded

/-- What is seen along `ls`, where `f` says what is seen with a step. -/
def collect {β : Type} (step : σ → α → Option σ) (f : σ → α → List β) : σ → List α → List β
  | _, [] => []
  | s, l :: ls =>
      f s l ++
        match step s l with
        | some s' => collect step f s' ls
        | none => []

theorem Run.collect_append {β : Type} {f : σ → α → List β} : ∀ {ls : List α} {s₀ s : σ}
    {ls' : List α}, Run step ok s₀ ls s →
      collect step f s₀ (ls ++ ls') = collect step f s₀ ls ++ collect step f s ls'
  | [], s₀, s, ls', h => by
      obtain rfl := h.functional (Run.start : Run step ok s₀ [] s₀)
      rfl
  | l :: ls, s₀, s, ls', h => by
      obtain ⟨s₁, -, hs, h₂⟩ := h.uncons
      simp only [List.cons_append, collect, hs]
      rw [h₂.collect_append, List.append_assoc]

theorem Run.collect_snoc {β : Type} {f : σ → α → List β} {l : α} (h : Run step ok s₀ ls s)
    (hs : step s l = some s') :
    collect step f s₀ (ls ++ [l]) = collect step f s₀ ls ++ f s l := by
  rw [h.collect_append]
  simp only [collect, hs, List.append_nil]

/-- **The invariant rule with history**: an invariant may speak of all that has been seen. -/
theorem Run.invariant_collect {β ι : Type} {f : ι → σ → α → List β}
    {I : σ → (ι → List β) → Prop} (h₀ : I s₀ fun _ => [])
    (hstep : ∀ s l s' seen, I s seen → ok s l → step s l = some s' →
      I s' fun i => seen i ++ f i s l)
    (h : Run step ok s₀ ls s) : I s fun i => collect step (f i) s₀ ls := by
  induction h with
  | start => exact h₀
  | next h hg hs ih =>
      have hnext := hstep _ _ _ _ ih hg hs
      simp only [← h.collect_snoc hs] at hnext
      exact hnext

/-- `P` holds at every moment of the run along `ls`. -/
def Throughout (step : σ → α → Option σ) (s₀ : σ) (ls : List α) (P : σ → Prop) : Prop :=
  ∀ ls₁ s₁, ls₁ <+: ls → Run step (fun _ _ => True) s₀ ls₁ s₁ → P s₁

/-- A guard that follows from another one under an invariant. -/
theorem Run.mono_of_invariant {I : σ → Prop} (h₀ : I s₀)
    (hstep : ∀ s l s', I s → step s l = some s' → I s')
    (hok : ∀ s l, I s → ok s l → ok' s l) (h : Run step ok s₀ ls s) : Run step ok' s₀ ls s := by
  have hboth : Run step ok' s₀ ls s ∧ I s := by
    induction h with
    | start => exact ⟨.start, h₀⟩
    | next _ hg hs ih => exact ⟨ih.1.next (hok _ _ ih.2 hg) hs, hstep _ _ _ ih.2 hs⟩
  exact hboth.1

/-- **A guard read off the labels**: what each step adds to a property of the label list. -/
theorem Run.and_iff {P : List α → Prop} (hnil : P [])
    (hsnoc : ∀ ls l s s', Run step ok s₀ ls s → ok s l → step s l = some s' →
      (P (ls ++ [l]) ↔ P ls ∧ ok' s l)) (h : Run step ok s₀ ls s) :
    Run step (fun s l => ok s l ∧ ok' s l) s₀ ls s ↔ P ls := by
  induction h with
  | start => exact iff_of_true .start hnil
  | @next ls s s' l h hg hs ih =>
      rw [hsnoc ls l s s' h hg hs, ← ih]
      constructor
      · intro hr
        obtain ⟨s₁, hr₁, hlast⟩ := hr.cut
        obtain rfl := hr₁.functional h
        obtain ⟨-, hguard, -, -⟩ := hlast.uncons
        exact ⟨hr₁, hguard.2⟩
      · intro ⟨hr, hguard⟩
        exact hr.next ⟨hg, hguard⟩ hs

/-- **The exact guard of a property**: guarded runs have it, and the first step against the guard
    ends it. -/
theorem Run.throughout_iff {P : σ → Prop} (h : Run step (fun _ _ => True) s₀ ls s)
    (hgood : ∀ ls s, Run step ok s₀ ls s → P s)
    (hbad : ∀ ls s l s', Run step ok s₀ ls s → ¬ ok s l → step s l = some s' → ¬ P s') :
    Throughout step s₀ ls P ↔ Run step ok s₀ ls s := by
  constructor
  · intro hall
    rcases h.and_or_bad ok with hr | ⟨ls₁, l, ls₂, s₁, s₂, rfl, hr, -, hno, hs, -⟩
    · exact hr.mono fun _ _ => And.right
    · have hr₁ : Run step (fun _ _ => True) s₀ ls₁ s₁ := hr.mono fun _ _ _ => trivial
      exact absurd (hall (ls₁ ++ [l]) s₂ ⟨ls₂, by simp⟩ (hr₁.next trivial hs))
        (hbad _ _ _ _ (hr.mono fun _ _ => And.right) hno hs)
  · rintro hr ls₁ s₁ ⟨ls₂, rfl⟩ hr₁
    obtain ⟨s', hr', -⟩ := hr.cut
    obtain rfl := hr'.functional hr₁
    exact hgood _ _ hr'

/-- Where every step leads somewhere, every list of labels is that of a run. -/
theorem exists_run (htotal : ∀ s l, ∃ s', step s l = some s') : ∀ (s₀ : σ) (ls : List α),
    ∃ s, Run step (fun _ _ => True) s₀ ls s
  | s₀, [] => ⟨s₀, .start⟩
  | s₀, l :: ls => by
      obtain ⟨s₁, hs⟩ := htotal s₀ l
      obtain ⟨s, h⟩ := exists_run htotal s₁ ls
      have hfst : Run step (fun _ _ => True) s₀ [l] s₁ := Run.next .start trivial hs
      exact ⟨s, by simpa using hfst.append h⟩

/-- The executable form of a run: fold the step function over the labels. -/
def exec (step : σ → α → Option σ) : σ → List α → Option σ
  | s, [] => some s
  | s, l :: ls => (step s l).bind fun s' => exec step s' ls

/-- Steps checked against a decidable condition that implies the guard. -/
theorem run_of_exec_check {c : σ → α → Bool} (hok : ∀ s l, c s l = true → ok s l) :
    ∀ {ls : List α} {s₀ s : σ},
    exec (fun s l => if c s l then step s l else none) s₀ ls = some s → Run step ok s₀ ls s
  | [], _, _, h => by
      cases h
      exact .start
  | l :: ls, s₀, s, h => by
      obtain ⟨s₁, h₁, h₂⟩ := Option.bind_eq_some_iff.mp h
      dsimp only at h₁
      split_ifs at h₁ with hc
      have hfst : Run step ok s₀ [l] s₁ := Run.next .start (hok _ _ hc) h₁
      simpa using hfst.append (run_of_exec_check hok h₂)

theorem run_of_exec (hok : ∀ s l, ok s l) {ls : List α} {s₀ s : σ}
    (h : exec step s₀ ls = some s) : Run step ok s₀ ls s :=
  run_of_exec_check (c := fun _ _ => true) (fun s l _ => hok s l) (by simpa using h)

end Run

/-! ## 2. Histories justified entry by entry -/

/-- Every entry of `L` stands in relation `R` to the part of `L` before it. -/
def Justified (R : List α → α → Prop) (L : List α) : Prop :=
  ∀ A e B, L = A ++ e :: B → R A e

section Justified

variable {R R' : List α → α → Prop} {L A B : List α} {e : α}

theorem Justified.nil : Justified R [] := by
  intro A e B h
  simp at h

theorem justified_snoc : Justified R (L ++ [e]) ↔ Justified R L ∧ R L e := by
  constructor
  · intro h
    exact ⟨fun A x B hL => h A x (B ++ [e]) (by simp [hL]), h L e [] rfl⟩
  · intro ⟨h, he⟩ A x B hL
    rcases List.eq_nil_or_concat B with rfl | ⟨B', y, rfl⟩
    · obtain ⟨rfl, hx⟩ := List.append_inj' hL rfl
      cases hx
      exact he
    · have hL' : L ++ [e] = (A ++ x :: B') ++ [y] := by simp [hL]
      obtain ⟨rfl, -⟩ := List.append_inj' hL' rfl
      exact h A x B' rfl

/-- Entries that need no justification may be added. -/
theorem Justified.append (h : Justified R A) (hB : ∀ e ∈ B, ∀ A, R A e) : Justified R (A ++ B) := by
  induction B generalizing A with
  | nil => simpa using h
  | cons e B ih =>
      rw [List.append_cons]
      exact ih (justified_snoc.mpr ⟨h, hB e List.mem_cons_self _⟩)
        fun x hx => hB x (List.mem_cons_of_mem _ hx)

/-- A crash keeps justification: the surviving initial part of a justified history is one. -/
theorem Justified.cut (h : Justified R (A ++ B)) : Justified R A := by
  intro A' e B' hA
  exact h A' e (B' ++ B) (by simp [hA])

theorem Justified.get (h : Justified R L) {i : Nat} (hi : L[i]? = some e) : R (L.take i) e := by
  refine h _ _ (L.drop (i + 1)) ?_
  obtain ⟨hlt, rfl⟩ := List.getElem?_eq_some_iff.mp hi
  rw [List.getElem_cons_drop, List.take_append_drop]

theorem Justified.mono (hR : ∀ A e, R A e → R' A e) (h : Justified R L) : Justified R' L :=
  fun A e B hL => hR A e (h A e B hL)

end Justified

end AgentKernel.Lib
