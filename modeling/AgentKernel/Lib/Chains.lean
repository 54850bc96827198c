/-
  File:      AgentKernel/Lib/Chains.lean
  Subject:   Chains of a relation, and the length of the longest one.

  `Chain r k a`: `k` steps of `r` lead on from `a`. Where every step leads to shorter chains the
  longest one can be read off level by level:

  * **`longest_of_steps`**: one more than what the steps of `a` lead to;
  * **`Chain.le_of_descends`**: a labelling that every step lowers is no less than the length of
    any chain, so a schedule in rounds has at least as many rounds as a chain has entries.
-/
import Mathlib

namespace AgentKernel.Lib

variable {α : Type} {r : α → α → Prop} {a b : α} {k : Nat}

/-- `k` steps of `r` lead on from `a`. -/
inductive Chain (r : α → α → Prop) : Nat → α → Prop where
  | here (a : α) : Chain r 0 a
  | step {k : Nat} {a b : α} (hab : r a b) (h : Chain r k b) : Chain r (k + 1) a

/-- The longest chain from `a` has `k` steps. -/
structure Longest (r : α → α → Prop) (k : Nat) (a : α) : Prop where
  chain : Chain r k a
  le : ∀ j, Chain r j a → j ≤ k

theorem Longest.unique {j : Nat} (h : Longest r j a) (h' : Longest r k a) : j = k :=
  Nat.le_antisymm (h'.le j h.chain) (h.le k h'.chain)

/-- **The longest chain through the steps of `a`.** -/
theorem longest_of_steps (h : Chain r k a) (hsteps : ∀ b, r a b → ∃ i < k, Longest r i b) :
    Longest r k a := by
  refine ⟨h, fun j hj => ?_⟩
  cases hj with
  | here => exact Nat.zero_le k
  | step hab hb =>
      obtain ⟨i, hi, hlongest⟩ := hsteps _ hab
      have hle := hlongest.le _ hb
      omega

/-- **Labels that every step lowers bound the chains.** -/
theorem Chain.le_of_descends {P : Nat → α → Prop}
    (hdescends : ∀ j a b, P j a → r a b → ∃ i < j, P i b) (h : Chain r k a) :
    ∀ j, P j a → k ≤ j := by
  induction h with
  | here => exact fun j _ => Nat.zero_le j
  | step hab _ ih =>
      intro j hj
      obtain ⟨i, hi, hb⟩ := hdescends j _ _ hj hab
      have hle := ih i hb
      omega

end AgentKernel.Lib
