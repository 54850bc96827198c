/-
  File:      AgentKernel/Lib/Merkle.lean
  Subject:   Merkle roots over any operation that joins two digests, with the last one of a level of
             odd length joined to itself.

  A root is the value of a tree whose leaves are the list and, after it, repetitions out of it
  (`leaves_root`). Where digests can be taken apart again (`Binding`), the value determines the
  tree, and so:

  * **`root_binding`**: of two lists with one root, one is the other followed by repetitions;
  * `eq_of_repeats_nodup`, `eq_of_repeats_length`: lists without repetitions, and lists of one
    length, are the same.

  That repetitions stay possible is the price of completing a level with its last digest:
  `root [a, b, c] = root [a, b, c, c]`.
-/
import Mathlib

namespace AgentKernel.Lib.Merkle

variable {α β : Type}

/-! ## 1. Levels -/

/-- The next level: neighbours joined, and a last one without a neighbour joined to itself. -/
def levelUp (op : α → α → α) : List α → List α
  | [] => []
  | [a] => [op a a]
  | a :: b :: rest => op a b :: levelUp op rest

/-- Levels until one has at most one digest. -/
def reduce (op : α → α → α) : Nat → List α → List α
  | 0, level => level
  | fuel + 1, level => if 1 < level.length then reduce op fuel (levelUp op level) else level

/-- The root; a list has fewer levels than digests. -/
def root (op : α → α → α) (level : List α) : Option α := (reduce op level.length level).head?

section Levels

variable {op : α → α → α} {op' : β → β → β} {f : α → β}

theorem levelUp_length (op : α → α → α) : ∀ level : List α, (levelUp op level).length = (level.length + 1) / 2
  | [] => by simp [levelUp]
  | [_] => by simp [levelUp]
  | a :: b :: rest => by
      rw [levelUp, List.length_cons, levelUp_length op rest, List.length_cons, List.length_cons]
      omega

theorem reduce_length (op : α → α → α) : ∀ {fuel : Nat} {level : List α}, level ≠ [] →
    level.length ≤ fuel + 1 → (reduce op fuel level).length = 1
  | 0, level, hne, hle => by
      have hpos := List.length_pos_iff.mpr hne
      unfold reduce
      omega
  | fuel + 1, level, hne, hle => by
      have hpos := List.length_pos_iff.mpr hne
      unfold reduce
      split_ifs with hmore
      · have hlen := levelUp_length op level
        exact reduce_length op (List.length_pos_iff.mp (by omega)) (by omega)
      · omega

theorem exists_root (op : α → α → α) {level : List α} (hne : level ≠ []) :
    ∃ r, reduce op level.length level = [r] ∧ root op level = some r := by
  obtain ⟨r, hr⟩ := List.length_eq_one_iff.mp (reduce_length op hne (Nat.le_succ _))
  refine ⟨r, hr, ?_⟩
  unfold root
  rw [hr]
  rfl

theorem levelUp_map (hf : ∀ a b, f (op a b) = op' (f a) (f b)) : ∀ level : List α,
    levelUp op' (level.map f) = (levelUp op level).map f
  | [] => rfl
  | [a] => by rw [levelUp, List.map_singleton, List.map_singleton, levelUp, hf]
  | a :: b :: rest => by
      rw [List.map_cons, List.map_cons, levelUp, levelUp, List.map_cons, hf, levelUp_map hf rest]

theorem reduce_map (hf : ∀ a b, f (op a b) = op' (f a) (f b)) : ∀ (fuel : Nat) (level : List α),
    reduce op' fuel (level.map f) = (reduce op fuel level).map f
  | 0, level => rfl
  | fuel + 1, level => by
      unfold reduce
      rw [List.length_map, levelUp_map hf, reduce_map hf fuel, apply_ite (List.map f)]

/-- **A root is carried along** by a function that respects the operation. -/
theorem root_map (hf : ∀ a b, f (op a b) = op' (f a) (f b)) (level : List α) :
    root op' (level.map f) = (root op level).map f := by
  unfold root
  rw [List.length_map, reduce_map hf, List.head?_map]

end Levels

/-! ## 2. Trees -/

/-- What a root is made from. -/
inductive Tree (α : Type) where
  | leaf (a : α)
  | node (left right : Tree α)

namespace Tree

/-- The leaves from left to right. -/
def leaves : Tree α → List α
  | leaf a => [a]
  | node left right => left.leaves ++ right.leaves

/-- What the tree comes to. -/
def value (op : α → α → α) : Tree α → α
  | leaf a => a
  | node left right => op (left.value op) (right.value op)

end Tree

/-- A level has the leaves of the one below and repetitions out of it. -/
theorem leaves_levelUp : ∀ level : List (Tree α), ∃ more ⊆ level.flatMap Tree.leaves,
    (levelUp Tree.node level).flatMap Tree.leaves = level.flatMap Tree.leaves ++ more
  | [] => ⟨[], List.Subset.refl _, rfl⟩
  | [t] => ⟨t.leaves, by simp, by simp [levelUp, Tree.leaves]⟩
  | t :: u :: rest => by
      obtain ⟨more, hsub, hleaves⟩ := leaves_levelUp rest
      refine ⟨more, fun a ha => ?_, ?_⟩
      · rw [List.flatMap_cons, List.flatMap_cons]
        exact List.mem_append_right _ (List.mem_append_right _ (hsub ha))
      · rw [levelUp, List.flatMap_cons, hleaves, Tree.leaves, List.flatMap_cons, List.flatMap_cons]
        simp only [List.append_assoc]

theorem leaves_reduce : ∀ (fuel : Nat) (level : List (Tree α)),
    ∃ more ⊆ level.flatMap Tree.leaves,
      (reduce Tree.node fuel level).flatMap Tree.leaves = level.flatMap Tree.leaves ++ more
  | 0, level => ⟨[], List.nil_subset _, (List.append_nil _).symm⟩
  | fuel + 1, level => by
      unfold reduce
      split_ifs with hmore
      · obtain ⟨up, hup, hlevel⟩ := leaves_levelUp level
        obtain ⟨more, hsub, hleaves⟩ := leaves_reduce fuel (levelUp Tree.node level)
        rw [hlevel] at hsub hleaves
        refine ⟨up ++ more, List.append_subset.mpr ⟨hup, fun a ha => ?_⟩, ?_⟩
        · exact (List.mem_append.mp (hsub ha)).elim id fun h => hup h
        · rw [hleaves, List.append_assoc]
      · exact ⟨[], List.nil_subset _, (List.append_nil _).symm⟩

/-- **The tree of a root**: its leaves are the list, and repetitions out of it. -/
theorem leaves_root (op : α → α → α) {level : List α} (hne : level ≠ []) :
    ∃ (t : Tree α) (more : List α), root op level = some (t.value op) ∧
      t.leaves = level ++ more ∧ more ⊆ level := by
  have htrees : level.map Tree.leaf ≠ [] := by
    intro h
    exact hne (List.map_eq_nil_iff.mp h)
  have hleaf : (level.map Tree.leaf).flatMap Tree.leaves = level := by
    rw [List.flatMap_map]
    exact List.flatMap_singleton' level
  obtain ⟨t, hreduce, hroot⟩ := exists_root Tree.node htrees
  obtain ⟨more, hsub, hleaves⟩ := leaves_reduce (level.map Tree.leaf).length (level.map Tree.leaf)
  rw [hreduce, hleaf, List.flatMap_singleton] at hleaves
  rw [hleaf] at hsub
  refine ⟨t, more, ?_, hleaves, hsub⟩
  have hvalue : ∀ t u : Tree α, (Tree.node t u).value op = op (t.value op) (u.value op) :=
    fun _ _ => rfl
  have hmap := root_map hvalue (level.map Tree.leaf)
  rw [List.map_map, hroot] at hmap
  rw [← List.map_id level]
  exact hmap

/-! ## 3. Roots that bind -/

/-- Digests that can be taken apart: what is joined is determined by its join, and the digest of a
    leaf is no join. -/
structure Binding (op : α → α → α) (Leaf Digest : α → Prop) : Prop where
  leaf : ∀ {a}, Leaf a → Digest a
  join : ∀ {a b}, Digest a → Digest b → Digest (op a b)
  injective : ∀ {a b c d}, Digest a → Digest b → Digest c → Digest d → op a b = op c d →
    a = c ∧ b = d
  apart : ∀ {a b c}, Leaf a → Digest b → Digest c → a ≠ op b c

/-- The second list is the first one, followed by repetitions out of it. -/
def Repeats (l l' : List α) : Prop := ∃ more, l' = l ++ more ∧ more ⊆ l

section Bound

variable {op : α → α → α} {Leaf Digest : α → Prop}

theorem Binding.value (h : Binding op Leaf Digest) : ∀ {t : Tree α}, (∀ a ∈ t.leaves, Leaf a) →
    Digest (t.value op)
  | .leaf a, ht => h.leaf (ht a (List.mem_singleton_self a))
  | .node _ _, ht =>
      h.join (h.value fun a ha => ht a (List.mem_append_left _ ha))
        (h.value fun a ha => ht a (List.mem_append_right _ ha))

/-- **The value determines the tree.** -/
theorem Binding.tree_eq (h : Binding op Leaf Digest) : ∀ {t u : Tree α},
    (∀ a ∈ t.leaves, Leaf a) → (∀ a ∈ u.leaves, Leaf a) → t.value op = u.value op → t = u
  | .leaf a, .leaf b, _, _, heq => congrArg Tree.leaf heq
  | .leaf a, .node left right, ht, hu, heq =>
      absurd heq (h.apart (ht a (List.mem_singleton_self a))
        (h.value fun b hb => hu b (List.mem_append_left _ hb))
        (h.value fun b hb => hu b (List.mem_append_right _ hb)))
  | .node left right, .leaf b, ht, hu, heq =>
      absurd heq.symm (h.apart (hu b (List.mem_singleton_self b))
        (h.value fun a ha => ht a (List.mem_append_left _ ha))
        (h.value fun a ha => ht a (List.mem_append_right _ ha)))
  | .node left right, .node left' right', ht, hu, heq => by
      have hl : ∀ a ∈ left.leaves, Leaf a := fun a ha => ht a (List.mem_append_left _ ha)
      have hr : ∀ a ∈ right.leaves, Leaf a := fun a ha => ht a (List.mem_append_right _ ha)
      have hl' : ∀ a ∈ left'.leaves, Leaf a := fun a ha => hu a (List.mem_append_left _ ha)
      have hr' : ∀ a ∈ right'.leaves, Leaf a := fun a ha => hu a (List.mem_append_right _ ha)
      obtain ⟨hleft, hright⟩ :=
        h.injective (h.value hl) (h.value hr) (h.value hl') (h.value hr') heq
      rw [h.tree_eq hl hl' hleft, h.tree_eq hr hr' hright]

/-- **A root binds its list** up to repetitions at the end. -/
theorem root_binding (h : Binding op Leaf Digest) {l l' : List α} (hl : ∀ a ∈ l, Leaf a)
    (hl' : ∀ a ∈ l', Leaf a) (hne : l ≠ []) (hne' : l' ≠ []) (hroot : root op l = root op l') :
    Repeats l l' ∨ Repeats l' l := by
  obtain ⟨t, more, ht, hleaves, hsub⟩ := leaves_root op hne
  obtain ⟨t', more', ht', hleaves', hsub'⟩ := leaves_root op hne'
  have htree : t = t' := by
    refine h.tree_eq ?_ ?_ (Option.some.inj (ht.symm.trans (hroot.trans ht')))
    · intro a ha
      rw [hleaves] at ha
      exact hl a ((List.mem_append.mp ha).elim id fun hm => hsub hm)
    · intro a ha
      rw [hleaves'] at ha
      exact hl' a ((List.mem_append.mp ha).elim id fun hm => hsub' hm)
  rw [htree, hleaves'] at hleaves
  rcases List.append_eq_append_iff.mp hleaves with ⟨tail, hlong, hmore⟩ | ⟨tail, hlong, hmore⟩
  · refine .inr ⟨tail, hlong, fun a ha => hsub' ?_⟩
    rw [hmore]
    exact List.mem_append_left _ ha
  · refine .inl ⟨tail, hlong, fun a ha => hsub ?_⟩
    rw [hmore]
    exact List.mem_append_left _ ha

theorem eq_of_repeats_nodup {l l' : List α} (h : Repeats l l') (hnodup : l'.Nodup) : l = l' := by
  obtain ⟨more, rfl, hsub⟩ := h
  cases more with
  | nil => exact (List.append_nil l).symm
  | cons a more =>
      have hdisjoint := (List.nodup_append.mp hnodup).2.2
      exact absurd rfl (hdisjoint a (hsub List.mem_cons_self) a List.mem_cons_self)

theorem eq_of_repeats_length {l l' : List α} (h : Repeats l l') (hlen : l.length = l'.length) :
    l = l' := by
  obtain ⟨more, rfl, -⟩ := h
  rw [List.length_append] at hlen
  obtain rfl : more = [] := List.eq_nil_of_length_eq_zero (by omega)
  exact (List.append_nil l).symm

end Bound

end AgentKernel.Lib.Merkle
