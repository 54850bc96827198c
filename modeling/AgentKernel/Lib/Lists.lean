/-
  File:      AgentKernel/Lib/Lists.lean
  Subject:   Picking from a list and appending to it; counting over, and inserting into, a list
             whose entries change one at a time; inserting by a key; mapping with a partial
             function; a log that several owners share.
-/
import Mathlib

namespace AgentKernel.Lib

variable {α : Type}

theorem prefix_singleton {a : α} {front : List α} (h : front <+: [a]) :
    front = [] ∨ front = [a] :=
  (List.prefix_cons_iff.mp h).imp id fun ⟨_, hfront, hrest⟩ => by
    rw [hfront, List.prefix_nil.mp hrest]

theorem eraseDups_snoc [DecidableEq α] (l : List α) (a : α) : (l ++ [a]).eraseDups =
    if a ∈ l then l.eraseDups else l.eraseDups ++ [a] := by
  rw [List.eraseDups_append]
  split_ifs with hin
  · simp [List.removeAll, hin]
  · simp [List.removeAll, hin, List.eraseDups_cons]

/-- A stronger predicate picks, in the same order, some of what a weaker one picks. -/
theorem filter_sublist_filter {l : List α} {p q : α → Bool}
    (h : ∀ a ∈ l, p a = true → q a = true) : (l.filter p).Sublist (l.filter q) := by
  have hsame : l.filter p = (l.filter q).filter p := by
    rw [List.filter_filter]
    refine List.filter_congr fun a ha => ?_
    cases hp : p a with
    | false => rfl
    | true => rw [h a ha hp, Bool.and_self]
  rw [hsame]
  exact List.filter_sublist

/-- A count falls when the predicate loses an entry and gains none. -/
theorem countP_lt {p q : α → Bool} : ∀ {l : List α}, (∀ x ∈ l, p x = true → q x = true) →
    (∃ x ∈ l, q x = true ∧ p x = false) → l.countP p < l.countP q
  | [], _, ⟨_, hx, _⟩ => by cases hx
  | a :: l, h, ⟨x, hx, hq, hp⟩ => by
      have hle : l.countP p ≤ l.countP q :=
        List.countP_mono_left fun y hy => h y (List.mem_cons_of_mem _ hy)
      rcases List.mem_cons.mp hx with rfl | hx
      · rw [List.countP_cons_of_neg (by simp [hp]), List.countP_cons_of_pos hq]
        omega
      · have ih := countP_lt (fun y hy => h y (List.mem_cons_of_mem _ hy)) ⟨x, hx, hq, hp⟩
        have ha := h a List.mem_cons_self
        by_cases hpa : p a = true
        · rw [List.countP_cons_of_pos hpa, List.countP_cons_of_pos (ha hpa)]
          omega
        · rw [List.countP_cons_of_neg hpa]
          exact Nat.lt_of_lt_of_le ih ((List.sublist_cons_self a l).countP_le)

/-- Setting one entry keeps every entry that is not the old one. -/
theorem mem_set_of_ne {l : List α} {i : Nat} {old new a : α} (hi : l[i]? = some old) (ha : a ∈ l)
    (hne : a ≠ old) : a ∈ l.set i new := by
  obtain ⟨j, hj⟩ := List.mem_iff_getElem?.mp ha
  refine List.mem_iff_getElem?.mpr ⟨j, ?_⟩
  have hij : i ≠ j := by
    rintro rfl
    rw [hi] at hj
    exact hne (Option.some.inj hj).symm
  rw [List.getElem?_set_ne hij, hj]

theorem mem_set_self {l : List α} {i : Nat} {old new : α} (hi : l[i]? = some old) :
    new ∈ l.set i new := by
  have hlt : i < l.length := (List.getElem?_eq_some_iff.mp hi).1
  exact List.mem_iff_getElem?.mpr ⟨i, by rw [List.getElem?_set_self hlt]⟩

/-- A sum over the entries when one of them is replaced. -/
theorem sum_map_set (f : α → Nat) {old : α} (new : α) : ∀ {l : List α} {i : Nat}, l[i]? = some old →
    ((l.set i new).map f).sum + f old = (l.map f).sum + f new
  | [], _, h => by cases h
  | a :: l, 0, h => by
      cases h
      simp only [List.set_cons_zero, List.map_cons, List.sum_cons]
      omega
  | a :: l, i + 1, h => by
      have ih := sum_map_set f new (l := l) (i := i) h
      simp only [List.set_cons_succ, List.map_cons, List.sum_cons]
      omega

theorem filterMap_cons_toList {β : Type} (f : α → Option β) (a : α) (l : List α) :
    (a :: l).filterMap f = (f a).toList ++ l.filterMap f := by
  rw [List.filterMap_cons]
  cases f a <;> rfl

/-- What a partial function picks when one of the entries is replaced. -/
theorem filterMap_set_perm {β : Type} (f : α → Option β) {old : α} (new : α) : ∀ {l : List α} {i : Nat},
    l[i]? = some old →
      ((f new).toList ++ l.filterMap f).Perm ((f old).toList ++ (l.set i new).filterMap f)
  | [], _, h => by cases h
  | a :: l, 0, h => by
      cases h
      rw [List.set_cons_zero, filterMap_cons_toList, filterMap_cons_toList]
      exact List.perm_append_comm_assoc ..
  | a :: l, i + 1, h => by
      have ih := filterMap_set_perm f new (l := l) (i := i) h
      rw [List.set_cons_succ, filterMap_cons_toList, filterMap_cons_toList]
      exact (List.perm_append_comm_assoc ..).trans
        ((ih.append_left _).trans (List.perm_append_comm_assoc ..))

theorem insertIdx_append (a : α) : ∀ (A B : List α), (A ++ B).insertIdx A.length a = A ++ a :: B
  | [], B => List.insertIdx_zero
  | x :: A, B => by
      rw [List.cons_append, List.length_cons, List.insertIdx_succ_cons, insertIdx_append a A B]
      rfl

/-- An insertion splits the list. -/
theorem insertIdx_split {l : List α} {k : Nat} (hk : k ≤ l.length) (a : α) :
    ∃ A B, l = A ++ B ∧ l.insertIdx k a = A ++ a :: B := by
  refine ⟨l.take k, l.drop k, (List.take_append_drop k l).symm, ?_⟩
  have h := insertIdx_append a (l.take k) (l.drop k)
  rwa [List.take_append_drop, List.length_take, Nat.min_eq_left hk] at h

/-- Two readings that together determine an entry determine a list. -/
theorem eq_of_map_eq {β γ : Type} {f : α → β} {g : α → γ}
    (hfg : ∀ a b, f a = f b → g a = g b → a = b) : ∀ {l l' : List α}, l.map f = l'.map f →
    l.map g = l'.map g → l = l'
  | [], _, hf, _ => (List.map_eq_nil_iff.mp hf.symm).symm
  | a :: l, [], hf, _ => by cases hf
  | a :: l, b :: l', hf, hg => by
      obtain ⟨hfa, hfl⟩ := List.cons.inj hf
      obtain ⟨hga, hgl⟩ := List.cons.inj hg
      rw [hfg a b hfa hga, eq_of_map_eq hfg hfl hgl]

/-! ## Keyed lists -/

section Keyed

variable {k : α → Nat} {a : α}

/-- What has a key above all others is inserted behind them. -/
theorem orderedInsert_last : ∀ {l : List α}, (∀ x ∈ l, k x < k a) →
    l.orderedInsert (fun a b => k a ≤ k b) a = l ++ [a]
  | [], _ => rfl
  | x :: l, h => by
      have hx : ¬ k a ≤ k x := Nat.not_le.mpr (h x List.mem_cons_self)
      rw [List.orderedInsert, if_neg hx,
        orderedInsert_last fun y hy => h y (List.mem_cons_of_mem _ hy)]
      rfl

/-- A new key keeps the keys distinct and in order. -/
theorem pairwise_orderedInsert : ∀ {l : List α}, (l.map k).Pairwise (· < ·) →
    (∀ x ∈ l, k x ≠ k a) → ((l.orderedInsert (fun a b => k a ≤ k b) a).map k).Pairwise (· < ·)
  | [], _, _ => List.pairwise_singleton _ _
  | x :: l, hl, hnew => by
      obtain ⟨hx, hrest⟩ := List.pairwise_cons.mp hl
      by_cases hax : k a ≤ k x
      · have hlt : k a < k x := Nat.lt_of_le_of_ne hax (hnew x List.mem_cons_self).symm
        rw [List.orderedInsert, if_pos hax]
        refine List.pairwise_cons.mpr ⟨fun m hm => ?_, hl⟩
        rcases List.mem_cons.mp hm with rfl | hm
        · exact hlt
        · exact hlt.trans (hx m hm)
      · rw [List.orderedInsert, if_neg hax]
        have ih := pairwise_orderedInsert hrest fun y hy => hnew y (List.mem_cons_of_mem _ hy)
        refine List.pairwise_cons.mpr ⟨fun m hm => ?_, ih⟩
        obtain ⟨y, hy, rfl⟩ := List.mem_map.mp hm
        rcases List.mem_cons.mp ((List.perm_orderedInsert _ _ _).mem_iff.mp hy) with rfl | hy
        · exact Nat.not_le.mp hax
        · exact hx _ (List.mem_map_of_mem hy)

/-- Insertion by a key commutes with reading each entry. -/
theorem forall₂_orderedInsert {β : Type} {k' : β → Nat} {b : β} {R : α → β → Prop}
    (hkey : ∀ x y, R x y → k x = k' y) (hab : R a b) : ∀ {l : List α} {l' : List β},
    List.Forall₂ R l l' → List.Forall₂ R (l.orderedInsert (fun a b => k a ≤ k b) a)
      (l'.orderedInsert (fun a b => k' a ≤ k' b) b)
  | [], _, .nil => .cons hab .nil
  | x :: l, y :: l', .cons hxy hl => by
      rw [List.orderedInsert, List.orderedInsert, hkey a b hab, hkey x y hxy]
      by_cases hle : k' b ≤ k' y
      · rw [if_pos hle, if_pos hle]
        exact .cons hab (.cons hxy hl)
      · rw [if_neg hle, if_neg hle]
        exact .cons hxy (forall₂_orderedInsert hkey hab hl)

/-- What is on the right has what it goes with on the left. -/
theorem exists_of_forall₂ {β : Type} {R : α → β → Prop} {b : β} {l : List α} {l' : List β}
    (h : List.Forall₂ R l l') (hb : b ∈ l') : ∃ a ∈ l, R a b := by
  induction h with
  | nil => cases hb
  | @cons x y l l' hxy _ ih =>
      rcases List.mem_cons.mp hb with rfl | hb
      · exact ⟨x, List.mem_cons_self, hxy⟩
      · obtain ⟨a, ha, hab⟩ := ih hb
        exact ⟨a, List.mem_cons_of_mem _ ha, hab⟩

/-- A partial function maps a list just when it maps every entry. -/
theorem mapM_some_iff {β : Type} {f : α → Option β} : ∀ {l : List α} {l' : List β},
    l.mapM f = some l' ↔ List.Forall₂ (fun a b => f a = some b) l l'
  | [], l' => by
      rw [List.mapM_nil, List.forall₂_nil_left_iff]
      exact ⟨fun h => (Option.some.inj h).symm, fun h => congrArg some h.symm⟩
  | x :: l, l' => by
      rw [List.mapM_cons, List.forall₂_cons_left_iff]
      constructor
      · intro h
        obtain ⟨b, hb, h⟩ := Option.bind_eq_some_iff.mp h
        obtain ⟨bs, hbs, h⟩ := Option.bind_eq_some_iff.mp h
        exact ⟨b, bs, hb, mapM_some_iff.mp hbs, (Option.some.inj h).symm⟩
      · rintro ⟨b, bs, hb, hbs, rfl⟩
        rw [hb, mapM_some_iff.mpr hbs]
        rfl

end Keyed

/-! ## Shared logs -/

section Attributed

variable {κ β : Type} [DecidableEq κ] {k : κ} {owners : List κ} {log : List (κ × β)}
  {own : Nat → List β} {new : List β}

/-- The entries of a log that are tagged with `k`. -/
def taggedWith (k : κ) (log : List (κ × β)) : List β :=
  log.filterMap fun p => if p.1 = k then some p.2 else none

theorem taggedWith_append {log' : List (κ × β)} :
    taggedWith k (log ++ log') = taggedWith k log ++ taggedWith k log' := List.filterMap_append ..

theorem taggedWith_self : taggedWith k (new.map fun b => (k, b)) = new := by
  simp [taggedWith, List.filterMap_map]

theorem taggedWith_other {k' : κ} (h : k' ≠ k) : taggedWith k (new.map fun b => (k', b)) = [] := by
  simp [taggedWith, List.filterMap_map, h]

/-- Each entry of the log is of one of the owners, and each owner's are just its own. -/
structure Attributed (owners : List κ) (log : List (κ × β)) (own : Nat → List β) : Prop where
  own : ∀ i k, owners[i]? = some k → taggedWith k log = own i
  known : ∀ p ∈ log, p.1 ∈ owners

theorem Attributed.nil : Attributed ([] : List κ) ([] : List (κ × β)) own where
  own i k hi := by cases hi
  known p hp := by cases hp

/-- An owner adds to the log. -/
theorem Attributed.append {own' : Nat → List β} {j : Nat} (h : Attributed owners log own)
    (hdistinct : owners.Nodup) (hj : owners[j]? = some k) (hself : own' j = own j ++ new)
    (hother : ∀ i, i ≠ j → own' i = own i) :
    Attributed owners (log ++ new.map fun b => (k, b)) own' where
  own i k' hi := by
    rw [taggedWith_append, h.own i k' hi]
    by_cases heq : i = j
    · subst heq
      obtain rfl := Option.some.inj (hi.symm.trans hj)
      rw [taggedWith_self, hself]
    · have hne : k ≠ k' := by
        rintro rfl
        have hlt : i < owners.length := (List.getElem?_eq_some_iff.mp hi).1
        exact heq ((List.getElem?_inj hlt hdistinct).mp (hi.trans hj.symm))
      rw [taggedWith_other hne, List.append_nil, hother i heq]
  known p hp := by
    rcases List.mem_append.mp hp with hp | hp
    · exact h.known p hp
    · obtain ⟨b, -, rfl⟩ := List.mem_map.mp hp
      exact List.mem_of_getElem? hj

/-- A new owner has nothing in the log yet. -/
theorem Attributed.enter (h : Attributed owners log own) (hnew : k ∉ owners)
    (hown : own owners.length = []) : Attributed (owners ++ [k]) log own where
  own i k' hi := by
    rw [List.getElem?_append] at hi
    split_ifs at hi with hlt
    · exact h.own i k' hi
    · obtain ⟨hone, rfl⟩ := List.getElem?_eq_some_iff.mp hi
      have hlast : i = owners.length := by
        rw [List.length_singleton] at hone
        omega
      subst hlast
      rw [hown]
      refine List.filterMap_eq_nil_iff.mpr fun p hp => if_neg fun heq => hnew ?_
      simp only [List.getElem_singleton] at heq
      exact heq ▸ h.known p hp
  known p hp := List.mem_append_left _ (h.known p hp)

end Attributed

end AgentKernel.Lib
