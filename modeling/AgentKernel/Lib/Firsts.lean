/-
  File:      AgentKernel/Lib/Firsts.lean
  Subject:   The first entry of each key of a list, and the first of its least entries.

  * `keepFirst key seen l` drops the entries whose key has been seen. What stays is the first entry
    of its key (`mem_keepFirst`), so keeping firsts in a part of the list before keeping them in
    the whole makes no difference (`keepFirst_nested`).
  * `sortOn f l` sorts by a score and leaves equal scores in order. At its head is the first of the
    least entries (`head?_sortOn_iff`); picking before sorting is picking after (`filter_sortOn`).
-/
import Mathlib

namespace AgentKernel.Lib

variable {α : Type}

/-! ## 1. The first entry of each key -/

section

variable {κ : Type} [DecidableEq κ] {key : α → κ}

/-- Of every key the first, without those seen before. -/
def keepFirst (key : α → κ) (seen : List κ) : List α → List α
  | [] => []
  | a :: l => if key a ∈ seen then keepFirst key seen l else a :: keepFirst key (seen ++ [key a]) l

theorem keepFirst_of_mem {a : α} {l : List α} {seen : List κ} (h : key a ∈ seen) :
    keepFirst key seen (a :: l) = keepFirst key seen l := if_pos h

theorem keepFirst_of_notMem {a : α} {l : List α} {seen : List κ} (h : key a ∉ seen) :
    keepFirst key seen (a :: l) = a :: keepFirst key (seen ++ [key a]) l := if_neg h

/-- The first entry with the key. -/
def firstOf (key : α → κ) (k : κ) (l : List α) : Option α := l.find? fun a => key a = k

theorem firstOf_append (k : κ) (l l' : List α) :
    firstOf key k (l ++ l') = (firstOf key k l).or (firstOf key k l') := List.find?_append

theorem firstOf_key {k : κ} {l : List α} {a : α} (h : firstOf key k l = some a) : key a = k := by
  simpa using List.find?_some h

theorem firstOf_mem {k : κ} {l : List α} {a : α} (h : firstOf key k l = some a) : a ∈ l :=
  List.mem_of_find?_eq_some h

theorem firstOf_isSome {l : List α} {a : α} (ha : a ∈ l) : (firstOf key (key a) l).isSome = true := by
  simpa [firstOf] using ⟨a, ha, rfl⟩

theorem firstOf_of_mem {l : List α} {a : α} (ha : a ∈ l) :
    ∃ b, firstOf key (key a) l = some b ∧ b ∈ l ∧ key b = key a := by
  have hsome : (firstOf key (key a) l).isSome = true := firstOf_isSome ha
  obtain ⟨b, hb⟩ := Option.isSome_iff_exists.mp hsome
  exact ⟨b, hb, firstOf_mem hb, firstOf_key hb⟩

/-- Keeping firsts leaves the first entry of every key that has not been seen. -/
theorem firstOf_keepFirst (k : κ) : ∀ (l : List α) (seen : List κ),
    firstOf key k (keepFirst key seen l) = if k ∈ seen then none else firstOf key k l
  | [], seen => by simp [keepFirst, firstOf]
  | a :: l, seen => by
      have ih := fun seen => firstOf_keepFirst k l seen
      unfold keepFirst
      by_cases hak : key a = k
      · subst hak
        by_cases hseen : key a ∈ seen
        · rw [if_pos hseen, ih, if_pos hseen, if_pos hseen]
        · rw [if_neg hseen, if_neg hseen]
          simp [firstOf]
      · have hskip : ∀ l : List α, firstOf key k (a :: l) = firstOf key k l :=
          fun l => List.find?_cons_of_neg (by simpa using hak)
        rw [hskip]
        split_ifs with ha hk hk
        · rw [ih, if_pos hk]
        · rw [ih, if_neg hk]
        · rw [hskip, ih, if_pos (List.mem_append_left _ hk)]
        · have hnot : k ∉ seen ++ [key a] := by
            simp only [List.mem_append, List.mem_singleton, not_or]
            exact ⟨hk, fun h => hak h.symm⟩
          rw [hskip, ih, if_neg hnot]

/-- Only what has been seen counts, not in which order. -/
theorem keepFirst_congr : ∀ (l : List α) {seen seen' : List κ}, (∀ k, k ∈ seen ↔ k ∈ seen') →
    keepFirst key seen l = keepFirst key seen' l
  | [], _, _, _ => rfl
  | a :: l, seen, seen', h => by
      have hsnoc : ∀ k, k ∈ seen ++ [key a] ↔ k ∈ seen' ++ [key a] := by simp [h]
      simp only [keepFirst, h (key a), keepFirst_congr l h, keepFirst_congr l hsnoc]

theorem keepFirst_append : ∀ (l l' : List α) (seen : List κ),
    keepFirst key seen (l ++ l') = keepFirst key seen l ++ keepFirst key (seen ++ l.map key) l'
  | [], l', seen => by simp [keepFirst]
  | a :: l, l', seen => by
      rw [List.cons_append]
      by_cases ha : key a ∈ seen
      · have hseen : ∀ k, k ∈ seen ++ l.map key ↔ k ∈ seen ++ (a :: l).map key := by
          intro k
          simp only [List.map_cons, List.mem_append, List.mem_cons]
          constructor
          · exact Or.imp id Or.inr
          · rintro (h | rfl | h)
            · exact .inl h
            · exact .inl ha
            · exact .inr h
        rw [keepFirst_of_mem ha, keepFirst_of_mem ha, ← keepFirst_congr l' hseen,
          keepFirst_append l l' seen]
      · have hseen : seen ++ (a :: l).map key = seen ++ [key a] ++ l.map key := by simp
        rw [keepFirst_of_notMem ha, keepFirst_of_notMem ha, hseen, List.cons_append,
          keepFirst_append l l' (seen ++ [key a])]

/-- What was kept knowing less may as well be the whole list. -/
theorem keepFirst_keepFirst : ∀ (l : List α) {seen seen' : List κ}, seen' ⊆ seen →
    keepFirst key seen (keepFirst key seen' l) = keepFirst key seen l
  | [], _, _, _ => rfl
  | a :: l, seen, seen', h => by
      have hsnoc : seen' ++ [key a] ⊆ seen ++ [key a] :=
        List.append_subset.mpr ⟨fun k hk => List.mem_append_left _ (h hk), by simp⟩
      by_cases ha' : key a ∈ seen'
      · simp only [keepFirst, if_pos ha', if_pos (h ha'), keepFirst_keepFirst l h]
      · by_cases ha : key a ∈ seen
        · have hwider : seen' ++ [key a] ⊆ seen :=
            List.append_subset.mpr ⟨h, by simpa using ha⟩
          simp only [keepFirst, if_neg ha', if_pos ha, keepFirst_keepFirst l hwider]
        · simp only [keepFirst, if_neg ha', if_neg ha, keepFirst_keepFirst l hsnoc]

/-- Every key of the list stays. -/
theorem mem_map_keepFirst {k : κ} {l : List α} :
    k ∈ (keepFirst key [] l).map key ↔ k ∈ l.map key := by
  have hiff : ∀ l : List α, k ∈ l.map key ↔ (firstOf key k l).isSome = true := by
    simp [firstOf, List.find?_isSome]
  rw [hiff, hiff, firstOf_keepFirst, if_neg List.not_mem_nil]

/-- **Keeping firsts in a part of the list first makes no difference.** -/
theorem keepFirst_nested (front l back : List α) :
    keepFirst key [] (front ++ keepFirst key [] l ++ back) = keepFirst key [] (front ++ l ++ back) := by
  have hseen : ∀ k, k ∈ [] ++ (front ++ keepFirst key [] l).map key ↔
      k ∈ [] ++ (front ++ l).map key := by
    intro k
    simp only [List.nil_append, List.map_append, List.mem_append, mem_map_keepFirst]
  rw [keepFirst_append, keepFirst_append _ back, keepFirst_congr back hseen, keepFirst_append,
    keepFirst_append front, keepFirst_keepFirst l (List.nil_subset _)]

/-- **What is kept is the first entry of its key.** -/
theorem mem_keepFirst : ∀ {l : List α} {seen : List κ} {a : α},
    a ∈ keepFirst key seen l ↔ key a ∉ seen ∧ firstOf key (key a) l = some a
  | [], seen, a => by simp [keepFirst, firstOf]
  | b :: l, seen, a => by
      unfold keepFirst
      by_cases hab : key b = key a
      · have hfirst : firstOf key (key a) (b :: l) = some b :=
          List.find?_cons_of_pos (by simpa using hab)
        rw [hfirst, Option.some.injEq]
        split_ifs with hb
        · rw [mem_keepFirst]
          constructor
          · rintro ⟨hnot, -⟩
            exact absurd (hab ▸ hb) hnot
          · rintro ⟨hnot, rfl⟩
            exact absurd hb hnot
        · rw [List.mem_cons, mem_keepFirst]
          constructor
          · rintro (rfl | ⟨hnot, -⟩)
            · exact ⟨hb, rfl⟩
            · exact absurd (List.mem_append_right _ (List.mem_singleton.mpr hab.symm)) hnot
          · rintro ⟨-, rfl⟩
            exact .inl rfl
      · have hfirst : firstOf key (key a) (b :: l) = firstOf key (key a) l :=
          List.find?_cons_of_neg (by simpa using hab)
        have hne : a ≠ b := fun h => hab (h ▸ rfl)
        rw [hfirst]
        split_ifs with hb
        · exact mem_keepFirst
        · rw [List.mem_cons, mem_keepFirst]
          simp only [hne, false_or, List.mem_append, List.mem_singleton, not_or]
          constructor
          · rintro ⟨⟨hnot, -⟩, h⟩
            exact ⟨hnot, h⟩
          · rintro ⟨hnot, h⟩
            exact ⟨⟨hnot, fun h => hab h.symm⟩, h⟩

/-- **Each key is kept once.** -/
theorem nodup_keepFirst : ∀ (l : List α) (seen : List κ), ((keepFirst key seen l).map key).Nodup
  | [], _ => List.nodup_nil
  | a :: l, seen => by
      by_cases ha : key a ∈ seen
      · rw [keepFirst_of_mem ha]
        exact nodup_keepFirst l seen
      · rw [keepFirst_of_notMem ha, List.map_cons, List.nodup_cons]
        refine ⟨fun hmem => ?_, nodup_keepFirst l _⟩
        obtain ⟨b, hb, hkey⟩ := List.mem_map.mp hmem
        refine (mem_keepFirst.mp hb).1 ?_
        rw [hkey]
        exact List.mem_append_right _ (List.mem_singleton_self _)

end

/-! ## 2. The first of the least entries -/

section

variable {β : Type} [LinearOrder β] {f : α → β}

/-- The stable sort by a score. -/
def sortOn (f : α → β) (l : List α) : List α := l.insertionSort fun a b => f a ≤ f b

/-- One step of the sort. -/
def insertOn (f : α → β) (a : α) (l : List α) : List α := l.orderedInsert (fun a b => f a ≤ f b) a

theorem sortOn_cons (f : α → β) (a : α) (l : List α) :
    sortOn f (a :: l) = insertOn f a (sortOn f l) := rfl

theorem insertOn_of_le {a b : α} (h : f a ≤ f b) (l : List α) :
    insertOn f a (b :: l) = a :: b :: l := if_pos h

theorem insertOn_of_not_le {a b : α} (h : ¬f a ≤ f b) (l : List α) :
    insertOn f a (b :: l) = b :: insertOn f a l := if_neg h

/-- No entry scores less, and those before it score more. -/
def FirstLeast (f : α → β) (l : List α) (m : α) : Prop :=
  ∃ front back, l = front ++ m :: back ∧ (∀ x ∈ front, f m < f x) ∧ ∀ x ∈ back, f m ≤ f x

theorem perm_sortOn (f : α → β) (l : List α) : (sortOn f l).Perm l := List.perm_insertionSort _ l

theorem pairwise_sortOn (f : α → β) (l : List α) : (sortOn f l).Pairwise fun a b => f a ≤ f b := by
  have htotal : Std.Total fun a b : α => f a ≤ f b := ⟨fun a b => le_total (f a) (f b)⟩
  have htrans : IsTrans α fun a b => f a ≤ f b := ⟨fun _ _ _ => le_trans⟩
  exact List.pairwise_insertionSort _ l

theorem FirstLeast.mem {l : List α} {m : α} (h : FirstLeast f l m) : m ∈ l := by
  obtain ⟨front, back, rfl, -, -⟩ := h
  simp

theorem FirstLeast.le {l : List α} {m : α} (h : FirstLeast f l m) {x : α} (hx : x ∈ l) :
    f m ≤ f x := by
  obtain ⟨front, back, rfl, hfront, hback⟩ := h
  rcases List.mem_append.mp hx with hx | hx
  · exact (hfront x hx).le
  · rcases List.mem_cons.mp hx with rfl | hx
    · exact le_rfl
    · exact hback x hx

theorem firstLeast_cons {a : α} {l : List α} {m : α} : FirstLeast f (a :: l) m ↔
    (m = a ∧ ∀ x ∈ l, f a ≤ f x) ∨ (f m < f a ∧ FirstLeast f l m) := by
  constructor
  · rintro ⟨front, back, heq, hfront, hback⟩
    cases front with
    | nil =>
        obtain ⟨rfl, rfl⟩ := List.cons.inj heq
        exact .inl ⟨rfl, hback⟩
    | cons b front =>
        obtain ⟨rfl, rfl⟩ := List.cons.inj heq
        exact .inr ⟨hfront a List.mem_cons_self,
          front, back, rfl, fun x hx => hfront x (List.mem_cons_of_mem _ hx), hback⟩
  · rintro (⟨rfl, hle⟩ | ⟨hlt, front, back, rfl, hfront, hback⟩)
    · exact ⟨[], l, rfl, fun x hx => absurd hx List.not_mem_nil, hle⟩
    · refine ⟨a :: front, back, rfl, fun x hx => ?_, hback⟩
      rcases List.mem_cons.mp hx with rfl | hx
      · exact hlt
      · exact hfront x hx

theorem firstLeast_append_iff {m : α} {back : List α} : ∀ {front : List α}, m ∉ front →
    (FirstLeast f (front ++ m :: back) m ↔ (∀ x ∈ front, f m < f x) ∧ ∀ x ∈ back, f m ≤ f x)
  | [], _ => by simp [firstLeast_cons]
  | a :: front, h => by
      obtain ⟨hne, hrest⟩ := not_or.mp (fun hm => h (List.mem_cons.mpr hm))
      have ih : FirstLeast f (front ++ m :: back) m ↔ _ := firstLeast_append_iff hrest
      rw [List.cons_append, firstLeast_cons, ih]
      simp [hne, and_assoc]

/-- **At the head of the sorted list is the first of the least entries.** -/
theorem head?_sortOn_iff {m : α} : ∀ {l : List α}, (sortOn f l).head? = some m ↔ FirstLeast f l m
  | [] => by
      constructor
      · intro h
        cases h
      · intro h
        cases h.mem
  | a :: l => by
      have ih : ∀ {m}, (sortOn f l).head? = some m ↔ FirstLeast f l m := head?_sortOn_iff
      rw [sortOn_cons, firstLeast_cons]
      cases hs : sortOn f l with
      | nil =>
          obtain rfl : l = [] := (hs ▸ perm_sortOn f l).nil_eq.symm
          have hnone : ¬FirstLeast f [] m := fun h => absurd h.mem List.not_mem_nil
          simp [insertOn, hnone, eq_comm]
      | cons b s =>
          have hb : FirstLeast f l b := ih.mp (by rw [hs]; rfl)
          have honly : ∀ {m}, FirstLeast f l m → b = m := fun h => by
            have hhead := ih.mpr h
            rw [hs] at hhead
            exact Option.some.inj hhead
          by_cases hab : f a ≤ f b
          · rw [insertOn_of_le hab, List.head?_cons, Option.some.injEq]
            constructor
            · rintro rfl
              exact .inl ⟨rfl, fun x hx => hab.trans (hb.le hx)⟩
            · rintro (⟨rfl, -⟩ | ⟨hlt, hm⟩)
              · rfl
              · rw [← honly hm] at hlt
                exact absurd hab hlt.not_ge
          · rw [insertOn_of_not_le hab, List.head?_cons, Option.some.injEq]
            constructor
            · rintro rfl
              exact .inr ⟨not_le.mp hab, hb⟩
            · rintro (⟨rfl, hle⟩ | ⟨-, hm⟩)
              · exact absurd (hle b hb.mem) hab
              · exact honly hm

theorem filter_insertOn_of_neg {p : α → Bool} {a : α} (ha : ¬p a = true) : ∀ l : List α,
    (insertOn f a l).filter p = l.filter p
  | [] => List.filter_cons_of_neg ha
  | b :: l => by
      by_cases hab : f a ≤ f b
      · rw [insertOn_of_le hab]
        exact List.filter_cons_of_neg ha
      · rw [insertOn_of_not_le hab, List.filter_cons, List.filter_cons, filter_insertOn_of_neg ha l]

theorem filter_insertOn_of_pos {p : α → Bool} {a : α} (ha : p a = true) : ∀ {l : List α},
    (l.Pairwise fun a b => f a ≤ f b) →
      (insertOn f a l).filter p = insertOn f a (l.filter p)
  | [], _ => List.filter_cons_of_pos ha
  | b :: l, h => by
      obtain ⟨hb, hl⟩ := List.pairwise_cons.mp h
      by_cases hab : f a ≤ f b
      · rw [insertOn_of_le hab, List.filter_cons_of_pos ha]
        cases hfilter : (b :: l).filter p with
        | nil => rfl
        | cons c l' =>
            -- what the filter leaves in front scores no less than `b`
            have hc : c ∈ b :: l := List.mem_of_mem_filter (hfilter ▸ List.mem_cons_self)
            have hac : f a ≤ f c := by
              rcases List.mem_cons.mp hc with rfl | hc
              · exact hab
              · exact hab.trans (hb c hc)
            rw [insertOn_of_le hac]
      · have ih := filter_insertOn_of_pos ha hl
        rw [insertOn_of_not_le hab]
        by_cases hpb : p b = true
        · rw [List.filter_cons_of_pos hpb, List.filter_cons_of_pos hpb, ih, insertOn_of_not_le hab]
        · rw [List.filter_cons_of_neg hpb, List.filter_cons_of_neg hpb, ih]

/-- **Picking after the sort is picking before it.** -/
theorem filter_sortOn (p : α → Bool) : ∀ l : List α,
    (sortOn f l).filter p = sortOn f (l.filter p)
  | [] => rfl
  | a :: l => by
      have ih := filter_sortOn p l
      rw [sortOn_cons]
      by_cases ha : p a = true
      · rw [filter_insertOn_of_pos ha (pairwise_sortOn f l), List.filter_cons_of_pos ha, ih,
          sortOn_cons]
      · rw [filter_insertOn_of_neg ha, List.filter_cons_of_neg ha, ih]

end

end AgentKernel.Lib
