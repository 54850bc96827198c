/-
  File:      AgentKernel/Lib/Splitting.lean
  Subject:   Splitting a list at the occurrences of another, and joining the pieces with a third.

  `pieces s l` are what stands between the occurrences of `s` in `l`, found from the left and not
  overlapping. No piece contains `s` (`not_infix_of_mem_pieces`). Joined with a marker, they contain
  nothing that the list did not, but what reads across an edge of a marker (`infix_join`), and that
  shares letters with the marker (`Straddles.meshes`).

  Several lists are replaced by the marker one after the other. `splitAll` cuts at each of them
  without a marker; it is the same, as long as none is found across a marker (`foldl_join`).
-/
import Mathlib

namespace AgentKernel.Lib

variable {α : Type} [DecidableEq α]

/-! ## 1. Pieces -/

/-- The pieces of a list, the first `k` entries skipped. -/
def piecesFrom (s : List α) : Nat → List α → List (List α)
  | _, [] => [[]]
  | k + 1, _ :: l => piecesFrom s k l
  | 0, a :: l =>
      if s <+: a :: l then [] :: piecesFrom s (s.length - 1) l
      else match piecesFrom s 0 l with
        | [] => [[a]]
        | piece :: rest => (a :: piece) :: rest

/-- What stands between the separators. -/
def pieces (s l : List α) : List (List α) := piecesFrom s 0 l

variable {s marker : List α}

theorem piecesFrom_ne_nil : ∀ (l : List α) (k : Nat), piecesFrom s k l ≠ []
  | [], _ => by simp [piecesFrom]
  | a :: l, k + 1 => piecesFrom_ne_nil l k
  | a :: l, 0 => by
      unfold piecesFrom
      split_ifs
      · exact List.cons_ne_nil _ _
      · cases piecesFrom s 0 l <;> exact List.cons_ne_nil _ _

theorem pieces_ne_nil (l : List α) : pieces s l ≠ [] := piecesFrom_ne_nil l 0

/-- An entry where `s` does not start belongs to the first piece. -/
theorem pieces_cons_of_not_prefix {a : α} {l : List α} (h : ¬s <+: a :: l) :
    ∃ piece rest, pieces s l = piece :: rest ∧ pieces s (a :: l) = (a :: piece) :: rest := by
  obtain ⟨piece, rest, heq⟩ := List.exists_cons_of_ne_nil (piecesFrom_ne_nil (s := s) l 0)
  refine ⟨piece, rest, heq, ?_⟩
  unfold pieces
  rw [piecesFrom, if_neg h, heq]

/-- **Joined with `s` again, the pieces are the list.** -/
theorem intercalate_piecesFrom (hs : s ≠ []) : ∀ (l : List α) (k : Nat),
    s.intercalate (piecesFrom s k l) = l.drop k
  | [], k => by simp [piecesFrom]
  | a :: l, k + 1 => intercalate_piecesFrom hs l k
  | a :: l, 0 => by
      by_cases h : s <+: a :: l
      · have ih := intercalate_piecesFrom hs l (s.length - 1)
        obtain ⟨b, s', rfl⟩ := List.exists_cons_of_ne_nil hs
        obtain ⟨rfl, t, rfl⟩ := List.cons_prefix_cons.mp h
        rw [piecesFrom, if_pos h, List.intercalate_cons_of_ne_nil (piecesFrom_ne_nil _ _), ih]
        simp
      · have ih := intercalate_piecesFrom hs l 0
        obtain ⟨piece, rest, heq, hcons⟩ := pieces_cons_of_not_prefix h
        unfold pieces at heq hcons
        rw [hcons]
        rw [heq] at ih
        cases rest with
        | nil => simpa using ih
        | cons piece' rest => simpa [List.intercalate_cons_cons] using ih

omit [DecidableEq α] in
theorem infix_intercalate {piece : List α} : ∀ {ps : List (List α)}, piece ∈ ps →
    piece <:+: marker.intercalate ps
  | [p], h => by
      obtain rfl := List.mem_singleton.mp h
      exact List.intercalate_singleton ▸ List.infix_rfl
  | p :: q :: ps, h => by
      rw [List.intercalate_cons_cons]
      rcases List.mem_cons.mp h with rfl | h
      · exact ⟨[], marker ++ marker.intercalate (q :: ps), by simp⟩
      · exact (infix_intercalate h).trans (List.suffix_append _ _).isInfix

theorem infix_of_mem_pieces (hs : s ≠ []) {l piece : List α} (h : piece ∈ pieces s l) :
    piece <:+: l := by
  have hjoin : s.intercalate (pieces s l) = l := intercalate_piecesFrom hs l 0
  have hinfix : piece <:+: s.intercalate (pieces s l) := infix_intercalate h
  rwa [hjoin] at hinfix

theorem prefix_of_pieces (hs : s ≠ []) {l piece : List α} {rest : List (List α)}
    (h : pieces s l = piece :: rest) : piece <+: l := by
  have hjoin : s.intercalate (pieces s l) = l := intercalate_piecesFrom hs l 0
  rw [h] at hjoin
  cases rest with
  | nil =>
      rw [List.intercalate_singleton] at hjoin
      exact hjoin ▸ List.prefix_rfl
  | cons piece' rest =>
      rw [List.intercalate_cons_cons, List.append_assoc] at hjoin
      exact ⟨_, hjoin⟩

/-- **No piece contains `s`.** -/
theorem not_infix_of_mem_piecesFrom (hs : s ≠ []) : ∀ (l : List α) (k : Nat),
    ∀ piece ∈ piecesFrom s k l, ¬s <:+: piece
  | [], k, piece, h => by
      obtain rfl := List.mem_singleton.mp h
      simpa using hs
  | a :: l, k + 1, piece, h => not_infix_of_mem_piecesFrom hs l k piece h
  | a :: l, 0, piece, h => by
      by_cases hprefix : s <+: a :: l
      · rw [piecesFrom, if_pos hprefix] at h
        rcases List.mem_cons.mp h with rfl | h
        · simpa using hs
        · exact not_infix_of_mem_piecesFrom hs l _ piece h
      · have ih := not_infix_of_mem_piecesFrom hs l 0
        obtain ⟨first, rest, heq, hcons⟩ := pieces_cons_of_not_prefix hprefix
        have hfirst : first <+: l := prefix_of_pieces hs heq
        unfold pieces at heq hcons
        rw [heq] at ih
        rw [hcons] at h
        rcases List.mem_cons.mp h with rfl | h
        · rw [List.infix_cons_iff]
          rintro (hat | hin)
          · exact hprefix (hat.trans (List.cons_prefix_cons.mpr ⟨rfl, hfirst⟩))
          · exact ih first List.mem_cons_self hin
        · exact ih piece (List.mem_cons_of_mem _ h)

theorem not_infix_of_mem_pieces (hs : s ≠ []) {l piece : List α} (h : piece ∈ pieces s l) :
    ¬s <:+: piece := not_infix_of_mem_piecesFrom hs l 0 piece h

/-! ## 2. Joining with a marker -/

/-- An occurrence of `r` overlaps the marker between `front` and `back`. -/
def Overlaps (r front marker back : List α) : Prop :=
  ∃ x y, front ++ marker ++ back = x ++ r ++ y ∧
    x.length < front.length + marker.length ∧ front.length < x.length + r.length

/-- An occurrence of `r` in the joined pieces overlaps a marker between them. -/
def Straddles (r marker : List α) (ps : List (List α)) : Prop :=
  ∃ front back, ps = front ++ back ∧ front ≠ [] ∧ back ≠ [] ∧
    Overlaps r (marker.intercalate front) marker (marker.intercalate back)

section

omit [DecidableEq α]

variable {r : List α} {ps : List (List α)}

theorem intercalate_append : ∀ {front back : List (List α)}, front ≠ [] → back ≠ [] →
    marker.intercalate (front ++ back) =
      marker.intercalate front ++ marker ++ marker.intercalate back
  | [p], back, _, hback => by
      rw [List.intercalate_singleton, List.singleton_append,
        List.intercalate_cons_of_ne_nil hback]
  | p :: q :: front, back, _, hback => by
      have ih : marker.intercalate (q :: front ++ back) = _ :=
        intercalate_append (List.cons_ne_nil _ _) hback
      rw [List.cons_append, List.intercalate_cons_of_ne_nil (by simp), ih,
        List.intercalate_cons_cons]
      simp only [List.append_assoc]

theorem Straddles.cons (p : List α) (h : Straddles r marker ps) : Straddles r marker (p :: ps) := by
  obtain ⟨front, back, rfl, hfront, hback, x, y, heq, hx, hr⟩ := h
  have hcons : marker.intercalate (p :: front) = p ++ marker ++ marker.intercalate front :=
    List.intercalate_cons_of_ne_nil hfront
  refine ⟨p :: front, back, rfl, List.cons_ne_nil _ _, hback, p ++ marker ++ x, y, ?_, ?_, ?_⟩
  · rw [hcons]
    simpa [List.append_assoc] using heq
  · rw [hcons]
    simp only [List.length_append]
    omega
  · rw [hcons]
    simp only [List.length_append]
    omega

/-- **What the joined pieces contain, a piece contains, or it overlaps a marker.** -/
theorem infix_join : ∀ {ps : List (List α)}, ps ≠ [] → r <:+: marker.intercalate ps →
    (∃ p ∈ ps, r <:+: p) ∨ Straddles r marker ps
  | [p], _, h => .inl ⟨p, List.mem_cons_self, by rwa [List.intercalate_singleton] at h⟩
  | p :: q :: ps, _, h => by
      obtain ⟨x, y, heq⟩ := h
      rw [List.intercalate_cons_cons] at heq
      by_cases hleft : x.length + r.length ≤ p.length
      · have hprefix : x ++ r <+: p := by
          refine List.prefix_of_prefix_length_le ⟨y, heq⟩ ?_ (by simpa using hleft)
          rw [List.append_assoc]
          exact List.prefix_append _ _
        exact .inl ⟨p, List.mem_cons_self,
          (List.suffix_append x r).isInfix.trans hprefix.isInfix⟩
      · by_cases hright : p.length + marker.length ≤ x.length
        · have hprefix : p ++ marker <+: x := by
            refine List.prefix_of_prefix_length_le ⟨marker.intercalate (q :: ps), heq.symm⟩ ?_
              (by simpa using hright)
            rw [List.append_assoc]
            exact List.prefix_append _ _
          obtain ⟨x', rfl⟩ := hprefix
          have hrest : r <:+: marker.intercalate (q :: ps) := by
            refine ⟨x', y, ?_⟩
            simpa [List.append_assoc] using heq
          rcases infix_join (List.cons_ne_nil _ _) hrest with ⟨p', hp', hin⟩ | hstraddles
          · exact .inl ⟨p', List.mem_cons_of_mem _ hp', hin⟩
          · exact .inr (hstraddles.cons p)
        · refine .inr ⟨[p], q :: ps, rfl, List.cons_ne_nil _ _, List.cons_ne_nil _ _, x, y, ?_, ?_, ?_⟩
          · rw [List.intercalate_singleton, heq]
          · rw [List.intercalate_singleton]
            omega
          · rw [List.intercalate_singleton]
            omega

/-- `r` and the marker share letters: `r` begins with an end of it, ends with a beginning of it, or
    contains it. -/
def Meshes (r marker : List α) : Prop :=
  (∃ b, b ≠ [] ∧ b <:+ marker ∧ b <+: r) ∨ (∃ b, b ≠ [] ∧ b <+: marker ∧ b <:+ r) ∨ marker <:+: r

/-- **What overlaps a marker, and is no part of it, shares letters with it.** -/
theorem Overlaps.meshes {A B : List α} (h : Overlaps r A marker B) (hnot : ¬r <:+: marker) :
    Meshes r marker := by
  obtain ⟨x, y, heq, hx, hr⟩ := h
  rw [List.append_assoc, List.append_assoc] at heq
  by_cases hstart : x.length ≤ A.length
  · -- `r` begins before the marker: behind `A'` it goes on with the marker
    obtain ⟨A', rfl⟩ : x <+: A := List.prefix_of_prefix_length_le ⟨r ++ y, heq.symm⟩
      (List.prefix_append A _) hstart
    rw [List.append_assoc, List.append_cancel_left_eq] at heq
    rw [List.length_append] at hr
    obtain ⟨r', rfl⟩ : A' <+: r := List.prefix_of_prefix_length_le ⟨marker ++ B, heq⟩
      (List.prefix_append r y) (by omega)
    rw [List.append_assoc, List.append_cancel_left_eq] at heq
    rw [List.length_append] at hr
    rcases le_total marker.length r'.length with hle | hle
    · have hin : marker <+: r' := List.prefix_of_prefix_length_le ⟨B, heq⟩ (List.prefix_append r' y) hle
      exact .inr (.inr (hin.isInfix.trans (List.suffix_append A' r').isInfix))
    · have hin : r' <+: marker :=
        List.prefix_of_prefix_length_le ⟨y, heq.symm⟩ (List.prefix_append marker B) hle
      refine .inr (.inl ⟨r', fun hnil => ?_, hin, List.suffix_append A' r'⟩)
      rw [hnil] at hr
      simp only [List.length_nil] at hr
      omega
  · obtain ⟨x', rfl⟩ : A <+: x := List.prefix_of_prefix_length_le ⟨marker ++ B, heq⟩
      (List.prefix_append x _) (by omega)
    rw [List.append_assoc, List.append_cancel_left_eq] at heq
    rw [List.length_append] at hx hstart
    obtain ⟨b, rfl⟩ : x' <+: marker := List.prefix_of_prefix_length_le ⟨r ++ y, heq.symm⟩
      (List.prefix_append marker B) (by omega)
    rw [List.append_assoc, List.append_cancel_left_eq] at heq
    rw [List.length_append] at hx
    rcases le_total b.length r.length with hle | hle
    · have hin : b <+: r := List.prefix_of_prefix_length_le ⟨B, heq⟩ (List.prefix_append r y) hle
      refine .inl ⟨b, fun hnil => ?_, List.suffix_append x' b, hin⟩
      rw [hnil, List.length_nil] at hx
      omega
    · have hin : r <+: b := List.prefix_of_prefix_length_le ⟨y, heq.symm⟩ (List.prefix_append b B) hle
      exact absurd (hin.isInfix.trans (List.suffix_append x' b).isInfix) hnot

theorem Straddles.meshes (h : Straddles r marker ps) (hnot : ¬r <:+: marker) : Meshes r marker := by
  obtain ⟨front, back, -, -, -, hover⟩ := h
  exact hover.meshes hnot

theorem Straddles.infix (h : Straddles r marker ps) : r <:+: marker.intercalate ps := by
  obtain ⟨front, back, rfl, hfront, hback, x, y, heq, -, -⟩ := h
  rw [intercalate_append hfront hback, heq]
  exact ⟨x, y, rfl⟩

/-- The marker is the one behind the first `k` pieces, and the occurrence begins at `i`. -/
theorem straddles_iff : Straddles r marker ps ↔ ∃ k < ps.length, 0 < k ∧
    ∃ i < (marker.intercalate (ps.take k)).length + marker.length,
      (marker.intercalate (ps.take k)).length < i + r.length ∧
        r <+: (marker.intercalate ps).drop i := by
  constructor
  · rintro ⟨front, back, rfl, hfront, hback, x, y, heq, hx, hr⟩
    refine ⟨front.length, ?_, List.length_pos_iff.mpr hfront, x.length, ?_, ?_, ?_⟩
    · have := List.length_pos_iff.mpr hback
      rw [List.length_append]
      omega
    · rwa [List.take_left]
    · rwa [List.take_left]
    · rw [intercalate_append hfront hback, heq, List.append_assoc, List.drop_left]
      exact List.prefix_append r y
  · rintro ⟨k, hk, hpos, i, hi, hr, y, hy⟩
    have hfront : ps.take k ≠ [] := by
      rw [ne_eq, List.take_eq_nil_iff, not_or]
      exact ⟨hpos.ne', List.ne_nil_of_length_pos (hpos.trans hk)⟩
    have hback : ps.drop k ≠ [] := by
      rw [ne_eq, List.drop_eq_nil_iff]
      omega
    have hjoin : marker.intercalate (ps.take k ++ ps.drop k) = _ := intercalate_append hfront hback
    rw [List.take_append_drop] at hjoin
    have hlen : ((marker.intercalate ps).take i).length = i := by
      rw [List.length_take, hjoin]
      simp only [List.length_append]
      omega
    refine ⟨ps.take k, ps.drop k, (List.take_append_drop k ps).symm, hfront, hback,
      (marker.intercalate ps).take i, y, ?_, ?_, ?_⟩
    · rw [← hjoin, List.append_assoc, hy, List.take_append_drop]
    · rwa [hlen]
    · rwa [hlen]

end

instance (r : List α) (ps : List (List α)) : Decidable (Straddles r marker ps) :=
  decidable_of_iff _ straddles_iff.symm

/-! ## 3. Lists that are not split, and lists split once -/

theorem pieces_of_absent : ∀ {l : List α}, ¬s <:+: l → pieces s l = [l]
  | [], _ => rfl
  | a :: l, h => by
      have hprefix : ¬s <+: a :: l := fun hp => h hp.isInfix
      obtain ⟨piece, rest, heq, hcons⟩ := pieces_cons_of_not_prefix hprefix
      rw [pieces_of_absent fun hin => h (hin.trans (List.suffix_cons a l).isInfix)] at heq
      obtain ⟨rfl, rfl⟩ := List.cons.inj heq
      exact hcons

theorem piecesFrom_drop : ∀ (k : Nat) (l : List α), piecesFrom s k l = pieces s (l.drop k)
  | 0, _ => rfl
  | k + 1, [] => rfl
  | k + 1, _ :: l => by
      rw [piecesFrom, piecesFrom_drop k l]
      rfl

/-- An occurrence at the front. -/
theorem pieces_append (hs : s ≠ []) (l : List α) : pieces s (s ++ l) = [] :: pieces s l := by
  obtain ⟨a, s', rfl⟩ := List.exists_cons_of_ne_nil hs
  have hprefix : a :: s' <+: a :: (s' ++ l) := List.prefix_append (a :: s') l
  have hsplit : pieces (a :: s') (a :: (s' ++ l)) = [] :: piecesFrom (a :: s') s'.length (s' ++ l) :=
    if_pos hprefix
  rw [List.cons_append, hsplit, piecesFrom_drop, List.drop_left]

/-- **What begins with an end of the marker comes back behind one.** -/
theorem exists_returns {b c : List α} (hb : b <:+ marker) (hne : b ≠ []) :
    b ++ c <:+: marker.intercalate (pieces (b ++ c) (b ++ c ++ c)) := by
  have hshort : ¬b ++ c <:+: c := fun hin => by
    have hlength := hin.length_le
    rw [List.length_append] at hlength
    exact hne (List.eq_nil_of_length_eq_zero (by omega))
  obtain ⟨x, rfl⟩ := hb
  rw [pieces_append (by simp [hne]), pieces_of_absent hshort, List.intercalate_cons_cons,
    List.intercalate_singleton]
  exact ⟨x, [], by simp⟩

/-! ## 4. Several lists, one after the other -/

/-- Letters at which `s` does not begin belong to the first piece. -/
theorem pieces_append_of_absent : ∀ {w l : List α},
    (∀ x w', w = x ++ w' → w' ≠ [] → ¬s <+: w' ++ l) →
    ∃ piece rest, pieces s l = piece :: rest ∧ pieces s (w ++ l) = (w ++ piece) :: rest
  | [], l, _ => by
      obtain ⟨piece, rest, heq⟩ := List.exists_cons_of_ne_nil (pieces_ne_nil (s := s) l)
      exact ⟨piece, rest, heq, heq⟩
  | a :: w, l, h => by
      obtain ⟨piece, rest, heq, hw⟩ := pieces_append_of_absent (w := w) (l := l)
        fun x w' hsplit => h (a :: x) w' (by rw [hsplit, List.cons_append])
      have ha : ¬s <+: a :: (w ++ l) := h [] (a :: w) rfl (List.cons_ne_nil _ _)
      obtain ⟨piece', rest', heq', hcons⟩ := pieces_cons_of_not_prefix ha
      rw [hw] at heq'
      obtain ⟨rfl, rfl⟩ := List.cons.inj heq'
      exact ⟨piece, rest, heq, hcons⟩

section

omit [DecidableEq α]

variable {r : List α}

theorem intercalate_append_head (w p : List α) (ps : List (List α)) :
    marker.intercalate ((w ++ p) :: ps) = w ++ marker.intercalate (p :: ps) := by
  cases ps with
  | nil => rw [List.intercalate_singleton, List.intercalate_singleton]
  | cons q ps =>
      rw [List.intercalate_cons_cons, List.intercalate_cons_cons]
      simp only [List.append_assoc]

theorem Overlaps.behind {A B : List α} (w : List α) (h : Overlaps r A marker B) :
    Overlaps r (w ++ A) marker B := by
  obtain ⟨x, y, heq, hx, hr⟩ := h
  refine ⟨w ++ x, y, ?_, ?_, ?_⟩
  · rw [List.append_assoc, List.append_assoc, ← List.append_assoc A, heq]
    simp only [List.append_assoc]
  · simp only [List.length_append]
    omega
  · simp only [List.length_append]
    omega

end

/-- **Where `s` is not found across the marker, it is replaced on either side of it.** -/
theorem join_pieces_append (hs : s ≠ []) : ∀ {A B : List α}, ¬Overlaps s A marker B →
    marker.intercalate (pieces s (A ++ marker ++ B)) =
      marker.intercalate (pieces s A) ++ marker ++ marker.intercalate (pieces s B)
  | [], B, h => by
      have habsent : ∀ x w', marker = x ++ w' → w' ≠ [] → ¬s <+: w' ++ B := by
        intro x w' hsplit hne hat
        obtain ⟨y, hy⟩ := hat
        have hw := List.length_pos_iff.mpr hne
        have hpos := List.length_pos_iff.mpr hs
        refine h ⟨x, y, ?_, ?_, ?_⟩
        · rw [List.nil_append, hsplit, List.append_assoc, List.append_assoc, hy]
        · rw [hsplit, List.length_append, List.length_nil]
          omega
        · rw [List.length_nil]
          omega
      obtain ⟨piece, rest, heq, hmarker⟩ := pieces_append_of_absent habsent
      have hnil : marker.intercalate (pieces s []) = [] := rfl
      rw [List.nil_append, hmarker, heq, intercalate_append_head, hnil, List.nil_append]
  | a :: A, B, h => by
      have hfront : a :: A <+: a :: (A ++ marker ++ B) := ⟨marker ++ B, by simp⟩
      by_cases hat : s <+: a :: (A ++ marker ++ B)
      · -- the occurrence ends before the marker
        have hshort : s.length ≤ (a :: A).length := by
          by_contra hlong
          obtain ⟨y, hy⟩ := hat
          refine h ⟨[], y, hy.symm, ?_, ?_⟩
          · simp
          · simpa using hlong
        obtain ⟨A', hA⟩ := List.prefix_of_prefix_length_le hat hfront hshort
        have hlen : A'.length < (a :: A).length := by
          have := List.length_pos_iff.mpr hs
          rw [← hA, List.length_append]
          omega
        have ih := join_pieces_append hs (A := A') (B := B) fun hover => h (hA ▸ hover.behind s)
        rw [← hA, List.append_assoc, List.append_assoc, pieces_append hs, pieces_append hs,
          List.intercalate_cons_of_ne_nil (pieces_ne_nil _), ← List.append_assoc A', ih,
          List.intercalate_cons_of_ne_nil (pieces_ne_nil _)]
        simp only [List.append_assoc, List.nil_append]
      · have hA : ¬s <+: a :: A := fun hp => hat (hp.trans hfront)
        have ih := join_pieces_append hs (A := A) (B := B) fun hover => h (hover.behind [a])
        obtain ⟨piece, rest, heq, hcons⟩ := pieces_cons_of_not_prefix hat
        obtain ⟨piece', rest', heq', hcons'⟩ := pieces_cons_of_not_prefix hA
        rw [heq, heq'] at ih
        rw [List.cons_append, List.cons_append, hcons, hcons']
        have hfirst : marker.intercalate ((a :: piece) :: rest) =
            [a] ++ marker.intercalate (piece :: rest) :=
          intercalate_append_head [a] piece rest
        have hfirst' : marker.intercalate ((a :: piece') :: rest') =
            [a] ++ marker.intercalate (piece' :: rest') :=
          intercalate_append_head [a] piece' rest'
        rw [hfirst, hfirst', ih]
        simp only [List.append_assoc]
termination_by A => A.length
decreasing_by
  · exact hlen
  · exact Nat.lt_succ_self _

theorem flatMap_pieces_ne_nil {ps : List (List α)} (h : ps ≠ []) : ps.flatMap (pieces s) ≠ [] := by
  obtain ⟨p, ps', rfl⟩ := List.exists_cons_of_ne_nil h
  rw [List.flatMap_cons]
  exact List.append_ne_nil_of_left_ne_nil (pieces_ne_nil _) _

/-- **And so in every piece, where it is found across no marker.** -/
theorem join_pieces_join (hs : s ≠ []) : ∀ {ps : List (List α)}, ps ≠ [] → ¬Straddles s marker ps →
    marker.intercalate (pieces s (marker.intercalate ps)) =
      marker.intercalate (ps.flatMap (pieces s))
  | [p], _, _ => by
      rw [List.intercalate_singleton, List.flatMap_singleton]
  | p :: q :: ps, _, h => by
      have hover : ¬Overlaps s p marker (marker.intercalate (q :: ps)) := fun hover =>
        h ⟨[p], q :: ps, rfl, List.cons_ne_nil _ _, List.cons_ne_nil _ _,
          by rwa [List.intercalate_singleton]⟩
      have ih := join_pieces_join hs (List.cons_ne_nil q ps) fun hs => h (hs.cons p)
      have hsplit : (p :: q :: ps).flatMap (pieces s) = pieces s p ++ (q :: ps).flatMap (pieces s) :=
        List.flatMap_cons
      rw [List.intercalate_cons_cons, join_pieces_append hs hover, ih, hsplit,
        intercalate_append (pieces_ne_nil _) (flatMap_pieces_ne_nil (List.cons_ne_nil q ps))]

/-- The pieces, cut at several lists one after the other. -/
def splitAll : List (List α) → List (List α) → List (List α)
  | [], ps => ps
  | s :: seps, ps => splitAll seps (ps.flatMap (pieces s))

/-- None of the lists, when its turn comes, is found across a marker between the pieces. -/
def MarkersKept (marker : List α) : List (List α) → List (List α) → Prop
  | [], _ => True
  | s :: seps, ps => ¬Straddles s marker ps ∧ MarkersKept marker seps (ps.flatMap (pieces s))

theorem splitAll_ne_nil : ∀ {seps ps : List (List α)}, ps ≠ [] → splitAll seps ps ≠ []
  | [], _, h => h
  | _ :: _, _, h => by
      rw [splitAll]
      exact splitAll_ne_nil (flatMap_pieces_ne_nil h)

instance decidableMarkersKept : ∀ seps ps : List (List α), Decidable (MarkersKept marker seps ps)
  | [], _ => .isTrue trivial
  | s :: seps, ps =>
      have := decidableMarkersKept seps (ps.flatMap (pieces s))
      inferInstanceAs
        (Decidable (¬Straddles s marker ps ∧ MarkersKept marker seps (ps.flatMap (pieces s))))

/-- **Replacing one after the other is cutting one after the other, and the marker in between.** -/
theorem foldl_join : ∀ {seps ps : List (List α)}, (∀ s ∈ seps, s ≠ []) → ps ≠ [] →
    MarkersKept marker seps ps →
    seps.foldl (fun out s => marker.intercalate (pieces s out)) (marker.intercalate ps) =
      marker.intercalate (splitAll seps ps)
  | [], _, _, _, _ => rfl
  | s :: seps, ps, hseps, hps, h => by
      rw [List.foldl_cons, join_pieces_join (hseps s List.mem_cons_self) hps h.1]
      exact foldl_join (fun s hs => hseps s (List.mem_cons_of_mem _ hs)) (flatMap_pieces_ne_nil hps)
        h.2

/-- A piece of a piece. -/
theorem infix_of_mem_splitAll : ∀ {seps ps : List (List α)}, (∀ s ∈ seps, s ≠ []) →
    ∀ {piece}, piece ∈ splitAll seps ps → ∃ p ∈ ps, piece <:+: p
  | [], _, _, piece, h => ⟨piece, h, List.infix_rfl⟩
  | s :: seps, ps, hseps, piece, h => by
      obtain ⟨q, hq, hin⟩ :=
        infix_of_mem_splitAll (fun s hs => hseps s (List.mem_cons_of_mem _ hs)) h
      obtain ⟨p, hp, hqp⟩ := List.mem_flatMap.mp hq
      exact ⟨p, hp, hin.trans (infix_of_mem_pieces (hseps s List.mem_cons_self) hqp)⟩

/-- **No piece contains one of the lists.** -/
theorem not_infix_of_mem_splitAll : ∀ {seps ps : List (List α)}, (∀ s ∈ seps, s ≠ []) →
    ∀ {piece}, piece ∈ splitAll seps ps → ∀ s ∈ seps, ¬s <:+: piece
  | s :: seps, ps, hseps, piece, h, r, hr => by
      have hrest : ∀ s ∈ seps, s ≠ [] := fun s hs => hseps s (List.mem_cons_of_mem _ hs)
      rcases List.mem_cons.mp hr with rfl | hr
      · obtain ⟨q, hq, hin⟩ := infix_of_mem_splitAll hrest h
        obtain ⟨p, -, hqp⟩ := List.mem_flatMap.mp hq
        exact fun hs => not_infix_of_mem_pieces (hseps r List.mem_cons_self) hqp (hs.trans hin)
      · exact not_infix_of_mem_splitAll hrest h r hr

/-- **So one of them is in the outcome just where it reads across a marker.** -/
theorem infix_splitAll_iff {seps ps : List (List α)} (hseps : ∀ s ∈ seps, s ≠ []) (hps : ps ≠ [])
    {r : List α} (hr : r ∈ seps) :
    r <:+: marker.intercalate (splitAll seps ps) ↔ Straddles r marker (splitAll seps ps) := by
  refine ⟨fun hin => ?_, Straddles.infix⟩
  rcases infix_join (splitAll_ne_nil hps) hin with ⟨p, hp, hrp⟩ | hstraddles
  · exact absurd hrp (not_infix_of_mem_splitAll hseps hp r hr)
  · exact hstraddles

/-- Where none shares letters with the marker, none is found across it. -/
theorem markersKept_of_meshes : ∀ {seps ps : List (List α)}, (∀ s ∈ seps, ¬s <:+: marker) →
    (∀ s ∈ seps, ¬Meshes s marker) → MarkersKept marker seps ps
  | [], _, _, _ => trivial
  | s :: _, _, hnot, hno =>
      ⟨fun h => hno s List.mem_cons_self (h.meshes (hnot s List.mem_cons_self)),
        markersKept_of_meshes (fun s hs => hnot s (List.mem_cons_of_mem _ hs))
          fun s hs => hno s (List.mem_cons_of_mem _ hs)⟩

end AgentKernel.Lib
