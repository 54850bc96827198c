/-
  File:      AgentKernel/Contracts/Canonical.lean
  Subject:   The canonical text is a canonical form: values that differ in the order of entries have
             one text.

  The two serializers sort keys by their UTF-16 code units. The units determine the key
  (`flatMap_utf16_inj`), so distinct keys have one order only and sorting forgets the order in which
  they stood (`sortEntries_eq_of_perm`).

  **`canonical_forms`**: where the keys of objects are distinct, two values have the same canonical
  text just where they differ in the order of entries only, and both serializers write it.
-/
import AgentKernel.Contracts.KeyOrder

namespace AgentKernel

/-! ## 1. Code units -/

/-- The first unit of a pair is no character of its own, so that units are read one way. -/
theorem utf16_append_inj {c d : Char} {xs ys : List Nat} (h : utf16 c ++ xs = utf16 d ++ ys) :
    c = d ∧ xs = ys := by
  have hvalid : ∀ e : Char, e.toNat < 0xD800 ∨ (0xDFFF < e.toNat ∧ e.toNat < 0x110000) :=
    fun e => e.valid
  have hc := hvalid c
  have hd := hvalid d
  unfold utf16 at h
  split_ifs at h with hc' hd' hd'
  · obtain ⟨hhead, hrest⟩ := List.cons.inj h
    exact ⟨Char.toNat_inj.mp hhead, hrest⟩
  · have hhead := (List.cons.inj h).1
    omega
  · have hhead := (List.cons.inj h).1
    omega
  · obtain ⟨hhead, htail⟩ := List.cons.inj h
    obtain ⟨hlow, hrest⟩ := List.cons.inj htail
    exact ⟨Char.toNat_inj.mp (by omega), hrest⟩

theorem utf16_ne_nil (c : Char) : utf16 c ≠ [] := by
  unfold utf16
  split_ifs <;> exact List.cons_ne_nil _ _

theorem flatMap_utf16_inj : ∀ {cs ds : List Char}, cs.flatMap utf16 = ds.flatMap utf16 → cs = ds
  | [], [], _ => rfl
  | [], d :: ds, h => by
      rw [List.flatMap_cons] at h
      exact absurd (List.append_eq_nil_iff.mp h.symm).1 (utf16_ne_nil d)
  | c :: cs, [], h => by
      rw [List.flatMap_cons] at h
      exact absurd (List.append_eq_nil_iff.mp h).1 (utf16_ne_nil c)
  | c :: cs, d :: ds, h => by
      rw [List.flatMap_cons, List.flatMap_cons] at h
      obtain ⟨rfl, hrest⟩ := utf16_append_inj h
      rw [flatMap_utf16_inj hrest]

theorem keyLe_antisymm {a b : String} (hab : keyLe a b = true) (hba : keyLe b a = true) : a = b := by
  simp only [keyLe, decide_eq_true_eq] at hab hba
  exact String.toList_injective (flatMap_utf16_inj (le_antisymm hab hba))

/-! ## 2. Distinct keys -/

mutual

/-- The keys of an object are distinct, at every depth. -/
def Json.Distinct : Json → Prop
  | .arr items => DistinctItems items
  | .obj fields => (fields.map Prod.fst).Nodup ∧ DistinctFields fields
  | _ => True

/-- Item by item. -/
def DistinctItems : List Json → Prop
  | [] => True
  | v :: vs => v.Distinct ∧ DistinctItems vs

/-- Value by value. -/
def DistinctFields : List (String × Json) → Prop
  | [] => True
  | (_, v) :: fs => v.Distinct ∧ DistinctFields fs

end

theorem eq_of_key_eq {α : Type} {entries : List (String × α)}
    (hnd : (entries.map Prod.fst).Nodup) {a b : String × α} (ha : a ∈ entries) (hb : b ∈ entries)
    (h : a.1 = b.1) : a = b :=
  List.inj_on_of_nodup_map hnd ha hb h

/-- Sorting forgets the order in which distinct keys stood. -/
theorem sortEntries_eq_of_perm {α : Type} {entries others : List (String × α)}
    (hperm : entries.Perm others) (hnd : (entries.map Prod.fst).Nodup) :
    sortEntries entries = sortEntries others := by
  have hleft : (sortEntries entries).Perm entries := List.perm_insertionSort _ _
  have hright : (sortEntries others).Perm others := List.perm_insertionSort _ _
  have hmem : ∀ {a}, a ∈ sortEntries others → a ∈ entries := fun ha =>
    hperm.symm.subset (hright.subset ha)
  refine List.Perm.eq_of_pairwise (fun a b ha hb hab hba => ?_) (pairwise_sortEntries entries)
    (pairwise_sortEntries others) (hleft.trans (hperm.trans hright.symm))
  exact eq_of_key_eq hnd (hleft.subset ha) (hmem hb) (keyLe_antisymm hab hba)

theorem sortFields_keys (fs : List (String × Json)) :
    (sortFields fs).map Prod.fst = fs.map Prod.fst := by
  rw [sortFields_eq_map, List.map_map]
  rfl

theorem reorderedFields_keys : ∀ {fs gs : List (String × Json)}, ReorderedFields fs gs →
    fs.map Prod.fst = gs.map Prod.fst
  | [], [], _ => rfl
  | [], _ :: _, h => h.elim
  | _ :: _, [], h => h.elim
  | (k, v) :: fs, (k', w) :: gs, ⟨hk, _, hrest⟩ => by
      rw [List.map_cons, List.map_cons, reorderedFields_keys hrest]
      exact congrArg (· :: _) hk

/-! ## 3. One text -/

mutual

theorem sortKeys_of_reordered : ∀ v w : Json, v.Distinct → v.Reordered w → v.sortKeys = w.sortKeys
  | .null, w, _, h => by
      cases w with
      | null => rfl
      | _ => exact h.elim
  | .bool b, w, _, h => by
      cases w with
      | bool c => exact congrArg Json.bool h
      | _ => exact h.elim
  | .num n, w, _, h => by
      cases w with
      | num m => exact congrArg Json.num h
      | _ => exact h.elim
  | .str s, w, _, h => by
      cases w with
      | str t => exact congrArg Json.str h
      | _ => exact h.elim
  | .arr vs, w, hv, h => by
      cases w with
      | arr ws => exact congrArg Json.arr (sortItems_of_reordered vs ws hv h)
      | _ => exact h.elim
  | .obj fs, w, hv, h => by
      cases w with
      | obj gs =>
          obtain ⟨hs, hperm, hfields⟩ := h
          have hsorted := sortFields_of_reordered fs hs hv.2 hfields
          have hnd : ((sortFields hs).map Prod.fst).Nodup := by
            rw [sortFields_keys, ← reorderedFields_keys hfields]
            exact hv.1
          have hperm' : (sortFields hs).Perm (sortFields gs) := by
            rw [sortFields_eq_map, sortFields_eq_map]
            exact hperm.map _
          rw [Json.sortKeys, Json.sortKeys, hsorted, sortEntries_eq_of_perm hperm' hnd]
      | _ => exact h.elim

theorem sortItems_of_reordered : ∀ vs ws : List Json, DistinctItems vs → ReorderedItems vs ws →
    sortItems vs = sortItems ws
  | [], [], _, _ => rfl
  | [], _ :: _, _, h => h.elim
  | _ :: _, [], _, h => h.elim
  | v :: vs, w :: ws, hv, h => by
      rw [sortItems, sortItems, sortKeys_of_reordered v w hv.1 h.1,
        sortItems_of_reordered vs ws hv.2 h.2]

theorem sortFields_of_reordered : ∀ fs gs : List (String × Json), DistinctFields fs →
    ReorderedFields fs gs → sortFields fs = sortFields gs
  | [], [], _, _ => rfl
  | [], _ :: _, _, h => h.elim
  | _ :: _, [], _, h => h.elim
  | (k, v) :: fs, (k', w) :: gs, hv, ⟨hk, hvalue, hrest⟩ => by
      rw [sortFields, sortFields, hk, sortKeys_of_reordered v w hv.1 hvalue,
        sortFields_of_reordered fs gs hv.2 hrest]

end

/-- **Values that differ in the order of entries have one canonical text.** -/
theorem stableStringify_of_reordered {v w : Json} (hv : v.Distinct) (h : v.Reordered w) :
    stableStringify v = stableStringify w := by
  rw [stableStringify_eq_text, stableStringify_eq_text, sortKeys_of_reordered v w hv h]

theorem stableStringify_eq_iff {v w : Json} (hv : v.Distinct) :
    stableStringify v = stableStringify w ↔ v.Reordered w :=
  ⟨reordered_of_stableStringify, stableStringify_of_reordered hv⟩

/-- **The two serializers are canonical forms, and agree**: the texts of two values are the same
    just where the values differ in the order of entries only. -/
theorem canonical_forms {v w : Json} (hv : v.Distinct) :
    (stableStringify v = stableStringify w ↔ v.Reordered w) ∧
    (canonicalize (.ofJson v) = canonicalize (.ofJson w) ↔ v.Reordered w) ∧
    canonicalize (.ofJson v) = stableStringify v := by
  refine ⟨stableStringify_eq_iff hv, ?_, canonicalize_ofJson v⟩
  rw [canonicalize_ofJson, canonicalize_ofJson]
  exact stableStringify_eq_iff hv

/-- Two orders of entries. -/
theorem canonical_forms_swapped :
    let v : Json := .obj [("x", .arr [.bool true]), ("y", .str "a\n")]
    let w : Json := .obj [("y", .str "a\n"), ("x", .arr [.bool true])]
    v ≠ w ∧ v.Reordered w ∧ (stableStringify v = stableStringify w ↔ v.Reordered w) ∧
      (canonicalize (.ofJson v) = canonicalize (.ofJson w) ↔ v.Reordered w) ∧
      canonicalize (.ofJson v) = stableStringify v := by
  intro v w
  have hdistinct : v.Distinct := by
    simp [v, Json.Distinct, DistinctItems, DistinctFields]
  have hreordered : v.Reordered w :=
    ⟨_, List.Perm.swap _ _ _, rfl, ⟨rfl, trivial⟩, rfl, rfl, trivial⟩
  exact ⟨by simp [v, w], hreordered, canonical_forms hdistinct⟩

end AgentKernel
