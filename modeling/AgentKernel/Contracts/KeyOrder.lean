/-
  File:      AgentKernel/Contracts/KeyOrder.lean
  Subject:   What the canonical text of a value leaves out: the order of the entries of objects.

  * `Json.sortKeys` sorts the entries of every object; the canonical text is the text of the sorted
    value (`stableStringify_eq_text`), and the text determines the value, so
    **`reordered_of_stableStringify`**: values of one canonical text differ in the order of
    entries only;
  * `Value.ofJson` is a JSON value as a payload, and `canonicalize` writes it as `stableStringify`
    does.
-/
import AgentKernel.Contracts.Events
import AgentKernel.Contracts.JsonText

namespace AgentKernel

/-! ## 1. Sorted values -/

/-- Entries in the order in which both serializers write them. -/
def sortEntries {α : Type} (entries : List (String × α)) : List (String × α) :=
  entries.insertionSort fun a b => keyLe a.1 b.1

theorem keyLe_trans {a b c : String} (hab : keyLe a b = true) (hbc : keyLe b c = true) :
    keyLe a c = true := by
  simp only [keyLe, decide_eq_true_eq] at hab hbc ⊢
  exact le_trans hab hbc

theorem keyLe_total (a b : String) : keyLe a b = true ∨ keyLe b a = true := by
  simp only [keyLe, decide_eq_true_eq]
  exact le_total _ _

theorem pairwise_sortEntries {α : Type} (entries : List (String × α)) :
    (sortEntries entries).Pairwise fun a b => keyLe a.1 b.1 = true := by
  have : Std.Total fun a b : String × α => keyLe a.1 b.1 = true :=
    ⟨fun a b => keyLe_total a.1 b.1⟩
  have : IsTrans (String × α) fun a b => keyLe a.1 b.1 = true :=
    ⟨fun _ _ _ hab hbc => keyLe_trans hab hbc⟩
  exact List.pairwise_insertionSort _ entries

mutual

/-- The keys of objects in order, at every depth. -/
def Json.sortKeys : Json → Json
  | .null => .null
  | .bool b => .bool b
  | .num n => .num n
  | .str s => .str s
  | .arr items => .arr (sortItems items)
  | .obj fields => .obj (sortEntries (sortFields fields))

/-- Item by item. -/
def sortItems : List Json → List Json
  | [] => []
  | v :: vs => v.sortKeys :: sortItems vs

/-- Value by value. -/
def sortFields : List (String × Json) → List (String × Json)
  | [] => []
  | (k, v) :: fs => (k, v.sortKeys) :: sortFields fs

end

theorem sortFields_eq_map : ∀ fs : List (String × Json),
    sortFields fs = fs.map fun e => (e.1, e.2.sortKeys)
  | [] => rfl
  | (k, v) :: fs => by
      rw [sortFields, List.map_cons, sortFields_eq_map fs]

theorem fieldTexts_eq_map : ∀ fs : List (String × Json),
    fieldTexts fs = fs.map fun e => quoteJson e.1 ++ ":" ++ e.2.text
  | [] => rfl
  | (k, v) :: fs => by
      rw [fieldTexts, List.map_cons, fieldTexts_eq_map fs]

/-- Sorting entries by their keys does not look at what they hold. -/
theorem sortByKey_map {α : Type} (f : α → String) (entries : List (String × α)) :
    sortByKey (entries.map fun e => (e.1, f e.2)) =
      (sortEntries entries).map fun e => (e.1, f e.2) := by
  refine (List.map_insertionSort _ _ _ entries ?_).symm
  intro a _ b _
  exact Iff.rfl

mutual

/-- **The canonical text is the text of the sorted value.** -/
theorem stableStringify_eq_text : ∀ v : Json, stableStringify v = v.sortKeys.text
  | .null => rfl
  | .bool _ => rfl
  | .num _ => rfl
  | .str _ => rfl
  | .arr items => by
      rw [stableStringify, Json.sortKeys, Json.text, stableItems_eq_texts items]
  | .obj fields => by
      rw [stableStringify, Json.sortKeys, Json.text, stableFields_eq_texts fields, sortByKey_map,
        fieldTexts_eq_map, List.map_map]
      rfl

theorem stableItems_eq_texts : ∀ vs : List Json, stableItems vs = itemTexts (sortItems vs)
  | [] => rfl
  | v :: vs => by
      rw [stableItems, sortItems, itemTexts, stableStringify_eq_text v, stableItems_eq_texts vs]

theorem stableFields_eq_texts : ∀ fs : List (String × Json),
    stableFields fs = (sortFields fs).map fun e => (e.1, e.2.text)
  | [] => rfl
  | (k, v) :: fs => by
      rw [stableFields, sortFields, List.map_cons, stableStringify_eq_text v,
        stableFields_eq_texts fs]

end

/-! ## 2. Values that differ in the order of entries -/

mutual

/-- The same value up to the order of the entries of objects, at every depth. -/
def Json.Reordered : Json → Json → Prop
  | .null, .null => True
  | .bool b, .bool c => b = c
  | .num m, .num n => m = n
  | .str s, .str t => s = t
  | .arr vs, .arr ws => ReorderedItems vs ws
  | .obj fs, .obj gs => ∃ hs, List.Perm hs gs ∧ ReorderedFields fs hs
  | _, _ => False

/-- Item by item. -/
def ReorderedItems : List Json → List Json → Prop
  | [], [] => True
  | v :: vs, w :: ws => v.Reordered w ∧ ReorderedItems vs ws
  | _, _ => False

/-- Entry by entry the same key, and values that differ in the order of entries. -/
def ReorderedFields : List (String × Json) → List (String × Json) → Prop
  | [], [] => True
  | (k, v) :: fs, (k', w) :: gs => k = k' ∧ v.Reordered w ∧ ReorderedFields fs gs
  | _, _ => False

end

/-- Lists that are sorted to the same list, one of them the image of another. -/
theorem exists_perm_of_sortEntries {α : Type} {f : String × α → String × α}
    {entries sorted : List (String × α)}
    (h : sortEntries sorted = sortEntries (entries.map f)) :
    ∃ others : List (String × α), others.Perm entries ∧ sorted = others.map f := by
  have hperm : sorted.Perm (entries.map f) := by
    have hleft : (sortEntries sorted).Perm sorted := List.perm_insertionSort _ _
    have hright : (sortEntries (entries.map f)).Perm (entries.map f) :=
      List.perm_insertionSort _ _
    rw [h] at hleft
    exact hleft.symm.trans hright
  have hcomp : Relation.Comp (fun xs ys => xs = List.map f ys) List.Perm sorted entries := by
    rw [List.eq_map_comp_perm]
    exact hperm
  obtain ⟨others, hsorted, hothers⟩ := hcomp
  exact ⟨others, hothers, hsorted⟩

mutual

theorem reordered_of_sortKeys : ∀ v w : Json, v.sortKeys = w.sortKeys → v.Reordered w
  | .null, w, h => by
      cases w <;> cases h
      trivial
  | .bool b, w, h => by
      cases w <;> cases h
      rfl
  | .num n, w, h => by
      cases w <;> cases h
      rfl
  | .str s, w, h => by
      cases w <;> cases h
      rfl
  | .arr vs, w, h => by
      cases w with
      | arr ws => exact reorderedItems_of_sortItems vs ws (Json.arr.inj h)
      | _ => cases h
  | .obj fs, w, h => by
      cases w with
      | obj gs =>
          have hsort := Json.obj.inj h
          rw [sortFields_eq_map gs] at hsort
          obtain ⟨hs, hperm, heq⟩ := exists_perm_of_sortEntries hsort
          rw [← sortFields_eq_map hs] at heq
          exact ⟨hs, hperm, reorderedFields_of_sortFields fs hs heq⟩
      | _ => cases h

theorem reorderedItems_of_sortItems : ∀ vs ws : List Json,
    sortItems vs = sortItems ws → ReorderedItems vs ws
  | [], [], _ => trivial
  | [], _ :: _, h => by cases h
  | _ :: _, [], h => by cases h
  | v :: vs, w :: ws, h => by
      obtain ⟨hv, hvs⟩ := List.cons.inj h
      exact ⟨reordered_of_sortKeys v w hv, reorderedItems_of_sortItems vs ws hvs⟩

theorem reorderedFields_of_sortFields : ∀ fs gs : List (String × Json),
    sortFields fs = sortFields gs → ReorderedFields fs gs
  | [], [], _ => trivial
  | [], _ :: _, h => by cases h
  | _ :: _, [], h => by cases h
  | (k, v) :: fs, (k', w) :: gs, h => by
      obtain ⟨he, hfs⟩ := List.cons.inj h
      obtain ⟨hk, hv⟩ := Prod.mk.inj he
      exact ⟨hk, reordered_of_sortKeys v w hv, reorderedFields_of_sortFields fs gs hfs⟩

end

/-- **Values of one canonical text differ in the order of entries only.** -/
theorem reordered_of_stableStringify {v w : Json} (h : stableStringify v = stableStringify w) :
    v.Reordered w := by
  rw [stableStringify_eq_text, stableStringify_eq_text] at h
  exact reordered_of_sortKeys v w (text_injective h)

/-! ## 3. JSON values as payloads -/

mutual

/-- A JSON value as a payload. -/
def Value.ofJson : Json → Value
  | .null => .null
  | .bool b => .bool b
  | .num n => .num n
  | .str s => .str s
  | .arr items => .arr (Value.ofItems items)
  | .obj fields => .obj (Value.ofFields fields)

/-- Item by item. -/
def Value.ofItems : List Json → List Value
  | [] => []
  | v :: vs => Value.ofJson v :: Value.ofItems vs

/-- Entry by entry. -/
def Value.ofFields : List (String × Json) → List (String × Value)
  | [] => []
  | (k, v) :: fs => (k, Value.ofJson v) :: Value.ofFields fs

end

mutual

/-- **The two serializers agree on JSON values.** -/
theorem canonicalize_ofJson : ∀ v : Json, canonicalize (.ofJson v) = stableStringify v
  | .null => rfl
  | .bool _ => rfl
  | .num _ => rfl
  | .str _ => rfl
  | .arr items => by
      rw [Value.ofJson, canonicalize, stableStringify, canonicalItems_ofItems items]
  | .obj fields => by
      rw [Value.ofJson, canonicalize, stableStringify, canonicalEntries_ofFields fields]

theorem canonicalItems_ofItems : ∀ vs : List Json,
    canonicalItems (Value.ofItems vs) = stableItems vs
  | [] => rfl
  | v :: vs => by
      rw [Value.ofItems, canonicalItems, stableItems, canonicalize_ofJson v,
        canonicalItems_ofItems vs]

theorem canonicalEntries_ofFields : ∀ fs : List (String × Json),
    canonicalEntries (Value.ofFields fs) = stableFields fs
  | [] => rfl
  | (k, v) :: fs => by
      rw [Value.ofFields, canonicalEntries, stableFields, canonicalize_ofJson v,
        canonicalEntries_ofFields fs]

end

end AgentKernel
