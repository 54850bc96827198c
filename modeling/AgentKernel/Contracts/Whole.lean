/-
  File:      AgentKernel/Contracts/Whole.lean
  Subject:   Payloads that are hashed and stored as one text.

  `Value.Whole` is closed under arrays and objects, so that a payload is whole as soon as its parts
  are; a whole payload is plain, proper, and has a text.
-/
import AgentKernel.Contracts.Stringify

namespace AgentKernel

/-! ## 1. Whole payloads -/

/-- A value that JSON has too, each key of an object once. -/
def JsonLike : Value → Prop
  | .undefined | .function _ | .symbol _ | .hole | .bigint _ | .converting _ _ => False
  | .obj entries => (entries.map Prod.fst).Nodup
  | _ => True

/-- Every part is one that JSON has. -/
def Value.Whole (v : Value) : Prop := v.All JsonLike

section Whole

variable {p q : Value → Prop}

mutual

theorem all_mono (h : ∀ v, p v → q v) : ∀ v : Value, v.All p → v.All q
  | .arr items, ⟨hv, hitems⟩ => ⟨h _ hv, allItems_mono h items hitems⟩
  | .obj entries, ⟨hv, hentries⟩ => ⟨h _ hv, allEntries_mono h entries hentries⟩
  | .converting self written, ⟨hv, hself, hwritten⟩ =>
      ⟨h _ hv, all_mono h self hself, all_mono h written hwritten⟩
  | .undefined, hv | .null, hv | .bool _, hv | .num _, hv | .nonFinite, hv | .bigint _, hv
  | .str _, hv | .function _, hv | .symbol _, hv | .hole, hv => h _ hv

theorem allItems_mono (h : ∀ v, p v → q v) : ∀ vs : List Value,
    Value.AllItems p vs → Value.AllItems q vs
  | [], _ => trivial
  | v :: vs, ⟨hv, hvs⟩ => ⟨all_mono h v hv, allItems_mono h vs hvs⟩

theorem allEntries_mono (h : ∀ v, p v → q v) : ∀ entries : List (String × Value),
    Value.AllEntries p entries → Value.AllEntries q entries
  | [], _ => trivial
  | (_, v) :: entries, ⟨hv, hentries⟩ => ⟨all_mono h v hv, allEntries_mono h entries hentries⟩

end

/-! ## 2. What they are good for -/

mutual

theorem Value.Whole.plain : ∀ {v : Value}, v.Whole → v.Plain
  | .undefined, h | .function _, h | .symbol _, h | .hole, h => False.elim h
  | .converting _ _, h => False.elim h.1
  | .null, _ | .bool _, _ | .num _, _ | .nonFinite, _ | .bigint _, _ | .str _, _ => trivial
  | .arr _, h => whole_plainItems h.2
  | .obj _, h => whole_plainEntries h.2

theorem whole_plainItems : ∀ {vs : List Value}, Value.AllItems JsonLike vs → PlainItems vs
  | [], _ => trivial
  | _ :: _, h => ⟨Value.Whole.plain h.1, whole_plainItems h.2⟩

theorem whole_plainEntries : ∀ {entries : List (String × Value)},
    Value.AllEntries JsonLike entries → PlainEntries entries
  | [], _ => trivial
  | (_, _) :: _, h => ⟨Value.Whole.plain h.1, whole_plainEntries h.2⟩

end

theorem Value.Whole.proper {v : Value} (h : v.Whole) : v.Proper := by
  refine all_mono (fun w hw => ?_) v h
  cases w with
  | function | converting => exact False.elim hw
  | obj entries => exact hw
  | _ => trivial

mutual

theorem whole_toJson : ∀ {v : Value}, v.Whole → ∃ j, v.toJson = .ok (some j)
  | .undefined, h | .function _, h | .symbol _, h | .hole, h | .bigint _, h => False.elim h
  | .converting _ _, h => False.elim h.1
  | .null, _ | .bool _, _ | .num _, _ | .nonFinite, _ | .str _, _ => ⟨_, rfl⟩
  | .arr items, ⟨_, h⟩ => by
      obtain ⟨js, hjs⟩ := whole_toItems h
      exact ⟨.arr js, by rw [Value.toJson, hjs]; rfl⟩
  | .obj entries, ⟨_, h⟩ => by
      obtain ⟨fs, hfs⟩ := whole_toFields h
      exact ⟨.obj fs, by rw [Value.toJson, hfs]; rfl⟩

theorem whole_toItems : ∀ {vs : List Value}, Value.AllItems JsonLike vs →
    ∃ js, Value.toItems vs = .ok js
  | [], _ => ⟨[], rfl⟩
  | v :: vs, ⟨hv, hvs⟩ => by
      obtain ⟨j, hj⟩ := whole_toJson hv
      obtain ⟨js, hjs⟩ := whole_toItems hvs
      exact ⟨j :: js, by rw [Value.toItems, hj, hjs]; rfl⟩

theorem whole_toFields : ∀ {entries : List (String × Value)}, Value.AllEntries JsonLike entries →
    ∃ fs, Value.toFields entries = .ok fs
  | [], _ => ⟨[], rfl⟩
  | (k, v) :: entries, ⟨hv, hentries⟩ => by
      obtain ⟨j, hj⟩ := whole_toJson hv
      obtain ⟨fs, hfs⟩ := whole_toFields hentries
      exact ⟨(k, j) :: fs, by rw [Value.toFields, hj, hfs]; rfl⟩

end

theorem Value.Whole.stringifies {v : Value} (h : v.Whole) : Stringifies v :=
  stringifies_iff.mpr (whole_toJson h)

/-! ## 3. Their parts -/

theorem whole_obj {fields : List (String × Value)} (hkeys : (fields.map Prod.fst).Nodup)
    (h : ∀ f ∈ fields, f.2.Whole) : (Value.obj fields).Whole := ⟨hkeys, allEntries_iff.mpr h⟩

theorem whole_arr {items : List Value} (h : ∀ v ∈ items, v.Whole) : (Value.arr items).Whole :=
  ⟨trivial, allItems_iff.mpr h⟩

theorem whole_texts (texts : List String) : (Value.arr (texts.map .str)).Whole := by
  refine whole_arr fun v hv => ?_
  obtain ⟨t, -, rfl⟩ := List.mem_map.mp hv
  trivial

/-! ## 4. Values that can be written -/

/-- `JSON.stringify` throws at nothing in them. -/
def Value.Writable (v : Value) : Prop := ∃ r, v.toJson = .ok r

theorem Value.Whole.writable {v : Value} (h : v.Whole) : v.Writable := by
  obtain ⟨j, hj⟩ := whole_toJson h
  exact ⟨_, hj⟩

theorem writable_undefined : Value.undefined.Writable := ⟨none, rfl⟩

theorem writable_toItems : ∀ {vs : List Value}, (∀ v ∈ vs, v.Writable) →
    ∃ js, Value.toItems vs = .ok js
  | [], _ => ⟨[], rfl⟩
  | v :: vs, h => by
      obtain ⟨r, hr⟩ := h v List.mem_cons_self
      obtain ⟨js, hjs⟩ := writable_toItems fun w hw => h w (List.mem_cons_of_mem _ hw)
      exact ⟨r.getD .null :: js, by rw [Value.toItems, hr, hjs]; rfl⟩

theorem writable_toFields : ∀ {entries : List (String × Value)}, (∀ f ∈ entries, f.2.Writable) →
    ∃ fs, Value.toFields entries = .ok fs
  | [], _ => ⟨[], rfl⟩
  | (k, v) :: entries, h => by
      obtain ⟨r, hr⟩ := h (k, v) List.mem_cons_self
      obtain ⟨fs, hfs⟩ := writable_toFields fun f hf => h f (List.mem_cons_of_mem _ hf)
      have hv : v.toJson = .ok r := hr
      exact ⟨(r.map fun j => (k, j)).toList ++ fs, by rw [Value.toFields, hv, hfs]; rfl⟩

/-- An array of such values has a text. -/
theorem writable_arr {items : List Value} (h : ∀ v ∈ items, v.Writable) :
    ∃ js, (Value.arr items).toJson = .ok (some (.arr js)) := by
  obtain ⟨js, hjs⟩ := writable_toItems h
  exact ⟨js, by rw [Value.toJson, hjs]; rfl⟩

theorem writable_obj {fields : List (String × Value)} (h : ∀ f ∈ fields, f.2.Writable) :
    ∃ fs, (Value.obj fields).toJson = .ok (some (.obj fs)) := by
  obtain ⟨fs, hfs⟩ := writable_toFields h
  exact ⟨fs, by rw [Value.toJson, hfs]; rfl⟩

end Whole

end AgentKernel
