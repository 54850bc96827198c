/-
  File:      AgentKernel/Contracts/Stringify.lean
  Subject:   `JSON.stringify` of a payload against `canonicalize` of it.

  A payload is hashed as `canonicalize` writes it and stored as `JSON.stringify` writes it. The
  first keeps a property that is `undefined`, a function or a symbol, the second leaves it out; the
  first writes a value with `toJSON` by its own properties, the second what `toJSON` makes of it.

  * `Value.toJson` is the JSON value `JSON.stringify` writes;
  * `Value.asJson` is the JSON value the canonical text is the text of, if it is one
    (`canonicalize_asJson`, `unaligned`);
  * `Value.Plain`: no `undefined`, no function, no symbol and no hole in the value, and what
    converts itself says the same of itself;
  * **`canonicalize_eq_iff`**: the stored value has the canonical text of the payload if and only
    if the payload is plain.
-/
import AgentKernel.Contracts.Canonical

namespace AgentKernel

/-! ## 1. JSON.stringify -/

/-- A big integer is what `JSON.stringify` throws at. -/
inductive StringifyError where
  | bigint (n : Int)
  deriving DecidableEq

mutual

/-- What `JSON.stringify` writes for a value; `none` where it returns `undefined`. -/
def Value.toJson : Value → Except StringifyError (Option Json)
  | .undefined => .ok none
  | .null => .ok (some .null)
  | .bool b => .ok (some (.bool b))
  | .num n => .ok (some (.num n))
  | .nonFinite => .ok (some .null)
  | .bigint n => .error (.bigint n)
  | .str s => .ok (some (.str s))
  | .arr items => (Value.toItems items).map fun js => some (.arr js)
  | .obj entries => (Value.toFields entries).map fun fs => some (.obj fs)
  | .function _ | .symbol _ | .hole => .ok none
  | .converting _ written => written.toJson

/-- Item by item. -/
def Value.toItems : List Value → Except StringifyError (List Json)
  | [] => .ok []
  | v :: vs => do
      let j ← v.toJson
      let js ← Value.toItems vs
      .ok (j.getD .null :: js)

/-- Entry by entry. -/
def Value.toFields : List (String × Value) → Except StringifyError (List (String × Json))
  | [] => .ok []
  | (k, v) :: entries => do
      let j ← v.toJson
      let fs ← Value.toFields entries
      -- a property without a text is left out
      .ok ((j.map fun j => (k, j)).toList ++ fs)

end

/-- An array whose one item is missing, which reads as an empty one. -/
def loneHole : List Value → Bool
  | [.hole] => true
  | _ => false

mutual

/-- The JSON value that the canonical text of a value is the text of, if it is one. -/
def Value.asJson : Value → Option Json
  | .null | .nonFinite => some .null
  | .bool b => some (.bool b)
  | .num n => some (.num n)
  | .bigint n => some (.str (toString n))
  | .str s => some (.str s)
  | .arr items => if loneHole items then some (.arr []) else (Value.asItems items).map .arr
  | .obj entries => (Value.asFields entries).map .obj
  | .converting self _ => self.asJson
  | .undefined | .function _ | .symbol _ | .hole => none

/-- Item by item. -/
def Value.asItems : List Value → Option (List Json)
  | [] => some []
  | v :: vs => do
      let j ← v.asJson
      let js ← Value.asItems vs
      some (j :: js)

/-- Entry by entry. -/
def Value.asFields : List (String × Value) → Option (List (String × Json))
  | [] => some []
  | (k, v) :: entries => do
      let j ← v.asJson
      let fs ← Value.asFields entries
      some ((k, j) :: fs)

end

/-- `JSON.stringify` of a payload. -/
def stringify (v : Value) : Except StringifyError (Option String) :=
  v.toJson.map fun j => j.map Json.text

/-! ## 2. Properties of all parts of a value -/

mutual

/-- `p` holds of a value and of every value in it. -/
def Value.All (p : Value → Prop) : Value → Prop
  | .arr items => p (.arr items) ∧ Value.AllItems p items
  | .obj entries => p (.obj entries) ∧ Value.AllEntries p entries
  | .converting self written => p (.converting self written) ∧ self.All p ∧ written.All p
  | v => p v

/-- It holds of every item. -/
def Value.AllItems (p : Value → Prop) : List Value → Prop
  | [] => True
  | v :: vs => v.All p ∧ Value.AllItems p vs

/-- It holds of every entry. -/
def Value.AllEntries (p : Value → Prop) : List (String × Value) → Prop
  | [] => True
  | (_, v) :: entries => v.All p ∧ Value.AllEntries p entries

end

/-- What `JSON.stringify` writes for `written` and what the canonical text of `self` says are one
    JSON value, up to the order of entries. -/
def Alike (self written : Value) : Prop :=
  ∃ j j', written.toJson = .ok (some j) ∧ self.asJson = some j' ∧ j'.Reordered j

mutual

/-- No `undefined`, no function, no symbol and no hole at any depth, and what converts itself
    converts itself to what its own properties say. -/
def Value.Plain : Value → Prop
  | .undefined | .function _ | .symbol _ | .hole => False
  | .arr items => PlainItems items
  | .obj entries => PlainEntries entries
  | .converting self written => Alike self written
  | _ => True

/-- Every item is plain. -/
def PlainItems : List Value → Prop
  | [] => True
  | v :: vs => v.Plain ∧ PlainItems vs

/-- Every entry is plain. -/
def PlainEntries : List (String × Value) → Prop
  | [] => True
  | (_, v) :: entries => v.Plain ∧ PlainEntries entries

end

/-- What follows an item or an entry: a comma, the end of the array or the object, or nothing. -/
def EndsItem (rest : List Char) : Prop := ∀ c ∈ rest.head?, c = ',' ∨ c = ']' ∨ c = '\x7d'

/-- A text that could be taken for a JSON value at its place. -/
def ReadsJson (text : List Char) : Prop :=
  ∃ (j : Json) (rest rest' : List Char), EndsItem rest ∧ EndsItem rest' ∧
    text ++ rest = (stableStringify j).toList ++ rest'

/-- Objects, arrays and functions may have a method `toJSON`; big integers, from their prototype. -/
def Converts : Value → Prop
  | .obj _ | .arr _ | .function _ | .bigint _ => True
  | _ => False

/-- What the language promises: the keys of an object are distinct, the source text of a function
    does not end an item nor pass for a JSON value, and only objects and big integers convert
    themselves. -/
def WellFormed : Value → Prop
  | .obj entries => (entries.map Prod.fst).Nodup
  | .function text => ¬ EndsItem text.toList ∧ ¬ ReadsJson text.toList
  | .converting self _ => Converts self
  | _ => True

/-- What the language promises of every value holds at every depth. -/
def Value.Proper (v : Value) : Prop := v.All WellFormed

section All

variable {p : Value → Prop}

theorem allItems_iff : ∀ {vs : List Value}, Value.AllItems p vs ↔ ∀ v ∈ vs, v.All p
  | [] => by simp [Value.AllItems]
  | v :: vs => by
      rw [Value.AllItems, allItems_iff, List.forall_mem_cons]

theorem plainEntries_iff_forall : ∀ {entries : List (String × Value)},
    PlainEntries entries ↔ ∀ e ∈ entries, e.2.Plain
  | [] => by simp [PlainEntries]
  | (k, v) :: entries => by
      rw [PlainEntries, plainEntries_iff_forall, List.forall_mem_cons]

theorem allEntries_iff : ∀ {entries : List (String × Value)},
    Value.AllEntries p entries ↔ ∀ e ∈ entries, e.2.All p
  | [] => by simp [Value.AllEntries]
  | (k, v) :: entries => by
      rw [Value.AllEntries, allEntries_iff, List.forall_mem_cons]

end All

/-! ## 3. What a successful JSON.stringify says of the parts -/

section Parts

variable {r : Option Json} {v : Value} {k : String}

theorem map_ok {ε α β : Type} {x : Except ε α} {f : α → β} {b : β} (h : x.map f = .ok b) :
    ∃ a, x = .ok a ∧ f a = b := by
  cases x with
  | error err => cases h
  | ok a => exact ⟨a, rfl, Except.ok.inj h⟩

theorem toJson_arr {items : List Value} (h : (Value.arr items).toJson = .ok r) :
    ∃ js, Value.toItems items = .ok js ∧ some (.arr js) = r := by
  rw [Value.toJson] at h
  exact map_ok h

theorem toJson_obj {entries : List (String × Value)} (h : (Value.obj entries).toJson = .ok r) :
    ∃ fs, Value.toFields entries = .ok fs ∧ some (.obj fs) = r := by
  rw [Value.toJson] at h
  exact map_ok h

theorem toItems_cons {vs : List Value} {js : List Json} (h : Value.toItems (v :: vs) = .ok js) :
    ∃ j js', v.toJson = .ok j ∧ Value.toItems vs = .ok js' ∧ js = j.getD .null :: js' := by
  rw [Value.toItems] at h
  cases hv : v.toJson with
  | error err =>
      rw [hv] at h
      cases h
  | ok j =>
      cases hvs : Value.toItems vs with
      | error err =>
          rw [hv, hvs] at h
          cases h
      | ok js' =>
          rw [hv, hvs] at h
          exact ⟨j, js', rfl, rfl, (Except.ok.inj h).symm⟩

theorem toFields_cons {entries : List (String × Value)} {fs : List (String × Json)}
    (h : Value.toFields ((k, v) :: entries) = .ok fs) :
    ∃ j fs', v.toJson = .ok j ∧ Value.toFields entries = .ok fs' ∧
      fs = (j.map fun j => (k, j)).toList ++ fs' := by
  rw [Value.toFields] at h
  cases hv : v.toJson with
  | error err =>
      rw [hv] at h
      cases h
  | ok j =>
      cases hvs : Value.toFields entries with
      | error err =>
          rw [hv, hvs] at h
          cases h
      | ok fs' =>
          rw [hv, hvs] at h
          exact ⟨j, fs', rfl, rfl, (Except.ok.inj h).symm⟩

end Parts

mutual

/-- A JSON value is written as it is. -/
theorem toJson_ofJson : ∀ j : Json, (Value.ofJson j).toJson = .ok (some j)
  | .null | .bool _ | .num _ | .str _ => rfl
  | .arr items => by
      rw [Value.ofJson, Value.toJson, toItems_ofItems items]
      rfl
  | .obj fields => by
      rw [Value.ofJson, Value.toJson, toFields_ofFields fields]
      rfl

theorem toItems_ofItems : ∀ js : List Json, Value.toItems (Value.ofItems js) = .ok js
  | [] => rfl
  | j :: js => by
      rw [Value.ofItems, Value.toItems, toJson_ofJson j, toItems_ofItems js]
      rfl

theorem toFields_ofFields : ∀ fs : List (String × Json),
    Value.toFields (Value.ofFields fs) = .ok fs
  | [] => rfl
  | (k, j) :: fs => by
      rw [Value.ofFields, Value.toFields, toJson_ofJson j, toFields_ofFields fs]
      rfl

end

/-- A value `JSON.stringify` has a text for. -/
def Stringifies (v : Value) : Prop := ∃ text, stringify v = .ok (some text)

theorem stringifies_iff {v : Value} : Stringifies v ↔ ∃ j, v.toJson = .ok (some j) := by
  constructor
  · intro ⟨text, h⟩
    obtain ⟨r, hr, htext⟩ := map_ok h
    obtain ⟨j, rfl, -⟩ := Option.map_eq_some_iff.mp htext
    exact ⟨j, hr⟩
  · intro ⟨j, h⟩
    refine ⟨j.text, ?_⟩
    unfold stringify
    rw [h]
    rfl

/-! ## 4. What the canonical text says -/

section Says

variable {v : Value} {j : Json} {k : String}

theorem asItems_cons {vs : List Value} {js : List Json} (h : Value.asItems (v :: vs) = some js) :
    ∃ j js', v.asJson = some j ∧ Value.asItems vs = some js' ∧ js = j :: js' := by
  rw [Value.asItems] at h
  obtain ⟨j, hj, h⟩ := Option.bind_eq_some_iff.mp h
  obtain ⟨js', hjs, h⟩ := Option.bind_eq_some_iff.mp h
  exact ⟨j, js', hj, hjs, (Option.some.inj h).symm⟩

theorem asFields_cons {entries : List (String × Value)} {fs : List (String × Json)}
    (h : Value.asFields ((k, v) :: entries) = some fs) :
    ∃ j fs', v.asJson = some j ∧ Value.asFields entries = some fs' ∧ fs = (k, j) :: fs' := by
  rw [Value.asFields] at h
  obtain ⟨j, hj, h⟩ := Option.bind_eq_some_iff.mp h
  obtain ⟨fs', hfs, h⟩ := Option.bind_eq_some_iff.mp h
  exact ⟨j, fs', hj, hfs, (Option.some.inj h).symm⟩

theorem asItems_of_cons {vs : List Value} {js : List Json} (hj : v.asJson = some j)
    (hjs : Value.asItems vs = some js) : Value.asItems (v :: vs) = some (j :: js) := by
  rw [Value.asItems, hj, hjs]
  rfl

theorem asFields_of_cons {entries : List (String × Value)} {fs : List (String × Json)}
    (hj : v.asJson = some j) (hfs : Value.asFields entries = some fs) :
    Value.asFields ((k, v) :: entries) = some ((k, j) :: fs) := by
  rw [Value.asFields, hj, hfs]
  rfl

theorem asJson_arr {items : List Value} (h : (Value.arr items).asJson = some j) :
    items = [.hole] ∧ j = .arr [] ∨ ∃ js, Value.asItems items = some js ∧ j = .arr js := by
  rw [Value.asJson] at h
  split_ifs at h with hlone
  · refine .inl ⟨?_, (Option.some.inj h).symm⟩
    unfold loneHole at hlone
    split at hlone
    · rfl
    · cases hlone
  · obtain ⟨js, hjs, rfl⟩ := Option.map_eq_some_iff.mp h
    exact .inr ⟨js, hjs, rfl⟩

theorem asFields_keys : ∀ {entries : List (String × Value)} {fs : List (String × Json)},
    Value.asFields entries = some fs → fs.map Prod.fst = entries.map Prod.fst
  | [], _, h => by
      cases h
      rfl
  | (k, v) :: entries, _, h => by
      obtain ⟨j, fs, -, hfs, rfl⟩ := asFields_cons h
      rw [List.map_cons, List.map_cons, asFields_keys hfs]

end Says

mutual

/-- **The canonical text is the text of that value.** -/
theorem canonicalize_asJson : ∀ {v : Value} {j : Json}, v.asJson = some j →
    canonicalize v = stableStringify j
  | .null, _, h | .nonFinite, _, h | .bool _, _, h | .num _, _, h | .bigint _, _, h | .str _, _, h => by
      cases h
      rfl
  | .undefined, _, h | .function _, _, h | .symbol _, _, h | .hole, _, h => by cases h
  | .arr items, j, h => by
      rcases asJson_arr h with ⟨rfl, rfl⟩ | ⟨js, hjs, rfl⟩
      · rfl
      · rw [canonicalize, stableStringify, canonicalItems_asItems hjs]
  | .obj entries, j, h => by
      obtain ⟨fs, hfs, rfl⟩ := Option.map_eq_some_iff.mp h
      rw [canonicalize, stableStringify, canonicalEntries_asFields hfs]
  | .converting self _, j, h => canonicalize_asJson (v := self) h

theorem canonicalItems_asItems : ∀ {vs : List Value} {js : List Json},
    Value.asItems vs = some js → canonicalItems vs = stableItems js
  | [], _, h => by
      cases h
      rfl
  | v :: vs, _, h => by
      obtain ⟨j, js, hj, hjs, rfl⟩ := asItems_cons h
      rw [canonicalItems, stableItems, canonicalize_asJson hj, canonicalItems_asItems hjs]

theorem canonicalEntries_asFields : ∀ {entries : List (String × Value)} {fs : List (String × Json)},
    Value.asFields entries = some fs → canonicalEntries entries = stableFields fs
  | [], _, h => by
      cases h
      rfl
  | (k, v) :: entries, _, h => by
      obtain ⟨j, fs, hj, hfs, rfl⟩ := asFields_cons h
      rw [canonicalEntries, stableFields, canonicalize_asJson hj, canonicalEntries_asFields hfs]

end

mutual

theorem distinct_asJson : ∀ {v : Value} {j : Json}, v.Proper → v.asJson = some j → j.Distinct
  | .null, _, _, h | .nonFinite, _, _, h | .bool _, _, _, h | .num _, _, _, h
  | .bigint _, _, _, h | .str _, _, _, h => by
      cases h
      trivial
  | .undefined, _, _, h | .function _, _, _, h | .symbol _, _, _, h | .hole, _, _, h => by cases h
  | .arr items, j, hp, h => by
      rcases asJson_arr h with ⟨-, rfl⟩ | ⟨js, hjs, rfl⟩
      · trivial
      · exact distinct_asItems hp.2 hjs
  | .obj entries, j, hp, h => by
      obtain ⟨fs, hfs, rfl⟩ := Option.map_eq_some_iff.mp h
      refine ⟨?_, distinct_asFields hp.2 hfs⟩
      rw [asFields_keys hfs]
      exact hp.1
  | .converting self _, j, hp, h => distinct_asJson (v := self) hp.2.1 h

theorem distinct_asItems : ∀ {vs : List Value} {js : List Json}, Value.AllItems WellFormed vs →
    Value.asItems vs = some js → DistinctItems js
  | [], _, _, h => by
      cases h
      trivial
  | v :: vs, _, hp, h => by
      obtain ⟨j, js, hj, hjs, rfl⟩ := asItems_cons h
      exact ⟨distinct_asJson hp.1 hj, distinct_asItems hp.2 hjs⟩

theorem distinct_asFields : ∀ {entries : List (String × Value)} {fs : List (String × Json)},
    Value.AllEntries WellFormed entries → Value.asFields entries = some fs → DistinctFields fs
  | [], _, _, h => by
      cases h
      trivial
  | (k, v) :: entries, _, hp, h => by
      obtain ⟨j, fs, hj, hfs, rfl⟩ := asFields_cons h
      exact ⟨distinct_asJson hp.1 hj, distinct_asFields hp.2 hfs⟩

end

/-! ## 5. A plain value says what is stored -/

section PlainIff

variable {v : Value} {j : Json} {r : Option Json}

theorem toJson_none (h : v.toJson = .ok none) (hp : v.Proper) (hj : v.asJson = some j) :
    j ≠ .null := by
  rintro rfl
  cases v with
  | undefined | function | symbol | hole => cases hj
  | arr items =>
      obtain ⟨js, -, hjs⟩ := toJson_arr h
      cases hjs
  | obj entries =>
      obtain ⟨fs, -, hfs⟩ := toJson_obj h
      cases hfs
  | converting self written =>
      have hself : self.asJson = some .null := hj
      have hconverts : Converts self := hp.1
      cases self with
      | obj entries =>
          obtain ⟨fs, -, hfs⟩ := Option.map_eq_some_iff.mp hself
          cases hfs
      | arr items =>
          rcases asJson_arr hself with ⟨-, hnull⟩ | ⟨js, -, hnull⟩ <;> cases hnull
      | function | bigint => cases hself
      | _ => exact hconverts
  | _ => cases h

/-- Lists with the same distinct keys in the same order, one a permutation of the other. -/
theorem eq_of_perm_of_keys {α : Type} : ∀ {fs gs : List (String × α)}, fs.Perm gs →
    fs.map Prod.fst = gs.map Prod.fst → (gs.map Prod.fst).Nodup → fs = gs
  | [], gs, hperm, _, _ => hperm.nil_eq
  | f :: fs, [], hperm, _, _ => absurd hperm.eq_nil (List.cons_ne_nil _ _)
  | f :: fs, g :: gs, hperm, hkeys, hnd => by
      obtain ⟨hfirst, hrest⟩ := List.cons.inj hkeys
      obtain rfl := eq_of_key_eq hnd (hperm.subset List.mem_cons_self) List.mem_cons_self hfirst
      rw [eq_of_perm_of_keys hperm.cons_inv hrest (List.nodup_cons.mp hnd).2]

theorem toFields_length_le : ∀ {entries : List (String × Value)} {fs : List (String × Json)},
    Value.toFields entries = .ok fs → fs.length ≤ entries.length
  | [], _, h => by
      cases h
      exact Nat.le_refl _
  | (k, v) :: entries, _, h => by
      obtain ⟨r, fs, -, hfs, rfl⟩ := toFields_cons h
      have hle := toFields_length_le hfs
      cases r with
      | none => exact Nat.le_succ_of_le hle
      | some j => exact Nat.succ_le_succ hle

/-- Where nothing is left out the keys stay. -/
theorem toFields_keys_of_length : ∀ {entries : List (String × Value)} {fs : List (String × Json)},
    Value.toFields entries = .ok fs → fs.length = entries.length →
    fs.map Prod.fst = entries.map Prod.fst
  | [], _, h, _ => by
      cases h
      rfl
  | (k, v) :: entries, _, h, hlen => by
      obtain ⟨r, fs, -, hfs, rfl⟩ := toFields_cons h
      have hle := toFields_length_le hfs
      cases r with
      | none =>
          simp only [Option.map_none, Option.toList_none, List.nil_append, List.length_cons] at hlen
          omega
      | some j =>
          have hrest : fs.length = entries.length := by simpa using hlen
          simp only [Option.map_some, Option.toList_some, List.singleton_append, List.map_cons,
            toFields_keys_of_length hfs hrest]

end PlainIff

mutual

/-- **A value is plain just where its canonical text says what is stored.** -/
theorem plain_iff : ∀ {v : Value} {r : Option Json}, v.Proper → v.toJson = .ok r →
    (v.Plain ↔ ∃ j j', r = some j ∧ v.asJson = some j' ∧ j'.Reordered j)
  | .null, _, _, h | .nonFinite, _, _, h => by
      cases h
      exact iff_of_true trivial ⟨_, _, rfl, rfl, trivial⟩
  | .bool b, _, _, h | .num b, _, _, h | .str b, _, _, h => by
      cases h
      exact iff_of_true trivial ⟨_, _, rfl, rfl, rfl⟩
  | .bigint _, _, _, h => by cases h
  | .undefined, _, _, h | .function _, _, _, h | .symbol _, _, _, h | .hole, _, _, h => by
      cases h
      exact iff_of_false id fun ⟨_, _, hnone, _⟩ => by cases hnone
  | .arr items, r, hp, h => by
      obtain ⟨js, hjs, rfl⟩ := toJson_arr h
      refine (plainItems_iff hp.2 hjs).trans ⟨?_, ?_⟩
      · rintro ⟨js', hjs', hsame⟩
        refine ⟨_, .arr js', rfl, ?_, hsame⟩
        rw [Value.asJson, if_neg, hjs']
        · rfl
        · unfold loneHole
          split
          · cases hjs'
          · exact Bool.false_ne_true
      · rintro ⟨_, j', heq, hj', hsame⟩
        cases heq
        rcases asJson_arr hj' with ⟨rfl, rfl⟩ | ⟨js', hjs', rfl⟩
        · cases hjs
          exact hsame.elim
        · exact ⟨js', hjs', hsame⟩
  | .obj entries, r, hp, h => by
      obtain ⟨fs, hfs, rfl⟩ := toJson_obj h
      refine (plainEntries_iff_fields hp.2 hfs).trans ⟨?_, ?_⟩
      · rintro ⟨fs', hfs', hsame⟩
        refine ⟨_, .obj fs', rfl, ?_, fs, .refl _, hsame⟩
        rw [Value.asJson, hfs']
        rfl
      · rintro ⟨_, j', heq, hj', hsame⟩
        cases heq
        obtain ⟨fs', hfs', rfl⟩ := Option.map_eq_some_iff.mp hj'
        obtain ⟨hs, hperm, hsame⟩ := hsame
        -- nothing is left out, so that all keys stand in their order
        have hkeys' := asFields_keys hfs'
        have hkeys := reorderedFields_keys hsame
        have hlen : fs.length = entries.length := by
          have hcount := congrArg List.length (hkeys.symm.trans hkeys')
          rwa [List.length_map, List.length_map, hperm.length_eq] at hcount
        have hstay := toFields_keys_of_length hfs hlen
        have hnd : (fs.map Prod.fst).Nodup := hstay ▸ hp.1
        obtain rfl := eq_of_perm_of_keys hperm (hkeys.symm.trans (hkeys'.trans hstay.symm)) hnd
        exact ⟨fs', hfs', hsame⟩
  | .converting self written, r, hp, h => by
      have hr : written.toJson = .ok r := h
      constructor
      · rintro ⟨j, j', hj, hj', hsame⟩
        rw [hr] at hj
        exact ⟨j, j', Except.ok.inj hj, hj', hsame⟩
      · rintro ⟨j, j', rfl, hj', hsame⟩
        exact ⟨j, j', hr, hj', hsame⟩

theorem plainItems_iff : ∀ {vs : List Value} {js : List Json}, Value.AllItems WellFormed vs →
    Value.toItems vs = .ok js →
    (PlainItems vs ↔ ∃ js', Value.asItems vs = some js' ∧ ReorderedItems js' js)
  | [], _, _, h => by
      cases h
      exact iff_of_true trivial ⟨[], rfl, trivial⟩
  | v :: vs, _, hp, h => by
      obtain ⟨r, js, hr, hjs, rfl⟩ := toItems_cons h
      rw [PlainItems, plain_iff hp.1 hr, plainItems_iff hp.2 hjs]
      constructor
      · rintro ⟨⟨j, j', rfl, hj', hsame⟩, js', hjs', hrest⟩
        exact ⟨_, asItems_of_cons hj' hjs', hsame, hrest⟩
      · rintro ⟨_, hall, hboth⟩
        obtain ⟨j', js', hj', hjs', rfl⟩ := asItems_cons hall
        refine ⟨?_, js', hjs', hboth.2⟩
        cases r with
        | some j => exact ⟨j, j', rfl, hj', hboth.1⟩
        | none =>
            have hnull := toJson_none hr hp.1 hj'
            have hsame : j'.Reordered .null := hboth.1
            cases j' with
            | null => exact absurd rfl hnull
            | _ => exact hsame.elim

theorem plainEntries_iff_fields : ∀ {entries : List (String × Value)} {fs : List (String × Json)},
    Value.AllEntries WellFormed entries → Value.toFields entries = .ok fs →
    (PlainEntries entries ↔ ∃ fs', Value.asFields entries = some fs' ∧ ReorderedFields fs' fs)
  | [], _, _, h => by
      cases h
      exact iff_of_true trivial ⟨[], rfl, trivial⟩
  | (k, v) :: entries, _, hp, h => by
      obtain ⟨r, fs, hr, hfs, rfl⟩ := toFields_cons h
      rw [PlainEntries, plain_iff hp.1 hr, plainEntries_iff_fields hp.2 hfs]
      constructor
      · rintro ⟨⟨j, j', rfl, hj', hsame⟩, fs', hfs', hrest⟩
        exact ⟨_, asFields_of_cons hj' hfs', rfl, hsame, hrest⟩
      · rintro ⟨_, hall, hboth⟩
        obtain ⟨j', fs', hj', hfs', rfl⟩ := asFields_cons hall
        cases r with
        | some j => exact ⟨⟨j, j', rfl, hj', hboth.2.1⟩, fs', hfs', hboth.2.2⟩
        | none =>
            -- one entry too few is stored
            have hkeys := congrArg List.length (reorderedFields_keys hboth)
            have hlen := congrArg List.length (asFields_keys hfs')
            have hle := toFields_length_le hfs
            simp only [Option.map_none, Option.toList_none, List.nil_append, List.map_cons,
              List.length_cons, List.length_map] at hkeys hlen
            omega

end

/-! ## 6. Texts that are no JSON texts -/

/-- The texts `parts`, each after a comma, and what follows them. -/
def commaTail : List String → List Char → List Char
  | [], rest => rest
  | p :: ps, rest => ',' :: (p.toList ++ commaTail ps rest)

theorem joinComma_append : ∀ (p : String) (ps : List String) (rest : List Char),
    (joinComma (p :: ps)).toList ++ rest = p.toList ++ commaTail ps rest
  | p, [], rest => rfl
  | p, q :: ps, rest => by
      have hcomma : ",".toList = [','] := rfl
      rw [joinComma, String.toList_append, String.toList_append, List.append_assoc,
        List.append_assoc, joinComma_append q ps rest, hcomma]
      rfl

theorem endsItem_cons {c : Char} (hc : c = ',' ∨ c = ']' ∨ c = '\x7d') (rest : List Char) :
    EndsItem (c :: rest) := by
  rintro d ⟨⟩
  exact hc

theorem endsItem_commaTail {close : Char} (hclose : close = ']' ∨ close = '\x7d') (ps : List String)
    (rest : List Char) : EndsItem (commaTail ps (close :: rest)) := by
  cases ps with
  | nil => exact endsItem_cons (.inr hclose) rest
  | cons p ps => exact endsItem_cons (.inl rfl) _

theorem EndsItem.endsNumber {rest : List Char} (h : EndsItem rest) : EndsNumber rest := by
  intro c hc
  rcases h c hc with rfl | rfl | rfl <;> decide

/-- **A canonical JSON text is read one way**, whatever follows it. -/
theorem stableStringify_append_inj {j j' : Json} {rest rest' : List Char} (hr : EndsItem rest)
    (hr' : EndsItem rest')
    (h : (stableStringify j).toList ++ rest = (stableStringify j').toList ++ rest') :
    rest = rest' := by
  rw [stableStringify_eq_text, stableStringify_eq_text] at h
  have hread := readValue_text j.sortKeys
    (Nat.le_add_right _ (2 * j'.sortKeys.text.toList.length)) hr.endsNumber
  have hread' := readValue_text j'.sortKeys
    (Nat.le_add_left _ (2 * j.sortKeys.text.toList.length)) hr'.endsNumber
  rw [h, hread'] at hread
  exact (Prod.mk.inj (Option.some.inj hread)).2.symm

/-- A number begins with a letter of a number. -/
theorem JsonNumber.head_isNumberChar (n : JsonNumber) {c : Char} {cs : List Char}
    (rest : List Char) (h : c :: cs = n.text.toList ++ rest) : isNumberChar c = true := by
  cases hn : n.text.toList with
  | nil => exact absurd (String.toList_eq_nil_iff.mp hn) n.nonempty
  | cons d ds =>
      rw [hn] at h
      obtain rfl := (List.cons.inj h).1
      exact List.all_eq_true.mp n.printed c (by rw [hn]; exact List.mem_cons_self)

/-- The letters a JSON text can begin with. -/
def BeginsJson (c : Char) : Prop :=
  c = 'n' ∨ c = 't' ∨ c = 'f' ∨ c = '"' ∨ c = '[' ∨ c = '\x7b' ∨ isNumberChar c = true

theorem stableStringify_head (j : Json) :
    ∃ c cs, (stableStringify j).toList = c :: cs ∧ BeginsJson c := by
  unfold BeginsJson
  cases j with
  | null => exact ⟨'n', _, rfl, by decide⟩
  | bool b =>
      cases b
      · exact ⟨'f', _, rfl, by decide⟩
      · exact ⟨'t', _, rfl, by decide⟩
  | num n =>
      cases hn : n.text.toList with
      | nil => exact absurd (String.toList_eq_nil_iff.mp hn) n.nonempty
      | cons c cs =>
          refine ⟨c, cs, hn, ?_⟩
          have hc : isNumberChar c = true :=
            n.head_isNumberChar [] (by rw [List.append_nil, hn])
          simp [hc]
  | str s =>
      refine ⟨'"', s.toList.flatMap escapeChar ++ ['"'], ?_, by decide⟩
      rw [← List.append_nil (stableStringify (.str s)).toList]
      exact quoteJson_append s []
  | arr items => exact ⟨'[', _, by simp [stableStringify]; rfl, by decide⟩
  | obj fields => exact ⟨'\x7b', _, by simp [stableStringify]; rfl, by decide⟩

/-- Wherever the text of `v` stands in front of the end of an item, it is no JSON text there. -/
def Unaligned (v : Value) : Prop :=
  ∀ (j : Json) (rest rest' : List Char), EndsItem rest → EndsItem rest' →
    (canonicalize v).toList ++ rest ≠ (stableStringify j).toList ++ rest'

section Unaligned

variable {v : Value} {rest rest' : List Char}

/-- A text that begins with none of the letters a JSON text begins with. -/
theorem unaligned_of_head {c : Char} {cs : List Char} (hv : (canonicalize v).toList = c :: cs)
    (hc : ¬ BeginsJson c) : Unaligned v := by
  intro j rest rest' _ _ h
  obtain ⟨d, ds, hj, hd⟩ := stableStringify_head j
  rw [hv, hj] at h
  exact hc ((List.cons.inj h).1 ▸ hd)

theorem unaligned_hole : Unaligned .hole := by
  intro j rest rest' hr _ h
  obtain ⟨d, ds, hj, hd⟩ := stableStringify_head j
  have hrest : rest = d :: (ds ++ rest') := by
    rw [hj] at h
    exact h
  rcases hr d (by rw [hrest]; rfl) with rfl | rfl | rfl <;> revert hd <;> unfold BeginsJson <;> decide

/-- Items of which one says nothing. -/
theorem unaligned_items : ∀ {vs : List Value} {js : List Json},
    (∀ v ∈ vs, v.asJson = none → Unaligned v) → Value.asItems vs = none →
    commaTail (canonicalItems vs) (']' :: rest) ≠ commaTail (stableItems js) (']' :: rest')
  | [], _, _, hnone, _ => by cases hnone
  | v :: vs, [], _, _, h => absurd (List.cons.inj h).1 (by decide)
  | v :: vs, j :: js, hall, hnone, h => by
      rw [canonicalItems, stableItems, commaTail, commaTail] at h
      have htexts := (List.cons.inj h).2
      have hend := endsItem_commaTail (.inl rfl) (canonicalItems vs) rest
      have hend' := endsItem_commaTail (.inl rfl) (stableItems js) rest'
      cases hv : v.asJson with
      | none => exact hall v List.mem_cons_self hv j _ _ hend hend' htexts
      | some j' =>
          rw [canonicalize_asJson hv] at htexts
          refine unaligned_items (fun w hw => hall w (List.mem_cons_of_mem _ hw)) ?_
            (stableStringify_append_inj hend hend' htexts)
          cases hvs : Value.asItems vs with
          | none => rfl
          | some js' => rw [asItems_of_cons hv hvs] at hnone; cases hnone

/-- The text of an entry, in either serializer. -/
def entryText (e : String × String) : String := quoteJson e.1 ++ ":" ++ e.2

theorem entryText_append (e : String × String) (rest : List Char) :
    (entryText e).toList ++ rest =
      '"' :: (e.1.toList.flatMap escapeChar ++ '"' :: ':' :: (e.2.toList ++ rest)) := by
  simp [entryText, quoteJson]

/-- Keys are read up to their closing quote. -/
theorem entryText_inj {e e' : String × String}
    (h : (entryText e).toList ++ rest = (entryText e').toList ++ rest') :
    e.2.toList ++ rest = e'.2.toList ++ rest' := by
  rw [entryText_append, entryText_append] at h
  have hread := congrArg readString (List.cons.inj h).2
  rw [readString_escaped, readString_escaped] at hread
  exact (List.cons.inj (Prod.mk.inj (Option.some.inj hread)).2).2

theorem unaligned_entries : ∀ {es : List (String × Value)} {fs : List (String × Json)},
    (∀ e ∈ es, e.2.asJson = none → Unaligned e.2) → (∃ e ∈ es, e.2.asJson = none) →
    commaTail (es.map fun e => entryText (e.1, canonicalize e.2)) ('\x7d' :: rest) ≠
      commaTail (fs.map fun f => entryText (f.1, stableStringify f.2)) ('\x7d' :: rest')
  | [], _, _, ⟨e, he, _⟩, _ => by cases he
  | e :: es, [], _, _, h => absurd (List.cons.inj h).1 (by decide)
  | e :: es, f :: fs, hall, ⟨e', he', hnone⟩, h => by
      have htexts := entryText_inj (List.cons.inj h).2
      have hend := endsItem_commaTail (.inr rfl) (es.map fun e => entryText (e.1, canonicalize e.2)) rest
      have hend' := endsItem_commaTail (.inr rfl)
        (fs.map fun f => entryText (f.1, stableStringify f.2)) rest'
      cases hv : e.2.asJson with
      | none => exact hall e List.mem_cons_self hv f.2 _ _ hend hend' htexts
      | some j' =>
          rw [canonicalize_asJson hv] at htexts
          refine unaligned_entries (fun w hw => hall w (List.mem_cons_of_mem _ hw)) ⟨e', ?_, hnone⟩
            (stableStringify_append_inj hend hend' htexts)
          rcases List.mem_cons.mp he' with rfl | he'
          · rw [hv] at hnone
            cases hnone
          · exact he'

theorem commaTail_of_joinComma {ps qs : List String} (hp : ps ≠ []) (hq : qs ≠ [])
    (h : (joinComma ps).toList ++ rest = (joinComma qs).toList ++ rest') :
    commaTail ps rest = commaTail qs rest' := by
  obtain ⟨p, ps, rfl⟩ := List.exists_cons_of_ne_nil hp
  obtain ⟨q, qs, rfl⟩ := List.exists_cons_of_ne_nil hq
  rw [joinComma_append, joinComma_append] at h
  exact congrArg (List.cons ',') h

theorem canonicalEntries_eq_map : ∀ entries : List (String × Value),
    canonicalEntries entries = entries.map fun e => (e.1, canonicalize e.2)
  | [] => rfl
  | (k, v) :: entries => by
      rw [canonicalEntries, List.map_cons, canonicalEntries_eq_map entries]

theorem stableFields_eq_map : ∀ fs : List (String × Json),
    stableFields fs = fs.map fun f => (f.1, stableStringify f.2)
  | [] => rfl
  | (k, v) :: fs => by
      rw [stableFields, List.map_cons, stableFields_eq_map fs]

theorem canonicalize_arr_append (items : List Value) (rest : List Char) :
    (canonicalize (.arr items)).toList ++ rest =
      '[' :: ((joinComma (canonicalItems items)).toList ++ ']' :: rest) := by
  rw [canonicalize]
  simp only [String.toList_append, List.append_assoc]
  rfl

theorem stableStringify_arr_append (js : List Json) (rest : List Char) :
    (stableStringify (.arr js)).toList ++ rest =
      '[' :: ((joinComma (stableItems js)).toList ++ ']' :: rest) := by
  rw [stableStringify]
  simp only [String.toList_append, List.append_assoc]
  rfl

theorem canonicalize_obj_append (entries : List (String × Value)) (rest : List Char) :
    (canonicalize (.obj entries)).toList ++ rest = '\x7b' :: ((joinComma ((sortEntries entries).map
      fun e => entryText (e.1, canonicalize e.2))).toList ++ '\x7d' :: rest) := by
  rw [canonicalize, canonicalEntries_eq_map, sortByKey_map, List.map_map]
  simp only [String.toList_append, List.append_assoc]
  rfl

theorem stableStringify_obj_append (fs : List (String × Json)) (rest : List Char) :
    (stableStringify (.obj fs)).toList ++ rest = '\x7b' :: ((joinComma ((sortEntries fs).map
      fun f => entryText (f.1, stableStringify f.2))).toList ++ '\x7d' :: rest) := by
  rw [stableStringify, stableFields_eq_map, sortByKey_map, List.map_map]
  simp only [String.toList_append, List.append_assoc]
  rfl

theorem exists_of_asFields : ∀ {entries : List (String × Value)}, Value.asFields entries = none →
    ∃ e ∈ entries, e.2.asJson = none
  | [], h => by cases h
  | (k, v) :: entries, h => by
      cases hv : v.asJson with
      | none => exact ⟨(k, v), List.mem_cons_self, hv⟩
      | some j =>
          cases hrest : Value.asFields entries with
          | none =>
              obtain ⟨e, he, hnone⟩ := exists_of_asFields hrest
              exact ⟨e, List.mem_cons_of_mem _ he, hnone⟩
          | some fs => rw [asFields_of_cons hv hrest] at h; cases h

/-- Only an object's text opens with a brace. -/
theorem obj_of_head {j : Json} {cs : List Char}
    (h : '\x7b' :: cs = (stableStringify j).toList ++ rest) : ∃ fs, j = .obj fs := by
  cases j with
  | obj fs => exact ⟨fs, rfl⟩
  | null => exact absurd (List.cons.inj h).1 (by decide)
  | bool b => cases b <;> exact absurd (List.cons.inj h).1 (by decide)
  | num n =>
      have hn : '\x7b' :: cs = n.text.toList ++ rest := h
      exact absurd (n.head_isNumberChar _ hn) (by decide)
  | str s =>
      rw [stableStringify, quoteJson_append] at h
      exact absurd (List.cons.inj h).1 (by decide)
  | arr items =>
      rw [stableStringify_arr_append] at h
      exact absurd (List.cons.inj h).1 (by decide)

/-- Only an array's text opens with a bracket. -/
theorem arr_of_head {j : Json} {cs : List Char}
    (h : '[' :: cs = (stableStringify j).toList ++ rest) : ∃ js, j = .arr js := by
  cases j with
  | arr js => exact ⟨js, rfl⟩
  | null => exact absurd (List.cons.inj h).1 (by decide)
  | bool b => cases b <;> exact absurd (List.cons.inj h).1 (by decide)
  | num n =>
      have hn : '[' :: cs = n.text.toList ++ rest := h
      exact absurd (n.head_isNumberChar _ hn) (by decide)
  | str s =>
      rw [stableStringify, quoteJson_append] at h
      exact absurd (List.cons.inj h).1 (by decide)
  | obj fields =>
      rw [stableStringify_obj_append] at h
      exact absurd (List.cons.inj h).1 (by decide)

/-- An object, one of whose values says nothing. -/
theorem unaligned_obj {entries : List (String × Value)}
    (hall : ∀ e ∈ entries, e.2.asJson = none → Unaligned e.2)
    (hnone : (Value.obj entries).asJson = none) : Unaligned (.obj entries) := by
  intro j rest rest' _ _ h
  have hperm : (sortEntries entries).Perm entries := List.perm_insertionSort _ _
  obtain ⟨e, he, hsays⟩ := exists_of_asFields (Option.map_eq_none_iff.mp hnone)
  have hmem : e ∈ sortEntries entries := hperm.mem_iff.mpr he
  rw [canonicalize_obj_append] at h
  obtain ⟨fs, rfl⟩ := obj_of_head h
  rw [stableStringify_obj_append] at h
  have hjoin := (List.cons.inj h).2
  have htail := commaTail_of_joinComma ?_ ?_ hjoin
  · exact unaligned_entries (fun e he => hall e (hperm.mem_iff.mp he)) ⟨e, hmem, hsays⟩ htail
  · exact fun hnil => absurd (List.map_eq_nil_iff.mp hnil) (List.ne_nil_of_mem hmem)
  · intro hnil
    obtain ⟨e', es, hes⟩ := List.exists_cons_of_ne_nil (List.ne_nil_of_mem hmem)
    rw [hnil, hes, List.map_cons, joinComma_append, entryText_append] at hjoin
    exact absurd (List.cons.inj hjoin).1 (by decide)

/-- Any text but that of a hole begins, and not as an item ends. -/
theorem canonicalize_head : ∀ {v : Value}, v.Proper → v ≠ .hole →
    ¬ EndsItem (canonicalize v).toList
  | .undefined, _, _, h | .null, _, _, h | .nonFinite, _, _, h | .bool true, _, _, h
  | .bool false, _, _, h => by
      have hc := h _ rfl
      revert hc
      decide
  | .num n, _, _, h => by
      cases hn : n.text.toList with
      | nil => exact absurd (String.toList_eq_nil_iff.mp hn) n.nonempty
      | cons c cs =>
          have hc : isNumberChar c = true :=
            n.head_isNumberChar [] (by rw [List.append_nil, hn])
          rcases h c (by rw [canonicalize, hn]; rfl) with rfl | rfl | rfl <;> revert hc <;> decide
  | .bigint _, _, _, h | .str _, _, _, h => by
      rw [canonicalize, ← List.append_nil (quoteJson _).toList, quoteJson_append] at h
      have hc := h _ rfl
      revert hc
      decide
  | .arr items, _, _, h => by
      have hc := h '[' (by simp [canonicalize])
      revert hc
      decide
  | .obj entries, _, _, h => by
      have hc := h '\x7b' (by simp [canonicalize])
      revert hc
      decide
  | .function _, hp, _, h => hp.1 h
  | .symbol description, _, _, h => by
      have hc := h 'S' (by simp [canonicalize])
      revert hc
      decide
  | .hole, _, hne, _ => hne rfl
  | .converting self written, hp, _, h => by
      refine canonicalize_head (v := self) hp.2.1 ?_ h
      rintro rfl
      exact hp.1

/-- An array, one of whose items says nothing. -/
theorem unaligned_arr {items : List Value} (hp : Value.AllItems WellFormed items)
    (hall : ∀ v ∈ items, v.asJson = none → Unaligned v)
    (hnone : (Value.arr items).asJson = none) : Unaligned (.arr items) := by
  intro j rest rest' _ _ h
  rw [canonicalize_arr_append] at h
  obtain ⟨js, rfl⟩ := arr_of_head h
  rw [stableStringify_arr_append] at h
  have hjoin := (List.cons.inj h).2
  rw [Value.asJson] at hnone
  split_ifs at hnone with hlone
  have hitems := Option.map_eq_none_iff.mp hnone
  cases items with
  | nil => cases hitems
  | cons v vs =>
      cases js with
      | cons j js =>
          have htail := commaTail_of_joinComma (List.cons_ne_nil _ _) (List.cons_ne_nil _ _) hjoin
          exact @unaligned_items rest rest' (v :: vs) (j :: js) hall hitems htail
      | nil =>
          -- the bracket is closed at once, which no item of `items` begins with
          rw [canonicalItems, joinComma_append] at hjoin
          by_cases hhole : v = .hole
          · subst hhole
            cases vs with
            | nil => exact hlone rfl
            | cons w vs => exact absurd (List.cons.inj hjoin).1 (by decide)
          · refine canonicalize_head hp.1 hhole fun c hc => ?_
            obtain ⟨cs, hcs⟩ := List.head?_eq_some_iff.mp (Option.mem_def.mp hc)
            rw [hcs] at hjoin
            exact .inr (.inl (List.cons.inj hjoin).1)

end Unaligned

mutual

/-- **A value whose text says nothing is no JSON text anywhere.** -/
theorem unaligned : ∀ {v : Value}, v.Proper → v.asJson = none → Unaligned v
  | .undefined, _, _ => unaligned_of_head (c := 'u') rfl (by unfold BeginsJson; decide)
  | .symbol description, _, _ =>
      unaligned_of_head (c := 'S') (by simp [canonicalize]; rfl) (by unfold BeginsJson; decide)
  | .hole, _, _ => unaligned_hole
  | .function _, hp, _ => fun j rest rest' hr hr' h => hp.2 ⟨j, rest, rest', hr, hr', h⟩
  | .null, _, h | .nonFinite, _, h | .bool _, _, h | .num _, _, h | .bigint _, _, h
  | .str _, _, h => by cases h
  | .arr items, hp, h => unaligned_arr hp.2 (unaligned_of_items hp.2) h
  | .obj entries, hp, h => unaligned_obj (unaligned_of_entries hp.2) h
  | .converting self _, hp, h => unaligned (v := self) hp.2.1 h

theorem unaligned_of_items : ∀ {vs : List Value}, Value.AllItems WellFormed vs →
    ∀ v ∈ vs, v.asJson = none → Unaligned v
  | v :: vs, hp, w, hw, h => by
      rcases List.mem_cons.mp hw with heq | hw
      · rw [heq] at h ⊢
        exact unaligned hp.1 h
      · exact unaligned_of_items hp.2 w hw h

theorem unaligned_of_entries : ∀ {entries : List (String × Value)},
    Value.AllEntries WellFormed entries → ∀ e ∈ entries, e.2.asJson = none → Unaligned e.2
  | (k, v) :: entries, hp, e, he, h => by
      rcases List.mem_cons.mp he with heq | he
      · rw [heq] at h ⊢
        exact unaligned hp.1 h
      · exact unaligned_of_entries hp.2 e he h

end

/-- **What is stored has the canonical text of the payload just where the payload is plain.** -/
theorem canonicalize_eq_iff {v : Value} {j : Json} (hproper : v.Proper)
    (hj : v.toJson = .ok (some j)) :
    canonicalize (.ofJson j) = canonicalize v ↔ v.Plain := by
  rw [canonicalize_ofJson, plain_iff hproper hj]
  constructor
  · intro h
    cases hsays : v.asJson with
    | none =>
        refine absurd ?_ (unaligned hproper hsays j [] [] ?_ ?_)
        · rw [h]
        · exact fun c hc => nomatch hc
        · exact fun c hc => nomatch hc
    | some j' =>
        rw [canonicalize_asJson hsays] at h
        exact ⟨j, j', rfl, rfl, reordered_of_stableStringify h.symm⟩
  · rintro ⟨_, j', heq, hsays, hsame⟩
    cases heq
    rw [canonicalize_asJson hsays]
    exact (stableStringify_of_reordered (distinct_asJson hproper hsays) hsame).symm

end AgentKernel
