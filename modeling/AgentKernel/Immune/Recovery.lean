/-
  File:      AgentKernel/Immune/Recovery.lean
  Subject:   Checkpoints and the verification of a restored state (kernel/immune/src/recovery.ts).

  A checkpoint keeps the digest of `JSON.stringify(state)`, and `restore` compares it with the
  digest of the expected state. The plain text follows the order in which the keys were written,
  so two spellings of one value have two digests, where the ledger's canonical text has one:

  * **`verified_iff_eq`**: with a digest free of collisions, `restore` verifies the state that was
    checkpointed and no other spelling;
  * `eq_of_sameKeyOrder`: values that differ in the order of entries only, and have the keys of
    every object in the same order, are the same;
  * **`restore_compares_values_iff`**: `restore` compares values exactly where the expected state
    is another value, or has the keys of every object in the order of the checkpoint.

  Random ids and times of day come with the call.
-/
import AgentKernel.Contracts.KeyOrder

namespace AgentKernel.Immune

/-! ## 1. Objects as JavaScript holds them -/

mutual

/-- No object has a key twice, at any depth. -/
def Distinct : Json → Prop
  | .arr items => DistinctItems items
  | .obj fields => (fields.map Prod.fst).Nodup ∧ DistinctFields fields
  | _ => True

/-- The same for every item. -/
def DistinctItems : List Json → Prop
  | [] => True
  | v :: vs => Distinct v ∧ DistinctItems vs

/-- The same for every value. -/
def DistinctFields : List (String × Json) → Prop
  | [] => True
  | (_, v) :: fs => Distinct v ∧ DistinctFields fs

end

/-- A state: an object, its entries in the order of its own keys. -/
structure JsonObject where
  fields : List (String × Json)
  distinct : Distinct (.obj fields)

namespace JsonObject

/-- The object as a value. -/
def json (s : JsonObject) : Json := .obj s.fields

theorem json_injective : Function.Injective json := by
  rintro ⟨fs, hfs⟩ ⟨gs, hgs⟩ h
  obtain rfl : fs = gs := Json.obj.inj h
  rfl

/-- The same value: the order in which keys were written does not matter, at any depth. -/
def SameValue (s t : JsonObject) : Prop := s.json.Reordered t.json

end JsonObject

/-! ## 2. The recovery engine -/

/-- `stateHash`. -/
def stateHash (sha256 : String → String) (state : JsonObject) : String := sha256 state.json.text

/-- What a checkpoint is taken before. -/
inductive CheckpointKind where
  | migration | deployment | massFileChange | dependencyUpgrade | configurationMutation | custom

/-- A state with its hash. -/
structure Checkpoint where
  id : String
  label : String
  kind : CheckpointKind
  createdAt : String
  state : JsonObject
  hash : String

/-- What a restoration has come to. -/
structure RecoveryResult where
  level : Nat
  applied : Bool
  restored : Bool
  verified : Bool
  note : String
  deriving DecidableEq

/-- The checkpoints, each under its id and with the digest of its state. -/
structure RecoveryEngine (sha256 : String → String) where
  checkpoints : String → Option Checkpoint
  keyed : ∀ id c, checkpoints id = some c → c.id = id
  hashed : ∀ id c, checkpoints id = some c → c.hash = stateHash sha256 c.state

namespace RecoveryEngine

variable {sha256 : String → String}

/-- There is no checkpoint. -/
def empty : RecoveryEngine sha256 where
  checkpoints _ := none
  keyed _ _ h := nomatch h
  hashed _ _ h := nomatch h

/-- A checkpoint of a state, under a new id. -/
def checkpoint (engine : RecoveryEngine sha256) (id createdAt label : String)
    (kind : CheckpointKind) (state : JsonObject) : RecoveryEngine sha256 × Checkpoint :=
  let c : Checkpoint :=
    { id := id, label := label, kind := kind, createdAt := createdAt, state := state
      hash := stateHash sha256 state }
  ({ checkpoints := Function.update engine.checkpoints id (some c)
     keyed := by
       intro id' c' h
       by_cases hid : id' = id
       · rw [hid, Function.update_self] at h
         rw [hid, ← Option.some.inj h]
       · rw [Function.update_of_ne hid] at h
         exact engine.keyed id' c' h
     hashed := by
       intro id' c' h
       by_cases hid : id' = id
       · rw [hid, Function.update_self] at h
         rw [← Option.some.inj h]
       · rw [Function.update_of_ne hid] at h
         exact engine.hashed id' c' h }, c)

/-- The checkpoint of an id. -/
def get (engine : RecoveryEngine sha256) (id : String) : Option Checkpoint := engine.checkpoints id

/-- A checkpoint is restored; whether its state is the one that was expected is only reported. -/
def restore (engine : RecoveryEngine sha256) (checkpointId : String)
    (expectedState : Option JsonObject) : RecoveryResult :=
  match engine.checkpoints checkpointId with
  | none => ⟨3, false, false, false, "unknown checkpoint '" ++ checkpointId ++ "'"⟩
  | some c =>
      let verified := match expectedState with
        | some expected => decide (stateHash sha256 expected = c.hash)
        | none => true
      ⟨3, true, true, verified,
        if verified then "restored '" ++ c.label ++ "' and verified"
        else "restored '" ++ c.label ++ "' but verification failed"⟩

end RecoveryEngine

/-! ## 3. What is verified -/

section Verified

variable {sha256 : String → String} {engine : RecoveryEngine sha256} {id : String} {c : Checkpoint}

theorem stateHash_injective (hinj : Function.Injective sha256) :
    Function.Injective (stateHash sha256) := by
  intro s t h
  exact JsonObject.json_injective (text_injective (hinj h))

/-- **`restore` verifies the state that was checkpointed, as it was spelled.** -/
theorem verified_iff_eq (hinj : Function.Injective sha256) (hc : engine.get id = some c)
    (expected : JsonObject) :
    (engine.restore id (some expected)).verified = true ↔ expected = c.state := by
  have hfound : engine.checkpoints id = some c := hc
  unfold RecoveryEngine.restore
  rw [hfound]
  simp only [decide_eq_true_eq]
  rw [engine.hashed id c hfound]
  exact (stateHash_injective hinj).eq_iff

end Verified

/-! ## 4. Values and spellings -/

mutual

/-- The keys of the objects at the same place are written in the same order. -/
def SameKeyOrder : Json → Json → Prop
  | .arr vs, .arr ws => SameKeyOrderItems vs ws
  | .obj fs, .obj gs => fs.map Prod.fst = gs.map Prod.fst ∧ SameKeyOrderFields fs gs
  | _, _ => True

/-- Item by item. -/
def SameKeyOrderItems : List Json → List Json → Prop
  | v :: vs, w :: ws => SameKeyOrder v w ∧ SameKeyOrderItems vs ws
  | _, _ => True

/-- Value by value. -/
def SameKeyOrderFields : List (String × Json) → List (String × Json) → Prop
  | (_, v) :: fs, (_, w) :: gs => SameKeyOrder v w ∧ SameKeyOrderFields fs gs
  | _, _ => True

end

mutual

theorem sameKeyOrder_refl : ∀ v : Json, SameKeyOrder v v
  | .null | .bool _ | .num _ | .str _ => trivial
  | .arr vs => sameKeyOrderItems_refl vs
  | .obj fs => ⟨rfl, sameKeyOrderFields_refl fs⟩

theorem sameKeyOrderItems_refl : ∀ vs : List Json, SameKeyOrderItems vs vs
  | [] => trivial
  | v :: vs => ⟨sameKeyOrder_refl v, sameKeyOrderItems_refl vs⟩

theorem sameKeyOrderFields_refl : ∀ fs : List (String × Json), SameKeyOrderFields fs fs
  | [] => trivial
  | (_, v) :: fs => ⟨sameKeyOrder_refl v, sameKeyOrderFields_refl fs⟩

end

mutual

theorem reordered_refl : ∀ v : Json, v.Reordered v
  | .null => trivial
  | .bool _ | .num _ | .str _ => rfl
  | .arr vs => reorderedItems_refl vs
  | .obj fs => ⟨fs, List.Perm.refl fs, reorderedFields_refl fs⟩

theorem reorderedItems_refl : ∀ vs : List Json, ReorderedItems vs vs
  | [] => trivial
  | v :: vs => ⟨reordered_refl v, reorderedItems_refl vs⟩

theorem reorderedFields_refl : ∀ fs : List (String × Json), ReorderedFields fs fs
  | [] => trivial
  | (_, v) :: fs => ⟨rfl, reordered_refl v, reorderedFields_refl fs⟩

end

theorem reorderedFields_keys : ∀ {fs gs : List (String × Json)}, ReorderedFields fs gs →
    fs.map Prod.fst = gs.map Prod.fst
  | [], [], _ => rfl
  | (k, _) :: fs, (k', _) :: gs, ⟨hk, _, hrest⟩ => by
      rw [List.map_cons, List.map_cons, hk, reorderedFields_keys hrest]

/-- Entries under distinct keys are settled by the order of their keys. -/
theorem eq_of_perm_of_keys {α : Type} : ∀ {hs gs : List (String × α)}, hs.Perm gs →
    hs.map Prod.fst = gs.map Prod.fst → (gs.map Prod.fst).Nodup → hs = gs
  | [], [], _, _, _ => rfl
  | (k, v) :: hs, (k', w) :: gs, hperm, hkeys, hnodup => by
      obtain ⟨hk, hrest⟩ := List.cons.inj hkeys
      obtain rfl : k = k' := hk
      obtain ⟨hnew, hnodup'⟩ := List.nodup_cons.mp hnodup
      have hmem : (k, v) ∈ (k, w) :: gs := hperm.subset (List.mem_cons_self ..)
      obtain rfl : v = w := by
        rcases List.mem_cons.mp hmem with h | h
        · exact (Prod.mk.inj h).2
        · exact absurd (List.mem_map_of_mem h) hnew
      rw [eq_of_perm_of_keys ((List.perm_cons _).mp hperm) hrest hnodup']

mutual

/-- **Values that differ in the order of entries only, with the keys in the same order.** -/
theorem eq_of_sameKeyOrder : ∀ {v w : Json}, v.Reordered w → SameKeyOrder v w → Distinct w → v = w
  | .null, .null, _, _, _ => rfl
  | .bool _, .bool _, h, _, _ => congrArg _ h
  | .num _, .num _, h, _, _ => congrArg _ h
  | .str _, .str _, h, _, _ => congrArg _ h
  | .arr _, .arr _, h, ho, hd => congrArg _ (eq_of_sameKeyOrderItems h ho hd)
  | .obj fs, .obj gs, ⟨hs, hperm, hfields⟩, ⟨hkeys, ho⟩, ⟨hnodup, hd⟩ => by
      have hkeys' : hs.map Prod.fst = gs.map Prod.fst := by
        rw [← reorderedFields_keys hfields]
        exact hkeys
      obtain rfl : hs = gs := eq_of_perm_of_keys hperm hkeys' hnodup
      exact congrArg _ (eq_of_sameKeyOrderFields hfields ho hd)

theorem eq_of_sameKeyOrderItems : ∀ {vs ws : List Json}, ReorderedItems vs ws →
    SameKeyOrderItems vs ws → DistinctItems ws → vs = ws
  | [], [], _, _, _ => rfl
  | _ :: _, _ :: _, ⟨hv, hvs⟩, ⟨hov, hovs⟩, ⟨hdw, hdws⟩ => by
      rw [eq_of_sameKeyOrder hv hov hdw, eq_of_sameKeyOrderItems hvs hovs hdws]

theorem eq_of_sameKeyOrderFields : ∀ {fs gs : List (String × Json)}, ReorderedFields fs gs →
    SameKeyOrderFields fs gs → DistinctFields gs → fs = gs
  | [], [], _, _, _ => rfl
  | (_, _) :: _, (_, _) :: _, ⟨hk, hv, hfs⟩, ⟨hov, hofs⟩, ⟨hdw, hdgs⟩ => by
      rw [hk, eq_of_sameKeyOrder hv hov hdw, eq_of_sameKeyOrderFields hfs hofs hdgs]

end

/-! ## 5. Where values are compared -/

section Values

variable {sha256 : String → String} {engine : RecoveryEngine sha256} {id : String} {c : Checkpoint}

/-- **`restore` compares values exactly where one value is spelled in one way.** -/
theorem restore_compares_values_iff (hinj : Function.Injective sha256)
    (hc : engine.get id = some c) (expected : JsonObject) :
    ((engine.restore id (some expected)).verified = true ↔ expected.SameValue c.state) ↔
      (expected.SameValue c.state → SameKeyOrder expected.json c.state.json) := by
  rw [verified_iff_eq hinj hc]
  constructor
  · intro hcompares hsame
    rw [hcompares.mpr hsame]
    exact sameKeyOrder_refl _
  · intro horder
    constructor
    · rintro rfl
      exact reordered_refl _
    · intro hsame
      exact JsonObject.json_injective (eq_of_sameKeyOrder hsame (horder hsame) c.state.distinct)

end Values

/-- The state of a release, in two spellings. -/
def release : JsonObject where
  fields := [("version", .str "1.2.3"), ("files", .num (.ofNat 12))]
  distinct := by simp [Distinct, DistinctFields]

/-- The same state, written in another order. -/
def respelled : JsonObject where
  fields := [("files", .num (.ofNat 12)), ("version", .str "1.2.3")]
  distinct := by simp [Distinct, DistinctFields]

/-- The release, checkpointed before it is deployed. -/
def deployment : RecoveryEngine id × Checkpoint :=
  RecoveryEngine.empty.checkpoint "cp" "2026-01-01T00:00:00.000Z" "pre-deploy" .deployment release

theorem respelled_ne_release : respelled ≠ release := by
  intro h
  have hfields := congrArg (fun s => s.fields.map Prod.fst) h
  exact absurd hfields (by decide)

theorem respelled_sameValue : respelled.SameValue release :=
  ⟨respelled.fields, List.Perm.swap _ _ _, reorderedFields_refl _⟩

/-- The expected state is the checkpointed value, and is not verified. -/
theorem respelled_unverified :
    deployment.1.get "cp" = some deployment.2 ∧ deployment.2.state = release ∧
    respelled.SameValue release ∧
    (deployment.1.restore "cp" (some respelled)).verified = false := by
  refine ⟨rfl, rfl, respelled_sameValue, ?_⟩
  rw [← Bool.not_eq_true, verified_iff_eq Function.injective_id (c := deployment.2) rfl]
  exact respelled_ne_release

theorem release_compared :
    ((deployment.1.restore "cp" (some release)).verified = true ↔ release.SameValue release) ↔
      (release.SameValue release → SameKeyOrder release.json release.json) :=
  restore_compares_values_iff Function.injective_id (c := deployment.2) rfl release

end AgentKernel.Immune
