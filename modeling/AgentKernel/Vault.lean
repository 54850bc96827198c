/-
  File:      AgentKernel/Vault.lean
  Subject:   Taking secrets out of a value before it is recorded
             (adapters/vault/src/vault.ts `redactSecrets`).

  Every string value is split at each secret in turn and joined with the marker; the keys of an
  object stay. As long as every secret is found in what stood in the string before, and not across a
  marker, the outcome is the string cut at all of them, with the marker in the cuts
  (`redactText_cuts`).

  **`redaction_removes`**: where they are found so, a redacted value is clean if and only if no key
  has a secret and no secret reads across a marker in a cut.
-/
import AgentKernel.Contracts.Json
import AgentKernel.Lib.Splitting

namespace AgentKernel.Vault

open Lib

/-! ## 1. Redaction -/

/-- `[REDACTED]` -/
def marker : List Char := '[' :: "REDACTED".toList ++ [']']

/-- `out.split(s).join('[REDACTED]')`, for a secret that is not empty. -/
def replaceSecret (out : List Char) (s : String) : List Char :=
  if s = "" then out else marker.intercalate (pieces s.toList out)

/-- A string, split and joined for each secret in turn. -/
def redactText (secrets : List String) (text : String) : String :=
  String.ofList (secrets.foldl replaceSecret text.toList)

mutual

/-- Every string value is redacted; keys stay. -/
def redactSecrets (secrets : List String) : Json → Json
  | .null => .null
  | .bool b => .bool b
  | .num n => .num n
  | .str text => .str (redactText secrets text)
  | .arr items => .arr (redactItems secrets items)
  | .obj fields => .obj (redactFields secrets fields)

/-- Item by item. -/
def redactItems (secrets : List String) : List Json → List Json
  | [] => []
  | v :: vs => redactSecrets secrets v :: redactItems secrets vs

/-- `out[k] = …` for each entry: for `__proto__` the assignment adds no entry. -/
def redactFields (secrets : List String) : List (String × Json) → List (String × Json)
  | [] => []
  | (k, v) :: fs =>
      if k = "__proto__" then redactFields secrets fs
      else (k, redactSecrets secrets v) :: redactFields secrets fs

end

/-! ## 2. Strings of a value -/

mutual

/-- The strings of a value, its keys among them. -/
def strings : Json → List String
  | .str text => [text]
  | .arr items => itemStrings items
  | .obj fields => fieldStrings fields
  | _ => []

/-- Those of every item. -/
def itemStrings : List Json → List String
  | [] => []
  | v :: vs => strings v ++ itemStrings vs

/-- Those of every entry, with its key. -/
def fieldStrings : List (String × Json) → List String
  | [] => []
  | (k, v) :: fs => k :: strings v ++ fieldStrings fs

end

/-- A word of a value: a key of it, or a string value. -/
inductive Word where
  | key (k : String)
  | text (t : String)

/-- A key stays, a string is redacted. -/
def Word.redact (secrets : List String) : Word → String
  | .key k => k
  | .text t => redactText secrets t

mutual

/-- The words of a value that redaction keeps. -/
def words : Json → List Word
  | .str text => [.text text]
  | .arr items => itemWords items
  | .obj fields => fieldWords fields
  | _ => []

/-- Those of every item. -/
def itemWords : List Json → List Word
  | [] => []
  | v :: vs => words v ++ itemWords vs

/-- Those of every entry that is copied. -/
def fieldWords : List (String × Json) → List Word
  | [] => []
  | (k, v) :: fs => if k = "__proto__" then fieldWords fs else .key k :: words v ++ fieldWords fs

end

mutual

/-- **The strings of a redacted value are its keys and its redacted string values.** -/
theorem strings_redact (secrets : List String) : ∀ v : Json,
    strings (redactSecrets secrets v) = (words v).map (Word.redact secrets)
  | .null => rfl
  | .bool _ => rfl
  | .num _ => rfl
  | .str _ => rfl
  | .arr items => strings_redactItems secrets items
  | .obj fields => strings_redactFields secrets fields

theorem strings_redactItems (secrets : List String) : ∀ vs : List Json,
    itemStrings (redactItems secrets vs) = (itemWords vs).map (Word.redact secrets)
  | [] => rfl
  | v :: vs => by
      simp only [redactItems, itemStrings, itemWords, List.map_append, strings_redact secrets v,
        strings_redactItems secrets vs]

theorem strings_redactFields (secrets : List String) : ∀ fs : List (String × Json),
    fieldStrings (redactFields secrets fs) = (fieldWords fs).map (Word.redact secrets)
  | [] => rfl
  | (k, v) :: fs => by
      have ih := strings_redactFields secrets fs
      unfold redactFields fieldWords
      split_ifs with hk
      · exact ih
      · simp only [fieldStrings, List.cons_append, List.map_cons, List.map_append, ih,
          strings_redact secrets v]
        rfl

end

/-! ## 3. Clean strings -/

/-- The secret stands in the text. -/
def Contains (text secret : String) : Prop := secret.toList <:+: text.toList

instance (text secret : String) : Decidable (Contains text secret) :=
  inferInstanceAs (Decidable (secret.toList <:+: text.toList))

/-- No string of the value, key or not, contains a secret. -/
def Clean (secrets : List String) (v : Json) : Prop :=
  ∀ text ∈ strings v, ∀ s ∈ secrets, ¬Contains text s

/-- No key that redaction keeps contains a secret. -/
def KeysClear (secrets : List String) (v : Json) : Prop :=
  ∀ k, .key k ∈ words v → ∀ s ∈ secrets, ¬Contains k s

/-- The secret shares letters with the marker: it begins with an end of `[REDACTED]`, ends with a
    beginning of it, or contains it. -/
def Shares (s : String) : Prop := Meshes s.toList marker

/-- A text, cut at the secrets one after the other. -/
def cuts (secrets : List String) (text : String) : List (List Char) :=
  splitAll (secrets.map String.toList) [text.toList]

/-- With the marker in the cuts made before its turn, no secret reads across a marker. -/
def InTurn (secrets : List String) (text : String) : Prop :=
  MarkersKept marker (secrets.map String.toList) [text.toList]

instance (secrets : List String) (text : String) : Decidable (InTurn secrets text) :=
  inferInstanceAs (Decidable (MarkersKept _ _ _))

/-- With the marker in all cuts, no secret reads across a marker. -/
def Apart (secrets : List String) (text : String) : Prop :=
  ∀ s ∈ secrets, ¬Straddles s.toList marker (cuts secrets text)

instance (secrets : List String) (text : String) : Decidable (Apart secrets text) :=
  inferInstanceAs (Decidable (∀ s ∈ secrets, ¬Straddles s.toList marker (cuts secrets text)))

theorem redactText_snoc (front : List String) (s : String) (text : String) :
    (redactText (front ++ [s]) text).toList = replaceSecret (redactText front text).toList s := by
  simp [redactText]

variable {secrets : List String} {text s : String}

theorem map_toList_ne_nil (hne : ∀ s ∈ secrets, s ≠ "") :
    ∀ cs ∈ secrets.map String.toList, cs ≠ [] := by
  simpa using hne

/-- **A redacted text is its cuts with the marker in between**, if every secret is found in what
    stood there before. -/
theorem redactText_cuts (hne : ∀ s ∈ secrets, s ≠ "") (h : InTurn secrets text) :
    (redactText secrets text).toList = marker.intercalate (cuts secrets text) := by
  have hturns : secrets.foldl replaceSecret text.toList =
      secrets.foldl (fun out s => marker.intercalate (pieces s.toList out)) text.toList := by
    refine List.foldl_ext _ _ _ fun out s hs => ?_
    unfold replaceSecret
    rw [if_neg (hne s hs)]
  have hcut := foldl_join (map_toList_ne_nil hne) (List.cons_ne_nil text.toList []) h
  rw [List.foldl_map, List.intercalate_singleton] at hcut
  unfold redactText cuts
  rw [String.toList_ofList, hturns, hcut]

/-- **So it contains a secret just where that reads across a marker.** -/
theorem contains_redactText_iff (hne : ∀ s ∈ secrets, s ≠ "") (h : InTurn secrets text)
    (hs : s ∈ secrets) :
    Contains (redactText secrets text) s ↔ Straddles s.toList marker (cuts secrets text) := by
  unfold Contains
  rw [redactText_cuts hne h]
  exact infix_splitAll_iff (map_toList_ne_nil hne) (List.cons_ne_nil _ _) (List.mem_map_of_mem hs)

theorem clean_text_iff (hne : ∀ s ∈ secrets, s ≠ "") (h : InTurn secrets text) :
    (∀ s ∈ secrets, ¬Contains (redactText secrets text) s) ↔ Apart secrets text :=
  forall₂_congr fun _ hs => not_congr (contains_redactText_iff hne h hs)

theorem inTurn_of_shares (hmarker : ∀ s ∈ secrets, ¬s.toList <:+: marker)
    (hno : ∀ s ∈ secrets, ¬Shares s) : InTurn secrets text :=
  markersKept_of_meshes (List.forall_mem_map.mpr hmarker) (List.forall_mem_map.mpr hno)

theorem apart_of_shares (hmarker : ∀ s ∈ secrets, ¬s.toList <:+: marker)
    (hno : ∀ s ∈ secrets, ¬Shares s) : Apart secrets text :=
  fun s hs h => hno s hs (h.meshes (hmarker s hs))

/-- **A secret that begins with an end of the marker can come back.** -/
theorem exists_text_returns {b : List Char} (hs : s ≠ "") (hne : b ≠ []) (hb : b <:+ marker)
    (hbegins : b <+: s.toList) : ∃ text, Contains (redactText [s] text) s := by
  obtain ⟨c, hc⟩ := hbegins
  refine ⟨String.ofList (s.toList ++ c), ?_⟩
  have hreturns : b ++ c <:+: marker.intercalate (pieces (b ++ c) (b ++ c ++ c)) :=
    exists_returns hb hne
  unfold Contains
  rw [← List.nil_append [s], redactText_snoc]
  unfold replaceSecret redactText
  rw [if_neg hs]
  simpa [hc] using hreturns

/-! ## 4. Clean values -/

theorem clean_iff {secrets : List String} {v : Json} : Clean secrets (redactSecrets secrets v) ↔
    KeysClear secrets v ∧
      ∀ t, .text t ∈ words v → ∀ s ∈ secrets, ¬Contains (redactText secrets t) s := by
  unfold Clean KeysClear
  rw [strings_redact]
  constructor
  · intro h
    exact ⟨fun k hk => h k (List.mem_map.mpr ⟨_, hk, rfl⟩),
      fun t ht => h _ (List.mem_map.mpr ⟨_, ht, rfl⟩)⟩
  · rintro ⟨hkeys, htexts⟩ text htext
    obtain ⟨w, hw, rfl⟩ := List.mem_map.mp htext
    cases w with
    | key k => exact hkeys k hw
    | text t => exact htexts t hw

/-- **A redacted value is clean where its keys are clear, and, with the marker in the cuts of its
    strings, no secret reads across a marker, neither in the end nor when its turn comes; and it is
    clean in no other case in which every secret is found in turn.** Clear keys are needed; where no
    secret shares letters with the marker they decide alone; and a secret that begins with an end of
    the marker comes back in some string. -/
theorem redaction_removes (secrets : List String) (v : Json)
    (hne : ∀ s ∈ secrets, s ≠ "") (hmarker : ∀ s ∈ secrets, ¬s.toList <:+: marker) :
    (KeysClear secrets v ∧ (∀ t, .text t ∈ words v → InTurn secrets t ∧ Apart secrets t) →
      Clean secrets (redactSecrets secrets v)) ∧
    ((∀ t, .text t ∈ words v → InTurn secrets t) → (Clean secrets (redactSecrets secrets v) ↔
      KeysClear secrets v ∧ ∀ t, .text t ∈ words v → Apart secrets t)) ∧
    (Clean secrets (redactSecrets secrets v) → KeysClear secrets v) ∧
    ((∀ s ∈ secrets, ¬Shares s) → (Clean secrets (redactSecrets secrets v) ↔ KeysClear secrets v)) ∧
    ∀ s ∈ secrets, (∃ b, b ≠ [] ∧ b <:+ marker ∧ b <+: s.toList) →
      ∃ text, ¬Clean [s] (redactSecrets [s] (.str text)) := by
  have hiff : (∀ t, .text t ∈ words v → InTurn secrets t) → (Clean secrets (redactSecrets secrets v) ↔
      KeysClear secrets v ∧ ∀ t, .text t ∈ words v → Apart secrets t) := fun hturn =>
    clean_iff.trans (and_congr_right' (forall₂_congr fun t ht => clean_text_iff hne (hturn t ht)))
  refine ⟨fun ⟨hkeys, htexts⟩ => ?_, hiff, fun h => (clean_iff.mp h).1, fun hno => ?_,
    fun s hs ⟨b, hb, hend, hbegin⟩ => ?_⟩
  · exact (hiff fun t ht => (htexts t ht).1).mpr ⟨hkeys, fun t ht => (htexts t ht).2⟩
  · refine (hiff fun t _ => inTurn_of_shares hmarker hno).trans ⟨And.left, fun hkeys => ?_⟩
    exact ⟨hkeys, fun t _ => apart_of_shares hmarker hno⟩
  · obtain ⟨text, htext⟩ := exists_text_returns (hne s hs) hb hend hbegin
    exact ⟨text, fun h => h _ (List.mem_singleton_self _) s (List.mem_singleton_self _) htext⟩

/-- Three secrets: one is in another, and one begins with the bracket of the marker. -/
def threeSecrets : List String := ["hunter23", "hunter2", "]x"]

/-- They stand under keys that do not name them. -/
def password : Json :=
  .obj [("password", .str "hunter2"), ("note", .arr [.str "not hunter23, nor ]x", .str "none"])]

theorem redaction_removes_password :
    KeysClear threeSecrets password ∧
    (∀ t, .text t ∈ words password → InTurn threeSecrets t ∧ Apart threeSecrets t) ∧
    Clean threeSecrets (redactSecrets threeSecrets password) := by
  have hwords : words password = [.key "password", .text "hunter2", .key "note",
      .text "not hunter23, nor ]x", .text "none"] := rfl
  have hkeys : KeysClear threeSecrets password := by
    intro k hk
    rw [hwords] at hk
    simp only [List.mem_cons, List.not_mem_nil, or_false, Word.key.injEq, reduceCtorEq,
      false_or] at hk
    rcases hk with rfl | rfl <;> decide
  have htexts : ∀ t, .text t ∈ words password → InTurn threeSecrets t ∧ Apart threeSecrets t := by
    intro t ht
    rw [hwords] at ht
    simp only [List.mem_cons, List.not_mem_nil, or_false, Word.text.injEq, reduceCtorEq,
      false_or] at ht
    rcases ht with rfl | rfl | rfl <;> decide
  exact ⟨hkeys, htexts,
    (redaction_removes threeSecrets password (by decide) (by decide)).1 ⟨hkeys, htexts⟩⟩

/-- **A secret stays where it is a key, and where the marker puts it together again.** -/
theorem secret_stays :
    ¬Clean ["hunter2"] (redactSecrets ["hunter2"] (.obj [("hunter2", .null)])) ∧
    ¬Clean ["]a"] (redactSecrets ["]a"] (.str "]aa")) := by
  refine ⟨fun h => h "hunter2" (by decide) "hunter2" (by decide) List.infix_rfl, fun h => ?_⟩
  exact h "[REDACTED]a" (by decide) "]a" (by decide) ⟨"[REDACTED".toList, [], by decide⟩

end AgentKernel.Vault
