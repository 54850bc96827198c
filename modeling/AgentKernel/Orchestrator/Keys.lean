/-
  File:      AgentKernel/Orchestrator/Keys.lean
  Subject:   Which nodes of which runs have the same idempotency key (executor.ts `keyOf`, hash.ts).

  The hashed text is run id, `:`, node id, a zero character and the canonical text of the input. The
  zero character occurs in no canonical text, but `:` may occur in both ids, and an input `null` is
  hashed as `{}`.

  * `keyOf_eq_iff`: the keys are the same just where the joined ids are, and the inputs up to the
    order of entries;
  * **`key_identifies_iff`**: so a key stands for one run, node and input unless a piece between two
    `:` can be read as the end of one run id and as the beginning of the other's node id.
-/
import AgentKernel.Contracts.Canonical
import AgentKernel.Orchestrator.Executor

namespace AgentKernel.Orchestrator

/-! ## 1. Joined ids -/

/-- The piece `w` between two `:` ends the run id `r'` on one side, and begins the node id `n` on
    the other. -/
def Shifted (r n r' n' : String) : Prop := ∃ w, r' = r ++ ":" ++ w ∧ n = w ++ ":" ++ n'

theorem joined_eq_iff {r n r' n' : String} : r ++ ":" ++ n = r' ++ ":" ++ n' ↔
    (r = r' ∧ n = n') ∨ Shifted r n r' n' ∨ Shifted r' n' r n := by
  constructor
  · intro h
    have hl : r.toList ++ (':' :: n.toList) = r'.toList ++ (':' :: n'.toList) := by
      have hl := congrArg String.toList h
      simpa using hl
    -- one run id goes on for `ds` behind the other
    have hcut : ∀ {a b a' b' ds : List Char}, a' = a ++ ds → ':' :: b = ds ++ ':' :: b' →
        (a = a' ∧ b = b') ∨ ∃ w, a' = a ++ ':' :: w ∧ b = w ++ ':' :: b' := by
      intro a b a' b' ds ha hb
      cases ds with
      | nil => exact .inl ⟨by rw [ha, List.append_nil], (List.cons.inj hb).2⟩
      | cons d ds =>
          obtain ⟨rfl, hrest⟩ := List.cons.inj hb
          exact .inr ⟨ds, ha, hrest⟩
    have htext : ∀ {a b : String} {w : List Char}, b.toList = a.toList ++ ':' :: w →
        b = a ++ ":" ++ String.ofList w := by
      intro a b w hb
      refine String.toList_injective ?_
      simpa using hb
    have htext' : ∀ {a b : String} {w : List Char}, b.toList = w ++ ':' :: a.toList →
        b = String.ofList w ++ ":" ++ a := by
      intro a b w hb
      refine String.toList_injective ?_
      simpa using hb
    rcases List.append_eq_append_iff.mp hl with ⟨ds, ha, hb⟩ | ⟨ds, ha, hb⟩
    · rcases hcut ha hb with ⟨hr, hn⟩ | ⟨w, hr, hn⟩
      · exact .inl ⟨String.toList_injective hr, String.toList_injective hn⟩
      · exact .inr (.inl ⟨_, htext hr, htext' hn⟩)
    · rcases hcut ha hb with ⟨hr, hn⟩ | ⟨w, hr, hn⟩
      · exact .inl ⟨(String.toList_injective hr).symm, (String.toList_injective hn).symm⟩
      · exact .inr (.inr ⟨_, htext hr, htext' hn⟩)
  · rintro (⟨rfl, rfl⟩ | ⟨w, rfl, rfl⟩ | ⟨w, rfl, rfl⟩)
    · rfl
    · simp only [String.append_assoc]
    · simp only [String.append_assoc]

theorem Shifted.ne {r n r' n' : String} (h : Shifted r n r' n') : r ≠ r' := by
  rintro rfl
  obtain ⟨w, hr, -⟩ := h
  have hlen := congrArg String.length hr
  have hcolon : ":".length = 1 := rfl
  simp only [String.length_append] at hlen
  omega

/-! ## 2. Inputs -/

/-- One input is `null` and the other `{}`. -/
def NullOrEmpty (i i' : Json) : Prop := (i = .null ∧ i' = .obj []) ∨ (i = .obj [] ∧ i' = .null)

theorem obj_nil_reordered {i : Json} : (Json.obj []).Reordered i ↔ i = .obj [] := by
  cases i with
  | obj gs =>
      constructor
      · rintro ⟨hs, hperm, hfields⟩
        cases hs with
        | nil => rw [List.nil_perm.mp hperm]
        | cons e hs => exact hfields.elim
      · intro h
        rw [Json.obj.inj h]
        exact ⟨[], .refl _, trivial⟩
  | _ => exact ⟨fun h => h.elim, fun h => nomatch h⟩

theorem reordered_obj_nil {i : Json} : i.Reordered (.obj []) ↔ i = .obj [] := by
  cases i with
  | obj fs =>
      constructor
      · rintro ⟨hs, hperm, hfields⟩
        obtain rfl := List.perm_nil.mp hperm
        cases fs with
        | nil => rfl
        | cons e fs => exact hfields.elim
      · intro h
        rw [Json.obj.inj h]
        exact ⟨[], .refl _, trivial⟩
  | _ => exact ⟨fun h => h.elim, fun h => nomatch h⟩

theorem reordered_null {i : Json} : i.Reordered .null ↔ i = .null := by
  cases i <;> simp [Json.Reordered]

theorem null_reordered {i : Json} : Json.null.Reordered i ↔ i = .null := by
  cases i <;> simp [Json.Reordered]

theorem NullOrEmpty.not_reordered {i i' : Json} (h : NullOrEmpty i i') : ¬ i.Reordered i' := by
  rcases h with ⟨rfl, rfl⟩ | ⟨rfl, rfl⟩ <;> exact id

theorem orEmpty_some {i : Json} (hi : i ≠ .null) : orEmpty (some i) = i := by
  cases i with
  | null => exact absurd rfl hi
  | _ => rfl

/-- What is hashed of two inputs is the same up to the order of entries if the inputs are, or if one
    is `null` and the other `{}`. -/
theorem orEmpty_reordered_iff {i i' : Json} : (orEmpty (some i)).Reordered (orEmpty (some i')) ↔
    i.Reordered i' ∨ NullOrEmpty i i' := by
  have hempty : orEmpty (some .null) = .obj [] := rfl
  by_cases hi : i = .null
  · subst hi
    by_cases hi' : i' = .null
    · subst hi'
      exact ⟨fun _ => .inl trivial, fun _ => ⟨[], .refl _, trivial⟩⟩
    · rw [hempty, orEmpty_some hi', obj_nil_reordered, null_reordered]
      simp [NullOrEmpty, hi']
  · by_cases hi' : i' = .null
    · subst hi'
      rw [hempty, orEmpty_some hi, reordered_obj_nil, reordered_null]
      simp [NullOrEmpty, hi]
    · rw [orEmpty_some hi, orEmpty_some hi']
      simp [NullOrEmpty, hi, hi']

/-! ## 3. Keys -/

section Keys

variable {c c' : Context} {n n' : WorkflowNode} {i i' : Json}

theorem orEmpty_distinct (hi : i.Distinct) : (orEmpty (some i)).Distinct := by
  by_cases hnull : i = .null
  · subst hnull
    exact ⟨.nil, trivial⟩
  · rwa [orEmpty_some hnull]

/-- **Keys are the same just where the joined ids are, and the inputs up to the order of entries.** -/
theorem keyOf_eq_iff (hsha : c'.sha256 = c.sha256) (hinj : Function.Injective c.sha256)
    (hn : n.input = some i) (hn' : n'.input = some i') (hi : i.Distinct) :
    keyOf c n = keyOf c' n' ↔ operationId c n = operationId c' n' ∧
      (i.Reordered i' ∨ NullOrEmpty i i') := by
  rw [← orEmpty_reordered_iff, ← stableStringify_eq_iff (orEmpty_distinct hi)]
  unfold keyOf idempotencyKey
  rw [hn, hn', hsha, hinj.eq_iff]
  constructor
  · intro h
    have hop := keyText_operationId h
    rw [hop] at h
    have hl := congrArg String.toList h
    simp only [String.toList_append] at hl
    exact ⟨hop, String.toList_injective (List.append_cancel_left hl)⟩
  · rintro ⟨hop, htext⟩
    rw [hop, htext]

/-- The key stands for one run, one node and one input, up to the order of entries. -/
def Identifies (c c' : Context) (n n' : WorkflowNode) (i i' : Json) : Prop :=
  keyOf c n = keyOf c' n' → c.runId = c'.runId ∧ n.id = n'.id ∧ i.Reordered i'

/-- Where the inputs are hashed alike, neither run id ends in a piece that the node id of the other
    begins with, and two inputs of one node are not `null` and `{}`. -/
def Unambiguous (c c' : Context) (n n' : WorkflowNode) (i i' : Json) : Prop :=
  i.Reordered i' ∨ NullOrEmpty i i' →
    ¬ Shifted c.runId n.id c'.runId n'.id ∧ ¬ Shifted c'.runId n'.id c.runId n.id ∧
    ¬ (c.runId = c'.runId ∧ n.id = n'.id ∧ NullOrEmpty i i')

/-- **When a key stands for one run, node and input.** -/
theorem key_identifies_iff (hsha : c'.sha256 = c.sha256) (hinj : Function.Injective c.sha256)
    (hn : n.input = some i) (hn' : n'.input = some i') (hi : i.Distinct) :
    Identifies c c' n n' i i' ↔ Unambiguous c c' n n' i i' := by
  unfold Identifies Unambiguous
  rw [keyOf_eq_iff hsha hinj hn hn' hi, operationId, operationId, joined_eq_iff]
  constructor
  · intro h hinputs
    refine ⟨fun hs => hs.ne (h ⟨.inr (.inl hs), hinputs⟩).1,
      fun hs => hs.ne (h ⟨.inr (.inr hs), hinputs⟩).1.symm, ?_⟩
    rintro ⟨hr, hid, hne⟩
    exact hne.not_reordered (h ⟨.inl ⟨hr, hid⟩, hinputs⟩).2.2
  · rintro h ⟨hids, hinputs⟩
    obtain ⟨hno, hno', hne⟩ := h hinputs
    rcases hids with ⟨hr, hid⟩ | hs | hs
    · exact ⟨hr, hid, hinputs.resolve_right fun hnull => hne ⟨hr, hid, hnull⟩⟩
    · exact absurd hs hno
    · exact absurd hs hno'

end Keys

/-- A run of one action node that is given `input`. -/
def keyedContext (runId : String) (node : WorkflowNode) : Context :=
  { limits := defaultBulkhead, compensations := .empty, sha256 := id, runId := runId
    taskId := "task", graph := [node] }

/-- A node with an input. -/
def keyedNode (id : NodeId) (input : Json) : WorkflowNode :=
  { id := id, kind := .action, action := some "send", deps := [], input := some input }

theorem key_identifies_iff_keyed :
    let n := keyedNode "a" (.obj [("to", .str "x")])
    Identifies (keyedContext "run-1" n) (keyedContext "run-2" n) n n (.obj [("to", .str "x")])
        (.obj [("to", .str "x")]) ↔
      Unambiguous (keyedContext "run-1" n) (keyedContext "run-2" n) n n (.obj [("to", .str "x")])
        (.obj [("to", .str "x")]) :=
  key_identifies_iff rfl Function.injective_id rfl rfl (by simp [Json.Distinct, DistinctFields])

/-- Node `c` of the run `a:b` has the key of node `b:c` of the run `a`. -/
theorem shifted_ids_collide : ∃ c c' n n' i, validateGraph c.graph = .ok () ∧
    validateGraph c'.graph = .ok () ∧ c.graph = [n] ∧ c'.graph = [n'] ∧
    c'.sha256 = c.sha256 ∧ Function.Injective c.sha256 ∧ n.input = some i ∧ n'.input = some i ∧
    keyOf c n = keyOf c' n' ∧ ¬ Identifies c c' n n' i i := by
  refine ⟨keyedContext "a:b" (keyedNode "c" .null), keyedContext "a" (keyedNode "b:c" .null),
    keyedNode "c" .null, keyedNode "b:c" .null, .null, by rfl, by rfl, rfl, rfl, rfl,
    Function.injective_id, rfl, rfl, by rfl, fun h => ?_⟩
  exact absurd (h (by rfl)).1 (by decide)

end AgentKernel.Orchestrator
