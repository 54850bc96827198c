/-
  File:      AgentKernel/Storage/KeyedStores.lean
  Subject:   The stores of snapshots, checkpoints and evidence on SQLite
             (storage/store/src/sqlite-stores.ts).

  All three keep a text of JSON under an id. A snapshot takes the place of the one before it,
  evidence is put in anew, and a checkpoint is refused when there is one under its id.

  * `SqliteProjectionStore`, `SqliteCheckpointStore`, `SqliteEvidenceStore` are sqlite-stores.ts;
  * **`loads_last_saved`**: a snapshot is the one that has been saved last;
  * **`snapshot_resumes`**: replay may begin at a snapshot instead of at the first event;
  * **`evidence_is_last`**, **`checkpoint_is_first`**: what is under an id, after any calls;
  * **`lists_exactly`**: the list has all of it, each once, in the order of time.
-/
import AgentKernel.Lib.Tables
import AgentKernel.Contracts.Stringify
import AgentKernel.Storage.Projections

namespace AgentKernel.Storage

open Lib

/-! ## 1. A column of JSON -/

/-- Why a statement throws. -/
inductive SaveError where
  | stringify (err : StringifyError)
  /-- `undefined` is no value for a parameter of a statement. -/
  | unbound
  | duplicate (id : String)

/-- The text that is bound for a value. -/
def columnText (v : Value) : Except SaveError String :=
  match stringify v with
  | .error err => .error (.stringify err)
  | .ok none => .error .unbound
  | .ok (some text) => .ok text

section Column

variable {v : Value} {j : Json}

theorem columnText_of (h : v.toJson = .ok (some j)) : columnText v = .ok j.text := by
  unfold columnText stringify
  rw [h]
  rfl

theorem columnText_error (h : ¬ ∃ j, v.toJson = .ok (some j)) : ∃ err, columnText v = .error err := by
  unfold columnText stringify
  cases hv : v.toJson with
  | error err => exact ⟨_, rfl⟩
  | ok r =>
      cases r with
      | none => exact ⟨_, rfl⟩
      | some j => exact absurd ⟨j, hv⟩ h

theorem ofJson_injective : Function.Injective Value.ofJson := by
  intro j j' h
  have htext := congrArg Value.toJson h
  rw [toJson_ofJson, toJson_ofJson] at htext
  exact Option.some.inj (Except.ok.inj htext)

/-- The JSON a column gets for a value, if it gets any. -/
def columnJson (v : Value) : Option Json := v.toJson.toOption.join

theorem columnJson_eq_some : columnJson v = some j ↔ v.toJson = .ok (some j) := by
  unfold columnJson
  cases v.toJson with
  | error err => simp [Except.toOption]
  | ok r => simp [Except.toOption]

theorem columnText_of_none (h : columnJson v = none) : ∃ err, columnText v = .error err := by
  refine columnText_error ?_
  rintro ⟨j, hj⟩
  rw [columnJson_eq_some.mpr hj] at h
  cases h

end Column

/-! ## 2. Snapshots -/

/-- A row of the table of projections. -/
structure ProjectionRow where
  name : String
  state : String

/-- The table of projections, by name. -/
structure SqliteProjectionStore where
  projections : Table ProjectionRow.name

namespace SqliteProjectionStore

/-- No projection has been saved. -/
def empty : SqliteProjectionStore := ⟨.empty⟩

variable (store : SqliteProjectionStore)

/-- `ON CONFLICT(name) DO UPDATE`. -/
def save (name : String) (state : Value) : Except SaveError SqliteProjectionStore :=
  (columnText state).map fun text => ⟨store.projections.upsert ⟨name, text⟩⟩

/-- `none` where `JSON.parse` throws. -/
def load (name : String) : Option (Option Value) :=
  match store.projections.find name with
  | none => some none
  | some row => (Json.parse row.state).map fun j => some (.ofJson j)

end SqliteProjectionStore

/-- What changes the table. -/
inductive ProjectionCall where
  | save (name : String) (state : Value)
  | clear

/-- A call that throws leaves the store as it is. -/
def SqliteProjectionStore.call (store : SqliteProjectionStore) :
    ProjectionCall → SqliteProjectionStore
  | .save name state => (store.save name state).toOption.getD store
  | .clear => .empty

/-- What has been done to a store that was empty. -/
def SqliteProjectionStore.after (calls : List ProjectionCall) : SqliteProjectionStore :=
  calls.foldl SqliteProjectionStore.call .empty

/-- The call leaves something else under the name. -/
def ProjectionCall.Writes (name : String) : ProjectionCall → Prop
  | .save name' state => name' = name ∧ ∃ j, state.toJson = .ok (some j)
  | .clear => True

section Snapshots

variable {store : SqliteProjectionStore} {name : String} {c : ProjectionCall}
  {calls : List ProjectionCall} {j : Json}

/-- What a call leaves to be loaded under a name, if it leaves something else there. -/
def snapshotOf (name : String) : ProjectionCall → Option (Option Value)
  | .save name' state =>
      if name' = name then (columnJson state).map fun j => some (.ofJson j) else none
  | .clear => some none

theorem snapshotOf_none : snapshotOf name c = none ↔ ¬ c.Writes name := by
  cases c with
  | clear => simp [snapshotOf, ProjectionCall.Writes]
  | save name' state =>
      change (if name' = name then (columnJson state).map _ else none) = none ↔
        ¬ (name' = name ∧ ∃ j, state.toJson = .ok (some j))
      simp only [← columnJson_eq_some, ← Option.isSome_iff_exists]
      split_ifs with hname <;> simp [hname]

theorem load_of {row : ProjectionRow} (hrow : store.projections.find name = some row)
    (hj : row.state = j.text) : store.load name = some (some (.ofJson j)) := by
  unfold SqliteProjectionStore.load
  simp only [hrow, hj, parse_text, Option.map_some]

theorem load_congr {store' : SqliteProjectionStore}
    (h : store'.projections.find name = store.projections.find name) :
    store'.load name = store.load name := by
  unfold SqliteProjectionStore.load
  rw [h]

theorem load_call (store : SqliteProjectionStore) (c : ProjectionCall) :
    (store.call c).load name = ((snapshotOf name c).map some).getD (store.load name) := by
  cases c with
  | clear => rfl
  | save name' state =>
      change ((store.save name' state).toOption.getD store).load name =
        ((if name' = name then (columnJson state).map _ else none).map some).getD (store.load name)
      unfold SqliteProjectionStore.save
      cases hj : columnJson state with
      | none =>
          obtain ⟨err, herr⟩ := columnText_of_none hj
          rw [herr, Option.map_none, ite_self]
          rfl
      | some j =>
          rw [columnText_of (columnJson_eq_some.mp hj), Option.map_some]
          have hfind : (store.projections.upsert ⟨name', j.text⟩).find name =
              if name = name' then some ⟨name', j.text⟩ else store.projections.find name :=
            Table.find_upsert
          split_ifs at hfind ⊢ with h h' h'
          · exact load_of hfind rfl
          · exact absurd h.symm h'
          · exact absurd h'.symm h
          · exact load_congr hfind

theorem unwritten {store : SqliteProjectionStore} :
    written SqliteProjectionStore.call (fun _ c => (snapshotOf name c).map some) store calls = none ↔
      ∀ c ∈ calls, ¬ c.Writes name := by
  simp only [written_eq_none, Option.map_eq_none_iff, snapshotOf_none]
  constructor
  · intro h c hc
    obtain ⟨A, B, rfl⟩ := List.append_of_mem hc
    exact h A c B rfl
  · rintro h A c B rfl
    exact h c (List.mem_append_right _ List.mem_cons_self)

/-- **A snapshot is the one that has been saved last**, as JSON has it; no load throws. -/
theorem loads_last_saved (calls : List ProjectionCall) (name : String) :
    (∃ r, (SqliteProjectionStore.after calls).load name = some r) ∧
    ∀ v, (SqliteProjectionStore.after calls).load name = some (some v) ↔
      ∃ A state B j, calls = A ++ .save name state :: B ∧ state.toJson = .ok (some j) ∧
        v = .ofJson j ∧ ∀ c ∈ B, ¬ c.Writes name := by
  have hload : (SqliteProjectionStore.after calls).load name =
      (written SqliteProjectionStore.call (fun _ c => (snapshotOf name c).map some) .empty
        calls).getD (some none) :=
    get_foldl (fun store : SqliteProjectionStore => store.load name) load_call calls .empty
  rw [hload]
  cases hlast : written SqliteProjectionStore.call (fun _ c => (snapshotOf name c).map some) .empty
      calls with
  | none =>
      refine ⟨⟨none, rfl⟩, fun v => ⟨fun h => (by cases h), ?_⟩⟩
      rintro ⟨A, state, B, j, rfl, hj, -⟩
      exact absurd ⟨rfl, j, hj⟩
        (unwritten.mp hlast _ (List.mem_append_right _ List.mem_cons_self))
  | some last =>
      obtain ⟨A, c, B, hcalls, hc, hB⟩ := written_eq_some.mp hlast
      obtain ⟨r, hr, rfl⟩ := Option.map_eq_some_iff.mp hc
      refine ⟨⟨r, rfl⟩, fun v => ⟨fun h => ?_, ?_⟩⟩
      · obtain rfl : r = some v := Option.some.inj h
        cases c with
        | clear => cases hr
        | save name' state =>
            change (if name' = name then (columnJson state).map _ else none) = some (some v) at hr
            split_ifs at hr with hname
            obtain ⟨j, hj, hv⟩ := Option.map_eq_some_iff.mp hr
            exact ⟨A, state, B, j, hname ▸ hcalls, columnJson_eq_some.mp hj,
              (Option.some.inj hv).symm, unwritten.mp hB⟩
      · rintro ⟨A', state, B', j, hcalls', hj, rfl, hB'⟩
        have hsave : (snapshotOf name (.save name state)).map some =
            some (some (some (.ofJson j))) := by
          change ((if name = name then (columnJson state).map _ else none).map some) = _
          rw [if_pos rfl, columnJson_eq_some.mpr hj]
          rfl
        have hwritten := (written_eq_some (s := SqliteProjectionStore.empty)).mpr
          ⟨A', _, B', hcalls', hsave, unwritten.mpr hB'⟩
        rw [hlast] at hwritten
        exact Option.some.inj hwritten

/-! ## 3. Replay from a snapshot -/

/-- The projection as JSON. -/
def UsageProjection.value (p : UsageProjection) : Json :=
  .obj [("runs", .num (.ofNat p.runs)), ("modelCalls", .num (.ofNat p.modelCalls)),
    ("toolCalls", .num (.ofNat p.toolCalls))]

/-- The projection as JSON. -/
def ApprovalProjection.value (p : ApprovalProjection) : Json :=
  .obj [("required", .num (.ofNat p.required)), ("granted", .num (.ofNat p.granted)),
    ("denied", .num (.ofNat p.denied))]

/-- The projection as JSON. -/
def RunProjection.value (p : RunProjection) : Json :=
  .obj [("runs", .num (.ofNat p.runs)), ("completed", .num (.ofNat p.completed)),
    ("failed", .num (.ofNat p.failed)), ("blocked", .num (.ofNat p.blocked))]

/-- The object `projectSystem` returns. -/
def SystemProjection.value (p : SystemProjection) : Json :=
  .obj [("runs", p.runs.value), ("approvals", p.approvals.value), ("usage", p.usage.value)]

/-- `fold` from a projection that is there already. -/
def SystemProjection.resume (p : SystemProjection) (events : List LedgerEvent) :
    SystemProjection where
  runs := fold events runProjectionReducer p.runs
  approvals := fold events approvalProjectionReducer p.approvals
  usage := fold events usageProjectionReducer p.usage

theorem ofNat_injective : Function.Injective JsonNumber.ofNat := by
  intro n m h
  exact Nat.repr_injective (congrArg JsonNumber.text h)

theorem value_injective : Function.Injective SystemProjection.value := by
  rintro ⟨⟨a, b, c, d⟩, ⟨e, f, g⟩, ⟨x, y, z⟩⟩ ⟨⟨a', b', c', d'⟩, ⟨e', f', g'⟩, ⟨x', y', z'⟩⟩ h
  simp only [SystemProjection.value, RunProjection.value, ApprovalProjection.value,
    UsageProjection.value, Json.obj.injEq, List.cons.injEq, Prod.mk.injEq, Json.num.injEq, true_and,
    and_true] at h
  obtain ⟨⟨ha, hb, hc, hd⟩, ⟨he, hf, hg⟩, hx, hy, hz⟩ := h
  rw [ofNat_injective ha, ofNat_injective hb, ofNat_injective hc, ofNat_injective hd,
    ofNat_injective he, ofNat_injective hf, ofNat_injective hg, ofNat_injective hx,
    ofNat_injective hy, ofNat_injective hz]

theorem resume_projectSystem (events more : List LedgerEvent) :
    (projectSystem events).resume more = projectSystem (events ++ more) := by
  unfold SystemProjection.resume projectSystem fold
  simp only [List.foldl_append]

/-- **Replay may begin at the snapshot**: what has been saved last is the projection of the events
    up to then, and folding the later ones over it is folding them all. -/
theorem snapshot_resumes {A B : List ProjectionCall} {name : String} {events : List LedgerEvent}
    (h : ∀ c ∈ B, ¬ c.Writes name) (more : List LedgerEvent) :
    ∃ p : SystemProjection, (SqliteProjectionStore.after
        (A ++ .save name (.ofJson (projectSystem events).value) :: B)).load name =
          some (some (.ofJson p.value)) ∧
      (∀ q : SystemProjection, Value.ofJson q.value = .ofJson p.value → q = p) ∧
      p.resume more = projectSystem (events ++ more) :=
  ⟨projectSystem events, ((loads_last_saved _ name).2 _).mpr
      ⟨A, _, B, _, rfl, toJson_ofJson _, rfl, h⟩,
    fun _ hq => value_injective (ofJson_injective hq), resume_projectSystem events more⟩

/-- An event of one run. -/
def runEvent (type : String) (seq : Nat) : LedgerEvent where
  actor := systemActor
  type := type
  taskId := "t"
  runId := "r"
  payload := .null
  id := "e"
  seq := seq
  timestamp := "now"
  prevHash := none
  hash := "h"

theorem snapshot_resumes_kept :
    ∃ p : SystemProjection, (SqliteProjectionStore.after
        ([.clear] ++ .save "system" (.ofJson (projectSystem [runEvent "RunCreated" 1]).value) ::
          [.save "other" .null, .save "system" (.bigint 1)])).load "system" =
          some (some (.ofJson p.value)) ∧
      (∀ q : SystemProjection, Value.ofJson q.value = .ofJson p.value → q = p) ∧
      p.resume [runEvent "TaskCompleted" 2] =
        projectSystem ([runEvent "RunCreated" 1] ++ [runEvent "TaskCompleted" 2]) := by
  refine snapshot_resumes (fun c hc => ?_) _
  rcases List.mem_cons.mp hc with rfl | hc
  · rintro ⟨hname, -⟩
    exact absurd hname (by decide)
  · -- what JSON has no text for is not saved
    obtain rfl := List.mem_singleton.mp hc
    rintro ⟨-, j, hj⟩
    cases hj

end Snapshots

/-! ## 4. Records -/

/-- A checkpoint. -/
structure CheckpointRecord where
  id : String
  label : String
  kind : String
  state : Value
  hash : String
  createdAt : String

/-- A piece of evidence, with its payload. -/
structure EvidenceRecord where
  id : String
  kind : String
  hash : String
  payload : Value
  createdAt : String

/-- A kind of records: their id, their time, and what becomes a column of JSON. -/
structure Columns (ρ : Type) where
  id : ρ → String
  createdAt : ρ → String
  column : ρ → Value
  /-- The record with the column read again. -/
  reread : ρ → Json → ρ
  id_reread : ∀ r j, id (reread r j) = id r
  createdAt_reread : ∀ r j, createdAt (reread r j) = createdAt r

/-- The columns of checkpoints: their state is kept as text. -/
def checkpointColumns : Columns CheckpointRecord where
  id := (·.id)
  createdAt := (·.createdAt)
  column := (·.state)
  reread c state := { c with state := .ofJson state }
  id_reread _ _ := rfl
  createdAt_reread _ _ := rfl

/-- The columns of evidence: the payload is kept as text. -/
def evidenceColumns : Columns EvidenceRecord where
  id := (·.id)
  createdAt := (·.createdAt)
  column := (·.payload)
  reread e payload := { e with payload := .ofJson payload }
  id_reread _ _ := rfl
  createdAt_reread _ _ := rfl

/-- A row: the columns of the record, with the text of the one that is JSON. -/
structure RecordRow (ρ : Type) where
  record : ρ
  text : String

/-- A table of records. -/
abbrev RecordTable {ρ : Type} (cols : Columns ρ) := Table fun row : RecordRow ρ => cols.id row.record

/-- What changes it. -/
inductive RecordCall (ρ : Type) where
  | save (record : ρ)
  | clear

namespace RecordTable

variable {ρ : Type} {cols : Columns ρ} (table : RecordTable cols)

/-- `none` where `JSON.parse` throws. -/
def read (cols : Columns ρ) (row : RecordRow ρ) : Option ρ :=
  (Json.parse row.text).map (cols.reread row.record)

/-- The record of an id; `some none` where there is none, and `none` where it cannot be read. -/
def get (id : String) : Option (Option ρ) :=
  match table.find id with
  | none => some none
  | some row => (read cols row).map some

/-- `ORDER BY created_at ASC`. -/
def list (order : OrderBy (fun row : RecordRow ρ => cols.createdAt row.record) (· ≤ ·)) : Option (List ρ) :=
  (order.sort table.rows).mapM (read cols)

/-- `INSERT`. -/
def insertRecord (r : ρ) : Except SaveError (RecordTable cols) :=
  match columnText (cols.column r) with
  | .error err => .error err
  | .ok text =>
      match table.insert ⟨r, text⟩ with
      | none => .error (.duplicate (cols.id r))
      | some table => .ok table

/-- `INSERT OR REPLACE`. -/
def replaceRecord (r : ρ) : Except SaveError (RecordTable cols) :=
  (columnText (cols.column r)).map fun text => table.replace ⟨r, text⟩

/-- A call that throws leaves the rows as they are. -/
def call (write : RecordTable cols → ρ → Except SaveError (RecordTable cols)) (table : RecordTable cols) :
    RecordCall ρ → RecordTable cols
  | .save r => (write table r).toOption.getD table
  | .clear => .empty

/-- The table after some calls. -/
def after (write : RecordTable cols → ρ → Except SaveError (RecordTable cols))
    (calls : List (RecordCall ρ)) : RecordTable cols :=
  calls.foldl (call write) .empty

end RecordTable

/-- The table of checkpoints. -/
abbrev SqliteCheckpointStore := RecordTable checkpointColumns

/-- A checkpoint is never written over. -/
def SqliteCheckpointStore.save (store : SqliteCheckpointStore) (c : CheckpointRecord) :
    Except SaveError SqliteCheckpointStore := RecordTable.insertRecord store c

/-- The table of evidence. -/
abbrev SqliteEvidenceStore := RecordTable evidenceColumns

/-- `INSERT OR REPLACE`. -/
def SqliteEvidenceStore.put (store : SqliteEvidenceStore) (e : EvidenceRecord) :
    Except SaveError SqliteEvidenceStore := RecordTable.replaceRecord store e

/-! ## 5. What is under an id -/

/-- The call leaves something else under the id, if it does not throw for what is there. -/
def RecordCall.Writes {ρ : Type} (cols : Columns ρ) (id : String) : RecordCall ρ → Prop
  | .save r => cols.id r = id ∧ ∃ j, (cols.column r).toJson = .ok (some j)
  | .clear => True

namespace RecordTable

variable {ρ : Type} {cols : Columns ρ} {table : RecordTable cols} {id : String} {r r' : ρ} {j : Json}
  {calls A B : List (RecordCall ρ)} {c : RecordCall ρ}
  {write : RecordTable cols → ρ → Except SaveError (RecordTable cols)}

/-- What a kept record is read back as. -/
def Keeps (table : RecordTable cols) (r : ρ) (j : Json) : Prop :=
  table.find (cols.id r) = some ⟨r, j.text⟩

theorem get_of_keeps (h : Keeps table r j) :
    get table (cols.id r) = some (some (cols.reread r j)) := by
  have hread : read cols ⟨r, j.text⟩ = some (cols.reread r j) := by
    unfold read
    rw [parse_text, Option.map_some]
  unfold get
  rw [show table.find (cols.id r) = some ⟨r, j.text⟩ from h]
  exact congrArg (Option.map some) hread

theorem get_of_none (h : table.find id = none) : get table id = some none := by
  unfold get
  rw [h]

/-- What both ways of writing do: nothing for what has no text, nothing to other ids, and something
    under an id with nothing there. -/
structure Writer (write : RecordTable cols → ρ → Except SaveError (RecordTable cols)) : Prop where
  error : ∀ {table r}, (¬ ∃ j, (cols.column r).toJson = .ok (some j)) →
    (write table r).toOption.getD table = table
  other : ∀ {table r id}, cols.id r ≠ id →
    ((write table r).toOption.getD table).find id = table.find id
  first : ∀ {table r j}, (cols.column r).toJson = .ok (some j) → table.find (cols.id r) = none →
    Keeps ((write table r).toOption.getD table) r j

theorem writer_insertRecord : @Writer ρ cols insertRecord where
  error := by
    intro table r h
    obtain ⟨err, herr⟩ := columnText_error h
    unfold insertRecord
    rw [herr]
    rfl
  other := by
    intro table r id hid
    unfold insertRecord
    cases columnText (cols.column r) with
    | error err => rfl
    | ok text =>
        dsimp only
        cases hins : table.insert ⟨r, text⟩ with
        | none => rfl
        | some table' => exact (Table.find_insert hins).trans (if_neg (Ne.symm hid))
  first := by
    intro table r j hj hnone
    unfold insertRecord
    rw [columnText_of hj]
    dsimp only
    cases hins : table.insert ⟨r, j.text⟩ with
    | none => exact absurd hnone (Table.insert_eq_none.mp hins)
    | some table' => exact (Table.find_insert hins).trans (if_pos rfl)

theorem writer_replaceRecord : @Writer ρ cols replaceRecord where
  error := by
    intro table r h
    obtain ⟨err, herr⟩ := columnText_error h
    unfold replaceRecord
    rw [herr]
    rfl
  other := by
    intro table r id hid
    unfold replaceRecord
    cases columnText (cols.column r) with
    | error err => rfl
    | ok text => exact Table.find_replace.trans (if_neg (Ne.symm hid))
  first := by
    intro table r j hj _
    unfold replaceRecord
    rw [columnText_of hj]
    exact Table.find_replace.trans (if_pos rfl)

/-- **Calls that do not write under an id leave alone what is there.** -/
theorem Writer.quiet (hw : Writer write) : ∀ {calls : List (RecordCall ρ)} {table : RecordTable cols},
    (∀ c ∈ calls, ¬ c.Writes cols id) → (calls.foldl (call write) table).find id = table.find id
  | [], _, _ => rfl
  | c :: calls, table, h => by
      rw [List.foldl_cons, hw.quiet fun c hc => h c (List.mem_cons_of_mem _ hc)]
      have hc := h c List.mem_cons_self
      cases c with
      | clear => exact absurd trivial hc
      | save r =>
          change ((write table r).toOption.getD table).find id = table.find id
          by_cases hid : cols.id r = id
          · rw [hw.error fun hj => hc ⟨hid, hj⟩]
          · exact hw.other hid

/-- A second insert under an id throws. -/
theorem insertRecord_kept {row : RecordRow ρ} (h : table.find id = some row) :
    ((insertRecord table r).toOption.getD table).find id = some row := by
  unfold insertRecord
  cases columnText (cols.column r) with
  | error err => exact h
  | ok text =>
      dsimp only
      cases hins : table.insert ⟨r, text⟩ with
      | none => exact h
      | some table' =>
          refine (Table.find_insert hins).trans ?_
          split_ifs with hid
          · -- nothing was under the id of the new row
            have hnone := Table.find_of_insert hins
            rw [← hid, h] at hnone
            cases hnone
          · exact h

theorem kept_without_clear {row : RecordRow ρ} : ∀ {calls : List (RecordCall ρ)}
    {table : RecordTable cols}, RecordCall.clear ∉ calls → table.find id = some row →
      (calls.foldl (call insertRecord) table).find id = some row
  | [], _, _, h => h
  | c :: calls, table, hclear, h => by
      rw [List.foldl_cons]
      refine kept_without_clear (fun hc => hclear (List.mem_cons_of_mem _ hc)) ?_
      cases c with
      | clear => exact absurd List.mem_cons_self hclear
      | save r => exact insertRecord_kept h

/-- A call after which nothing is left but what comes behind it. -/
def Cleared (calls : List (RecordCall ρ)) : Prop :=
  calls = [] ∨ ∃ calls', calls = calls' ++ [.clear]

theorem after_cleared (h : Cleared calls) : after write calls = (.empty : RecordTable cols) := by
  rcases h with rfl | ⟨calls', rfl⟩
  · rfl
  · unfold after
    rw [List.foldl_append]
    rfl

theorem exists_cleared : ∀ calls : List (RecordCall ρ),
    ∃ A B, calls = A ++ B ∧ Cleared A ∧ RecordCall.clear ∉ B := by
  intro calls
  induction calls using List.reverseRecOn with
  | nil => exact ⟨[], [], rfl, .inl rfl, List.not_mem_nil⟩
  | append_singleton calls c ih =>
      cases c with
      | clear => exact ⟨calls ++ [.clear], [], by simp, .inr ⟨calls, rfl⟩, List.not_mem_nil⟩
      | save r =>
          obtain ⟨A, B, rfl, hA, hB⟩ := ih
          exact ⟨A, B ++ [.save r], by simp, hA, by simpa using hB⟩

/-- A part of a history without a clear either does not write under an id, or there is a first
    record that it writes. -/
theorem exists_first (cols : Columns ρ) (id : String) (hclear : RecordCall.clear ∉ calls) :
    (∀ c ∈ calls, ¬ c.Writes cols id) ∨ ∃ B r C j, calls = B ++ .save r :: C ∧
      (∀ c ∈ B, ¬ c.Writes cols id) ∧ cols.id r = id ∧ (cols.column r).toJson = .ok (some j) := by
  classical
  cases hfirst : calls.find? fun c => decide (c.Writes cols id) with
  | none => exact .inl fun c hc hwrites =>
      absurd (decide_eq_true hwrites) (List.find?_eq_none.mp hfirst c hc)
  | some c =>
      obtain ⟨hwrites, B, C, rfl, hB⟩ := List.find?_eq_some_iff_append.mp hfirst
      refine .inr ?_
      cases c with
      | clear => exact absurd (List.mem_append_right _ List.mem_cons_self) hclear
      | save r =>
          obtain ⟨hid, j, hj⟩ := of_decide_eq_true hwrites
          exact ⟨B, r, C, j, rfl, fun c hc => by simpa using hB c hc, hid, hj⟩

/-- The part of a history that leaves something: where it is written, and how it stays. -/
theorem find_after_first (hA : Cleared A) (hB : ∀ c ∈ B, ¬ c.Writes cols (cols.id r))
    (hj : (cols.column r).toJson = .ok (some j)) {C : List (RecordCall ρ)}
    (hC : RecordCall.clear ∉ C) :
    Keeps (after insertRecord (A ++ B ++ .save r :: C) : RecordTable cols) r j := by
  have hnone : (after insertRecord (A ++ B) : RecordTable cols).find (cols.id r) = none := by
    unfold after
    rw [List.foldl_append, writer_insertRecord.quiet hB]
    exact congrArg (fun table : RecordTable cols => table.find (cols.id r)) (after_cleared hA)
  have hfirst := writer_insertRecord.first hj hnone
  unfold after Keeps at *
  rw [List.foldl_append, List.foldl_cons]
  exact kept_without_clear hC hfirst

/-- **A checkpoint is the first one** that has been saved under its id since the store was cleared,
    with its state as JSON has it; no call but a clear takes it away. -/
theorem get_first (calls : List (RecordCall ρ)) (id : String) :
    (∃ x, get (after insertRecord calls : RecordTable cols) id = some x) ∧
    ∀ r', get (after insertRecord calls : RecordTable cols) id = some (some r') ↔
      ∃ A B r C j, calls = A ++ B ++ .save r :: C ∧ Cleared A ∧ (∀ c ∈ B, ¬ c.Writes cols id) ∧
        cols.id r = id ∧ (cols.column r).toJson = .ok (some j) ∧ RecordCall.clear ∉ C ∧
        r' = cols.reread r j := by
  have hmpr : ∀ r', (∃ A B r C j, calls = A ++ B ++ .save r :: C ∧ Cleared A ∧
      (∀ c ∈ B, ¬ c.Writes cols id) ∧ cols.id r = id ∧ (cols.column r).toJson = .ok (some j) ∧
      RecordCall.clear ∉ C ∧ r' = cols.reread r j) →
      get (after insertRecord calls : RecordTable cols) id = some (some r') := by
    rintro r' ⟨A, B, r, C, j, rfl, hA, hB, rfl, hj, hC, rfl⟩
    exact get_of_keeps (find_after_first hA hB hj hC)
  obtain ⟨A, B, rfl, hA, hclear⟩ := exists_cleared calls
  rcases exists_first cols id hclear with hquiet | ⟨B, r, C, j, rfl, hB, hid, hj⟩
  · have hnone : (after insertRecord (A ++ B) : RecordTable cols).find id = none := by
      unfold after
      rw [List.foldl_append, writer_insertRecord.quiet hquiet]
      exact congrArg (fun table : RecordTable cols => table.find id) (after_cleared hA)
    have hget := get_of_none hnone
    refine ⟨⟨none, hget⟩, fun r' => ⟨fun h => ?_, hmpr r'⟩⟩
    rw [hget] at h
    cases h
  · have hgot := hmpr (cols.reread r j) ⟨A, B, r, C, j, (List.append_assoc _ _ _).symm, hA, hB, hid,
      hj, fun hC => hclear (List.mem_append_right _ (List.mem_cons_of_mem _ hC)), rfl⟩
    refine ⟨⟨_, hgot⟩, fun r' => ⟨fun h => ?_, hmpr r'⟩⟩
    rw [hgot] at h
    obtain rfl := Option.some.inj (Option.some.inj h)
    exact ⟨A, B, r, C, j, (List.append_assoc _ _ _).symm, hA, hB, hid, hj,
      fun hC => hclear (List.mem_append_right _ (List.mem_cons_of_mem _ hC)), rfl⟩

theorem exists_last (cols : Columns ρ) (id : String) : ∀ calls : List (RecordCall ρ),
    (∀ c ∈ calls, ¬ c.Writes cols id) ∨
    ∃ A c B, calls = A ++ c :: B ∧ c.Writes cols id ∧ ∀ b ∈ B, ¬ b.Writes cols id := by
  intro calls
  induction calls using List.reverseRecOn with
  | nil => exact .inl fun c hc => absurd hc List.not_mem_nil
  | append_singleton calls c ih =>
      by_cases hc : c.Writes cols id
      · exact .inr ⟨calls, c, [], rfl, hc, fun b hb => absurd hb List.not_mem_nil⟩
      · have hmore : ∀ {B : List (RecordCall ρ)}, (∀ b ∈ B, ¬ b.Writes cols id) →
            ∀ b ∈ B ++ [c], ¬ b.Writes cols id := by
          intro B hB b hb
          rcases List.mem_append.mp hb with hb | hb
          · exact hB b hb
          · rwa [List.mem_singleton.mp hb]
        rcases ih with hquiet | ⟨A, a, B, rfl, ha, hB⟩
        · exact .inl (hmore hquiet)
        · exact .inr ⟨A, a, B ++ [c], by simp, ha, hmore hB⟩

theorem find_after_last (hj : (cols.column r).toJson = .ok (some j))
    (hB : ∀ c ∈ B, ¬ c.Writes cols (cols.id r)) :
    Keeps (after replaceRecord (A ++ .save r :: B) : RecordTable cols) r j := by
  unfold after Keeps
  rw [List.foldl_append, List.foldl_cons, writer_replaceRecord.quiet hB]
  change ((replaceRecord _ r).toOption.getD _).find _ = _
  unfold replaceRecord
  rw [columnText_of hj]
  exact Table.find_replace.trans (if_pos rfl)

/-- **Evidence is the last** that has been put under its id. -/
theorem get_last (calls : List (RecordCall ρ)) (id : String) :
    (∃ x, get (after replaceRecord calls : RecordTable cols) id = some x) ∧
    ∀ r', get (after replaceRecord calls : RecordTable cols) id = some (some r') ↔
      ∃ A r B j, calls = A ++ .save r :: B ∧ cols.id r = id ∧
        (cols.column r).toJson = .ok (some j) ∧ (∀ c ∈ B, ¬ c.Writes cols id) ∧
        r' = cols.reread r j := by
  have hmpr : ∀ r', (∃ A r B j, calls = A ++ .save r :: B ∧ cols.id r = id ∧
      (cols.column r).toJson = .ok (some j) ∧ (∀ c ∈ B, ¬ c.Writes cols id) ∧
      r' = cols.reread r j) →
      get (after replaceRecord calls : RecordTable cols) id = some (some r') := by
    rintro r' ⟨A, r, B, j, rfl, rfl, hj, hB, rfl⟩
    exact get_of_keeps (find_after_last hj hB)
  -- what is there without any write is nothing
  have hnone : (after replaceRecord calls : RecordTable cols).find id = none →
      (∃ x, get (after replaceRecord calls : RecordTable cols) id = some x) ∧
      ∀ r', get (after replaceRecord calls : RecordTable cols) id = some (some r') ↔
        ∃ A r B j, calls = A ++ .save r :: B ∧ cols.id r = id ∧
          (cols.column r).toJson = .ok (some j) ∧ (∀ c ∈ B, ¬ c.Writes cols id) ∧
          r' = cols.reread r j := by
    intro hnone
    have hget := get_of_none hnone
    refine ⟨⟨none, hget⟩, fun r' => ⟨fun h => ?_, hmpr r'⟩⟩
    rw [hget] at h
    cases h
  rcases exists_last cols id calls with hquiet | ⟨A, c, B, hcalls, hc, hB⟩
  · exact hnone (writer_replaceRecord.quiet hquiet)
  · cases c with
    | clear =>
        refine hnone ?_
        rw [hcalls]
        unfold after
        rw [List.foldl_append, List.foldl_cons, writer_replaceRecord.quiet hB]
        rfl
    | save r =>
        obtain ⟨hid, j, hj⟩ := hc
        have hgot := hmpr (cols.reread r j) ⟨A, r, B, j, hcalls, hid, hj, hB, rfl⟩
        refine ⟨⟨_, hgot⟩, fun r' => ⟨fun h => ?_, hmpr r'⟩⟩
        rw [hgot] at h
        obtain rfl := Option.some.inj (Option.some.inj h)
        exact ⟨A, r, B, j, hcalls, hid, hj, hB, rfl⟩

/-! ## 6. The lists -/

theorem read_id {row : RecordRow ρ} (h : read cols row = some r) :
    cols.id row.record = cols.id r ∧ cols.createdAt row.record = cols.createdAt r := by
  obtain ⟨j, -, rfl⟩ := Option.map_eq_some_iff.mp h
  exact ⟨(cols.id_reread _ _).symm, (cols.createdAt_reread _ _).symm⟩

/-- **The list has all that is there**, each once, in the order of time. -/
theorem lists_exactly (hget : ∀ id, ∃ x, get table id = some x)
    (order : OrderBy (fun row : RecordRow ρ => cols.createdAt row.record) (· ≤ ·)) :
    ∃ out, list table order = some out ∧ (out.map cols.id).Nodup ∧
      (out.map cols.createdAt).Pairwise (· ≤ ·) ∧
      ∀ r, r ∈ out ↔ get table (cols.id r) = some (some r) := by
  have hperm := order.perm table.rows
  have hfind : ∀ row ∈ table.rows, table.find (cols.id row.record) = some row :=
    fun row hrow => Table.mem_rows_iff.mp hrow
  have hread : ∀ row ∈ order.sort table.rows, ∃ r, read cols row = some r := by
    intro row hrow
    obtain ⟨x, hx⟩ := hget (cols.id row.record)
    unfold get at hx
    rw [hfind row (hperm.subset hrow)] at hx
    obtain ⟨r, hr, -⟩ := Option.map_eq_some_iff.mp hx
    exact ⟨r, hr⟩
  obtain ⟨out, hout⟩ := exists_mapM hread
  have hall := mapM_some_iff.mp hout
  have hids : (order.sort table.rows).map (fun row => cols.id row.record) = out.map cols.id := by
    rw [← List.forall₂_eq_eq_eq, List.forall₂_map_left_iff, List.forall₂_map_right_iff]
    exact hall.imp fun row r h => (read_id h).1
  have htimes : (order.sort table.rows).map (fun row => cols.createdAt row.record) =
      out.map cols.createdAt := by
    rw [← List.forall₂_eq_eq_eq, List.forall₂_map_left_iff, List.forall₂_map_right_iff]
    exact hall.imp fun row r h => (read_id h).2
  refine ⟨out, hout, ?_, ?_, fun r => ⟨fun hr => ?_, fun hr => ?_⟩⟩
  · rw [← hids]
    exact (hperm.map _).nodup_iff.mpr table.distinct
  · rw [← htimes]
    exact order.sorted table.rows
  · obtain ⟨row, hrow, hr⟩ := (mem_mapM hout).mp hr
    unfold get
    rw [← (read_id hr).1, hfind row (hperm.subset hrow)]
    exact congrArg (Option.map some) hr
  · unfold get at hr
    cases hrow : table.find (cols.id r) with
    | none =>
        rw [hrow] at hr
        cases Option.some.inj hr
    | some row =>
        rw [hrow] at hr
        obtain ⟨r', hr', hsame⟩ := Option.map_eq_some_iff.mp hr
        rw [Option.some.inj hsame] at hr'
        exact (mem_mapM hout).mpr ⟨row, hperm.symm.subset (Table.find_eq_some.mp hrow).1, hr'⟩

end RecordTable

/-! ## 7. The two stores -/

section Stores

open RecordTable

/-- **A checkpoint is kept as it has been saved first** under its id since the store was cleared,
    whatever is saved later, and the list has just these. No read throws. -/
theorem checkpoint_is_first (calls : List (RecordCall CheckpointRecord))
    (order : OrderBy (fun row : RecordRow CheckpointRecord => row.record.createdAt) (· ≤ ·)) :
    let store : SqliteCheckpointStore := after SqliteCheckpointStore.save calls
    (∀ id, ∃ x, get store id = some x) ∧
    (∀ id c', get store id = some (some c') ↔
      ∃ A B c C j, calls = A ++ B ++ .save c :: C ∧ Cleared A ∧
        (∀ b ∈ B, ¬ b.Writes checkpointColumns id) ∧ c.id = id ∧ c.state.toJson = .ok (some j) ∧
        RecordCall.clear ∉ C ∧ c' = { c with state := .ofJson j }) ∧
    ∃ out, list store order = some out ∧ (out.map (·.id)).Nodup ∧
      (out.map (·.createdAt)).Pairwise (· ≤ ·) ∧
      ∀ c, c ∈ out ↔ get store c.id = some (some c) :=
  ⟨fun id => (get_first calls id).1, fun id => (get_first calls id).2,
    @lists_exactly _ checkpointColumns _ (fun id => (get_first calls id).1) order⟩

/-- **Evidence is kept as it has been put last** under its id, and the list has just this. No read
    throws. -/
theorem evidence_is_last (calls : List (RecordCall EvidenceRecord))
    (order : OrderBy (fun row : RecordRow EvidenceRecord => row.record.createdAt) (· ≤ ·)) :
    let store : SqliteEvidenceStore := after SqliteEvidenceStore.put calls
    (∀ id, ∃ x, get store id = some x) ∧
    (∀ id e', get store id = some (some e') ↔
      ∃ A e B j, calls = A ++ .save e :: B ∧ e.id = id ∧ e.payload.toJson = .ok (some j) ∧
        (∀ c ∈ B, ¬ c.Writes evidenceColumns id) ∧ e' = { e with payload := .ofJson j }) ∧
    ∃ out, list store order = some out ∧ (out.map (·.id)).Nodup ∧
      (out.map (·.createdAt)).Pairwise (· ≤ ·) ∧
      ∀ e, e ∈ out ↔ get store e.id = some (some e) :=
  ⟨fun id => (get_last calls id).1, fun id => (get_last calls id).2,
    @lists_exactly _ evidenceColumns _ (fun id => (get_last calls id).1) order⟩

/-- The second checkpoint under an id is refused. -/
example : (list (after SqliteCheckpointStore.save
    [.save ⟨"cp1", "pre-deploy", "deployment", .obj [("v", .str "1.2.3")], "abc", "t"⟩,
      .save ⟨"cp1", "post-deploy", "deployment", .null, "def", "u"⟩]) (.stable _ _)).map
        (fun out => out.map (·.label)) = some ["pre-deploy"] := by decide +kernel

end Stores

end AgentKernel.Storage
