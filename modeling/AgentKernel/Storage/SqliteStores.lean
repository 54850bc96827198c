/-
  File:      AgentKernel/Storage/SqliteStores.lean
  Subject:   The event store on SQLite (storage/store/src/sqlite-stores.ts) under a durable ledger.

  The store keeps the text `JSON.stringify` makes of a payload and parses it again; the hash was
  taken over the text `canonicalize` made of it.

  * `EventRow`, `rowToEvent`, `SqliteEventStore.append` and `.all` are sqlite-stores.ts. The rows
    carry what the primary key keeps: distinct numbers, in order;
  * `all_append`: on JSON payloads the store does what `storeAppend` says;
  * **`restarts_iff`**: a new process hydrates from a flushed ledger if and only if all payloads
    are plain;
  * **`restored_iff`**: it has the same events if and only if it draws the same ids and times.
-/
import AgentKernel.Storage.TamperEvidence
import AgentKernel.Contracts.Whole

namespace AgentKernel.Storage

open Lib Events

variable {sha256 : String → String}

/-! ## 1. Rows -/

/-- A row of the table of events. -/
structure EventRow where
  seq : Nat
  id : String
  type : String
  task_id : String
  run_id : String
  actor_type : ActorType
  actor_id : String
  payload : String
  evidence : Option String
  prev_hash : Option String
  hash : String
  timestamp : String

/-- The evidence of an event as JSON. -/
def evidenceJson (evidence : List LedgerEvidence) : Json :=
  .arr (evidence.map fun e => .obj [("evidenceId", .str e.evidenceId), ("kind", .str e.kind)])

/-- One piece of evidence of the stored array. -/
def evidenceItem (item : Json) : Option LedgerEvidence :=
  match item.property "evidenceId", item.property "kind" with
  | some (.str evidenceId), some (.str kind) => some { evidenceId, kind }
  | _, _ => none

/-- And back; `none` where it is no list of evidence. -/
def evidenceOfJson : Json → Option (List LedgerEvidence)
  | .arr items => items.mapM evidenceItem
  | _ => none

/-- The column `evidence`: `NULL` is `undefined`. -/
def readEvidence : Option String → Option (Option (List LedgerEvidence))
  | none => some none
  | some text => ((Json.parse text).bind evidenceOfJson).map some

/-- The parameters of `insert.run`, with the text of the payload. -/
def rowOf (e : LedgerEvent) (payload : String) : EventRow where
  seq := e.seq
  id := e.id
  type := e.type
  task_id := e.taskId
  run_id := e.runId
  actor_type := e.actor.type
  actor_id := e.actor.id
  payload := payload
  evidence := e.evidence.map fun evidence => (evidenceJson evidence).text
  prev_hash := e.prevHash
  hash := e.hash
  timestamp := e.timestamp

/-- `none` where `JSON.parse` throws, or where the evidence is not what its type says. -/
def rowToEvent (r : EventRow) : Option LedgerEvent := do
  let payload ← Json.parse r.payload
  let evidence ← readEvidence r.evidence
  some
    { id := r.id
      seq := r.seq
      timestamp := r.timestamp
      actor := { type := r.actor_type, id := r.actor_id }
      type := r.type
      taskId := r.task_id
      runId := r.run_id
      payload := .ofJson payload
      evidence := evidence
      prevHash := r.prev_hash
      hash := r.hash }

/-! ## 2. The store -/

/-- Why an append is rolled back. -/
inductive StoreError where
  | stringify (err : StringifyError)
  /-- `undefined` is no value for a parameter of a statement. -/
  | unbound
  | duplicate (seq : Nat)

/-- The rows in the order of `seq`, which is the primary key. -/
structure SqliteEventStore where
  rows : List EventRow
  keyed : (rows.map (·.seq)).Pairwise (· < ·)

/-- A table without rows. -/
def SqliteEventStore.empty : SqliteEventStore where
  rows := []
  keyed := .nil

/-- One `insert.run`. -/
def SqliteEventStore.insert (store : SqliteEventStore) (e : LedgerEvent) :
    Except StoreError SqliteEventStore :=
  match stringify e.payload with
  | .error err => .error (.stringify err)
  | .ok none => .error .unbound
  | .ok (some text) =>
      if h : ∃ r ∈ store.rows, r.seq = e.seq then .error (.duplicate e.seq)
      else
        .ok
          { rows := store.rows.orderedInsert (fun a b => a.seq ≤ b.seq) (rowOf e text)
            keyed := pairwise_orderedInsert store.keyed fun r hr hseq => h ⟨r, hr, hseq⟩ }

/-- `append`: a failing insert rolls the transaction back. -/
def SqliteEventStore.append (store : SqliteEventStore) (events : List LedgerEvent) :
    Except StoreError SqliteEventStore :=
  events.foldlM SqliteEventStore.insert store

/-- All events, if all rows can be read. -/
def SqliteEventStore.all (store : SqliteEventStore) : Option (List LedgerEvent) :=
  store.rows.mapM rowToEvent

/-! ## 3. What a row gives back -/

/-- The event with its payload as JSON has it. -/
def reread (e : LedgerEvent) (j : Json) : LedgerEvent := { e with payload := .ofJson j }

theorem evidenceOfJson_evidenceJson (evidence : List LedgerEvidence) :
    evidenceOfJson (evidenceJson evidence) = some evidence := by
  rw [evidenceJson, evidenceOfJson, mapM_some_iff, List.forall₂_map_left_iff, List.forall₂_same]
  intro e _
  rfl

theorem readEvidence_rowOf (e : LedgerEvent) (payload : String) :
    readEvidence (rowOf e payload).evidence = some e.evidence := by
  unfold rowOf
  cases e.evidence with
  | none => rfl
  | some evidence =>
      rw [Option.map_some, readEvidence, parse_text, Option.bind_some, evidenceOfJson_evidenceJson,
        Option.map_some]

/-- **An event comes back from its row with its payload read again.** -/
theorem rowToEvent_rowOf (e : LedgerEvent) (j : Json) :
    rowToEvent (rowOf e j.text) = some (reread e j) := by
  unfold rowToEvent
  rw [readEvidence_rowOf]
  simp only [rowOf, parse_text, Option.bind_eq_bind, Option.bind_some]
  rfl

/-! ## 4. Appending a batch -/

/-- The row that is written for an event. -/
def Stores (e : LedgerEvent) (r : EventRow) : Prop :=
  ∃ j, e.payload.toJson = .ok (some j) ∧ r = rowOf e j.text

section Append

variable {store : SqliteEventStore} {e : LedgerEvent} {j : Json} {events : List LedgerEvent}

theorem insert_new (hj : e.payload.toJson = .ok (some j))
    (hnew : ∀ r ∈ store.rows, r.seq ≠ e.seq) : ∃ store', store.insert e = .ok store' ∧
      store'.rows = store.rows.orderedInsert (fun a b => a.seq ≤ b.seq) (rowOf e j.text) := by
  have htext : stringify e.payload = .ok (some j.text) := by
    unfold stringify
    rw [hj]
    rfl
  have hno : ¬ ∃ r ∈ store.rows, r.seq = e.seq := fun ⟨r, hr, hseq⟩ => hnew r hr hseq
  unfold SqliteEventStore.insert
  simp only [htext, dif_neg hno]
  exact ⟨_, rfl, rfl⟩

/-- A batch that continues the rows is stored behind them. -/
theorem append_next : ∀ {batch : List LedgerEvent} {store : SqliteEventStore},
    (∀ e ∈ batch, Stringifies e.payload) →
    (store.rows.map (·.seq) ++ batch.map (·.seq)).Pairwise (· < ·) →
    ∃ store' added, store.append batch = .ok store' ∧ store'.rows = store.rows ++ added ∧
      List.Forall₂ Stores batch added
  | [], store, _, _ => ⟨store, [], rfl, (List.append_nil _).symm, .nil⟩
  | e :: batch, store, htext, horder => by
      obtain ⟨j, hj⟩ := stringifies_iff.mp (htext e List.mem_cons_self)
      have hlt : ∀ r ∈ store.rows, r.seq < (rowOf e j.text).seq := by
        intro r hr
        exact (List.pairwise_append.mp horder).2.2 _ (List.mem_map_of_mem hr) _ List.mem_cons_self
      obtain ⟨store₁, hinsert, hrows⟩ := insert_new hj fun r hr => Nat.ne_of_lt (hlt r hr)
      rw [orderedInsert_last (k := EventRow.seq) hlt] at hrows
      have horder₁ : (store₁.rows.map (·.seq) ++ batch.map (·.seq)).Pairwise (· < ·) := by
        rw [hrows, List.map_append, List.append_assoc]
        exact horder
      obtain ⟨store', added, happend, hadded, hstores⟩ :=
        append_next (fun e he => htext e (List.mem_cons_of_mem _ he)) horder₁
      refine ⟨store', rowOf e j.text :: added, ?_, ?_, .cons ⟨j, hj, rfl⟩ hstores⟩
      · unfold SqliteEventStore.append at happend ⊢
        rw [List.foldlM_cons, hinsert]
        exact happend
      · rw [hadded, hrows, List.append_assoc]
        rfl

/-- An insert of a JSON payload is an insert into the events that are read back. -/
theorem all_insert (hj : e.payload = .ofJson j) (hall : store.all = some events) :
    (∀ events', insertRow events e = some events' →
      ∃ store', store.insert e = .ok store' ∧ store'.all = some events') ∧
    (insertRow events e = none → ∃ err, store.insert e = .error err) := by
  have hread := mapM_some_iff.mp hall
  have hseq : ∀ r e', rowToEvent r = some e' → r.seq = e'.seq := by
    intro r e' h
    obtain ⟨payload, -, h⟩ := Option.bind_eq_some_iff.mp h
    obtain ⟨evidence, -, h⟩ := Option.bind_eq_some_iff.mp h
    rw [← Option.some.inj h]
  have hmem : (∃ r ∈ store.rows, r.seq = e.seq) ↔ ∃ e' ∈ events, e'.seq = e.seq := by
    have hseqs : store.rows.map (·.seq) = events.map (·.seq) := by
      rw [← List.forall₂_eq_eq_eq, List.forall₂_map_left_iff, List.forall₂_map_right_iff]
      exact hread.imp hseq
    rw [← List.mem_map, hseqs, List.mem_map]
  have hjson : e.payload.toJson = .ok (some j) := by rw [hj, toJson_ofJson]
  refine ⟨fun events' hins => ?_, fun hins => ?_⟩
  · unfold insertRow at hins
    split_ifs at hins with hany
    have hnew : ∀ r ∈ store.rows, r.seq ≠ e.seq := by
      intro r hr hseq
      obtain ⟨e', he', hsame⟩ := hmem.mp ⟨r, hr, hseq⟩
      exact hany (List.any_eq_true.mpr ⟨e', he', decide_eq_true hsame⟩)
    obtain ⟨store', hstore, hrows⟩ := insert_new hjson hnew
    refine ⟨store', hstore, ?_⟩
    have hrow : rowToEvent (rowOf e j.text) = some e := by
      rw [rowToEvent_rowOf, reread, ← hj]
    rw [SqliteEventStore.all, mapM_some_iff, hrows, ← Option.some.inj hins]
    exact forall₂_orderedInsert hseq hrow hread
  · unfold insertRow at hins
    split_ifs at hins with hany
    obtain ⟨e', he', hsame⟩ := List.any_eq_true.mp hany
    have hstored := hmem.mpr ⟨e', he', of_decide_eq_true hsame⟩
    have htext : stringify e.payload = .ok (some j.text) := by
      unfold stringify
      rw [hjson]
      rfl
    unfold SqliteEventStore.insert
    simp only [htext, dif_pos hstored]
    exact ⟨_, rfl⟩

/-- **On JSON payloads the store does what `storeAppend` says.** -/
theorem all_append : ∀ {batch : List LedgerEvent} {store : SqliteEventStore}
    {events : List LedgerEvent}, (∀ e ∈ batch, ∃ j, e.payload = .ofJson j) →
    store.all = some events →
    (∀ events', storeAppend events batch = some events' →
      ∃ store', store.append batch = .ok store' ∧ store'.all = some events') ∧
    (storeAppend events batch = none → ∃ err, store.append batch = .error err)
  | [], store, events, _, hall => by
      refine ⟨fun events' h => ⟨store, rfl, ?_⟩, fun h => by cases h⟩
      rw [hall]
      exact h
  | e :: batch, store, events, hjson, hall => by
      obtain ⟨j, hj⟩ := hjson e List.mem_cons_self
      have hrest : ∀ e ∈ batch, ∃ j, e.payload = .ofJson j := fun e he =>
        hjson e (List.mem_cons_of_mem _ he)
      obtain ⟨hsome, hnone⟩ := all_insert hj hall
      unfold storeAppend SqliteEventStore.append
      rw [List.foldlM_cons]
      cases hins : insertRow events e with
      | none =>
          obtain ⟨err, herr⟩ := hnone hins
          rw [herr]
          refine ⟨fun events' h => ?_, fun _ => ⟨err, rfl⟩⟩
          cases h
      | some events₁ =>
          obtain ⟨store₁, hstore, hall₁⟩ := hsome events₁ hins
          rw [hstore]
          exact all_append hrest hall₁

end Append

/-! ## 5. A ledger over the store -/

/-- A ledger on top of a store. -/
structure Session (sha256 : String → String) where
  durable : DurableLedger sha256
  store : SqliteEventStore

/-- What is done with it. -/
inductive Call where
  | append (draft : LedgerEventDraft) (stamp : Stamp)
  | flush

/-- `flush`, which takes the pending events out of the ledger before the store has them. -/
def Session.flush (s : Session sha256) : Session sha256 × Except StoreError Unit :=
  if s.durable.pending.isEmpty then (s, .ok ())
  else
    match s.store.append s.durable.pending with
    | .error err => ({ s with durable := { s.durable with pending := [] } }, .error err)
    | .ok store => ({ durable := { s.durable with pending := [] }, store := store }, .ok ())

/-- One call; a flush is awaited. -/
def Session.call (s : Session sha256) : Call → Session sha256
  | .append draft stamp => { s with durable := s.durable.append draft stamp }
  | .flush => s.flush.1

/-- The calls of a process on an empty store. -/
def session (sha256 : String → String) (calls : List Call) : Session sha256 :=
  calls.foldl Session.call ⟨.new sha256, .empty⟩

/-- What a call appends. -/
def Call.appends : Call → List (LedgerEventDraft × Stamp)
  | .append draft stamp => [(draft, stamp)]
  | .flush => []

/-- What the calls append, with the ids and times it gets. -/
def appended (calls : List Call) : List (LedgerEventDraft × Stamp) := calls.flatMap Call.appends

/-- The id and the time of day of an event. -/
def stampOf (e : LedgerEvent) : Stamp := ⟨e.id, e.timestamp⟩

/-- `hydrate` of a new process; `none` where the store throws. -/
def SqliteEventStore.restart (sha256 : String → String) (store : SqliteEventStore)
    (stamps : Nat → Stamp) : Option (DurableLedger sha256 × Except String Unit) :=
  store.all.map fun events => (DurableLedger.new sha256).hydrate stamps events

/-- The events of the ledger are stored, and those that are pending are its last. -/
def Kept (s : Session sha256) : Prop :=
  ∃ written, s.durable.ledger.events = written ++ s.durable.pending ∧
    List.Forall₂ Stores written s.store.rows

section Sessions

variable {calls : List Call} {s : Session sha256}

theorem session_snoc (calls : List Call) (c : Call) :
    session sha256 (calls ++ [c]) = (session sha256 calls).call c := by
  unfold session
  rw [List.foldl_append]
  rfl

theorem appended_snoc (calls : List Call) (c : Call) :
    appended (calls ++ [c]) = appended calls ++ c.appends := by
  unfold appended
  rw [List.flatMap_append, List.flatMap_singleton]

theorem flush_durable_ledger (s : Session sha256) :
    s.flush.1.durable.ledger = s.durable.ledger := by
  unfold Session.flush
  split_ifs
  · rfl
  · cases s.store.append s.durable.pending <;> rfl

/-- The ledger has an event of every draft. -/
theorem session_appended (calls : List Call) : (session sha256 calls).durable.ledger.events.map
    (fun e => (e.toLedgerEventDraft, stampOf e)) = appended calls := by
  induction calls using List.reverseRecOn with
  | nil => rfl
  | append_singleton calls c ih =>
      rw [session_snoc, appended_snoc, ← ih]
      cases c with
      | append draft stamp => exact List.map_append
      | flush =>
          rw [Session.call, flush_durable_ledger]
          exact (List.append_nil _).symm

theorem Stores.seq {e : LedgerEvent} {r : EventRow} (h : Stores e r) : e.seq = r.seq := by
  obtain ⟨j, -, rfl⟩ := h
  rfl

/-- **A flush of events that have a text succeeds**, and nothing is pending after it. -/
theorem Kept.flush (h : Kept s) (htext : ∀ e ∈ s.durable.ledger.events, Stringifies e.payload) :
    s.flush.2 = .ok () ∧ s.flush.1.durable.pending = [] ∧ Kept s.flush.1 := by
  obtain ⟨written, hevents, hstores⟩ := h
  by_cases hp : s.durable.pending = []
  · have hflush : s.flush = (s, .ok ()) := by
      unfold Session.flush
      rw [if_pos (List.isEmpty_iff.mpr hp)]
    rw [hflush]
    exact ⟨rfl, hp, written, hevents, hstores⟩
  · have hseqs : written.map (·.seq) = s.store.rows.map (·.seq) := by
      rw [← List.forall₂_eq_eq_eq, List.forall₂_map_left_iff, List.forall₂_map_right_iff]
      exact hstores.imp fun _ _ => Stores.seq
    have horder : (s.store.rows.map (·.seq) ++ s.durable.pending.map (·.seq)).Pairwise (· < ·) := by
      rw [← hseqs, ← List.map_append, ← hevents, s.durable.ledger.numbered]
      exact List.pairwise_lt_range
    have hpending : ∀ e ∈ s.durable.pending, Stringifies e.payload := by
      intro e he
      refine htext e ?_
      rw [hevents]
      exact List.mem_append_right _ he
    obtain ⟨store', added, happend, hrows, hadded⟩ := append_next hpending horder
    have hflush : s.flush = ({ durable := { s.durable with pending := [] }, store := store' },
        .ok ()) := by
      unfold Session.flush
      rw [if_neg (fun he => hp (List.isEmpty_iff.mp he)), happend]
    rw [hflush]
    refine ⟨rfl, rfl, s.durable.ledger.events, (List.append_nil _).symm, ?_⟩
    rw [hevents, hrows]
    exact List.rel_append hstores hadded

/-- What holds of all payloads appended holds of all payloads of the ledger. -/
theorem session_payloads {p : Value → Prop} (h : ∀ a ∈ appended calls, p a.1.payload) :
    ∀ e ∈ (session sha256 calls).durable.ledger.events, p e.payload := by
  intro e he
  refine h (e.toLedgerEventDraft, stampOf e) ?_
  rw [← @session_appended sha256]
  exact List.mem_map_of_mem (f := fun e : LedgerEvent => (e.toLedgerEventDraft, stampOf e)) he

theorem session_kept (calls : List Call)
    (htext : ∀ a ∈ appended calls, Stringifies a.1.payload) : Kept (session sha256 calls) := by
  induction calls using List.reverseRecOn with
  | nil => exact ⟨[], rfl, .nil⟩
  | append_singleton calls c ih =>
      rw [appended_snoc] at htext
      have hbefore : ∀ a ∈ appended calls, Stringifies a.1.payload := fun a ha =>
        htext a (List.mem_append_left _ ha)
      rw [session_snoc]
      cases c with
      | append draft stamp =>
          obtain ⟨written, hevents, hstores⟩ := ih hbefore
          refine ⟨written, ?_, hstores⟩
          simp only [Session.call, DurableLedger.append, Ledger.append, hevents, List.append_assoc]
      | flush => exact ((ih hbefore).flush (session_payloads hbefore)).2.2

/-- The event `e'` is `e` with its payload as JSON has it. -/
def Rereads (e e' : LedgerEvent) : Prop :=
  ∃ j, e.payload.toJson = .ok (some j) ∧ e' = reread e j

theorem stores_rereads {L : List LedgerEvent} {rows : List EventRow}
    (h : List.Forall₂ Stores L rows) : ∃ stored,
    List.Forall₂ (fun r e => rowToEvent r = some e) rows stored ∧
    List.Forall₂ Rereads L stored := by
  induction h with
  | nil => exact ⟨[], .nil, .nil⟩
  | cons hstore _ ih =>
      obtain ⟨j, hj, rfl⟩ := hstore
      obtain ⟨stored, hread, hall⟩ := ih
      exact ⟨_, .cons (rowToEvent_rowOf _ j) hread, .cons ⟨j, hj, rfl⟩ hall⟩

/-- **After a flush the store has the whole ledger**, with the payloads as JSON has them. -/
theorem flushed_all (htext : ∀ a ∈ appended calls, Stringifies a.1.payload) :
    ∃ stored, (session sha256 (calls ++ [.flush])).store.all = some stored ∧
      List.Forall₂ Rereads (session sha256 (calls ++ [.flush])).durable.ledger.events stored := by
  rw [session_snoc]
  obtain ⟨-, hpending, written, hwritten, hstores⟩ :=
    (@session_kept sha256 calls htext).flush (session_payloads htext)
  rw [hpending, List.append_nil] at hwritten
  rw [Session.call, hwritten]
  obtain ⟨stored, hread, hall⟩ := stores_rereads hstores
  exact ⟨stored, mapM_some_iff.mpr hread, hall⟩

end Sessions

/-! ## 6. A restart is possible -/

/-- A new process hydrates from the store and has the hashes of the ledger. -/
def Session.Restarts (s : Session sha256) : Prop :=
  ∀ stamps, ∃ d, s.store.restart sha256 stamps = some (d, .ok ()) ∧
    d.ledger.events.map (·.hash) = s.durable.ledger.events.map (·.hash)

section Restart

variable {calls : List Call} {s : Session sha256} {L stored : List LedgerEvent}

theorem rereads_hashes (h : List.Forall₂ Rereads L stored) :
    L.map (fun e => (e.prevHash, e.hash)) = stored.map fun e => (e.prevHash, e.hash) := by
  rw [← List.forall₂_eq_eq_eq, List.forall₂_map_left_iff, List.forall₂_map_right_iff]
  refine h.imp ?_
  rintro e e' ⟨j, -, rfl⟩
  rfl

theorem restarts_iff_linked (hall : s.store.all = some stored)
    (h : List.Forall₂ Rereads s.durable.ledger.events stored) :
    s.Restarts ↔ Linked sha256 stored := by
  have hhash : s.durable.ledger.events.map (·.hash) = stored.map (·.hash) := by
    have hsnd := congrArg (List.map Prod.snd) (rereads_hashes h)
    rwa [List.map_map, List.map_map] at hsnd
  unfold Session.Restarts SqliteEventStore.restart
  rw [hall, hhash]
  constructor
  · intro hr
    obtain ⟨d, hd, hsame⟩ := hr fun _ => noteStamp
    exact (hydrate_iff _).mp ⟨d, Option.some.inj hd, hsame⟩
  · intro hlinked stamps
    obtain ⟨d, hd, hsame⟩ := (hydrate_iff stamps).mpr hlinked
    exact ⟨d, congrArg some hd, hsame⟩

/-- **The stored payloads have the texts that were hashed just when all payloads are plain.** -/
theorem rereads_checked (h : List.Forall₂ Rereads L stored)
    (hproper : ∀ e ∈ L, e.payload.Proper) :
    L.map checked = stored.map checked ↔ ∀ e ∈ L, e.payload.Plain := by
  induction h with
  | nil => simp
  | @cons e e' L stored hread _ ih =>
      obtain ⟨j, hj, rfl⟩ := hread
      have htext := canonicalize_eq_iff (hproper e List.mem_cons_self) hj
      have hsame : checked e = checked (reread e j) ↔ e.payload.Plain := by
        rw [← htext]
        simp only [checked, reread, Prod.mk.injEq, and_true]
        exact eq_comm
      have hrest := ih fun e he => hproper e (List.mem_cons_of_mem _ he)
      rw [List.map_cons, List.map_cons, List.cons.injEq, hsame, hrest, List.forall_mem_cons]

theorem session_plain_iff : (∀ e ∈ (session sha256 (calls ++ [.flush])).durable.ledger.events,
    e.payload.Plain) ↔ ∀ a ∈ appended calls, a.1.payload.Plain := by
  have hsame : appended (calls ++ [.flush]) = appended calls := by
    rw [appended_snoc]
    exact List.append_nil _
  rw [← hsame, ← @session_appended sha256]
  simp only [List.forall_mem_map]

/-- **A flushed ledger restarts if and only if its payloads are plain**: whatever the digest, and
    also for any one digest without collisions. -/
theorem restarts_iff (hproper : ∀ a ∈ appended calls, a.1.payload.Proper)
    (htext : ∀ a ∈ appended calls, Stringifies a.1.payload) :
    ((∀ sha256, (session sha256 (calls ++ [.flush])).Restarts) ↔
      ∀ a ∈ appended calls, a.1.payload.Plain) ∧
    ∀ sha256, Function.Injective sha256 → ((session sha256 (calls ++ [.flush])).Restarts ↔
      ∀ a ∈ appended calls, a.1.payload.Plain) := by
  have hflushed : appended (calls ++ [.flush]) = appended calls := by
    rw [appended_snoc]
    exact List.append_nil _
  have hplain : ∀ sha256, (∀ a ∈ appended calls, a.1.payload.Plain) →
      (session sha256 (calls ++ [.flush])).Restarts := by
    intro sha256 hp
    obtain ⟨stored, hall, hread⟩ := @flushed_all sha256 calls htext
    have hchecked := (rereads_checked hread (session_payloads (by rwa [hflushed]))).mpr
      (session_plain_iff.mpr hp)
    exact (restarts_iff_linked hall hread).mpr
      (Linked.of_checked hchecked (session sha256 (calls ++ [.flush])).durable.ledger.linked)
  have hexact : ∀ sha256, Function.Injective sha256 →
      (session sha256 (calls ++ [.flush])).Restarts → ∀ a ∈ appended calls, a.1.payload.Plain := by
    intro sha256 hinj hr
    obtain ⟨stored, hall, hread⟩ := @flushed_all sha256 calls htext
    have hlinked := (restarts_iff_linked hall hread).mp hr
    have hchecked := (linked_iff_checked hinj
      (session sha256 (calls ++ [.flush])).durable.ledger.linked (rereads_hashes hread)).mp hlinked
    exact session_plain_iff.mp
      ((rereads_checked hread (session_payloads (by rwa [hflushed]))).mp hchecked)
  refine ⟨⟨fun hr => ?_, fun hp sha256 => hplain sha256 hp⟩, fun sha256 hinj =>
    ⟨hexact sha256 hinj, hplain sha256⟩⟩
  exact hexact plainDigest plainDigest_injective (hr plainDigest)

/-- The events with these payloads, in two batches. -/
def inBatches (first second : List Value) : List Call :=
  let append (v : Value) : Call := .append { noteDraft "task" with payload := v } noteStamp
  first.map append ++ [.flush] ++ second.map append

theorem forall_inBatches {p : Value → Prop} {first second : List Value} :
    (∀ a ∈ appended (inBatches first second), p a.1.payload) ↔ ∀ v ∈ first ++ second, p v := by
  have happended : appended (inBatches first second) = (first ++ second).map fun v =>
      ({ noteDraft "task" with payload := v }, noteStamp) := by
    unfold appended inBatches
    rw [List.flatMap_append, List.flatMap_append, List.flatMap_map, List.flatMap_map,
      List.map_append]
    exact congrArg₂ (· ++ ·) ((List.append_nil _).trans (List.flatMap_pure_eq_map _ _))
      (List.flatMap_pure_eq_map _ _)
  rw [happended, List.forall_mem_map]

/-- An instance of a class that converts itself to its own property. -/
def converted : Value :=
  .converting (.obj [("n", .num (.ofNat 1))]) (.obj [("n", .num (.ofNat 1))])

/-- Keys out of order, an array, and an instance that converts itself. -/
theorem restarts_iff_notes : (session markedDigest
    (inBatches [.ofJson turned, .arr [.null, .str "x"]] [.obj [("k", converted)]] ++
      [.flush])).Restarts := by
  have hkeys : ["b", "a"].Nodup ∧ ["k"].Nodup ∧ ["n"].Nodup := by decide
  have hturned : (Value.ofJson turned).Whole := ⟨hkeys.1, trivial, trivial, trivial⟩
  have hitems : (Value.arr [.null, .str "x"]).Whole := ⟨trivial, trivial, trivial, trivial⟩
  have hconverted : (Value.obj [("k", converted)]).Proper :=
    ⟨hkeys.2.1, ⟨trivial, ⟨hkeys.2.2, trivial, trivial⟩, hkeys.2.2, trivial, trivial⟩, trivial⟩
  have hplain : (Value.obj [("k", converted)]).Plain :=
    ⟨⟨.obj [("n", .num (.ofNat 1))], .obj [("n", .num (.ofNat 1))], rfl, rfl,
      _, List.Perm.refl _, rfl, rfl, trivial⟩, trivial⟩
  have htext : Stringifies (.obj [("k", converted)]) :=
    stringifies_iff.mpr ⟨.obj [("k", .obj [("n", .num (.ofNat 1))])], rfl⟩
  have hall {p : Value → Prop} (h₁ : p (.ofJson turned)) (h₂ : p (.arr [.null, .str "x"]))
      (h₃ : p (.obj [("k", converted)])) : ∀ v ∈ [Value.ofJson turned, .arr [.null, .str "x"]] ++
        [.obj [("k", converted)]], p v :=
    List.forall_mem_cons.mpr ⟨h₁, List.forall_mem_cons.mpr ⟨h₂, List.forall_mem_singleton.mpr h₃⟩⟩
  exact ((restarts_iff (forall_inBatches.mpr (hall hturned.proper hitems.proper hconverted))
    (forall_inBatches.mpr (hall hturned.stringifies hitems.stringifies htext))).2 markedDigest
      markedDigest_injective).mpr (forall_inBatches.mpr (hall hturned.plain hitems.plain hplain))

/-- A payload with a property that is `undefined` has a text, is stored, and no process can hydrate
    from the store any more. -/
theorem undefined_property : ∃ calls : List Call,
    (∀ a ∈ appended calls, a.1.payload.Proper ∧ Stringifies a.1.payload) ∧
    (session plainDigest calls).flush.2 = .ok () ∧
    ¬ (session plainDigest (calls ++ [.flush])).Restarts ∧
    ∀ stamps, ((session plainDigest (calls ++ [.flush])).store.restart plainDigest stamps).map
      Prod.snd = some (.error "durable ledger: stored chain is invalid at seq 0") := by
  have hrestart : ∀ stamps, ((session plainDigest (inBatches [] [.obj [("a", .undefined)]] ++
      [.flush])).store.restart plainDigest stamps).map Prod.snd =
        some (.error "durable ledger: stored chain is invalid at seq 0") := by
    intro stamps
    rfl
  refine ⟨inBatches [] [.obj [("a", .undefined)]], ?_, rfl, fun hr => ?_, hrestart⟩
  · have hkeys : ["a"].Nodup := by decide
    exact (forall_inBatches (p := fun v => v.Proper ∧ Stringifies v)).mpr
      (List.forall_mem_singleton.mpr
        ⟨⟨hkeys, trivial, trivial⟩, stringifies_iff.mpr ⟨.obj [], rfl⟩⟩)
  · obtain ⟨d, hd, -⟩ := hr fun _ => noteStamp
    have herr := hrestart fun _ => noteStamp
    rw [hd] at herr
    cases herr

end Restart

/-! ## 7. What a restart restores -/

section Restored

variable {calls : List Call} {stamps : Nat → Stamp}

/-- A rebuilt ledger draws its ids and times in order. -/
theorem rebuild_stamps : ∀ {B : List LedgerEvent} {l l' : Ledger sha256},
    rebuild stamps l B = (l', .ok ()) → l'.events.map stampOf =
      l.events.map stampOf ++ (List.range' l.events.length B.length).map stamps
  | [], l, l', h => by
      cases h
      simp
  | e :: B, l, l', h => by
      unfold rebuild at h
      dsimp only at h
      split_ifs at h with hno
      · cases h
      have hlen : (l.append e.toLedgerEventDraft (stamps l.events.length)).events.length =
          l.events.length + 1 := by
        simp [Ledger.append]
      have hfirst : (l.append e.toLedgerEventDraft (stamps l.events.length)).events.map stampOf =
          l.events.map stampOf ++ [stamps l.events.length] := List.map_append
      rw [rebuild_stamps h, hlen, hfirst, List.length_cons, List.range'_succ, List.map_cons,
        List.append_assoc]
      rfl

theorem hydrate_stamps {rows : List LedgerEvent} {d : DurableLedger sha256}
    (h : (DurableLedger.new sha256).hydrate stamps rows = (d, .ok ())) :
    d.ledger.events.map stampOf = (List.range rows.length).map stamps := by
  unfold DurableLedger.hydrate at h
  cases rows with
  | nil =>
      cases h
      rfl
  | cons e rest =>
      by_cases hvalid : (verifyChain sha256 (e :: rest)).valid = true
      · simp only [List.isEmpty_cons, hvalid, if_true] at h
        cases hr : rebuild stamps (DurableLedger.new sha256).ledger (e :: rest) with
        | mk l result =>
            rw [hr] at h
            cases h
            rw [rebuild_stamps hr, List.range_eq_range']
            rfl
      · simp [hvalid] at h

/-- An event is its contents, its id and its time. -/
theorem event_ext {e e' : LedgerEvent} (hc : content e = content e') (hs : stampOf e = stampOf e') :
    e = e' := by
  cases e
  cases e'
  simp only [content, stampOf, Prod.mk.injEq, Stamp.mk.injEq] at hc hs
  simp only [LedgerEvent.mk.injEq]
  exact ⟨hc.2.1, hs.1, hc.1, hs.2, hc.2.2.1, hc.2.2.2⟩

/-- JSON payloads are read again as they are. -/
theorem rereads_eq {L stored : List LedgerEvent} (h : List.Forall₂ Rereads L stored)
    (hjson : ∀ e ∈ L, ∃ j, e.payload = .ofJson j) : stored = L := by
  induction h with
  | nil => rfl
  | @cons e e' L stored hread _ ih =>
      obtain ⟨j, hj, rfl⟩ := hread
      obtain ⟨j', hj'⟩ := hjson e List.mem_cons_self
      rw [hj', toJson_ofJson] at hj
      obtain rfl : j' = j := Option.some.inj (Except.ok.inj hj)
      rw [ih fun e he => hjson e (List.mem_cons_of_mem _ he), reread, ← hj']

/-- **A restart from JSON payloads restores every field but ids and times**, and these if and only
    if it draws for each event the id and the time the event had. -/
theorem restored_iff (hjson : ∀ a ∈ appended calls, ∃ j, a.1.payload = .ofJson j)
    (stamps : Nat → Stamp) : ∃ d,
    (session sha256 (calls ++ [.flush])).store.restart sha256 stamps = some (d, .ok ()) ∧
    d.ledger.events.map content =
      (session sha256 (calls ++ [.flush])).durable.ledger.events.map content ∧
    ((d.ledger.events = (session sha256 (calls ++ [.flush])).durable.ledger.events ∧
        (session sha256 (calls ++ [.flush])).store.all = some d.ledger.events) ↔
      (appended calls).map Prod.snd = (List.range (appended calls).length).map stamps) := by
  have hflushed : appended (calls ++ [.flush]) = appended calls := by
    rw [appended_snoc]
    exact List.append_nil _
  have htext : ∀ a ∈ appended calls, Stringifies a.1.payload := by
    intro a ha
    obtain ⟨j, hj⟩ := hjson a ha
    exact stringifies_iff.mpr ⟨j, by rw [hj, toJson_ofJson]⟩
  obtain ⟨stored, hall, hread⟩ := @flushed_all sha256 calls htext
  have hpayloads : ∀ e ∈ (session sha256 (calls ++ [.flush])).durable.ledger.events,
      ∃ j, e.payload = .ofJson j :=
    session_payloads (p := fun v => ∃ j, v = .ofJson j) (by rwa [hflushed])
  rw [rereads_eq hread hpayloads] at hall
  have happended := @session_appended sha256 (calls ++ [.flush])
  rw [hflushed] at happended
  generalize session sha256 (calls ++ [.flush]) = s at *
  obtain ⟨d, hd, -, hcontent⟩ :=
    hydrate_linked s.durable.ledger.linked s.durable.ledger.numbered stamps
  refine ⟨d, ?_, hcontent, ?_⟩
  · unfold SqliteEventStore.restart
    rw [hall, Option.map_some, hd]
  have hlength : s.durable.ledger.events.length = (appended calls).length := by
    rw [← happended, List.length_map]
  have hold : s.durable.ledger.events.map stampOf = (appended calls).map Prod.snd := by
    rw [← happended, List.map_map]
    rfl
  have hnew := hydrate_stamps hd
  rw [hlength] at hnew
  rw [← hold, ← hnew, hall, Option.some.injEq]
  constructor
  · intro ⟨hsame, _⟩
    rw [hsame]
  · intro hstamps
    have hsame : d.ledger.events = s.durable.ledger.events :=
      eq_of_map_eq (fun e e' => event_ext) hcontent hstamps.symm
    exact ⟨hsame, hsame.symm⟩

theorem inBatches_json (first second : List Json) : ∀ a ∈ appended
    (inBatches (first.map .ofJson) (second.map .ofJson)), ∃ j, a.1.payload = .ofJson j := by
  refine (forall_inBatches (p := fun w => ∃ j, w = .ofJson j)).mpr fun v hv => ?_
  rw [← List.map_append] at hv
  obtain ⟨j, -, rfl⟩ := List.mem_map.mp hv
  exact ⟨j, rfl⟩

theorem restored_iff_notes : ∃ d,
    (session markedDigest (inBatches [.ofJson turned, .ofJson .null] [.ofJson inOrder] ++
      [.flush])).store.restart markedDigest (fun _ => noteStamp) = some (d, .ok ()) ∧
    d.ledger.events = (session markedDigest (inBatches [.ofJson turned, .ofJson .null]
      [.ofJson inOrder] ++ [.flush])).durable.ledger.events := by
  obtain ⟨d, hd, -, hiff⟩ :=
    @restored_iff markedDigest _ (inBatches_json [turned, .null] [inOrder]) fun _ => noteStamp
  exact ⟨d, hd, (hiff.mpr rfl).1⟩

/-- The id and the time a later process draws. -/
def laterStamp : Stamp := ⟨"another id", "later"⟩

/-- One event is appended and flushed; after the restart it has another id and another time, while
    the store has the old ones. -/
theorem restart_renames : ∃ calls : List Call,
    (∀ a ∈ appended calls, ∃ j, a.1.payload = .ofJson j) ∧
    (session markedDigest calls).flush.2 = .ok () ∧
    ∃ d, (session markedDigest (calls ++ [.flush])).store.restart markedDigest
        (fun _ => laterStamp) = some (d, .ok ()) ∧
      d.ledger.events.map (·.id) = ["another id"] ∧
      d.ledger.events.map (·.timestamp) = ["later"] ∧
      ((session markedDigest (calls ++ [.flush])).store.all.map fun events =>
        events.map (·.id)) = some ["id"] ∧
      d.ledger.events ≠ (session markedDigest (calls ++ [.flush])).durable.ledger.events := by
  refine ⟨inBatches [] [.ofJson .null], inBatches_json [] [.null], rfl, _, rfl, rfl, rfl, rfl, ?_⟩
  intro hsame
  have hid := congrArg (List.map (·.id)) hsame
  exact absurd hid (by decide)

end Restored

end AgentKernel.Storage
