/-
  File:      AgentKernel/Storage/DurableLedger.lean
  Subject:   The durable ledger over an event store (storage/store/src/durable-ledger.ts; the
             append of sqlite-stores.ts and postgres.ts).

  `flush` takes the pending events out of the ledger before the store has them, does not put them
  back when the store refuses, and does not wait for a flush that is still being written.

  * `System` is a durable ledger, the batches handed to the store and not yet settled, and the
    rows of the store, which are keyed by `seq`; `step` lets any of the batches settle next;
  * `Durable`: the store holds an initial part of the ledger, every event of the ledger is stored,
    being written or pending, and a new process can hydrate from the store;
  * **`durable_iff`**: all of it holds throughout a run just when every batch is written in the
    order of the flushes and none is refused.
-/
import AgentKernel.Events.Ledger
import AgentKernel.Lib.Lists

namespace AgentKernel.Storage

open Lib Events

variable {sha256 : String → String}

/-! ## 1. The durable ledger -/

/-- A ledger, and the events of it that have not been flushed. -/
structure DurableLedger (sha256 : String → String) where
  ledger : Ledger sha256
  pending : List LedgerEvent

/-- A ledger without events. -/
def DurableLedger.new (sha256 : String → String) : DurableLedger sha256 where
  ledger := .empty sha256
  pending := []

/-- The loop of `hydrate`: each event is compared after it was appended. -/
def rebuild (stamps : Nat → Stamp) (l : Ledger sha256) :
    List LedgerEvent → Ledger sha256 × Except String Unit
  | [] => (l, .ok ())
  | e :: rest =>
      let stamp := stamps l.events.length
      let rebuilt := l.event e.toLedgerEventDraft stamp
      let l := l.append e.toLedgerEventDraft stamp
      if rebuilt.hash ≠ e.hash then
        (l, .error ("durable ledger: hash mismatch at seq " ++ toString e.seq ++
          " (tamper detected)"))
      else rebuild stamps l rest

/-- `hydrate`, once the store has answered with its events. -/
def DurableLedger.hydrate (d : DurableLedger sha256) (stamps : Nat → Stamp)
    (events : List LedgerEvent) : DurableLedger sha256 × Except String Unit :=
  if events.isEmpty then (d, .ok ())
  else
    let check := verifyChain sha256 events
    if check.valid then
      let (ledger, result) := rebuild stamps d.ledger events
      ({ d with ledger := ledger }, result)
    else
      (d, .error ("durable ledger: stored chain is invalid at seq " ++
        (check.index.map toString).getD "undefined"))

/-- One event more, which is to be flushed. -/
def DurableLedger.append (d : DurableLedger sha256) (draft : LedgerEventDraft) (stamp : Stamp) :
    DurableLedger sha256 where
  ledger := d.ledger.append draft stamp
  pending := d.pending ++ [d.ledger.event draft stamp]

/-! ## 2. The store -/

/-- One `INSERT`: the rows are keyed by `seq`, and are read back in its order. -/
def insertRow (rows : List LedgerEvent) (e : LedgerEvent) : Option (List LedgerEvent) :=
  if rows.any fun r => r.seq = e.seq then none
  else some (rows.orderedInsert (fun a b => a.seq ≤ b.seq) e)

/-- The append of a batch in one transaction; `none` is its rollback. -/
def storeAppend : List LedgerEvent → List LedgerEvent → Option (List LedgerEvent)
  | rows, [] => some rows
  | rows, e :: batch => (insertRow rows e).bind fun rows => storeAppend rows batch

/-! ## 3. The ledger and its flushes -/

/-- A ledger with its store, and with the flushes that are under way. -/
structure System (sha256 : String → String) where
  durable : DurableLedger sha256
  /-- The batches of the flushes that have not settled, oldest first. -/
  writing : List (List LedgerEvent)
  rows : List LedgerEvent

/-- What happens to it. -/
inductive Label where
  | append (draft : LedgerEventDraft) (stamp : Stamp)
  | flush
  /-- The store is done with a batch, or has refused it. -/
  | settle (i : Nat) (commits : Bool)

/-- Everything that is pending goes on its way. -/
def System.flush (s : System sha256) : System sha256 :=
  if s.durable.pending.isEmpty then s
  else
    { s with
      durable := { s.durable with pending := [] }
      writing := s.writing ++ [s.durable.pending] }

/-- A batch arrives in the store as a whole, or is gone. -/
def System.settle (s : System sha256) (i : Nat) (commits : Bool) (batch : List LedgerEvent) :
    System sha256 :=
  { s with
    writing := s.writing.eraseIdx i
    rows := if commits then (storeAppend s.rows batch).getD s.rows else s.rows }

/-- One step; `none` where there is no such flush. -/
def step (s : System sha256) : Label → Option (System sha256)
  | .append draft stamp => some { s with durable := s.durable.append draft stamp }
  | .flush => some s.flush
  | .settle i commits => s.writing[i]?.map (s.settle i commits)

/-- A process that has hydrated from the store, whose events are numbered from 0. -/
structure Opens (s : System sha256) : Prop where
  numbered : s.rows.map (·.seq) = List.range s.rows.length
  hydrated : ∃ stamps, (DurableLedger.new sha256).hydrate stamps s.rows = (s.durable, .ok ())
  idle : s.writing = []

/-! ## 4. The property and its condition -/

/-- The events that are stored, being written or pending. -/
def System.held (s : System sha256) : List LedgerEvent :=
  s.rows ++ s.writing.flatten ++ s.durable.pending

/-- The store holds the beginning of the ledger, nothing is lost, and a restart succeeds. -/
structure Durable (s : System sha256) : Prop where
  initial : s.rows.map content <+: s.durable.ledger.events.map content
  kept : ∀ e ∈ s.durable.ledger.events, content e ∈ s.held.map content
  restarts : ∀ stamps, ∃ d : DurableLedger sha256,
    (DurableLedger.new sha256).hydrate stamps s.rows = (d, .ok ()) ∧
      d.ledger.events.map content = s.rows.map content

/-- The oldest batch is the one that settles, and the store takes it. -/
def WritesInOrder (_ : System sha256) : Label → Prop
  | .settle i commits => i = 0 ∧ commits = true
  | _ => True

/-! ## 5. Hydrating -/

section Hydrate

variable {A B rows : List LedgerEvent} {l : Ledger sha256} {stamps : Nat → Stamp}
  {d : DurableLedger sha256}

/-- An event made again from what it says has the same contents. -/
theorem event_content {e : LedgerEvent} (hl : l.events.map content = A.map content)
    (he : Links sha256 A e) (hseq : e.seq = A.length) (stamp : Stamp) :
    content (l.event e.toLedgerEventDraft stamp) = content e := by
  have hlast : lastHash l.events = lastHash A := lastHash_of_content hl
  have hlen : l.events.length = A.length := by simpa using congrArg List.length hl
  have hnumber : (l.event e.toLedgerEventDraft stamp).seq = e.seq := by rw [hseq, ← hlen]; rfl
  have hprev : (l.event e.toLedgerEventDraft stamp).prevHash = e.prevHash := by
    rw [he.prev, ← hlast]; rfl
  have hhash : (l.event e.toLedgerEventDraft stamp).hash = e.hash := by
    rw [he.hash, ← hlast]; rfl
  unfold content
  rw [hnumber, hprev, hhash]
  rfl

/-- **A linked and numbered list is rebuilt.** -/
theorem rebuild_linked : ∀ {B A : List LedgerEvent} {l : Ledger sha256},
    l.events.map content = A.map content → Linked sha256 (A ++ B) →
    (A ++ B).map (·.seq) = List.range (A ++ B).length →
    ∃ l', rebuild stamps l B = (l', .ok ()) ∧ l'.events.map content = (A ++ B).map content
  | [], A, l, hl, _, _ => ⟨l, rfl, by rw [hl, List.append_nil]⟩
  | e :: B, A, l, hl, hlinked, hnumbered => by
      have he : Links sha256 A e := hlinked A e B rfl
      have hseq : e.seq = A.length := by
        have hget := congrArg (fun ns => ns[A.length]?) hnumbered
        simpa using hget
      have hcontent := event_content hl he hseq (stamps l.events.length)
      have hhash : (l.event e.toLedgerEventDraft (stamps l.events.length)).hash = e.hash :=
        congrArg (fun x => x.2.2.2) hcontent
      rw [List.append_cons] at hlinked hnumbered ⊢
      have hl' : (l.append e.toLedgerEventDraft (stamps l.events.length)).events.map content =
          (A ++ [e]).map content := by
        rw [List.map_append, List.map_singleton, ← hl, ← hcontent, ← List.map_singleton,
          ← List.map_append]
        rfl
      obtain ⟨l', hr, hc⟩ := rebuild_linked hl' hlinked hnumbered
      refine ⟨l', ?_, hc⟩
      unfold rebuild
      rw [if_neg (not_not.mpr hhash)]
      exact hr

/-- Linked rows hydrate if they are rebuilt. -/
theorem hydrate_of_rebuild {l : Ledger sha256} (hlinked : Linked sha256 rows)
    (hr : rebuild stamps (DurableLedger.new sha256).ledger rows = (l, .ok ())) :
    ∃ d : DurableLedger sha256, (DurableLedger.new sha256).hydrate stamps rows = (d, .ok ()) ∧
      d.pending = [] ∧ d.ledger = l := by
  unfold DurableLedger.hydrate
  cases rows with
  | nil => exact ⟨_, rfl, rfl, congrArg Prod.fst hr⟩
  | cons e rest =>
      have hvalid : (verifyChain sha256 (e :: rest)).valid = true := verifyChain_valid.mpr hlinked
      simp only [List.isEmpty_cons, hvalid, if_true]
      rw [hr]
      exact ⟨_, rfl, rfl, rfl⟩

/-- **A new process hydrates from a linked and numbered store.** -/
theorem hydrate_linked (hlinked : Linked sha256 rows)
    (hnumbered : rows.map (·.seq) = List.range rows.length) (stamps : Nat → Stamp) :
    ∃ d : DurableLedger sha256, (DurableLedger.new sha256).hydrate stamps rows = (d, .ok ()) ∧
      d.pending = [] ∧ d.ledger.events.map content = rows.map content := by
  have hnew : (DurableLedger.new sha256).ledger.events.map content =
      ([] : List LedgerEvent).map content := rfl
  obtain ⟨l, hr, hc⟩ : ∃ l, rebuild stamps (DurableLedger.new sha256).ledger rows = (l, .ok ()) ∧
      l.events.map content = rows.map content := rebuild_linked hnew hlinked hnumbered
  obtain ⟨d, hd, hpending, rfl⟩ := hydrate_of_rebuild hlinked hr
  exact ⟨d, hd, hpending, hc⟩

/-- The hashes of a linked list come out again, whatever the numbers of its events. -/
theorem rebuild_hashes : ∀ {B A : List LedgerEvent} {l : Ledger sha256},
    l.events.map (·.hash) = A.map (·.hash) → Linked sha256 (A ++ B) →
    ∃ l', rebuild stamps l B = (l', .ok ()) ∧
      l'.events.map (·.hash) = (A ++ B).map (·.hash)
  | [], A, l, hl, _ => ⟨l, rfl, by rw [hl, List.append_nil]⟩
  | e :: B, A, l, hl, hlinked => by
      have he : Links sha256 A e := hlinked A e B rfl
      have hhash : (l.event e.toLedgerEventDraft (stamps l.events.length)).hash = e.hash := by
        rw [he.hash, ← lastHash_of_hashes hl]
        rfl
      rw [List.append_cons] at hlinked ⊢
      have hl' : (l.append e.toLedgerEventDraft (stamps l.events.length)).events.map (·.hash) =
          (A ++ [e]).map (·.hash) := by
        rw [List.map_append, List.map_singleton, ← hl, ← hhash, ← List.map_singleton,
          ← List.map_append]
        rfl
      obtain ⟨l', hr, hc⟩ := rebuild_hashes hl' hlinked
      refine ⟨l', ?_, hc⟩
      unfold rebuild
      rw [if_neg (not_not.mpr hhash)]
      exact hr

/-- What has the contents of an initial part of a ledger is numbered from 0. -/
theorem numbered_of_initial (h : rows.map content <+: l.events.map content) :
    rows.map (·.seq) = List.range rows.length := by
  obtain ⟨after, hafter⟩ := h
  have hle : rows.length ≤ l.events.length := by
    have hlen := congrArg List.length hafter
    rw [List.length_append, List.length_map, List.length_map] at hlen
    exact Nat.le.intro hlen
  have hseqs := congrArg (List.map Prod.fst) hafter
  rw [List.map_append, List.map_map, List.map_map] at hseqs
  have htake := congrArg (List.take rows.length) (hseqs.trans l.numbered)
  rw [List.take_append_of_le_length (by simp), List.take_of_length_le (by simp), List.take_range,
    Nat.min_eq_left hle] at htake
  exact htake

/-- What hydrates is linked. -/
theorem linked_of_hydrate {d₀ : DurableLedger sha256}
    (h : d₀.hydrate stamps rows = (d, .ok ())) : Linked sha256 rows := by
  unfold DurableLedger.hydrate at h
  cases rows with
  | nil => exact .nil
  | cons e rest =>
      by_cases hvalid : (verifyChain sha256 (e :: rest)).valid = true
      · exact verifyChain_valid.mp hvalid
      · simp [hvalid] at h

/-- **A new process hydrates from the linked lists and no others**, and has their hashes. -/
theorem hydrate_iff (stamps : Nat → Stamp) : (∃ d : DurableLedger sha256,
    (DurableLedger.new sha256).hydrate stamps rows = (d, .ok ()) ∧
      d.ledger.events.map (·.hash) = rows.map (·.hash)) ↔ Linked sha256 rows := by
  refine ⟨fun ⟨d, hd, _⟩ => linked_of_hydrate hd, fun hlinked => ?_⟩
  have hnew : (DurableLedger.new sha256).ledger.events.map (·.hash) =
      ([] : List LedgerEvent).map (·.hash) := rfl
  obtain ⟨l, hr, hc⟩ : ∃ l, rebuild stamps (DurableLedger.new sha256).ledger rows = (l, .ok ()) ∧
      l.events.map (·.hash) = rows.map (·.hash) := rebuild_hashes hnew hlinked
  obtain ⟨d, hd, -, rfl⟩ := hydrate_of_rebuild hlinked hr
  exact ⟨d, hd, hc⟩

end Hydrate

/-! ## 6. Writing a batch -/

section Append

variable {rows rows' batch : List LedgerEvent}

theorem insertRow_fresh {e : LedgerEvent} (h : e.seq ∉ rows.map (·.seq)) :
    insertRow rows e = some (rows.orderedInsert (fun a b => a.seq ≤ b.seq) e) := by
  refine if_neg ?_
  simp only [List.any_eq_true, decide_eq_true_eq, not_exists, not_and]
  exact fun r hr hseq => h (hseq ▸ List.mem_map_of_mem hr)

/-- A batch of new events is taken, whatever there is. -/
theorem storeAppend_fresh : ∀ {batch rows : List LedgerEvent},
    ((rows ++ batch).map (·.seq)).Nodup →
    ∃ rows', storeAppend rows batch = some rows' ∧ rows'.Perm (rows ++ batch)
  | [], rows, _ => ⟨rows, rfl, by rw [List.append_nil]⟩
  | e :: batch, rows, h => by
      have hperm := List.perm_orderedInsert (fun a b : LedgerEvent => a.seq ≤ b.seq) e rows
      have hall : (rows.orderedInsert (fun a b => a.seq ≤ b.seq) e ++ batch).Perm
          (rows ++ e :: batch) :=
        (hperm.append_right batch).trans List.perm_middle.symm
      have hfresh : e.seq ∉ rows.map (·.seq) := by
        have hmid := (List.perm_middle.map LedgerEvent.seq).nodup_iff.mp h
        rw [List.map_cons, List.nodup_cons, List.map_append, List.mem_append, not_or] at hmid
        exact hmid.1.1
      obtain ⟨rows', hr, hp⟩ := storeAppend_fresh ((hall.map _).nodup_iff.mpr h)
      refine ⟨rows', ?_, hp.trans hall⟩
      unfold storeAppend
      rw [insertRow_fresh hfresh]
      exact hr

/-- A batch that continues the rows is stored after them. -/
theorem storeAppend_next : ∀ {batch rows : List LedgerEvent},
    ((rows ++ batch).map (·.seq)).Pairwise (· < ·) → storeAppend rows batch = some (rows ++ batch)
  | [], rows, _ => by rw [List.append_nil]; rfl
  | e :: batch, rows, h => by
      have hlt : ∀ r ∈ rows, r.seq < e.seq := by
        intro r hr
        rw [List.map_append, List.pairwise_append] at h
        exact h.2.2 _ (List.mem_map_of_mem hr) _ (by simp)
      have hfresh : e.seq ∉ rows.map (·.seq) := by
        intro hm
        obtain ⟨r, hr, hseq⟩ := List.mem_map.mp hm
        exact absurd (hlt r hr) (by omega)
      have hnext : storeAppend (rows ++ [e]) batch = some (rows ++ e :: batch) := by
        rw [List.append_cons rows e batch] at h ⊢
        exact storeAppend_next h
      unfold storeAppend
      rw [insertRow_fresh hfresh, orderedInsert_last (k := LedgerEvent.seq) hlt, Option.bind_some, hnext]

end Append

/-! ## 7. Writes in order -/

/-- What the store, the writes and the ledger have to do with each other as long as the writes are
    in order: nothing is missing, and nothing is out of place. -/
structure Lined (s : System sha256) : Prop where
  contents : s.held.map content = s.durable.ledger.events.map content
  batches : ∀ batch ∈ s.writing, batch ≠ []

section Lined

variable {s s' s₀ : System sha256} {l : Label} {ls : List Label}

theorem Opens.lined (h : Opens s) : Lined s := by
  obtain ⟨hnumbered, ⟨stamps, hh⟩, hidle⟩ := h
  obtain ⟨d, hd, hpending, hcontents⟩ := hydrate_linked (linked_of_hydrate hh) hnumbered stamps
  obtain rfl : d = s.durable := congrArg Prod.fst (hd.symm.trans hh)
  refine ⟨?_, by simp [hidle]⟩
  rw [hcontents, System.held, hidle, hpending]
  simp

theorem Lined.numbered (h : Lined s) : s.held.map (·.seq) = List.range s.held.length := by
  have hlen : s.held.length = s.durable.ledger.events.length := by
    simpa using congrArg List.length h.contents
  rw [seq_of_content h.contents, s.durable.ledger.numbered, hlen]

theorem Lined.nodup (h : Lined s) : (s.held.map (·.seq)).Nodup := by
  rw [h.numbered]
  exact List.nodup_range

theorem Lined.sorted (h : Lined s) : (s.held.map (·.seq)).Pairwise (· < ·) := by
  rw [h.numbered]
  exact List.pairwise_lt_range

/-- The oldest batch continues the rows. -/
theorem Lined.oldest {batch : List LedgerEvent} {rest : List (List LedgerEvent)} (h : Lined s)
    (hw : s.writing = batch :: rest) : storeAppend s.rows batch = some (s.rows ++ batch) := by
  refine storeAppend_next (h.sorted.sublist (List.Sublist.map _ ?_))
  rw [System.held, hw, List.flatten_cons]
  simp only [List.append_assoc, List.append_sublist_append_left, List.sublist_append_left]

theorem Lined.append (h : Lined s) (draft : LedgerEventDraft) (stamp : Stamp) :
    Lined { s with durable := s.durable.append draft stamp } := by
  refine ⟨?_, h.batches⟩
  have hheld : System.held { s with durable := s.durable.append draft stamp } =
      s.held ++ [s.durable.ledger.event draft stamp] := by
    simp [System.held, DurableLedger.append]
  have hevents : (s.durable.append draft stamp).ledger.events =
      s.durable.ledger.events ++ [s.durable.ledger.event draft stamp] := rfl
  rw [hheld, hevents, List.map_append, List.map_append, h.contents]

/-- A flush moves the pending events to the writes. -/
theorem flush_held (s : System sha256) : s.flush.held = s.held := by
  unfold System.flush
  split_ifs
  · rfl
  · simp [System.held]

theorem flush_ledger (s : System sha256) : s.flush.durable.ledger = s.durable.ledger := by
  unfold System.flush
  split_ifs <;> rfl

theorem Lined.flush (h : Lined s) : Lined s.flush := by
  refine ⟨by rw [flush_held, flush_ledger, h.contents], ?_⟩
  unfold System.flush
  by_cases hp : s.durable.pending.isEmpty = true
  · rw [if_pos hp]
    exact h.batches
  · rw [if_neg hp]
    intro batch hb
    rcases List.mem_append.mp hb with hb | hb
    · exact h.batches batch hb
    · obtain rfl := List.mem_singleton.mp hb
      simpa using hp

theorem Lined.settle {batch : List LedgerEvent} (h : Lined s) (hb : s.writing[0]? = some batch) :
    Lined (s.settle 0 true batch) := by
  obtain ⟨rest, hw⟩ : ∃ rest, s.writing = batch :: rest := by
    cases hw : s.writing with
    | nil => simp [hw] at hb
    | cons b rest => exact ⟨rest, by simpa [hw] using hb⟩
  have hrows : (s.settle 0 true batch).rows = s.rows ++ batch := by
    simp [System.settle, h.oldest hw]
  have hwriting : (s.settle 0 true batch).writing = rest := by
    simp [System.settle, hw]
  have hheld : (s.settle 0 true batch).held = s.held := by
    rw [System.held, System.held, hrows, hwriting, hw]
    simp [System.settle]
  refine ⟨by rw [hheld]; exact h.contents, fun b hb' => h.batches b ?_⟩
  rw [hw]
  exact List.mem_cons_of_mem _ (hwriting ▸ hb')

theorem Lined.step (h : Lined s) (hok : WritesInOrder s l) (hs : step s l = some s') :
    Lined s' := by
  cases l with
  | append draft stamp =>
      cases hs
      exact h.append draft stamp
  | flush =>
      cases hs
      exact h.flush
  | settle i commits =>
      obtain ⟨rfl, rfl⟩ := hok
      obtain ⟨batch, hb, rfl⟩ := Option.map_eq_some_iff.mp hs
      exact h.settle hb

/-- **The store of a lined up ledger is durable.** -/
theorem Lined.durable (h : Lined s) : Durable s := by
  have hinitial : s.rows.map content <+: s.durable.ledger.events.map content := by
    rw [← h.contents, System.held, List.append_assoc, List.map_append]
    exact List.prefix_append _ _
  have hlinked : Linked sha256 s.rows := s.durable.ledger.linked.initial hinitial
  have hnumbered := numbered_of_initial hinitial
  refine ⟨hinitial, fun e he => ?_, fun stamps => ?_⟩
  · rw [h.contents]
    exact List.mem_map_of_mem he
  · obtain ⟨d, hd, -, hc⟩ := hydrate_linked hlinked hnumbered stamps
    exact ⟨d, hd, hc⟩

theorem run_lined (h₀ : Opens s₀) (h : Run Storage.step WritesInOrder s₀ ls s) : Lined s :=
  Run.invariant h₀.lined (fun _ _ _ hI hok hs => hI.step hok hs) h

/-! ## 8. A write out of order, or refused -/

/-- A batch and all else that is held. -/
theorem held_perm {i : Nat} {batch : List LedgerEvent} (hb : s.writing[i]? = some batch) :
    s.held.Perm (s.rows ++ batch ++ ((s.writing.eraseIdx i).flatten ++ s.durable.pending)) := by
  obtain ⟨hlt, hget⟩ := List.getElem?_eq_some_iff.mp hb
  have hperm := (List.getElem_cons_eraseIdx_perm hlt).symm.flatten
  rw [List.flatten_cons, hget] at hperm
  have hall := (hperm.append_left s.rows).append_right s.durable.pending
  rwa [← List.append_assoc, List.append_assoc (s.rows ++ batch)] at hall

/-- What a refused batch held is nowhere any more. -/
theorem not_durable_refused {i : Nat} {batch : List LedgerEvent} (h : Lined s)
    (hb : s.writing[i]? = some batch) : ¬ Durable (s.settle i false batch) := by
  intro hd
  obtain ⟨e, rest, rfl⟩ := List.exists_cons_of_ne_nil (h.batches batch (List.mem_of_getElem? hb))
  have hperm : s.held.Perm (e :: rest ++ (s.settle i false (e :: rest)).held) := by
    refine (held_perm hb).trans ((List.perm_append_comm.append_right _).trans ?_)
    simp [System.held, System.settle]
  have hnodup := (hperm.map LedgerEvent.seq).nodup_iff.mp h.nodup
  rw [List.cons_append, List.map_cons, List.nodup_cons] at hnodup
  -- the ledger has the event, and whatever is held with its contents has its number
  have hin : content e ∈ s.held.map content :=
    List.mem_map_of_mem (hperm.mem_iff.mpr (by simp))
  rw [h.contents] at hin
  obtain ⟨e₁, he₁, hc₁⟩ := List.mem_map.mp hin
  obtain ⟨e₂, he₂, hc₂⟩ := List.mem_map.mp (hd.kept e₁ he₁)
  have hseq : e₂.seq = e.seq := congrArg Prod.fst (hc₂.trans hc₁)
  exact hnodup.1 (List.mem_map.mpr ⟨e₂, List.mem_append_right _ he₂, hseq⟩)

/-- The first event of the oldest batch has the number after the rows. -/
theorem Lined.next_seq {e : LedgerEvent} {rest : List LedgerEvent}
    {later : List (List LedgerEvent)} (h : Lined s) (hw : s.writing = (e :: rest) :: later) :
    e.seq = s.rows.length := by
  have hget := congrArg (fun ns => ns[s.rows.length]?) h.numbered
  have hlt : s.rows.length < s.held.length := by simp [System.held, hw]
  rw [List.getElem?_range hlt] at hget
  simpa [System.held, hw] using hget

/-- A batch that overtakes an older one leaves a gap in the store. -/
theorem not_durable_overtaking {i : Nat} {batch : List LedgerEvent} (h : Lined s)
    (hb : s.writing[i + 1]? = some batch) : ¬ Durable (s.settle (i + 1) true batch) := by
  intro hd
  obtain ⟨oldest, later, hw⟩ : ∃ oldest later, s.writing = oldest :: later := by
    refine List.exists_cons_of_ne_nil fun hnil => ?_
    simp [hnil] at hb
  obtain ⟨e, rest, rfl⟩ := List.exists_cons_of_ne_nil (h.batches oldest (by simp [hw]))
  have hnodup := ((held_perm hb).map LedgerEvent.seq).nodup_iff.mp h.nodup
  rw [List.map_append] at hnodup
  obtain ⟨hnew, -, hapart⟩ := List.nodup_append.mp hnodup
  obtain ⟨rows', hr, hp⟩ := storeAppend_fresh hnew
  have hrows : (s.settle (i + 1) true batch).rows = rows' := by simp [System.settle, hr]
  -- the store now has as many rows as would reach past the number of the missing event
  have hlen : s.rows.length < rows'.length := by
    have hpos := List.length_pos_iff.mpr (h.batches batch (List.mem_of_getElem? hb))
    rw [hp.length_eq, List.length_append]
    omega
  have hrange : rows'.map (·.seq) = List.range rows'.length :=
    hrows ▸ numbered_of_initial hd.initial
  have hmem : e.seq ∈ rows'.map (·.seq) := by
    rw [hrange, List.mem_range, h.next_seq hw]
    exact hlen
  have hstored : e.seq ∈ (s.rows ++ batch).map (·.seq) := (hp.map LedgerEvent.seq).mem_iff.mp hmem
  have hwaiting : e.seq ∈ ((s.writing.eraseIdx (i + 1)).flatten ++ s.durable.pending).map (·.seq) := by
    rw [hw]
    simp
  exact hapart _ hstored _ hwaiting rfl

end Lined

/-! ## 9. The exact condition -/

section Exact

variable {s s' s₀ : System sha256} {l : Label} {ls : List Label}

theorem not_durable (h : Lined s) (hno : ¬ WritesInOrder s l) (hs : step s l = some s') :
    ¬ Durable s' := by
  cases l with
  | append | flush => exact absurd trivial hno
  | settle i commits =>
      obtain ⟨batch, hb, rfl⟩ := Option.map_eq_some_iff.mp hs
      cases commits with
      | false => exact not_durable_refused h hb
      | true =>
          cases i with
          | zero => exact absurd ⟨rfl, rfl⟩ hno
          | succ i => exact not_durable_overtaking h hb

/-- **The store is an initial part of the ledger, nothing is lost and a restart is possible, at
    every moment of a run, if and only if the batches are written in the order of the flushes and
    none is refused.** -/
theorem durable_iff (h₀ : Opens s₀) (h : Run step (fun _ _ => True) s₀ ls s) :
    Throughout step s₀ ls Durable ↔ Run step WritesInOrder s₀ ls s :=
  h.throughout_iff (fun _ _ hr => (run_lined h₀ hr).durable)
    fun _ _ _ _ hr hno hs => not_durable (run_lined h₀ hr) hno hs

/-- A note of a task. -/
def noteDraft (taskId : String) : LedgerEventDraft :=
  { actor := systemActor, type := "RunCreated", taskId := taskId, runId := "run", payload := .null }

/-- One stamp for all of them. -/
def noteStamp : Stamp := ⟨"id", "t"⟩

/-- A digest without collisions: the text itself. -/
def plainDigest (text : String) : String := text

/-- A new process on an empty store. -/
def emptySystem : System plainDigest := ⟨.new plainDigest, [], []⟩

theorem emptySystem_opens : Opens emptySystem := ⟨rfl, ⟨fun _ => noteStamp, rfl⟩, rfl⟩

/-- Two batches are being written at once, and the first settles first. -/
def notesWritten : List Label :=
  [.append (noteDraft "first") noteStamp, .append (noteDraft "second") noteStamp, .flush,
    .append (noteDraft "third") noteStamp, .flush, .settle 0 true, .settle 0 true]

theorem durable_iff_notes : ∃ s, Run step (fun _ _ => True) emptySystem notesWritten s ∧
    s.rows.map (·.taskId) = ["first", "second", "third"] ∧
    Throughout step emptySystem notesWritten Durable := by
  have hrun : Run step WritesInOrder emptySystem notesWritten _ :=
    (((((((Run.start.next trivial rfl).next trivial rfl).next trivial rfl).next trivial rfl).next
      trivial rfl).next ⟨rfl, rfl⟩ rfl).next ⟨rfl, rfl⟩ rfl)
  have hany := hrun.mono fun _ _ _ => True.intro
  exact ⟨_, hany, rfl, (durable_iff emptySystem_opens hany).mpr hrun⟩

/-- The store refuses the first event and takes the second. -/
def noteRefused : List Label :=
  [.append (noteDraft "first") noteStamp, .flush, .settle 0 false,
    .append (noteDraft "second") noteStamp, .flush, .settle 0 true]

/-- No write is open and nothing is pending, the store has an event 1 without an event 0, and no
    process can hydrate from it. -/
theorem refused_batch_lost : ∃ (s₀ : System plainDigest) (ls : List Label) (s : System plainDigest),
    Opens s₀ ∧ Run step (fun _ _ => True) s₀ ls s ∧ ¬ Throughout step s₀ ls Durable ∧
    s.writing = [] ∧ s.durable.pending = [] ∧ s.rows.map (·.seq) = [1] ∧
    ∀ stamps, ((DurableLedger.new plainDigest).hydrate stamps s.rows).2 =
      .error "durable ledger: stored chain is invalid at seq 0" := by
  have hrun : Run step (fun _ _ => True) emptySystem noteRefused _ :=
    run_of_exec (fun _ _ => trivial) rfl
  refine ⟨emptySystem, noteRefused, _, emptySystem_opens, hrun, fun hall => ?_, rfl, rfl, rfl,
    fun stamps => rfl⟩
  obtain ⟨d, hd, -⟩ := (hall noteRefused _ (List.prefix_refl _) hrun).restarts fun _ => noteStamp
  cases hd

/-- **Once nothing is pending or being written, the store has the whole ledger.** -/
theorem Durable.whole (h : Durable s) (hw : s.writing = []) (hp : s.durable.pending = []) :
    s.rows.map content = s.durable.ledger.events.map content := by
  refine h.initial.eq_of_length_le ?_
  -- all numbers of the ledger occur among the rows
  have hsub : s.durable.ledger.events.map (·.seq) ⊆ s.rows.map (·.seq) := by
    intro n hn
    obtain ⟨e, he, rfl⟩ := List.mem_map.mp hn
    obtain ⟨r, hr, hc⟩ := List.mem_map.mp (h.kept e he)
    have hheld : s.held = s.rows := by simp [System.held, hw, hp]
    rw [hheld] at hr
    exact List.mem_map.mpr ⟨r, hr, congrArg Prod.fst hc⟩
  have hnodup : (s.durable.ledger.events.map (·.seq)).Nodup := by
    rw [s.durable.ledger.numbered]
    exact List.nodup_range
  simpa using (List.subperm_of_subset hnodup hsub).length_le

end Exact

end AgentKernel.Storage
