/-
  File:      AgentKernel/Events/Ledger.lean
  Subject:   The append-only ledger and its hash chain (kernel/events/src/ledger.ts).

  * `eventHash`, `verifyChain`, `Ledger.append` are ledger.ts, with the digest as a parameter;
  * `Ledger` carries what its private array always has: the events are numbered from 0 and each is
    linked to the one before it, so **every ledger passes its own check** (`verifyIntegrity_valid`);
  * **`verifyChain_valid`**: the check accepts exactly the linked lists. It reads payloads and
    hashes only, so it accepts every initial part of a list it accepts (`Linked.initial`).
-/
import AgentKernel.Contracts.Events
import AgentKernel.Lib.Runs

namespace AgentKernel.Events

open Lib

variable {sha256 : String → String}

/-! ## 1. The chain -/

/-- `hash(payload + prevHash)`. -/
def eventHash (sha256 : String → String) (payload : Value) (prevHash : Option String) : String :=
  sha256 (canonicalize payload ++ "\x00" ++ prevHash.getD "")

/-- Whether a chain is whole, and where it is not. -/
structure ChainVerification where
  valid : Bool
  index : Option Nat := none
  expected : Option String := none
  actual : Option String := none
  deriving DecidableEq

/-- The loop of `verifyChain`, from position `i` with the hash before it. -/
def verifyFrom (sha256 : String → String) (i : Nat) (prev : Option String) :
    List LedgerEvent → ChainVerification
  | [] => { valid := true }
  | ev :: rest =>
      let expected := eventHash sha256 ev.payload prev
      if ev.hash ≠ expected then
        { valid := false, index := some i, expected := some expected, actual := some ev.hash }
      else if ev.prevHash ≠ prev then
        { valid := false, index := some i, expected := some (prev.getD "(null)")
          actual := some (ev.prevHash.getD "(null)") }
      else verifyFrom sha256 (i + 1) (some ev.hash) rest

/-- A chain from its first event on. -/
def verifyChain (sha256 : String → String) (events : List LedgerEvent) : ChainVerification :=
  verifyFrom sha256 0 none events

/-- The hash a next event is linked to. -/
def lastHash (events : List LedgerEvent) : Option String := events.getLast?.map (·.hash)

/-- An event after the events `before`. -/
structure Links (sha256 : String → String) (before : List LedgerEvent) (e : LedgerEvent) :
    Prop where
  hash : e.hash = eventHash sha256 e.payload (lastHash before)
  prev : e.prevHash = lastHash before

/-- A list of events in which each is linked to the one before it. -/
abbrev Linked (sha256 : String → String) (events : List LedgerEvent) : Prop :=
  Justified (Links sha256) events

/-! ## 2. The ledger -/

/-- The events of a ledger: only `append` adds to them, and nothing takes one away. -/
structure Ledger (sha256 : String → String) where
  events : List LedgerEvent
  numbered : events.map (·.seq) = List.range events.length
  linked : Linked sha256 events

/-- A ledger without events. -/
def Ledger.empty (sha256 : String → String) : Ledger sha256 where
  events := []
  numbered := rfl
  linked := .nil

/-- The event `append` makes of a draft. -/
def Ledger.event (l : Ledger sha256) (draft : LedgerEventDraft) (stamp : Stamp) : LedgerEvent where
  toLedgerEventDraft := draft
  id := stamp.id
  seq := l.events.length
  timestamp := stamp.timestamp
  prevHash := lastHash l.events
  hash := eventHash sha256 draft.payload (lastHash l.events)

/-- One event more, linked to the last. -/
def Ledger.append (l : Ledger sha256) (draft : LedgerEventDraft) (stamp : Stamp) :
    Ledger sha256 where
  events := l.events ++ [l.event draft stamp]
  numbered := by
    have hseq : (l.event draft stamp).seq = l.events.length := rfl
    rw [List.map_append, List.map_singleton, l.numbered, hseq, List.length_append,
      List.length_singleton, List.range_succ]
  linked := justified_snoc.mpr ⟨l.linked, rfl, rfl⟩

/-- The ledger as a chain. -/
def Ledger.verifyIntegrity (l : Ledger sha256) : ChainVerification := verifyChain sha256 l.events

/-! ## 3. What the check accepts -/

@[simp] theorem lastHash_snoc (events : List LedgerEvent) (e : LedgerEvent) :
    lastHash (events ++ [e]) = some e.hash := by
  simp [lastHash]

theorem verifyFrom_valid : ∀ {A B : List LedgerEvent} {i : Nat}, Linked sha256 A →
    ((verifyFrom sha256 i (lastHash A) B).valid = true ↔ Linked sha256 (A ++ B))
  | A, [], i, hA => by simpa [verifyFrom] using hA
  | A, e :: B, i, hA => by
      rw [List.append_cons]
      have hsnoc : Linked sha256 (A ++ [e]) ↔ Linked sha256 A ∧ Links sha256 A e := justified_snoc
      unfold verifyFrom
      dsimp only
      by_cases hhash : e.hash = eventHash sha256 e.payload (lastHash A)
      · by_cases hprev : e.prevHash = lastHash A
        · have hAe : Linked sha256 (A ++ [e]) := hsnoc.mpr ⟨hA, hhash, hprev⟩
          rw [if_neg (not_not.mpr hhash), if_neg (not_not.mpr hprev), ← lastHash_snoc A e]
          exact verifyFrom_valid hAe
        · rw [if_neg (not_not.mpr hhash), if_pos hprev]
          have hno : ¬ Linked sha256 (A ++ [e] ++ B) := fun h => hprev (hsnoc.mp h.cut).2.prev
          simpa using hno
      · rw [if_pos hhash]
        have hno : ¬ Linked sha256 (A ++ [e] ++ B) := fun h => hhash (hsnoc.mp h.cut).2.hash
        simpa using hno

/-- **The check accepts the linked lists.** -/
theorem verifyChain_valid {events : List LedgerEvent} :
    (verifyChain sha256 events).valid = true ↔ Linked sha256 events :=
  verifyFrom_valid (A := []) .nil

/-- **Every ledger passes its own check.** -/
theorem verifyIntegrity_valid (l : Ledger sha256) : l.verifyIntegrity.valid = true :=
  verifyChain_valid.mpr l.linked

/-! ## 4. What the check reads of an event -/

/-- The canonical text of the payload and the two hashes. -/
def checked (e : LedgerEvent) : String × Option String × String :=
  (canonicalize e.payload, e.prevHash, e.hash)

/-- All of an event but its id and its time of day, which a rebuilt event gets anew. -/
def content (e : LedgerEvent) : Nat × LedgerEventDraft × Option String × String :=
  (e.seq, e.toLedgerEventDraft, e.prevHash, e.hash)

section Checked

variable {L L' : List LedgerEvent} {e e' : LedgerEvent}

theorem lastHash_of_hashes (h : L.map (·.hash) = L'.map (·.hash)) : lastHash L = lastHash L' := by
  have hlast := congrArg List.getLast? h
  rwa [List.getLast?_map, List.getLast?_map] at hlast

theorem hashes_of_checked (h : L.map checked = L'.map checked) :
    L.map (·.hash) = L'.map (·.hash) := by
  have hsnd := congrArg (List.map fun x => x.2.2) h
  rwa [List.map_map, List.map_map] at hsnd

theorem Links.of_checked (hL : L.map checked = L'.map checked) (he : checked e = checked e')
    (h : Links sha256 L e) : Links sha256 L' e' := by
  simp only [checked, Prod.mk.injEq] at he
  obtain ⟨hpayload, hprev, hhash⟩ := he
  have hlast := lastHash_of_hashes (hashes_of_checked hL)
  refine ⟨?_, ?_⟩
  · rw [← hhash, ← hlast, h.hash, eventHash, hpayload, eventHash]
  · rw [← hprev, ← hlast, h.prev]

/-- **The check reads nothing else.** -/
theorem Linked.of_checked (hL : L.map checked = L'.map checked) (h : Linked sha256 L) :
    Linked sha256 L' := by
  intro A e B hL'
  rw [hL', List.map_append, List.map_cons] at hL
  obtain ⟨A₁, C₁, rfl, hA, hC⟩ := List.map_eq_append_iff.mp hL
  obtain ⟨e₁, B₁, rfl, he, -⟩ := List.map_eq_cons_iff.mp hC
  exact (h A₁ e₁ B₁ rfl).of_checked hA he

theorem checked_of_content (h : L.map content = L'.map content) :
    L.map checked = L'.map checked := by
  have hall := congrArg (List.map fun x => (canonicalize x.2.1.payload, x.2.2.1, x.2.2.2)) h
  rwa [List.map_map, List.map_map] at hall

theorem seq_of_content (h : L.map content = L'.map content) : L.map (·.seq) = L'.map (·.seq) := by
  have hfst := congrArg (List.map Prod.fst) h
  rwa [List.map_map, List.map_map] at hfst

theorem lastHash_of_content (h : L.map content = L'.map content) : lastHash L = lastHash L' :=
  lastHash_of_hashes (hashes_of_checked (checked_of_content h))

/-- **An initial part of a linked list is linked**, whatever the ids and times in it. -/
theorem Linked.initial (h : Linked sha256 L) (hp : L'.map content <+: L.map content) :
    Linked sha256 L' := by
  obtain ⟨rest, hrest⟩ := hp
  obtain ⟨A, B, rfl, hA, -⟩ := List.map_eq_append_iff.mp hrest.symm
  exact Linked.of_checked (checked_of_content hA) h.cut

end Checked

end AgentKernel.Events
