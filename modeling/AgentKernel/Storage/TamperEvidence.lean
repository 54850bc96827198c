/-
  File:      AgentKernel/Storage/TamperEvidence.lean
  Subject:   What the hash chain protects (`eventHash` and `verifyChain` of kernel/events/src/ledger.ts,
             the check of `hydrate` in storage/store/src/durable-ledger.ts).

  An event is hashed by its payload and the hash before it, and by nothing else.

  * **`reordered_of_lastHash`**: for a digest without collisions the last hash commits to all
    payloads, up to the order of the entries of objects;
  * **`verifyChain_rewrite`**: an event whose payload is left as it is can be given any other
    type, actor, task, run and evidence, and the chain is still accepted; one whose payload is
    changed makes it rejected.
-/
import AgentKernel.Storage.DurableLedger
import AgentKernel.Contracts.KeyOrder

namespace AgentKernel.Storage

open Lib Events

variable {sha256 : String → String}

/-! ## 1. The text that is hashed -/

/-- The hashed text ends in separator and hash, and it begins with text that has no separator. -/
theorem hashedText_inj {v w : Json} {p q : String}
    (h : canonicalize (.ofJson v) ++ "\x00" ++ p = canonicalize (.ofJson w) ++ "\x00" ++ q) :
    v.Reordered w ∧ p = q := by
  have ht := congrArg String.toList h
  simp only [canonicalize_ofJson, String.toList_append, List.append_assoc] at ht
  obtain ⟨htext, hprev⟩ := sep_append_inj (nul_notMem_stableStringify v)
    (nul_notMem_stableStringify w) ht
  exact ⟨reordered_of_stableStringify (String.toList_injective htext),
    String.toList_injective hprev⟩

/-! ## 2. The last hash commits to the payloads -/

section Commitment

variable {L L' A B : List LedgerEvent}

/-- The hashes of a linked list are the digest's. -/
theorem lastHash_ne_empty {hash : String} (hdigest : ∀ text, sha256 text ≠ "")
    (hL : Linked sha256 L) (h : lastHash L = some hash) : hash ≠ "" := by
  rcases List.eq_nil_or_concat L with rfl | ⟨A, e, rfl⟩
  · cases h
  · rw [List.concat_eq_append] at *
    rw [lastHash_snoc] at h
    have he : Links sha256 A e := (justified_snoc.mp hL).2
    rw [← Option.some.inj h, he.hash]
    exact hdigest _

/-- A digest that is never empty tells the empty list from all others. -/
theorem lastHash_of_getD (hdigest : ∀ text, sha256 text ≠ "") (hL : Linked sha256 L)
    (hL' : Linked sha256 L') (h : (lastHash L).getD "" = (lastHash L').getD "") :
    lastHash L = lastHash L' := by
  cases hl : lastHash L with
  | none =>
      cases hl' : lastHash L' with
      | none => rfl
      | some hash' =>
          rw [hl, hl'] at h
          exact absurd h.symm (lastHash_ne_empty hdigest hL' hl')
  | some hash =>
      cases hl' : lastHash L' with
      | none =>
          rw [hl, hl'] at h
          exact absurd h (lastHash_ne_empty hdigest hL hl)
      | some hash' =>
          rw [hl, hl'] at h
          exact congrArg some h

/-- The payloads of a list of events, as the JSON values they are. -/
def JsonPayloads (L : List LedgerEvent) (vs : List Json) : Prop :=
  L.map (·.payload) = vs.map Value.ofJson

theorem JsonPayloads.snoc {e : LedgerEvent} {vs : List Json} (h : JsonPayloads (L ++ [e]) vs) :
    ∃ us v, vs = us ++ [v] ∧ JsonPayloads L us ∧ e.payload = .ofJson v := by
  unfold JsonPayloads at h
  rw [List.map_append] at h
  obtain ⟨us, ws, rfl, hus, hws⟩ := List.map_eq_append_iff.mp h.symm
  obtain ⟨v, rest, rfl, hv, hrest⟩ := List.map_eq_cons_iff.mp hws
  obtain rfl := List.map_eq_nil_iff.mp hrest
  exact ⟨us, v, rfl, hus.symm, hv.symm⟩

theorem commitment (hinj : Function.Injective sha256) (hdigest : ∀ text, sha256 text ≠ "") :
    ∀ {L L' : List LedgerEvent} {vs vs' : List Json}, JsonPayloads L vs → JsonPayloads L' vs' →
    Linked sha256 L → Linked sha256 L' → lastHash L = lastHash L' →
    List.Forall₂ Json.Reordered vs vs' := by
  intro L
  -- from the last events backwards: their hashes agree, hence their payloads and the hashes before
  induction L using List.reverseRecOn with
  | nil =>
      intro L' vs vs' hvs hvs' _ _ hlast
      rcases List.eq_nil_or_concat L' with rfl | ⟨A', e', rfl⟩
      · obtain rfl := List.map_eq_nil_iff.mp hvs.symm
        obtain rfl := List.map_eq_nil_iff.mp hvs'.symm
        exact .nil
      · rw [List.concat_eq_append, lastHash_snoc] at hlast
        cases hlast
  | append_singleton A e ih =>
      intro L' vs vs' hvs hvs' hL hL' hlast
      rcases List.eq_nil_or_concat L' with rfl | ⟨A', e', rfl⟩
      · rw [lastHash_snoc] at hlast
        cases hlast
      · rw [List.concat_eq_append] at *
        rw [lastHash_snoc, lastHash_snoc] at hlast
        obtain ⟨us, v, rfl, hus, hv⟩ := hvs.snoc
        obtain ⟨us', v', rfl, hus', hv'⟩ := hvs'.snoc
        obtain ⟨hA, he⟩ := justified_snoc.mp hL
        obtain ⟨hA', he'⟩ := justified_snoc.mp hL'
        have hhash : e.hash = e'.hash := Option.some.inj hlast
        rw [he.hash, he'.hash, hv, hv'] at hhash
        obtain ⟨hpayload, hprev⟩ := hashedText_inj (hinj hhash)
        have hrest := ih hus hus' hA hA' (lastHash_of_getD hdigest hA hA' hprev)
        exact List.rel_append hrest (.cons hpayload .nil)

/-- **The last hash commits to the whole history of payloads**: two accepted chains with the same
    last hash are equally long and have, position by position, the same payload up to the order of
    the entries of objects. -/
theorem reordered_of_lastHash {vs vs' : List Json} (hinj : Function.Injective sha256)
    (hdigest : ∀ text, sha256 text ≠ "") (hvs : JsonPayloads L vs) (hvs' : JsonPayloads L' vs')
    (hL : (verifyChain sha256 L).valid = true) (hL' : (verifyChain sha256 L').valid = true)
    (hlast : lastHash L = lastHash L') :
    L.length = L'.length ∧ List.Forall₂ Json.Reordered vs vs' := by
  have hall := commitment hinj hdigest hvs hvs' (verifyChain_valid.mp hL)
    (verifyChain_valid.mp hL') hlast
  have hlen : L.length = vs.length := by simpa using congrArg List.length hvs
  have hlen' : L'.length = vs'.length := by simpa using congrArg List.length hvs'
  refine ⟨?_, hall⟩
  rw [hlen, hlen', hall.length_eq]

/-- A digest without collisions that is never empty. -/
def markedDigest (text : String) : String := "#" ++ text

theorem markedDigest_injective : Function.Injective markedDigest := by
  intro s t h
  have hl := congrArg String.toList h
  simp only [markedDigest, String.toList_append, List.append_right_inj] at hl
  exact String.toList_injective hl

theorem markedDigest_ne_empty (text : String) : markedDigest text ≠ "" := by
  intro h
  have hl := congrArg String.toList h
  simp [markedDigest] at hl

/-- A note with a payload. -/
def jsonNote (v : Json) : LedgerEventDraft := { noteDraft "task" with payload := .ofJson v }

/-- A ledger with an event for each of `vs`. -/
def notesOf (vs : List Json) : Ledger markedDigest :=
  vs.foldl (fun l v => l.append (jsonNote v) noteStamp) (Ledger.empty markedDigest)

/-- Two keys in one order. -/
def inOrder : Json := .obj [("a", .num (.ofNat 1)), ("b", .num (.ofNat 2))]

/-- And in the other. -/
def turned : Json := .obj [("b", .num (.ofNat 2)), ("a", .num (.ofNat 1))]

theorem reordered_of_lastHash_notes : (notesOf [inOrder, .null, turned]).events.length =
      (notesOf [turned, .null, inOrder]).events.length ∧
    List.Forall₂ Json.Reordered [inOrder, .null, turned] [turned, .null, inOrder] := by
  have hvs : JsonPayloads (notesOf [inOrder, .null, turned]).events [inOrder, .null, turned] := rfl
  have hvs' : JsonPayloads (notesOf [turned, .null, inOrder]).events [turned, .null, inOrder] := rfl
  have hlast : lastHash (notesOf [inOrder, .null, turned]).events =
      lastHash (notesOf [turned, .null, inOrder]).events := by decide
  exact reordered_of_lastHash markedDigest_injective markedDigest_ne_empty hvs hvs'
    (verifyIntegrity_valid _) (verifyIntegrity_valid _) hlast

end Commitment

/-! ## 3. An event that is rewritten -/

/-- A stored event that says something else, under the hashes it has. -/
def rewrite (e : LedgerEvent) (draft : LedgerEventDraft) : LedgerEvent :=
  { e with toLedgerEventDraft := draft }

section Rewrite

variable {A B : List LedgerEvent} {e : LedgerEvent}

/-- The hash of an event and the hash before it determine the text of its payload. -/
theorem canonicalize_of_hash (hinj : Function.Injective sha256) {v w : Value}
    {prev : Option String} (h : eventHash sha256 v prev = eventHash sha256 w prev) :
    canonicalize v = canonicalize w := by
  have htext := congrArg String.toList (hinj h)
  simp only [String.toList_append, List.append_left_inj] at htext
  exact String.toList_injective htext

/-- **Under the hashes of an accepted list, only payloads of the same texts are accepted.** -/
theorem linked_iff_checked (hinj : Function.Injective sha256) :
    ∀ {L L' : List LedgerEvent}, Linked sha256 L →
    L.map (fun e => (e.prevHash, e.hash)) = L'.map (fun e => (e.prevHash, e.hash)) →
    (Linked sha256 L' ↔ L.map checked = L'.map checked) := by
  intro L L' hL hkeep
  refine ⟨fun hL' => ?_, fun hchecked => Linked.of_checked hchecked hL⟩
  induction L using List.reverseRecOn generalizing L' with
  | nil => rw [List.map_eq_nil_iff.mp hkeep.symm]
  | append_singleton A e ih =>
      rw [List.map_append] at hkeep
      obtain ⟨A', C', rfl, hA, hC⟩ := List.map_eq_append_iff.mp hkeep.symm
      obtain ⟨e', rest, rfl, he, hrest⟩ := List.map_eq_cons_iff.mp hC
      obtain rfl := List.map_eq_nil_iff.mp hrest
      obtain ⟨hAlinked, hlink⟩ := justified_snoc.mp hL
      obtain ⟨hA'linked, hlink'⟩ := justified_snoc.mp hL'
      have hbefore := ih hAlinked hA.symm hA'linked
      obtain ⟨hprev, hhash⟩ := Prod.mk.inj he
      have hlast := lastHash_of_hashes (hashes_of_checked hbefore)
      rw [hlink.hash, hlink'.hash, hlast] at hhash
      have htext := canonicalize_of_hash hinj hhash
      have hsame : checked e = checked e' := by
        simp only [checked, Prod.mk.injEq]
        exact ⟨htext.symm, hprev.symm, (Prod.mk.inj he).2.symm⟩
      rw [List.map_append, List.map_append, hbefore, List.map_singleton, List.map_singleton, hsame]

/-- **A rewritten event is accepted if and only if its payload has the canonical text it had.** -/
theorem linked_rewrite_iff (hinj : Function.Injective sha256) (h : Linked sha256 (A ++ e :: B))
    (draft : LedgerEventDraft) : Linked sha256 (A ++ rewrite e draft :: B) ↔
      canonicalize draft.payload = canonicalize e.payload := by
  have hkeep : (A ++ e :: B).map (fun e => (e.prevHash, e.hash)) =
      (A ++ rewrite e draft :: B).map fun e => (e.prevHash, e.hash) := by
    simp only [List.map_append, List.map_cons, rewrite]
  rw [linked_iff_checked hinj h hkeep]
  simp only [List.map_append, List.map_cons, List.append_cancel_left_eq, List.cons.injEq, and_true,
    checked, rewrite, Prod.mk.injEq]
  exact eq_comm

theorem hydrate_rejects {rows : List LedgerEvent} (h : ¬ Linked sha256 rows)
    (stamps : Nat → Stamp) : ∃ message, ((DurableLedger.new sha256).hydrate stamps rows).2 =
      .error message := by
  cases hr : (DurableLedger.new sha256).hydrate stamps rows with
  | mk d result =>
      cases result with
      | error message => exact ⟨message, rfl⟩
      | ok u => exact absurd (linked_of_hydrate hr) h

/-- **What the chain protects**: an event that keeps its payload may say anything else, and the
    chain is accepted and hydrated from; an event with another JSON payload makes both fail. -/
theorem verifyChain_rewrite (hinj : Function.Injective sha256)
    (h : (verifyChain sha256 (A ++ e :: B)).valid = true) (draft : LedgerEventDraft)
    (stamps : Nat → Stamp) :
    (draft.payload = e.payload →
      (verifyChain sha256 (A ++ rewrite e draft :: B)).valid = true ∧
      ((DurableLedger.new sha256).hydrate stamps (A ++ rewrite e draft :: B)).2 = .ok ()) ∧
    (∀ v w, e.payload = .ofJson v → draft.payload = .ofJson w → ¬ w.Reordered v →
      (verifyChain sha256 (A ++ rewrite e draft :: B)).valid = false ∧
      ∃ message, ((DurableLedger.new sha256).hydrate stamps (A ++ rewrite e draft :: B)).2 =
        .error message) := by
  have hiff := linked_rewrite_iff hinj (verifyChain_valid.mp h) draft
  refine ⟨fun hsame => ?_, fun v w hv hw hother => ?_⟩
  · have hlinked := hiff.mpr (by rw [hsame])
    obtain ⟨d, hd, -⟩ := (hydrate_iff stamps).mpr hlinked
    exact ⟨verifyChain_valid.mpr hlinked, congrArg Prod.snd hd⟩
  · have hno : ¬ Linked sha256 (A ++ rewrite e draft :: B) := by
      intro hlinked
      have htext := hiff.mp hlinked
      rw [hv, hw, canonicalize_ofJson, canonicalize_ofJson] at htext
      exact hother (reordered_of_stableStringify htext)
    refine ⟨?_, hydrate_rejects hno stamps⟩
    rw [← Bool.not_eq_true, verifyChain_valid]
    exact hno

/-- The kernel refuses a tool call. -/
def denial : LedgerEventDraft :=
  { jsonNote (.obj [("action", .str "deploy"), ("reason", .str "not approved")]) with
    type := "ApprovalDenied" }

/-- The same payload, said by an agent about a grant in another run, with a piece of evidence. -/
def grant : LedgerEventDraft :=
  { denial with
    actor := { type := .agent, id := "a1" }
    type := "ApprovalGranted"
    taskId := "other task"
    runId := "other run"
    evidence := some [⟨"ev1", "file"⟩] }

/-- A run is created, a call is refused, and the run is ended. -/
def refusal : Ledger plainDigest :=
  (((Ledger.empty plainDigest).append (noteDraft "task") noteStamp).append denial noteStamp).append
    (noteDraft "task") noteStamp

/-- The event in the middle. -/
def denied : LedgerEvent :=
  ((Ledger.empty plainDigest).append (noteDraft "task") noteStamp).event denial noteStamp

theorem refusal_valid : (verifyChain plainDigest refusal.events).valid = true :=
  verifyIntegrity_valid refusal

theorem plainDigest_injective : Function.Injective plainDigest := fun _ _ h => h

theorem refusal_events : ∃ e e', refusal.events = [e] ++ denied :: [e'] := ⟨_, _, rfl⟩

/-- The event of the refusal is turned into the grant of an agent, and nothing is noticed; with
    another payload it is. -/
theorem verifyChain_rewrite_denied : ∃ e e', refusal.events = [e] ++ denied :: [e'] ∧
    ((verifyChain plainDigest ([e] ++ rewrite denied grant :: [e'])).valid = true ∧
      ((DurableLedger.new plainDigest).hydrate (fun _ => noteStamp)
        ([e] ++ rewrite denied grant :: [e'])).2 = .ok ()) ∧
    (verifyChain plainDigest ([e] ++ rewrite denied (jsonNote .null) :: [e'])).valid = false := by
  obtain ⟨e, e', hevents⟩ := refusal_events
  have hvalid := refusal_valid
  rw [hevents] at hvalid
  refine ⟨e, e', hevents, ?_, ?_⟩
  · exact (verifyChain_rewrite plainDigest_injective hvalid grant fun _ => noteStamp).1 rfl
  · exact ((verifyChain_rewrite plainDigest_injective hvalid (jsonNote .null)
      fun _ => noteStamp).2 _ _ rfl rfl id).1

/-- A denial becomes a grant, by another actor, for another task and run and with other evidence,
    in a chain that is accepted before and after, with a digest that has no collisions. -/
theorem denial_becomes_grant : ∃ e e' : LedgerEvent, Function.Injective plainDigest ∧
    (verifyChain plainDigest [e]).valid = true ∧ e' = rewrite e grant ∧
    e.type = "ApprovalDenied" ∧ e'.type = "ApprovalGranted" ∧ e.actor ≠ e'.actor ∧
    e.taskId ≠ e'.taskId ∧ e.runId ≠ e'.runId ∧ e.evidence ≠ e'.evidence ∧
    (verifyChain plainDigest [e']).valid = true ∧
    ((DurableLedger.new plainDigest).hydrate (fun _ => noteStamp) [e']).2 = .ok () := by
  refine ⟨(Ledger.empty plainDigest).event denial noteStamp, _, plainDigest_injective, ?_, rfl, rfl,
    rfl, by decide, by decide, by decide, by decide, ?_, ?_⟩
  · exact verifyIntegrity_valid ((Ledger.empty plainDigest).append denial noteStamp)
  · exact verifyIntegrity_valid ((Ledger.empty plainDigest).append grant noteStamp)
  · rfl

end Rewrite

end AgentKernel.Storage
