/-
  File:      AgentKernel/Events/Merkle.lean
  Subject:   The Merkle root over the events of a ledger (kernel/events/src/ledger.ts).

  A level of odd length is completed by repeating its last hash, so a list and the list with its
  last event repeated can have one root (`last_repeated`). In a chain no hash occurs twice, and
  there the root determines the hashes:

  * `Hex`: what every digest of sha256 has, being 64 hexadecimal digits: none is the beginning of
    another and none contains the separator of `eventHash`. So two joined digests can be taken
    apart, and a hash of an event is no inner node (`sha256_binding`);
  * `Linked.nodup`: the hashes of a chain are distinct;
  * **`merkleRoot_commits`**: two lists that `verifyChain` accepts, of any lengths, have one root
    only if they have the same hashes. Other lists of events may differ by repetitions at the end.
-/
import AgentKernel.Contracts.JsonText
import AgentKernel.Events.Ledger
import AgentKernel.Lib.Merkle

namespace AgentKernel.Events

open Lib

/-! ## 1. The root -/

/-- The digest of two hashes, one after the other. -/
def joinHashes (sha256 : String → String) (left right : String) : String := sha256 (left ++ right)

/-- The root over the hashes of the events; of none it is the empty text. -/
def merkleRoot (sha256 : String → String) (events : List LedgerEvent) : String :=
  if events.isEmpty then ""
  else (Merkle.root (joinHashes sha256) (events.map (·.hash))).getD ""

/-- The root of a ledger. -/
def Ledger.merkleRoot {sha256 : String → String} (l : Ledger sha256) : String :=
  Events.merkleRoot sha256 l.events

/-- An event that carries the hash of its payload and of the hash before it. -/
def Hashed (sha256 : String → String) (e : LedgerEvent) : Prop :=
  e.hash = eventHash sha256 e.payload e.prevHash

/-! ## 2. Digests -/

/-- What the digests of sha256 have in common. -/
structure Hex (sha256 : String → String) : Prop where
  separate : ∀ s t, (sha256 s).toList <+: (sha256 t).toList → sha256 s = sha256 t
  noNul : ∀ s, nul ∉ (sha256 s).toList

section Digests

variable {sha256 : String → String}

theorem Hex.ne_empty (h : Hex sha256) (hinj : Function.Injective sha256) (s : String) :
    sha256 s ≠ "" := by
  intro hs
  -- the empty digest would be the beginning of all
  have hall : ∀ t, sha256 s = sha256 t := by
    intro t
    refine h.separate s t ?_
    rw [hs]
    exact List.nil_prefix
  have hab : "a" = "b" := hinj ((hall "a").symm.trans (hall "b"))
  exact absurd hab (by decide)

/-- Joined digests can be taken apart. -/
theorem Hex.split (h : Hex sha256) {a b c d : String}
    (heq : sha256 a ++ sha256 b = sha256 c ++ sha256 d) :
    sha256 a = sha256 c ∧ sha256 b = sha256 d := by
  have hlists := congrArg String.toList heq
  rw [String.toList_append, String.toList_append] at hlists
  have hhead : sha256 a = sha256 c := by
    rcases List.append_eq_append_iff.mp hlists with ⟨tail, hc, -⟩ | ⟨tail, ha, -⟩
    · exact h.separate a c ⟨tail, hc.symm⟩
    · exact (h.separate c a ⟨tail, ha.symm⟩).symm
  rw [hhead] at hlists
  exact ⟨hhead, String.toList_injective (List.append_cancel_left hlists)⟩

/-- The digest of a text with the separator in it. -/
def IsEventHash (sha256 : String → String) (hash : String) : Prop :=
  ∃ text : String, nul ∈ text.toList ∧ hash = sha256 text

theorem nul_mem_eventText (payload : Value) (prevHash : Option String) :
    nul ∈ (canonicalize payload ++ "\x00" ++ prevHash.getD "").toList := by
  rw [String.toList_append, String.toList_append]
  exact List.mem_append_left _ (List.mem_append_right _ (List.mem_singleton_self nul))

theorem Hashed.isEventHash {e : LedgerEvent} (h : Hashed sha256 e) : IsEventHash sha256 e.hash :=
  ⟨_, nul_mem_eventText e.payload e.prevHash, h⟩

/-- **Joining digests is binding**, and no hash of an event is an inner node. -/
theorem sha256_binding (hinj : Function.Injective sha256) (hhex : Hex sha256) :
    Merkle.Binding (joinHashes sha256) (IsEventHash sha256) (∃ text, · = sha256 text) where
  leaf := fun ⟨text, _, hhash⟩ => ⟨text, hhash⟩
  join := fun _ _ => ⟨_, rfl⟩
  injective := by
    rintro _ _ _ _ ⟨a, rfl⟩ ⟨b, rfl⟩ ⟨c, rfl⟩ ⟨d, rfl⟩ heq
    exact hhex.split (hinj heq)
  apart := by
    rintro _ _ _ ⟨text, hnul, rfl⟩ ⟨b, rfl⟩ ⟨c, rfl⟩ heq
    rw [hinj heq, String.toList_append] at hnul
    exact (List.mem_append.mp hnul).elim (hhex.noNul b) (hhex.noNul c)

end Digests

/-! ## 3. Chains -/

section Chains

variable {sha256 : String → String} {events events' : List LedgerEvent}

theorem Linked.hashed (h : Linked sha256 events) : ∀ e ∈ events, Hashed sha256 e := by
  intro e he
  obtain ⟨before, after, rfl⟩ := List.append_of_mem he
  obtain ⟨hhash, hprev⟩ := h before e after rfl
  unfold Hashed
  rw [hprev]
  exact hhash

theorem mem_hashes_of_lastHash {hash : String} (h : lastHash events = some hash) :
    hash ∈ events.map (·.hash) := by
  obtain ⟨e, he, rfl⟩ := Option.map_eq_some_iff.mp h
  exact List.mem_map_of_mem (List.mem_of_getLast? he)

/-- The hash of a chain is a digest. -/
theorem Linked.lastHash_digest (h : Linked sha256 events) {hash : String}
    (hlast : lastHash events = some hash) : ∃ text, hash = sha256 text := by
  obtain ⟨e, he, rfl⟩ := List.mem_map.mp (mem_hashes_of_lastHash hlast)
  exact ⟨_, h.hashed e he⟩

/-- **Events of one hash follow one hash**: the text that is hashed ends in it. -/
theorem lastHash_of_hash (hinj : Function.Injective sha256) (hhex : Hex sha256)
    {e e' : LedgerEvent} (hlinked : Linked sha256 events) (hlinked' : Linked sha256 events')
    (he : Links sha256 events e) (he' : Links sha256 events' e') (heq : e.hash = e'.hash) :
    lastHash events = lastHash events' := by
  have hnoNul : ∀ {l : List LedgerEvent}, Linked sha256 l →
      nul ∉ ((lastHash l).getD "").toList := by
    intro l hl
    cases hlast : lastHash l with
    | none => exact List.not_mem_nil
    | some hash =>
        obtain ⟨text, rfl⟩ := hl.lastHash_digest hlast
        exact hhex.noNul text
  have hne : ∀ {l : List LedgerEvent} {hash : String}, Linked sha256 l → lastHash l = some hash →
      hash ≠ "" := by
    intro l hash hl hlast
    obtain ⟨text, rfl⟩ := hl.lastHash_digest hlast
    exact hhex.ne_empty hinj text
  have htexts := congrArg String.toList (hinj (he.hash.symm.trans (heq.trans he'.hash)))
  simp only [String.toList_append, List.append_assoc] at htexts
  have hpayload := append_sep_inj (hnoNul hlinked) (hnoNul hlinked') htexts
  rw [hpayload] at htexts
  have hprev : (lastHash events).getD "" = (lastHash events').getD "" :=
    String.toList_injective (List.append_cancel_left (List.append_cancel_left htexts))
  cases hlast : lastHash events with
  | none =>
      cases hlast' : lastHash events' with
      | none => rfl
      | some hash =>
          rw [hlast, hlast'] at hprev
          exact absurd hprev.symm (hne hlinked' hlast')
  | some hash =>
      cases hlast' : lastHash events' with
      | none =>
          rw [hlast, hlast'] at hprev
          exact absurd hprev (hne hlinked hlast)
      | some hash' =>
          rw [hlast, hlast'] at hprev
          exact congrArg some hprev

/-- **The hashes of a chain are distinct.** -/
theorem Linked.nodup (hinj : Function.Injective sha256) (hhex : Hex sha256) :
    ∀ {events : List LedgerEvent}, Linked sha256 events → (events.map (·.hash)).Nodup := by
  intro events
  induction events using List.reverseRecOn with
  | nil => exact fun _ => List.nodup_nil
  | append_singleton init e ih =>
      intro h
      obtain ⟨hinit, hlinks⟩ := justified_snoc.mp h
      rw [List.map_append, List.map_singleton, ← List.concat_eq_append, List.nodup_concat]
      refine ⟨fun hin => ?_, ih hinit⟩
      obtain ⟨e', he', heq⟩ := List.mem_map.mp hin
      obtain ⟨before, after, rfl⟩ := List.append_of_mem he'
      have hbefore : Linked sha256 before := hinit.cut
      -- both follow one hash, and that hash would be in the chain twice
      have hlast := lastHash_of_hash hinj hhex hbefore hinit (hinit before e' after rfl) hlinks heq
      have hwhole : lastHash (before ++ e' :: after) = lastHash (e' :: after) := by
        unfold lastHash
        rw [List.getLast?_append_cons]
      obtain ⟨hash, hhash⟩ : ∃ hash, lastHash (e' :: after) = some hash :=
        ⟨_, by rw [lastHash, List.getLast?_cons, Option.map_some]⟩
      have hnodup := ih hinit
      rw [List.map_append, List.nodup_append] at hnodup
      exact hnodup.2.2 hash (mem_hashes_of_lastHash (hlast.trans (hwhole.trans hhash))) hash
        (mem_hashes_of_lastHash hhash) rfl

/-! ## 4. What a root says -/

/-- The root of events is a digest. -/
theorem merkleRoot_digest (hinj : Function.Injective sha256) (hhex : Hex sha256)
    (hne : events ≠ []) (he : ∀ e ∈ events, Hashed sha256 e) :
    merkleRoot sha256 events ≠ "" := by
  have hhashes : events.map (·.hash) ≠ [] := fun h => hne (List.map_eq_nil_iff.mp h)
  obtain ⟨t, more, hroot, hleaves, hsub⟩ := Merkle.leaves_root (joinHashes sha256) hhashes
  have hleaf : ∀ hash ∈ t.leaves, IsEventHash sha256 hash := by
    intro hash hin
    rw [hleaves] at hin
    obtain ⟨e, hmem, rfl⟩ := List.mem_map.mp ((List.mem_append.mp hin).elim id fun h => hsub h)
    exact (he e hmem).isEventHash
  obtain ⟨text, htext⟩ := (sha256_binding hinj hhex).value hleaf
  have hsome : events.isEmpty = false := by
    cases events with
    | nil => exact absurd rfl hne
    | cons e rest => rfl
  unfold merkleRoot
  rw [hsome, hroot, htext]
  exact hhex.ne_empty hinj text

/-- Lists of events with one root differ by repetitions at the end. -/
theorem merkleRoot_repeats (hinj : Function.Injective sha256) (hhex : Hex sha256)
    (he : ∀ e ∈ events, Hashed sha256 e) (he' : ∀ e ∈ events', Hashed sha256 e)
    (hroot : merkleRoot sha256 events = merkleRoot sha256 events') :
    Merkle.Repeats (events.map (·.hash)) (events'.map (·.hash)) ∨
      Merkle.Repeats (events'.map (·.hash)) (events.map (·.hash)) := by
  have hleaf : ∀ {l : List LedgerEvent}, (∀ e ∈ l, Hashed sha256 e) →
      ∀ hash ∈ l.map (·.hash), IsEventHash sha256 hash := by
    intro l hl hash hin
    obtain ⟨e, hmem, rfl⟩ := List.mem_map.mp hin
    exact (hl e hmem).isEventHash
  cases events with
  | nil =>
      cases events' with
      | nil => exact .inl ⟨[], rfl, List.Subset.refl _⟩
      | cons e' rest' =>
          exact absurd hroot.symm (merkleRoot_digest hinj hhex (List.cons_ne_nil _ _) he')
  | cons e rest =>
      cases events' with
      | nil => exact absurd hroot (merkleRoot_digest hinj hhex (List.cons_ne_nil _ _) he)
      | cons e' rest' =>
          have hne : (e :: rest).map (·.hash) ≠ [] := List.cons_ne_nil _ _
          have hne' : (e' :: rest').map (·.hash) ≠ [] := List.cons_ne_nil _ _
          obtain ⟨r, -, hr⟩ := Merkle.exists_root (joinHashes sha256) hne
          obtain ⟨r', -, hr'⟩ := Merkle.exists_root (joinHashes sha256) hne'
          have hsame : r = r' := by
            unfold merkleRoot at hroot
            rw [hr, hr'] at hroot
            exact hroot
          refine Merkle.root_binding (sha256_binding hinj hhex) (hleaf he) (hleaf he') hne hne' ?_
          rw [hr, hr', hsame]

/-- **The root commits to a chain**: two accepted lists of any lengths with one root have the same
    hashes, and so have two lists of one length whose events carry their own hash. -/
theorem merkleRoot_commits (hinj : Function.Injective sha256) (hhex : Hex sha256)
    (hroot : merkleRoot sha256 events = merkleRoot sha256 events') :
    ((verifyChain sha256 events).valid = true → (verifyChain sha256 events').valid = true →
      events.map (·.hash) = events'.map (·.hash)) ∧
    ((∀ e ∈ events, Hashed sha256 e) → (∀ e ∈ events', Hashed sha256 e) →
      (events.length = events'.length → events.map (·.hash) = events'.map (·.hash)) ∧
      (Merkle.Repeats (events.map (·.hash)) (events'.map (·.hash)) ∨
        Merkle.Repeats (events'.map (·.hash)) (events.map (·.hash)))) := by
  constructor
  · intro hvalid hvalid'
    have hlinked := verifyChain_valid.mp hvalid
    have hlinked' := verifyChain_valid.mp hvalid'
    rcases merkleRoot_repeats hinj hhex hlinked.hashed hlinked'.hashed hroot with hrep | hrep
    · exact Merkle.eq_of_repeats_nodup hrep (hlinked'.nodup hinj hhex)
    · exact (Merkle.eq_of_repeats_nodup hrep (hlinked.nodup hinj hhex)).symm
  · intro he he'
    have hrepeats := merkleRoot_repeats hinj hhex he he' hroot
    refine ⟨fun hlen => ?_, hrepeats⟩
    rcases hrepeats with hrep | hrep
    · exact Merkle.eq_of_repeats_length hrep (by simpa using hlen)
    · exact (Merkle.eq_of_repeats_length hrep (by simpa using hlen.symm)).symm

end Chains

/-! ## 5. A digest, and a list with its last event repeated -/

/-- Quoting has what is asked of a digest: a string literal ends where its last quote stands. -/
theorem quoteJson_read {s t : String} (tail : List Char)
    (h : (quoteJson s).toList ++ tail = (quoteJson t).toList) : s = t := by
  rw [← List.append_nil (quoteJson t).toList, quoteJson_append, quoteJson_append] at h
  have hread := congrArg readString (List.cons.inj h).2
  rw [readString_escaped, readString_escaped] at hread
  exact String.toList_injective (Prod.mk.inj (Option.some.inj hread)).1

theorem quoteJson_injective : Function.Injective quoteJson := by
  intro s t h
  refine quoteJson_read [] ?_
  rw [List.append_nil, h]

theorem hex_quoteJson : Hex quoteJson where
  separate := fun _ _ ⟨tail, htail⟩ => congrArg quoteJson (quoteJson_read tail htail)
  noNul := nul_notMem_quoteJson

/-- An event of a run. -/
def milestone (runId : String) : LedgerEventDraft :=
  { actor := systemActor, type := "RunCreated", taskId := "t", runId := runId, payload := .null }

/-- Three events of a ledger, with the ids and times that were drawn for them. -/
def three (stamp : Stamp) : Ledger quoteJson :=
  (((Ledger.empty quoteJson).append (milestone "r1") stamp).append (milestone "r2") stamp).append
    (milestone "r3") stamp

theorem three_valid (stamp : Stamp) : (verifyChain quoteJson (three stamp).events).valid = true :=
  verifyIntegrity_valid (three stamp)

/-- The same three events, drawn twice. -/
theorem three_commits : (three ⟨"a", "t"⟩).events.map (·.hash) =
    (three ⟨"b", "u"⟩).events.map (·.hash) :=
  have hroot : merkleRoot quoteJson (three ⟨"a", "t"⟩).events =
      merkleRoot quoteJson (three ⟨"b", "u"⟩).events := rfl
  (merkleRoot_commits quoteJson_injective hex_quoteJson hroot).1 (three_valid _) (three_valid _)

/-- **A list and the list with its last event repeated** have one root. -/
theorem last_repeated : ∃ events events' : List LedgerEvent, Function.Injective quoteJson ∧
    (verifyChain quoteJson events).valid = true ∧
    merkleRoot quoteJson events = merkleRoot quoteJson events' ∧
    events.map (·.hash) ≠ events'.map (·.hash) := by
  refine ⟨(three ⟨"a", "t"⟩).events, (three ⟨"a", "t"⟩).events ++
    ((three ⟨"a", "t"⟩).events.drop 2), quoteJson_injective, three_valid _, rfl, fun h => ?_⟩
  have hlength := congrArg List.length h
  rw [List.length_map, List.length_map] at hlength
  exact absurd hlength (by decide)

end AgentKernel.Events
