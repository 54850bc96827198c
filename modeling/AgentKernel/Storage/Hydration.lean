/-
  File:      AgentKernel/Storage/Hydration.lean
  Subject:   Hydrating a durable ledger that need not be new
             (storage/store/src/durable-ledger.ts).

  `hydrate` appends the stored events one by one to whatever the ledger holds, and compares each
  after it was appended. A ledger that holds events gets a first one that is linked to its own
  last event, so the comparison fails and the event stays.

  * `rebuild_grows`: what the loop leaves behind has more events, whatever its answer;
  * `hydrate_whole_iff`: one call is all or nothing exactly if there is nothing to do, the chain is
    rejected, or the ledger has no events yet and the stored ones are numbered from 0;
  * **`hydrate_exact`**: and with a second call just the first two of these remain.

  Events are compared by all but the id and the time of day, which `append` draws anew.
-/
import AgentKernel.Storage.DurableLedger

namespace AgentKernel.Storage

open Events

variable {sha256 : String → String}

/-! ## 1. All or nothing -/

/-- What a call of `hydrate` may do: the stored events and, after them, some that the ledger held;
    or an error, and the events as they were. -/
def AllOrNothing (rows : List LedgerEvent) (d : DurableLedger sha256)
    (after : DurableLedger sha256 × Except String Unit) : Prop :=
  match after.2 with
  | .ok _ => ∃ rest : List LedgerEvent, rest ⊆ d.ledger.events ∧
      after.1.ledger.events.map content = (rows ++ rest).map content
  | .error _ => after.1.ledger.events = d.ledger.events

/-- The number after the last one stored. -/
def nextSeq (rows : List LedgerEvent) : Nat := (rows.getLast?.map (·.seq + 1)).getD 0

/-- The events go on where the stored numbers end. -/
def Continues (rows events : List LedgerEvent) : Prop :=
  events.map (·.seq) = List.range' (nextSeq rows) events.length

/-- What is asked of `hydrate`: each of two calls, and an append and a flush after them. -/
structure HydratesWhole (stamps stamps' : Nat → Stamp) (d : DurableLedger sha256)
    (rows : List LedgerEvent) : Prop where
  once : AllOrNothing rows d (d.hydrate stamps rows)
  twice : ((d.hydrate stamps rows).1.hydrate stamps' rows).1.ledger.events =
    (d.hydrate stamps rows).1.ledger.events
  intact : ∀ draft stamp,
    ((((d.hydrate stamps rows).1.hydrate stamps' rows).1.append
      draft stamp).ledger.verifyIntegrity).valid = true
  continues : ∀ draft stamp,
    Continues rows (((d.hydrate stamps rows).1.hydrate stamps' rows).1.append draft stamp).pending

/-! ## 2. The loop -/

section Loop

variable {l l' : Ledger sha256} {stamps : Nat → Stamp} {rows : List LedgerEvent}

theorem rebuild_extends (stamps : Nat → Stamp) : ∀ (rows : List LedgerEvent) (l : Ledger sha256),
    l.events <+: (rebuild stamps l rows).1.events
  | [], l => List.prefix_refl _
  | e :: rest, l => by
      have hone : l.events <+: (l.append e.toLedgerEventDraft (stamps l.events.length)).events :=
        List.prefix_append _ _
      unfold rebuild
      dsimp only
      split_ifs with hhash
      · exact hone
      · exact hone.trans (rebuild_extends stamps rest _)

/-- **The loop leaves more events behind**, also where it ends with an error. -/
theorem rebuild_grows {e : LedgerEvent} :
    l.events.length < (rebuild stamps l (e :: rows)).1.events.length := by
  have hone : l.events.length <
      (l.append e.toLedgerEventDraft (stamps l.events.length)).events.length := by
    change l.events.length < (l.events ++ [_]).length
    simp
  unfold rebuild
  dsimp only
  split_ifs with hhash
  · exact hone
  · exact hone.trans_le (rebuild_extends stamps rows _).length_le

theorem rebuild_length : ∀ {rows : List LedgerEvent} {l l' : Ledger sha256},
    rebuild stamps l rows = (l', .ok ()) → l'.events.length = l.events.length + rows.length
  | [], l, l', h => by
      cases h
      rfl
  | e :: rest, l, l', h => by
      unfold rebuild at h
      dsimp only at h
      split_ifs at h with hhash
      · cases h
      · have hlen : (l.append e.toLedgerEventDraft (stamps l.events.length)).events.length =
            l.events.length + 1 := by
          change (l.events ++ [_]).length = _
          simp
        rw [rebuild_length h, hlen, List.length_cons]
        omega

end Loop

/-! ## 3. One call -/

section Once

variable {d : DurableLedger sha256} {stamps stamps' : Nat → Stamp} {rows : List LedgerEvent}

/-- Nothing is stored, or what is stored is rejected before the loop. -/
def Untouched (sha256 : String → String) (rows : List LedgerEvent) : Prop :=
  rows = [] ∨ (verifyChain sha256 rows).valid = false

theorem hydrate_untouched (h : Untouched sha256 rows) : (d.hydrate stamps rows).1 = d := by
  unfold DurableLedger.hydrate
  rcases h with rfl | hinvalid
  · rfl
  · dsimp only
    rw [hinvalid]
    cases rows <;> rfl

theorem hydrate_loop (h : ¬ Untouched sha256 rows) :
    d.hydrate stamps rows = ({ d with ledger := (rebuild stamps d.ledger rows).1 },
      (rebuild stamps d.ledger rows).2) := by
  obtain ⟨hsome, hvalid⟩ := not_or.mp h
  have hne : rows.isEmpty = false := by
    cases rows with
    | nil => exact absurd rfl hsome
    | cons e rest => rfl
  unfold DurableLedger.hydrate
  rw [hne, Bool.not_eq_false] at *
  rw [if_neg (by simp), if_pos hvalid]

/-- Whenever the loop is reached there are more events than before. -/
theorem hydrate_grows (h : ¬ Untouched sha256 rows) :
    d.ledger.events.length < (d.hydrate stamps rows).1.ledger.events.length := by
  rw [hydrate_loop h]
  cases rows with
  | nil => exact absurd (.inl rfl) h
  | cons e rest => exact rebuild_grows

/-- What follows the stored events in a ledger that has just grown by them is nothing it held. -/
theorem nothing_before {l l' : Ledger sha256} {rest : List LedgerEvent} (hsome : rows ≠ [])
    (hlen : l'.events.length = l.events.length + rows.length) (hrest : rest ⊆ l.events)
    (hcontent : l'.events.map content = (rows ++ rest).map content) : rest = [] := by
  have hsum : l'.events.length = rows.length + rest.length := by
    have hlengths := congrArg List.length hcontent
    rwa [List.length_map, List.length_map, List.length_append] at hlengths
  have hrows := List.length_pos_iff.mpr hsome
  rcases List.eq_nil_or_concat' rest with hnil | ⟨init, last, rfl⟩
  · exact hnil
  · -- the last event has the number of the last one of the grown ledger, so the old one has it not
    have hseqs := (seq_of_content hcontent).symm.trans l'.numbered
    have hlast : last.seq = l'.events.length - 1 := by
      have hget := congrArg List.getLast? hseqs
      rw [← List.append_assoc, List.map_append, List.map_singleton, List.getLast?_concat,
        List.getLast?_range, if_neg (by omega)] at hget
      exact Option.some.inj hget
    have hold : last.seq < l.events.length := by
      have hin : last.seq ∈ l.events.map (·.seq) := List.mem_map_of_mem (hrest (by simp))
      rw [l.numbered] at hin
      exact List.mem_range.mp hin
    omega

/-- **One call is all or nothing** exactly if the loop is not reached, or starts from no events and
    finds the stored ones numbered from 0. -/
theorem hydrate_whole_iff : AllOrNothing rows d (d.hydrate stamps rows) ↔
    Untouched sha256 rows ∨
      d.ledger.events = [] ∧ rows.map (·.seq) = List.range rows.length := by
  by_cases hun : Untouched sha256 rows
  · refine iff_of_true ?_ (.inl hun)
    have hsame : (d.hydrate stamps rows).1 = d := hydrate_untouched hun
    unfold AllOrNothing
    split
    · rename_i hok
      rcases hun with rfl | hinvalid
      · exact ⟨d.ledger.events, List.Subset.refl _, by rw [hsame, List.nil_append]⟩
      · have hlinked : Linked sha256 rows := linked_of_hydrate (Prod.ext rfl hok)
        rw [verifyChain_valid.mpr hlinked] at hinvalid
        cases hinvalid
    · rw [hsame]
  · obtain ⟨hsome, hvalid⟩ := not_or.mp hun
    rw [Bool.not_eq_false] at hvalid
    have hlinked := verifyChain_valid.mp hvalid
    have hgrows : d.ledger.events.length < (d.hydrate stamps rows).1.ledger.events.length :=
      hydrate_grows hun
    rw [or_iff_right hun]
    rw [hydrate_loop hun] at hgrows ⊢
    constructor
    · intro hwhole
      unfold AllOrNothing at hwhole
      dsimp only at hwhole hgrows
      split at hwhole
      · rename_i hok
        obtain ⟨rest, hrest, hcontent⟩ := hwhole
        have hlen := rebuild_length (Prod.ext rfl hok)
        obtain rfl := nothing_before hsome hlen hrest hcontent
        rw [List.append_nil] at hcontent
        have hrows := congrArg List.length hcontent
        rw [List.length_map, List.length_map, hlen] at hrows
        refine ⟨List.eq_nil_of_length_eq_zero (by omega), ?_⟩
        rw [← seq_of_content hcontent, Ledger.numbered, hlen, hrows]
      · rw [hwhole] at hgrows
        exact absurd hgrows (Nat.lt_irrefl _)
    · rintro ⟨hnone, hnumbered⟩
      have hstart : d.ledger.events.map content = ([] : List LedgerEvent).map content := by
        rw [hnone]
      obtain ⟨l', hr, hcontent⟩ : ∃ l', rebuild stamps d.ledger rows = (l', .ok ()) ∧
          l'.events.map content = ([] ++ rows).map content :=
        rebuild_linked hstart hlinked hnumbered
      rw [hr]
      exact ⟨[], List.nil_subset _, by rw [List.append_nil]; exact hcontent⟩

end Once

/-! ## 4. Calls in sequence -/

section Twice

variable {d : DurableLedger sha256} {stamps stamps' : Nat → Stamp} {rows : List LedgerEvent}

/-- Two calls and a later flush are as they should be exactly if no call reaches the loop and the
    ledger already goes on where the stored numbers end. -/
theorem hydrates_again_iff : HydratesWhole stamps stamps' d rows ↔
    Untouched sha256 rows ∧
      d.pending.map (·.seq) ++ [d.ledger.events.length] =
        List.range' (nextSeq rows) (d.pending.length + 1) := by
  have hnext : ∀ (draft : LedgerEventDraft) (stamp : Stamp),
      Continues rows (d.append draft stamp).pending ↔
        d.pending.map (·.seq) ++ [d.ledger.events.length] =
          List.range' (nextSeq rows) (d.pending.length + 1) := by
    intro draft stamp
    unfold Continues DurableLedger.append
    dsimp only
    rw [List.map_append, List.length_append]
    rfl
  constructor
  · intro h
    have hun : Untouched sha256 rows := by
      by_contra hloop
      have hgrows := (hydrate_grows hloop : _ < ((d.hydrate stamps rows).1.hydrate stamps'
        rows).1.ledger.events.length)
      rw [h.twice] at hgrows
      exact Nat.lt_irrefl _ hgrows
    have hcontinues := h.continues (noteDraft "later") noteStamp
    rw [hydrate_untouched hun, hydrate_untouched hun] at hcontinues
    exact ⟨hun, (hnext _ _).mp hcontinues⟩
  · rintro ⟨hun, hseqs⟩
    refine ⟨hydrate_whole_iff.mpr (.inl hun), ?_, fun _ _ => verifyIntegrity_valid _,
      fun draft stamp => ?_⟩
    · rw [hydrate_untouched hun, hydrate_untouched hun]
    · rw [hydrate_untouched hun, hydrate_untouched hun]
      exact (hnext draft stamp).mpr hseqs

/-- **What a call keeps whole, and what a second one does.** -/
theorem hydrate_exact (stamps stamps' : Nat → Stamp) (d : DurableLedger sha256)
    (rows : List LedgerEvent) :
    (AllOrNothing rows d (d.hydrate stamps rows) ↔
      rows = [] ∨ (verifyChain sha256 rows).valid = false ∨
        d.ledger.events = [] ∧ rows.map (·.seq) = List.range rows.length) ∧
    (HydratesWhole stamps stamps' d rows ↔
      (rows = [] ∨ (verifyChain sha256 rows).valid = false) ∧
        d.pending.map (·.seq) ++ [d.ledger.events.length] =
          List.range' (nextSeq rows) (d.pending.length + 1)) := by
  refine ⟨?_, hydrates_again_iff⟩
  rw [hydrate_whole_iff, Untouched, or_assoc]

end Twice

/-- A store with one event. -/
def oneStored : List LedgerEvent := [(Ledger.empty plainDigest).event (noteDraft "first") noteStamp]

/-- A ledger that has been hydrated once. -/
def hydratedOnce : DurableLedger plainDigest × Except String Unit :=
  (DurableLedger.new plainDigest).hydrate (fun _ => noteStamp) oneStored

/-- The first call hydrates one event; the second rejects the same store and leaves two. -/
theorem second_hydrate_appends :
    hydratedOnce.2 = .ok () ∧ hydratedOnce.1.ledger.events.length = 1 ∧
    (hydratedOnce.1.hydrate (fun _ => noteStamp) oneStored).2 =
      .error "durable ledger: hash mismatch at seq 0 (tamper detected)" ∧
    (hydratedOnce.1.hydrate (fun _ => noteStamp) oneStored).1.ledger.events.length = 2 ∧
    ¬ AllOrNothing oneStored hydratedOnce.1
      (hydratedOnce.1.hydrate (fun _ => noteStamp) oneStored) ∧
    ¬ HydratesWhole (fun _ => noteStamp) (fun _ => noteStamp) (.new plainDigest) oneStored := by
  refine ⟨rfl, rfl, rfl, rfl, fun hwhole => ?_, fun hwhole => ?_⟩
  · have hlength := congrArg List.length (show _ = _ from hwhole)
    exact absurd hlength (by decide)
  · have hlength := congrArg List.length hwhole.twice
    exact absurd hlength (by decide)

end AgentKernel.Storage
