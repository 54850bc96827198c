/-
  File:      AgentKernel/Runner/Restarts.lean
  Subject:   Restarts of a runner whose ledger is durable (apps/cli/src/local-runner.ts,
             storage/store/src/durable-ledger.ts and sqlite-stores.ts).

  A `DurableLedger` may stand in for the ledger of a runner; a process that starts again hydrates
  from what has been flushed. It rejects a ledger with a payload that is stored otherwise than it
  was hashed. All that a runner writes by itself is whole; what an executor is asked with is not
  the runner's own.

  * `events_determined`: the drafts, the ids and the times determine all events of a ledger;
  * `ledger_recordable`: in every history all payloads are whole, or announce an execution;
  * **`restarts_iff_inputs`**: the ledger restarts if and only if the announced inputs are plain.
-/
import AgentKernel.Runner.Authorized
import AgentKernel.Runner.Passed
import AgentKernel.Storage.SqliteStores

namespace AgentKernel.Runner

open Lib Events Storage

variable {sha256 : String → String}

/-! ## 1. What determines a ledger -/

/-- What `append` was given. -/
def drafted (e : LedgerEvent) : LedgerEventDraft × Stamp := (e.toLedgerEventDraft, stampOf e)

/-- Number, link and hash of an event are computed. -/
theorem event_determined {e e' : LedgerEvent} {before : List LedgerEvent}
    (h : Links sha256 before e) (h' : Links sha256 before e') (hseq : e.seq = e'.seq)
    (hdrafted : drafted e = drafted e') : e = e' := by
  obtain ⟨hhash, hprev⟩ := h
  obtain ⟨hhash', hprev'⟩ := h'
  obtain ⟨draft, id, seq, timestamp, prevHash, hash⟩ := e
  obtain ⟨draft', id', seq', timestamp', prevHash', hash'⟩ := e'
  obtain ⟨hdraft, hstamp⟩ := Prod.mk.inj hdrafted
  obtain ⟨hid, htime⟩ := Stamp.mk.inj hstamp
  dsimp only at hhash hprev hhash' hprev' hseq hid htime hdraft
  subst hseq hdraft hid htime hprev hprev' hhash hhash'
  rfl

theorem events_determined {L L' : List LedgerEvent} (h : Linked sha256 L) (h' : Linked sha256 L')
    (hseq : L.map (·.seq) = L'.map (·.seq)) (hdrafted : L.map drafted = L'.map drafted) :
    L = L' := by
  induction L using List.reverseRecOn generalizing L' with
  | nil => exact (List.map_eq_nil_iff.mp hdrafted.symm).symm
  | append_singleton L e ih =>
      obtain rfl | ⟨L', e', rfl⟩ := List.eq_nil_or_concat' L'
      · simp at hdrafted
      · rw [List.map_append, List.map_append] at hdrafted hseq
        obtain ⟨hinit, hlast⟩ := List.append_inj' hdrafted rfl
        obtain ⟨hseqs, hseqLast⟩ := List.append_inj' hseq rfl
        obtain ⟨hL, he⟩ := justified_snoc.mp h
        obtain ⟨hL', he'⟩ := justified_snoc.mp h'
        obtain rfl := ih hL hL' hseqs hinit
        rw [event_determined he he' (List.singleton_inj.mp hseqLast)
          (List.singleton_inj.mp hlast)]

/-- **A durable ledger has the events of the ledger it stands in for.** -/
theorem session_events {calls : List Storage.Call} {l : Ledger sha256}
    (h : appended calls = l.events.map drafted) :
    (session sha256 calls).durable.ledger.events = l.events := by
  have hdrafted := (@session_appended sha256 calls).trans h
  have hlength := congrArg List.length hdrafted
  rw [List.length_map, List.length_map] at hlength
  refine events_determined (Ledger.linked _) l.linked ?_ hdrafted
  rw [Ledger.numbered, Ledger.numbered, hlength]

/-! ## 2. Plain payloads -/

/-- The payload of an announcement is as plain as its input. -/
theorem announced_plain {action : String} {v : Value} : (announced action v).Plain ↔ v.Plain := by
  simp [announced, Value.Plain, PlainEntries]

theorem announced_proper {action : String} {v : Value} : (announced action v).Proper ↔ v.Proper := by
  simp [announced, Value.Proper, Value.All, Value.AllEntries, WellFormed]

theorem announced_stringifies {action : String} {v : Value} {r : Option Json}
    (h : v.toJson = .ok r) : Stringifies (announced action v) := by
  refine stringifies_iff.mpr
    ⟨.obj (("action", .str action) :: (r.map fun j => ("input", j)).toList), ?_⟩
  rw [announced, Value.toJson, Value.toFields, Value.toFields, h]
  cases r <;> rfl

/-! ## 3. The ledger of a runner -/

namespace LocalRunner

variable {s s' : LocalRunner sha256}

/-- All that has been added has the property. -/
def Gains (p : LedgerEvent → Prop) (s s' : LocalRunner sha256) : Prop :=
  ∃ new, s'.ledger.events = s.ledger.events ++ new ∧ ∀ e ∈ new, p e

theorem Gains.nothing {p : LedgerEvent → Prop} (h : s'.ledger = s.ledger) : Gains p s s' :=
  ⟨[], by rw [h, List.append_nil], by simp⟩

end LocalRunner

namespace System

variable {opts : RunnerOptions} {clock : Clock} {ds : List (Deed sha256)} {s s' : System sha256}

/-- What a move adds is the runner's own. -/
theorem step_gains {m : Move} (h : s.Guarded) (hs : s.step m = some s') :
    s.runner.Gains Recordable s'.runner := by
  cases m with
  | run intent opts taskId runId =>
      cases hs
      exact (s.runner.run_lands intent opts taskId runId).1.events
  | resume i wake =>
      obtain ⟨r, hr, hout⟩ := Option.bind_eq_some_iff.mp hs
      obtain ⟨out, hresume, rfl⟩ := Option.map_eq_some_iff.mp hout
      exact (LocalRunner.resume_resumes (h.stands r (List.mem_of_getElem? hr)) hresume).writes.events
  | grant grant =>
      unfold step at hs
      dsimp only at hs
      split at hs <;> cases hs <;> exact .nothing rfl
  | registerExecutor action =>
      unfold step at hs
      dsimp only at hs
      split_ifs at hs <;> cases hs <;> exact .nothing rfl

/-- What others have had recorded. -/
def payloadsOf (ds : List (Deed sha256)) : List Value :=
  ds.filterMap fun
    | .append draft _ => some draft.payload
    | .move _ | .touch _ _ _ | .record _ | .immune _ | .policy _ => none

theorem deed_gains {d : Deed sha256} (h : s.Guarded) (hs : s.deed d = some s') :
    s.runner.Gains (fun e => Recordable e ∨ e.payload ∈ payloadsOf [d]) s'.runner ∧
      ∀ v ∈ payloadsOf [d], ∃ e ∈ s'.runner.ledger.events, e.payload = v := by
  cases d with
  | move m =>
      obtain ⟨new, hnew, hrecordable⟩ := step_gains h hs
      exact ⟨⟨new, hnew, fun e he => .inl (hrecordable e he)⟩, by simp [payloadsOf]⟩
  | record event =>
      cases hs
      obtain ⟨new, hnew, hrecordable⟩ :=
        (@LocalRunner.meters_writes sha256 s.runner event).events
      exact ⟨⟨new, hnew, fun e he => .inl (hrecordable e he)⟩, by simp [payloadsOf]⟩
  | append draft stamp =>
      cases hs
      have hpayloads : payloadsOf [(.append draft stamp : Deed sha256)] = [draft.payload] := rfl
      rw [hpayloads]
      refine ⟨⟨[s.runner.ledger.event draft stamp], rfl, fun e he => ?_⟩, fun v hv => ?_⟩
      · rw [List.mem_singleton.mp he]
        exact .inr (List.mem_singleton_self _)
      · rw [List.mem_singleton.mp hv]
        exact ⟨_, List.mem_append_right _ (List.mem_singleton_self _), rfl⟩
  | immune | policy =>
      cases hs
      exact ⟨.nothing rfl, by simp [payloadsOf]⟩
  | touch =>
      obtain ⟨r, -, hout⟩ := Option.bind_eq_some_iff.mp hs
      split_ifs at hout
      cases hout
      exact ⟨.nothing rfl, by simp [payloadsOf]⟩

theorem ledger_recordable
    (h : Run System.deed (fun _ _ => True) (createOn opts clock (.empty sha256)) ds s) :
    (∀ e ∈ s.runner.ledger.events, Recordable e ∨ e.payload ∈ payloadsOf ds) ∧
      ∀ v ∈ payloadsOf ds, ∃ e ∈ s.runner.ledger.events, e.payload = v := by
  induction h with
  | start => exact ⟨by simp [createOn, Ledger.empty], by simp [payloadsOf]⟩
  | @next ds s s' d h _ hs ih =>
      obtain ⟨⟨new, hnew, hgained⟩, hkept⟩ := deed_gains (guarded_of_deeds h) hs
      have hpayloads : payloadsOf (ds ++ [d]) = payloadsOf ds ++ payloadsOf [d] :=
        List.filterMap_append ..
      rw [hpayloads]
      refine ⟨fun e he => ?_, fun v hv => ?_⟩
      · rw [hnew] at he
        rcases List.mem_append.mp he with he | he
        · exact (ih.1 e he).imp_right (List.mem_append_left _)
        · exact (hgained e he).imp_right (List.mem_append_right _)
      · rcases List.mem_append.mp hv with hv | hv
        · obtain ⟨e, he, hpayload⟩ := ih.2 v hv
          exact ⟨e, hnew ▸ List.mem_append_left _ he, hpayload⟩
        · exact hkept v hv

/-- An input of an execution that the ledger announces. -/
def Announces (s : System sha256) (v : Value) : Prop :=
  ∃ e ∈ s.runner.ledger.events, e.type = "execution.requested" ∧
    ∃ action, e.payload = announced action v

/-- What has come into the ledger from outside: an announced input, or a payload of others. -/
def Takes (s : System sha256) (ds : List (Deed sha256)) (v : Value) : Prop :=
  s.Announces v ∨ v ∈ payloadsOf ds

/-- What all inputs and all payloads of others have makes for what all payloads have. -/
theorem payloads_of_taken {p q : Value → Prop}
    (h : Run System.deed (fun _ _ => True) (createOn opts clock (.empty sha256)) ds s)
    (hwhole : ∀ v : Value, v.Whole → p v) (hann : ∀ action v, q v → p (announced action v))
    (hinputs : ∀ v, s.Announces v → q v) (hforeign : ∀ v ∈ payloadsOf ds, p v) :
    ∀ e ∈ s.runner.ledger.events, p e.payload := by
  intro e he
  rcases (ledger_recordable h).1 e he with (hw | ⟨htype, action, v, hpayload⟩) | hothers
  · exact hwhole _ hw
  · rw [hpayload]
    exact hann action v (hinputs v ⟨e, he, htype, action, hpayload⟩)
  · exact hforeign _ hothers

/-- **A runner's ledger restarts if and only if what it takes from outside is plain**, whatever the
    runs, their order and their interleaving, whatever others do to the runner, and however the flushes
    lie among all this. -/
theorem restarts_iff_inputs (hinj : Function.Injective sha256)
    (h : Run System.deed (fun _ _ => True) (createOn opts clock (.empty sha256)) ds s)
    {calls : List Storage.Call} (hcalls : appended calls = s.runner.ledger.events.map drafted)
    (hproper : ∀ v, s.Takes ds v → v.Proper) (hinputs : ∀ v, s.Announces v → ∃ r, v.toJson = .ok r)
    (hothers : ∀ v ∈ payloadsOf ds, Stringifies v) :
    (session sha256 (calls ++ [.flush])).durable.ledger.events = s.runner.ledger.events ∧
    ((session sha256 (calls ++ [.flush])).Restarts ↔ ∀ v, s.Takes ds v → v.Plain) := by
  have hflushed : appended (calls ++ [.flush]) = s.runner.ledger.events.map drafted := by
    rw [appended_snoc, hcalls]
    exact List.append_nil _
  have hevents := session_events hflushed
  have hstringifies : ∀ e ∈ s.runner.ledger.events, Stringifies e.payload :=
    payloads_of_taken (q := fun v => ∃ r, v.toJson = .ok r) h (fun v hv => hv.stringifies)
      (fun action v hr => by obtain ⟨r, hr⟩ := hr; exact announced_stringifies hr) hinputs hothers
  have hproperAll : ∀ e ∈ s.runner.ledger.events, e.payload.Proper :=
    payloads_of_taken h (fun v hv => hv.proper) (fun action v => announced_proper.mpr)
      (fun v hv => hproper v (.inl hv)) fun v hv => hproper v (.inr hv)
  obtain ⟨stored, hall, hread⟩ := @flushed_all sha256 calls fun a ha => by
    rw [hcalls] at ha
    obtain ⟨e, he, rfl⟩ := List.mem_map.mp ha
    exact hstringifies e he
  have hplain : (∀ e ∈ s.runner.ledger.events, e.payload.Plain) ↔ ∀ v, s.Takes ds v → v.Plain := by
    constructor
    · rintro hp v (⟨e, he, -, action, hpayload⟩ | hforeign)
      · have hv := hp e he
        rw [hpayload] at hv
        exact announced_plain.mp hv
      · obtain ⟨e, he, rfl⟩ := (ledger_recordable h).2 v hforeign
        exact hp e he
    · intro hp
      exact payloads_of_taken h (fun v hv => hv.plain) (fun action v => announced_plain.mpr)
        (fun v hv => hp v (.inl hv)) fun v hv => hp v (.inr hv)
  have hchecked := rereads_checked hread (by rwa [hevents])
  have hlinked := (session sha256 (calls ++ [.flush])).durable.ledger.linked
  rw [hevents] at hchecked
  refine ⟨hevents, ?_⟩
  rw [restarts_iff_linked hall hread, ← hplain, ← hchecked, ← hevents]
  exact linked_iff_checked hinj hlinked (rereads_hashes hread)

/-- What is appended, in one batch. -/
def oneBatch (s : System sha256) : List Storage.Call :=
  s.runner.ledger.events.map fun e => .append e.toLedgerEventDraft (stampOf e)

theorem appended_oneBatch (s : System sha256) :
    appended s.oneBatch = s.runner.ledger.events.map drafted := by
  unfold appended oneBatch
  rw [List.flatMap_map]
  exact List.flatMap_pure_eq_map drafted _

/-- One run to its end, whose executor has a note of its own recorded. -/
def notedRead : List (Deed id) :=
  [.move (.registerExecutor "repo.read"), .move (readOnce "t1" "r1"), .move (.resume 0 .done),
    .move (.resume 0 (.answer true)),
    .append { actor := { type := .agent, id := "coder" }, type := "note", taskId := "t1"
              runId := "r1", payload := .obj [("found", .str "x")] } { id := "e", timestamp := "t" },
    .move (.resume 0 (.result haveRead)), .move (.resume 0 .done), .move (.resume 0 .done),
    .move (.resume 0 .done), .move (.resume 0 .done)]

theorem restarts_iff_inputs_notedRead :
    (session id ((afterDeeds oneCall notedRead).oneBatch ++ [.flush])).durable.ledger.events =
      (afterDeeds oneCall notedRead).runner.ledger.events ∧
    ((session id ((afterDeeds oneCall notedRead).oneBatch ++ [.flush])).Restarts ↔
      ∀ v, (afterDeeds oneCall notedRead).Takes notedRead v → v.Plain) := by
  have hrun : Run System.deed (fun _ _ => True) (createOn oneCall someClock (.empty id)) notedRead
      (afterDeeds oneCall notedRead) := run_of_exec (fun _ _ => trivial) rfl
  have hinputs : ∀ v, (afterDeeds oneCall notedRead).Announces v → v = .obj [] := by
    rintro v ⟨e, he, htype, action, hpayload⟩
    have hmem : e.payload ∈ ((afterDeeds oneCall notedRead).runner.ledger.events.filter
        (·.type = "execution.requested")).map (·.payload) :=
      List.mem_map_of_mem (List.mem_filter.mpr ⟨he, decide_eq_true htype⟩)
    have hall : ((afterDeeds oneCall notedRead).runner.ledger.events.filter
        (·.type = "execution.requested")).map (·.payload) = [announced "repo.read" (.obj [])] := rfl
    rw [hall, hpayload] at hmem
    have hsame := List.mem_singleton.mp hmem
    simp only [announced, Value.obj.injEq, List.cons.injEq, Prod.mk.injEq, and_true,
      true_and] at hsame
    exact hsame.2
  have hnote : ∀ v ∈ payloadsOf notedRead, v = .obj [("found", .str "x")] :=
    fun v hv => List.mem_singleton.mp hv
  refine restarts_iff_inputs Function.injective_id hrun (appended_oneBatch _) ?_ (fun v hv => ?_)
    fun v hv => ?_
  · rintro v (hv | hv)
    · rw [hinputs v hv]
      exact ⟨List.nodup_nil, trivial⟩
    · rw [hnote v hv]
      exact ⟨List.nodup_singleton _, trivial, trivial⟩
  · rw [hinputs v hv]
    exact ⟨_, rfl⟩
  · rw [hnote v hv]
    exact ⟨_, rfl⟩

end System

end AgentKernel.Runner
