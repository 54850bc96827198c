/-
  File:      AgentKernel/Orchestrator/Tidy.lean
  Subject:   The invariant of a process that was given no job of an earlier one: what the
             idempotency store knows of a node agrees with the node's status.

  A node's key is unknown until an execution of it begins (`fresh`), a rejected execution leaves
  its node terminal or still waiting for an approval (`rejected`), and a stored result belongs to
  a node that is verified or completed (`stored`). Together with the jobs of the workers
  (`State.Tidy`) this says which refusals are left: an execution always begins on a `READY` node,
  and the catch of `runJob` finds a node that is terminal or `WAITING`, so no worker enters
  `failNode`.

  The digest is taken to tell the hashed texts of the graph's nodes apart (`NoCollision`).
-/
import AgentKernel.Orchestrator.Start

namespace AgentKernel.Orchestrator

open Lib

/-! ## 1. Keys -/

/-- The text that is hashed to the key of a node. -/
def keyText (c : Context) (n : WorkflowNode) : String :=
  operationId c n ++ "\x00" ++ stableStringify (orEmpty n.input)

/-- The digest has no collision among the key texts of the graph. -/
def NoCollision (c : Context) : Prop :=
  ∀ n ∈ c.graph, ∀ m ∈ c.graph, c.sha256 (keyText c n) = c.sha256 (keyText c m) →
    keyText c n = keyText c m

/-- Two nodes have two keys. -/
def DistinctKeys (c : Context) : Prop :=
  ∀ n ∈ c.graph, ∀ m ∈ c.graph, keyOf c n = keyOf c m → n = m

theorem NoCollision.distinctKeys {c : Context} (hnd : (c.graph.map (·.id)).Nodup)
    (h : NoCollision c) : DistinctKeys c := by
  intro n hn m hm hk
  have hop : operationId c n = operationId c m := keyText_operationId (h n hn m hm hk)
  refine eq_of_id_eq hnd hn hm (String.toList_injective ?_)
  have hl := congrArg String.toList hop
  simp only [operationId, String.toList_append, List.append_assoc] at hl
  exact List.append_cancel_left (List.append_cancel_left hl)

/-! ## 2. The shared state -/

/-- A node no execution of which has begun. -/
def Untouched (st : NodeStatus) : Prop := st = .planned ∨ st = .ready ∨ st.isTerminal = true

/-- What has not begun is untouched, and what has been rejected has ended or waits. -/
structure Core.Tidy (c : Context) (s : Core) : Prop where
  fresh : ∀ n ∈ c.graph, ¬ Known s (keyOf c n) → Untouched (s.status n.id)
  rejected : ∀ key f e, s.store.inFlight key = some f → f.pc = .rejected e →
    (s.status f.node.id).isTerminal = true ∨ s.status f.node.id = .waiting
  stored : ∀ n ∈ c.graph, ∀ r, s.store.completed (keyOf c n) = some r →
    s.status n.id = .verifying ∨ s.status n.id = .completed

section CoreTidy

variable {c : Context} {s : State} {x y : Core} {l : Label} {n : WorkflowNode}

/-- A ready node is unknown to the store. -/
theorem Core.Tidy.unknown (hk : DistinctKeys c) (hS : Core.Sound c x) (h : Core.Tidy c x)
    (hn : n ∈ c.graph) (hr : x.status n.id = .ready) : ¬ Known x (keyOf c n) := by
  rintro (⟨r, hc⟩ | ⟨f, hf⟩)
  · rcases h.stored n hn r hc with hs | hs <;> (rw [hr] at hs; cases hs)
  · obtain ⟨hfn, hkey, hag⟩ := hS.flight _ f hf
    obtain rfl := hk _ hfn _ hn hkey
    rw [hr] at hag
    cases hpc : f.pc with
    | rejected e =>
        rcases h.rejected _ f e hf hpc with ht | hw
        · rw [hr] at ht
          cases ht
        · rw [hr] at hw
          cases hw
    | answered req granted =>
        rw [hpc] at hag
        cases granted <;> cases hag
    | threw e =>
        rw [hpc] at hag
        rcases hag with hag | hag | hag <;> cases hag
    | failing thrown error pc =>
        rw [hpc] at hag
        cases pc with
        | persisting => rcases hag with hag | hag | hag <;> cases hag
        | _ => cases hag
    | _ =>
        rw [hpc] at hag
        cases hag

/-- An act changes the status only of a node whose key is known behind it. -/
theorem Act.unknown (hnd : (c.graph.map (·.id)).Nodup) (hS : Core.Sound c s.core)
    (h : Act c s l y) (hn : n ∈ c.graph) (hk : ¬ Known y (keyOf c n)) :
    y.status n.id = s.core.status n.id := by
  -- the node that is written is another one, since its key is known
  have hother : ∀ {m : WorkflowNode}, m ∈ c.graph → Known y (keyOf c m) → n.id ≠ m.id :=
    fun hm hkm hid => hk (eq_of_id_eq hnd hn hm hid ▸ hkm)
  cases h with
  | idle | settles | late | world => rfl
  | @flight key f a z pc hf hrow =>
      obtain ⟨hfn, hkey, -⟩ := hS.flight key f hf
      exact hrow.own.status (hother hfn (hkey ▸ known_setFlight ..))
  | @begins i m job s₀ hh hm hid hkey =>
      exact beginAttempt_own.status (hother hm (hkey ▸ known_setFlight ..))
  | @completes i m r hm hr hs =>
      rw [doneCore_status, if_neg (hother hm (.inl ⟨r, hr⟩))]
  | @givesUp i job m d stored error core z pc hw hm hend ht hcore hcaught hrow =>
      have hst : core.status n.id = s.core.status n.id := by rcases hcore with rfl | rfl <;> rfl
      have hstore : y.store = s.core.store := by
        rw [hrow.own.store]
        rcases hcore with rfl | rfl <;> rfl
      rw [← hst]
      refine hrow.own.status (hother hm ?_)
      unfold Known
      rw [hstore]
      exact hend.1
  | @ending i job m error a z pc pc' hw hm hend hrow =>
      refine hrow.own.status (hother hm ?_)
      unfold Known
      rw [hrow.own.store]
      exact hend.1
  | endRefused =>
      rw [Core.put_status]
      split_ifs with hid
      · rw [hid]
        rfl
      · rfl

/-- **What a catch finds**: the node of a rejected execution, still waiting for its answer. -/
theorem Caught.waiting {job : WorkflowJob} {d : Bool} {stored : Option NodeResult} {core : Core}
    {error : String} (hk : DistinctKeys c) (hS : State.Sound c s) (h : Core.Tidy c s.core)
    (hw : .holding job n d stored ∈ s.workers) (hc : Caught s.core job n stored core error)
    (ht : (s.status n.id).isTerminal = false) : core = s.core ∧ stored = none ∧
      s.core.status n.id = .waiting := by
  obtain ⟨⟨hn, hid, hkey⟩, hst, -⟩ := hS.workers _ hw
  cases hc with
  | @refused r message hr ht' hs hs' =>
      have hcomp : s.core.store.completed (keyOf c n) = some r := by
        rw [← hkey]
        rcases hr with hr | ⟨-, hr⟩
        · exact hst r hr
        · exact hr
      rcases h.stored n hn r hcomp with hv | hd
      · exact absurd hv hs'
      · rw [hd] at ht'
        cases ht'
  | @rejected f error hnone hcomp hf hpc =>
      obtain ⟨hfn, hfkey, -⟩ := hS.core.flight _ f hf
      obtain rfl := hk _ hfn _ hn (hfkey.trans hkey)
      refine ⟨rfl, hnone, ?_⟩
      rcases h.rejected _ f error hf hpc with ht' | hwait
      · exact absurd ht' (by rw [show s.core.status f.node.id = s.status f.node.id from rfl, ht]; decide)
      · exact hwait

theorem HeadRow.of_waiting {error : String} {q : Bool} {pc : Option FailPc}
    (h : HeadRow c x n error q y pc) (hw : x.status n.id = .waiting) :
    pc = none ∧ y = x.put n.id (x.nodes n.id) [.illegal n.id .waiting .fail] := by
  cases h with
  | failed hne | refused hne => exact absurd hw hne
  | compensates hs | quarantines hs =>
      rw [hw] at hs
      cases hs
  | waits => exact ⟨rfl, rfl⟩

/-- The place a stretch rejects at. -/
theorem Row.rejects {f : Flight} {pc : FlightPc} {a : Answer} {error : String}
    (h : Row c x f pc a y (.rejected error)) (hag : Agrees pc (x.status f.node.id)) :
    (y.status f.node.id).isTerminal = true ∨ y.status f.node.id = .waiting := by
  cases h with
  | concludes _ _ _ hpc => rcases hpc with hpc | ⟨_, hpc⟩ <;> cases hpc
  | settles hpc => rcases hpc with ⟨_, -, -, hpc, -⟩ | ⟨_, -, -, hpc, -⟩ | ⟨_, -, hpc⟩ <;> cases hpc
  | retryRefused hagain hs =>
      rw [Core.put_status_self]
      rcases hag with h | h | h
      · exact absurd h hs
      · exact .inr h
      · exact .inl ((congrArg NodeStatus.isTerminal h).trans rfl)
  | failRefused hagain hhead =>
      cases hhead with
      | waits hw =>
          rw [Core.put_status_self]
          exact .inr hw
      | refused hw hs =>
          -- a thrown attempt leaves a status `failNode` can fail
          exfalso
          rw [countFailure_status] at hw hs
          rcases hag with h | h | h
          · exact hs (by rw [h]; rfl)
          · exact hw h
          · exact hs (by rw [h]; rfl)
  | ended =>
      rcases hag with h | h | h
      · exact .inl (by rw [h]; rfl)
      · exact .inl (by rw [h]; rfl)
      · exact .inl (by rw [h]; rfl)

/-- Nothing is written to the statuses or the store. -/
theorem Core.Tidy.congr (h : Core.Tidy c x) (hst : ∀ id, y.status id = x.status id)
    (hstore : y.store = x.store) : Core.Tidy c y := by
  refine ⟨fun n hn hk => ?_, fun key f e hf hpc => ?_, fun n hn r hr => ?_⟩
  · rw [hst]
    exact h.fresh n hn (by unfold Known at hk ⊢; rwa [hstore] at hk)
  · rw [hst]
    exact h.rejected key f e (hstore ▸ hf) hpc
  · rw [hst]
    exact h.stored n hn r (hstore ▸ hr)

/-- Two executions belong to two nodes. -/
theorem Core.Sound.flight_ne (hS : Core.Sound c x) {key key' : String} {f g : Flight}
    (hf : x.store.inFlight key = some f) (hg : x.store.inFlight key' = some g) (hne : key ≠ key')
    (hnd : (c.graph.map (·.id)).Nodup) : f.node.id ≠ g.node.id := by
  obtain ⟨hfn, hfk, -⟩ := hS.flight key f hf
  obtain ⟨hgn, hgk, -⟩ := hS.flight key' g hg
  intro hid
  rw [← hfk, ← hgk, eq_of_id_eq hnd hfn hgn hid] at hne
  exact hne rfl

/-- Neither has a node with a stored result an execution. -/
theorem Core.Sound.stored_ne (hS : Core.Sound c x) {key : String} {f : Flight} {r : NodeResult}
    (hf : x.store.inFlight key = some f) (hn : n ∈ c.graph)
    (hr : x.store.completed (keyOf c n) = some r) (hnd : (c.graph.map (·.id)).Nodup) :
    n.id ≠ f.node.id := by
  obtain ⟨hfn, hfk, -⟩ := hS.flight key f hf
  intro hid
  rw [eq_of_id_eq hnd hn hfn hid, hfk, hS.excl key f hf] at hr
  cases hr

/-- **Every act of a process without failing workers keeps it**, if executions begin on ready
    nodes. -/
theorem Core.Tidy.act (hnd : (c.graph.map (·.id)).Nodup) (hk : DistinctKeys c)
    (hS : State.Sound c s) (h : Core.Tidy c s.core) (ha : Act c s l y)
    (hbegin : ∀ i job n s₀, InHand c s i job n s₀ → n ∈ c.graph → job.nodeId = n.id →
      ¬ Known s.core (keyOf c n) → s.core.status n.id = .ready)
    (hcalm : ∀ job n error pc, .failing job n error pc ∉ s.workers) : Core.Tidy c y := by
  cases ha with
  | idle => exact h
  | world => exact h.congr (fun _ => rfl) rfl
  | late => exact h.congr (fun _ => rfl) rfl
  | endRefused hw => exact absurd (List.mem_of_getElem? hw) (hcalm _ _ _ _)
  | ending hw => exact absurd (List.mem_of_getElem? hw) (hcalm _ _ _ _)
  | givesUp hw hn hend ht hcore hcaught hrow =>
      obtain ⟨rfl, -, hwait⟩ := hcaught.waiting hk hS h (List.mem_of_getElem? hw) ht
      obtain ⟨-, rfl⟩ := hrow.of_waiting hwait
      refine h.congr (fun id => ?_) rfl
      rw [Core.put_status]
      split_ifs with hid
      · rw [hid]
        rfl
      · rfl
  | @completes i n r hn hr hs =>
      refine ⟨fun m hm hkm => ?_, fun key f e hf hpc => ?_, fun m hm r' hr' => ?_⟩
      · rw [doneCore_status]
        split_ifs
        · exact .inr (.inr rfl)
        · exact h.fresh m hm hkm
      · rw [doneCore_status, if_neg (hS.core.stored_ne hf hn hr hnd).symm]
        exact h.rejected key f e hf hpc
      · rw [doneCore_status]
        split_ifs
        · exact .inr rfl
        · exact h.stored m hm r' hr'
  | @settles key f r hf hpc =>
      obtain ⟨hfn, hfk, hag⟩ := hS.core.flight key f hf
      refine ⟨fun m hm hkm => ?_, fun k g e hg hpc' => ?_, fun m hm r' hr' => ?_⟩
      · refine h.fresh m hm fun hold => hkm ?_
        exact (Act.settles hf hpc).grows hS.core |>.known _ hold
      · simp only [IdempotencyStore.settle] at hg
        split_ifs at hg
        exact h.rejected k g e hg hpc'
      · simp only [IdempotencyStore.settle] at hr'
        split_ifs at hr' with hkey
        · obtain rfl := hk _ hm _ hfn (hkey.trans hfk.symm)
          rw [hpc] at hag
          exact .inl hag
        · exact h.stored m hm r' hr'
  | @begins i n job s₀ hh hn hid hkey hc hf =>
      have hnot : ¬ Known s.core (keyOf c n) := by
        rw [← hkey]
        rintro (⟨r, hr⟩ | ⟨f, hf'⟩)
        · rw [hc] at hr
          cases hr
        · rw [hf] at hf'
          cases hf'
      have hready := hbegin i job n s₀ hh hn hid hnot
      rw [beginAttempt_ok (.inl hready)]
      refine ⟨fun m hm hkm => ?_, fun k g e hg hpc => ?_, fun m hm r hr => ?_⟩
      · have hne : m.id ≠ n.id := by
          intro he
          rw [eq_of_id_eq hnd hm hn he, ← hkey] at hkm
          exact hkm (known_setFlight ..)
        rw [Core.setFlight_status, Core.put_status, if_neg hne]
        exact h.fresh m hm fun hold => hkm (hold.setFlight rfl)
      · rw [Core.setFlight_inFlight] at hg
        split_ifs at hg with hkk
        · cases hg
          cases hpc
        · have hne : g.node.id ≠ n.id := fun he => by
            obtain ⟨hgn, hgk, -⟩ := hS.core.flight k g hg
            exact hkk (by rw [← hgk, hkey, eq_of_id_eq hnd hgn hn he])
          rw [Core.setFlight_status, Core.put_status, if_neg hne]
          exact h.rejected k g e hg hpc
      · have hne : m.id ≠ n.id := fun he =>
          hnot (.inl ⟨r, eq_of_id_eq hnd hm hn he ▸ hr⟩)
        rw [Core.setFlight_status, Core.put_status, if_neg hne]
        exact h.stored m hm r hr
  | @flight key f a z pc hf hrow =>
      obtain ⟨hfn, hfk, hag⟩ := hS.core.flight key f hf
      refine ⟨fun m hm hkm => ?_, fun k g e hg hpc => ?_, fun m hm r hr => ?_⟩
      · have hsame := (Act.flight hf hrow).unknown hnd hS.core hm hkm
        rw [hsame]
        refine h.fresh m hm fun hold => hkm ?_
        exact ((Act.flight hf hrow).grows hS.core).known _ hold
      · rw [Core.setFlight_inFlight] at hg
        split_ifs at hg with hkk
        · cases hg
          dsimp only at hpc
          rw [hpc] at hrow
          exact hrow.rejects hag
        · rw [hrow.own.store] at hg
          have hst := hrow.own.status (hS.core.flight_ne hg hf hkk hnd)
          rw [Core.setFlight_status, hst]
          exact h.rejected k g e hg hpc
      · have hr' : s.core.store.completed (keyOf c m) = some r := by
          rw [Core.setFlight_completed, hrow.own.store] at hr
          exact hr
        have hst := hrow.own.status (hS.core.stored_ne hf hm hr' hnd)
        rw [Core.setFlight_status, hst]
        exact h.stored m hm r hr'

theorem Untouched.touch {q : Prop} {st st' : NodeStatus} (h : TouchStatus q st st')
    (hu : Untouched st) : Untouched st' := by
  rcases h with rfl | ⟨-, rfl | rfl⟩ | ⟨-, rfl, -⟩
  · exact hu
  · exact .inr (.inr rfl)
  · exact .inr (.inl rfl)
  · exact .inr (.inr rfl)

theorem Untouched.spread {T : List NodeId} {q : Prop} {id : NodeId} (h : Spread c T q x y)
    (hu : Untouched (x.status id)) : Untouched (y.status id) := by
  induction h with
  | refl => exact hu
  | tail _ ht ih => exact .touch (ht.status id) ih

/-- **Touches keep it**, if nodes are cancelled only when every stored result is completed. -/
theorem Core.Tidy.touch {T : List NodeId} {q : Prop} (h : Core.Tidy c x) (ht : Touch c T q x y)
    (hq : q → ∀ n ∈ c.graph, ∀ r, x.store.completed (keyOf c n) = some r →
      x.status n.id = .completed) : Core.Tidy c y := by
  have hstore := ht.sameRest.store
  refine ⟨fun n hn hk => ?_, fun key f e hf hpc => ?_, fun n hn r hr => ?_⟩
  · refine .touch (ht.status n.id) (h.fresh n hn ?_)
    unfold Known at hk ⊢
    rwa [hstore] at hk
  · rcases h.rejected key f e (hstore ▸ hf) hpc with hterm | hw
    · rw [ht.terminal hterm]
      exact .inl hterm
    · rcases ht.status f.node.id with he | ⟨hp, -⟩ | ⟨-, he, -⟩
      · rw [he]
        exact .inr hw
      · rw [hp] at hw
        cases hw
      · rw [he]
        exact .inl rfl
  · rw [hstore] at hr
    rcases h.stored n hn r hr with hv | hd
    · rcases ht.status n.id with he | ⟨hp, -⟩ | ⟨-, -, hq'⟩
      · rw [he]
        exact .inl hv
      · rw [hp] at hv
        cases hv
      · rw [hq hq' n hn r hr] at hv
        cases hv
    · rw [ht.terminal (by rw [hd]; rfl)]
      exact .inr hd

/-- A result is stored by the return of an execution. -/
theorem Act.stored {key : String} {r : NodeResult} (h : Act c s l y)
    (hr : y.store.completed key = some r) : s.core.store.completed key = some r ∨
      ∃ f a, l = .flight key a ∧ s.core.store.inFlight key = some f ∧ Going f.pc := by
  cases h with
  | @settles k f r' hf hpc =>
      simp only [IdempotencyStore.settle] at hr
      split_ifs at hr with hk
      · subst hk
        refine .inr ⟨f, _, rfl, hf, fun e he => ?_⟩
        rw [hpc] at he
        cases he
      · exact .inl hr
  | flight hf hrow =>
      rw [Core.setFlight_completed, hrow.own.store] at hr
      exact .inl hr
  | begins hh =>
      rw [Core.setFlight_completed, beginAttempt_own.store] at hr
      exact .inl hr
  | givesUp hw hn hend ht hcore hcaught hrow =>
      rw [hrow.own.store] at hr
      rcases hcore with rfl | rfl <;> exact .inl hr
  | ending hw hn hend hrow =>
      rw [hrow.own.store] at hr
      exact .inl hr
  | idle | completes | endRefused | late | world => exact .inl hr

theorem CoreStep.stored {key : String} {r : NodeResult} (h : CoreStep c s l y)
    (hr : y.store.completed key = some r) : s.core.store.completed key = some r ∨
      ∃ f a, l = .flight key a ∧ s.core.store.inFlight key = some f ∧ Going f.pc := by
  obtain ⟨x₁, x₂, T, q, ha, -, hsp, hlast⟩ := h
  have hstore : y.store = x₁.store := by
    rcases hlast with rfl | ⟨_, _, _, rfl⟩ <;> exact hsp.sameRest.store
  rw [hstore] at hr
  exact ha.stored hr

end CoreTidy

/-! ## 3. The machine -/

/-- The job a worker has taken. -/
def Worker.job : Worker → Option WorkflowJob
  | .seat job _ | .holding job _ _ _ | .failing job _ _ _ => some job
  | _ => none

/-- And a result that is stored has completed its node, or a worker holds it. -/
structure State.Tidy (c : Context) (s : State) : Prop where
  core : Core.Tidy c s.core
  awaited : ∀ n ∈ c.graph, ∀ r, s.core.store.completed (keyOf c n) = some r →
    s.core.status n.id = .completed ∨ ∃ job d stored, .holding job n d stored ∈ s.workers
  own : ∀ job, job ∈ s.queue ∨ (∃ w ∈ s.workers, w.job = some job) → job ∈ s.enqueued
  ready : s.drive ≠ .finalizing → s.drive ≠ .resolved → ∀ n ∈ c.graph, ∀ job, job.nodeId = n.id →
    job ∈ s.enqueued ∨ job ∈ s.drive.jobs → ¬ Known s.core (keyOf c n) → s.core.status n.id = .ready
  calm : ∀ job n error pc, .failing job n error pc ∉ s.workers

section Machine

variable {c : Context} {s s' : State} {l : Label} {i : Nat} {a : Answer} {n : WorkflowNode}

/-- A worker that has not finished belongs to a dispatch that goes on. -/
theorem State.Sound.busy (hS : State.Sound c s) {w : Worker} (hw : w ∈ s.workers)
    (hne : w ≠ .finished) : s.drive = .dispatching ∨ ∃ e, s.drive = .aborted e := by
  by_contra hno
  simp only [not_or, not_exists] at hno
  exact hne (hS.orderly.resting hno.1 hno.2 w hw)

/-- The job a worker has in hand was handed to the queue, and the dispatch goes on. -/
theorem State.Tidy.inHand (hS : State.Sound c s) (h : State.Tidy c s) {job : WorkflowJob}
    {s₀ : State} (hh : InHand c s i job n s₀) : job ∈ s.enqueued ∧
      (s.drive = .dispatching ∨ ∃ e, s.drive = .aborted e) := by
  cases hh with
  | dequeued hw hc hq =>
      exact ⟨h.own job (.inl (by rw [hq]; exact List.mem_cons_self)),
        hS.busy (List.mem_of_getElem? hw) (by simp)⟩
  | seated hw =>
      exact ⟨h.own job (.inr ⟨_, List.mem_of_getElem? hw, rfl⟩),
        hS.busy (List.mem_of_getElem? hw) (by simp)⟩

/-- **Executions begin on ready nodes.** -/
theorem State.Tidy.begins (hS : State.Sound c s) (h : State.Tidy c s) {job : WorkflowJob}
    {s₀ : State} (hh : InHand c s i job n s₀) (hn : n ∈ c.graph) (hid : job.nodeId = n.id)
    (hk : ¬ Known s.core (keyOf c n)) : s.core.status n.id = .ready := by
  obtain ⟨hmem, hbusy⟩ := h.inHand hS hh
  refine h.ready ?_ ?_ n hn job hid (.inl hmem) hk
  · rcases hbusy with hd | ⟨e, hd⟩ <;> (rw [hd]; simp)
  · rcases hbusy with hd | ⟨e, hd⟩ <;> (rw [hd]; simp)

/-- The job a worker has in hand behind a move was in a hand, or at the head of the queue. -/
theorem WorkerMove.jobs (h : WorkerMove c s i a s') {job : WorkflowJob} {w : Worker}
    (hw : w ∈ s'.workers) (hj : w.job = some job) :
    (∃ w ∈ s.workers, w.job = some job) ∨ job ∈ s.queue := by
  have hset : ∀ {ws : List Worker} {new : Worker}, ws = s.workers → w ∈ ws.set i new →
      w = new ∨ ∃ w ∈ s.workers, w.job = some job := by
    intro ws new hws hmem
    rcases List.mem_or_eq_of_mem_set hmem with hmem | he
    · exact .inr ⟨w, hws ▸ hmem, hj⟩
    · exact .inl he
  have hinhand : ∀ {job' m s₀}, InHand c s i job' m s₀ → s₀.workers = s.workers ∧
      ((∃ w ∈ s.workers, w.job = some job') ∨ job' ∈ s.queue) := by
    intro job' m s₀ hh
    cases hh with
    | dequeued hw hc hq => exact ⟨rfl, .inr (by rw [hq]; exact List.mem_cons_self)⟩
    | seated hw => exact ⟨rfl, .inl ⟨_, List.mem_of_getElem? hw, rfl⟩⟩
  cases h with
  | stops | drops | passes | completes | leaves | dies | ended | endRefused =>
      rcases hset rfl hw with rfl | hold
      · cases hj
      · exact .inl hold
  | waits hh | joins hh | begins hh =>
      obtain ⟨hws, hjob⟩ := hinhand hh
      rcases hset hws hw with rfl | hold
      · cases hj
        exact hjob
      · exact .inl hold
  | givesUp hi | ending hi =>
      rcases hset rfl hw with rfl | hold
      · cases hj
        exact .inl ⟨_, List.mem_of_getElem? hi, rfl⟩
      · exact .inl hold

/-- A worker that holds an execution goes on holding it, or it is the one that moves. -/
theorem WorkerMove.holds (h : WorkerMove c s i a s') {w : Worker} (hw : w ∈ s.workers) :
    w ∈ s'.workers ∨ s.workers[i]? = some w := by
  obtain ⟨old, new, hi, -, hws, -⟩ := h.frame
  by_cases he : w = old
  · exact .inr (he ▸ hi)
  · exact .inl (hws ▸ mem_set_of_ne hi hw he)

/-- The worker that takes a stored result leaves its node completed. -/
theorem WorkerMove.takes (hk : DistinctKeys c) (hS : State.Sound c s) (h : State.Tidy c s)
    (hm : WorkerMove c s i a s') {job : WorkflowJob} {d : Bool} {stored : Option NodeResult}
    {r : NodeResult} (hi : s.workers[i]? = some (.holding job n d stored))
    (hr : s.core.store.completed (keyOf c n) = some r) : s'.core.status n.id = .completed := by
  have hmem := List.mem_of_getElem? hi
  obtain ⟨⟨hn, hid, hkey⟩, -⟩ := hS.workers _ hmem
  have hst := h.core.stored n hn r hr
  cases hm with
  | stops hw | drops hw | ending hw | ended hw | endRefused hw =>
      rw [hi] at hw
      cases hw
  | waits hh | joins hh | begins hh =>
      cases hh with
      | dequeued hw | seated hw =>
          rw [hi] at hw
          cases hw
  | passes hw hr' ht =>
      rw [hi] at hw
      cases hw
      rcases hst with hv | hd
      · rw [show s.status n.id = .verifying from hv] at ht
        cases ht
      · exact hd
  | completes hw hr' hs =>
      rw [hi] at hw
      cases hw
      exact (promoteReady_spread (T := []) (q := False)).completed.mpr (by
        rw [doneCore_status, if_pos rfl])
  | leaves hw hc ht =>
      rw [hi] at hw
      cases hw
      rcases hst with hv | hd
      · rw [show s.status n.id = .verifying from hv] at ht
        cases ht
      · cases hc <;> exact hd
  | givesUp hw hc ht | dies hw hc ht =>
      rw [hi] at hw
      cases hw
      obtain ⟨-, -, hwait⟩ := hc.waiting hk hS h.core hmem ht
      rcases hst with hv | hd
      · rw [hwait] at hv
        cases hv
      · rw [hwait] at hd
        cases hd

/-- Away from the drive loop a ready node stays ready until an execution of it begins. -/
theorem CoreStep.ready {y : Core} (hnd : (c.graph.map (·.id)).Nodup) (hS : Core.Sound c s.core)
    (h : CoreStep c s l y) (hl : l ≠ .drive) (hn : n ∈ c.graph) (hk : ¬ Known y (keyOf c n))
    (hr : s.core.status n.id = .ready) : y.status n.id = .ready := by
  refine h.keeps (I := fun z => ¬ Known z (keyOf c n) → z.status n.id = .ready) hnd hS
    (fun z ha hkz => (ha.unknown hnd hS hn hkz).trans hr) (fun z z' T q _ hq hz ht hkz => ?_)
    (fun z id st _ hz => hz) hk
  have hz' := hz (by unfold Known at hkz ⊢; rwa [ht.sameRest.store] at hkz)
  rcases ht.status n.id with he | ⟨hp, -⟩ | ⟨-, -, hq'⟩
  · exact he.trans hz'
  · rw [hp] at hz'
    cases hz'
  · exact absurd (hq hq').2.1 hl

theorem Spread.ready {T : List NodeId} {x y : Core} {id : NodeId} (h : Spread c T False x y)
    (hr : x.status id = .ready) : y.status id = .ready := by
  induction h with
  | refl => exact hr
  | tail _ ht ih =>
      rcases ht.status id with he | ⟨hp, -⟩ | ⟨-, -, hq⟩
      · exact he.trans ih
      · rw [hp] at ih
        cases ih
      · exact hq.elim

/-- The jobs of the head of the drive loop are jobs of ready nodes. -/
theorem Loop.ready (hnd : (c.graph.map (·.id)).Nodup) (h : Loop c s s') (hn : n ∈ c.graph)
    {job : WorkflowJob} (hid : job.nodeId = n.id) (hd : s'.drive ≠ .finalizing)
    (hj : job ∈ s'.enqueued ∨ job ∈ s'.drive.jobs) :
    s'.core = s.core ∧ (job ∈ s.enqueued ∨ s.core.status n.id = .ready) := by
  cases h with
  | cancels | finishes => exact absurd rfl hd
  | @enqueues m rest hc hr =>
      have hready : ∀ k ∈ m :: rest, job = toJob c s.core k → s.core.status n.id = .ready := by
        rintro k hk rfl
        have hkm : k ∈ c.graph.filter _ := hr ▸ hk
        obtain ⟨hkg, hks⟩ := List.mem_filter.mp hkm
        obtain rfl : k = n := eq_of_id_eq hnd hkg hn hid
        exact of_decide_eq_true hks
      refine ⟨rfl, ?_⟩
      rcases hj with hj | hj
      · rcases List.mem_append.mp hj with hj | hj
        · exact .inl hj
        · exact .inr (hready m List.mem_cons_self (List.mem_singleton.mp hj))
      · rcases List.mem_cons.mp hj with he | hj
        · exact .inr (hready m List.mem_cons_self he)
        · obtain ⟨k, hk, he⟩ := List.mem_map.mp hj
          exact .inr (hready k (List.mem_cons_of_mem _ hk) he.symm)

/-- The jobs the drive loop holds behind a move, away from its head. -/
theorem DriveMove.jobs (h : DriveMove c s s') {job : WorkflowJob}
    (hj : job ∈ s'.enqueued ∨ job ∈ s'.drive.jobs) (hd : s'.drive ≠ .finalizing) :
    (∃ x, Loop c { s with core := x } s' ∧ (x = s.core ∨ x = promoteReady c s.core) ∧
      s.drive ≠ .finalizing ∧ s.drive ≠ .resolved) ∨
    ((job ∈ s.enqueued ∨ job ∈ s.drive.jobs) ∧ (∀ id, s'.core.status id = s.core.status id) ∧
      (s'.drive = .resolved ∨ (s.drive ≠ .finalizing ∧ s.drive ≠ .resolved))) := by
  cases h with
  | starts hd' hl => exact .inl ⟨_, hl, .inr rfl, by rw [hd']; simp, by rw [hd']; simp⟩
  | loops hd' hall hl => exact .inl ⟨s.core, hl, .inl rfl, by rw [hd']; simp, by rw [hd']; simp⟩
  | aborts hd' =>
      refine .inr ⟨.inl ?_, fun _ => rfl, .inr ⟨by rw [hd']; simp, by rw [hd']; simp⟩⟩
      rcases hj with hj | hj
      · exact hj
      · cases hj
  | emits hd' =>
      refine .inr ⟨.inl ?_, fun _ => rfl, .inr ⟨by rw [hd']; simp, by rw [hd']; simp⟩⟩
      rcases hj with hj | hj
      · exact hj
      · cases hj
  | @enqueues first next rest hd' =>
      refine .inr ⟨?_, fun _ => rfl, .inr ⟨by rw [hd']; simp, by rw [hd']; simp⟩⟩
      rw [hd']
      rcases hj with hj | hj
      · rcases List.mem_append.mp hj with hj | hj
        · exact .inl hj
        · exact .inr (by simp [Drive.jobs, List.mem_singleton.mp hj])
      · exact .inr (List.mem_cons_of_mem _ hj)
  | dispatches hd' =>
      refine .inr ⟨.inl ?_, fun _ => rfl, .inr ⟨by rw [hd']; simp, by rw [hd']; simp⟩⟩
      rcases hj with hj | hj
      · exact hj
      · cases hj
  | resolves hd' =>
      refine .inr ⟨.inl ?_, fun _ => rfl, .inl rfl⟩
      rcases hj with hj | hj
      · exact hj
      · cases hj

/-- What the drive loop does to the queue. -/
theorem DriveMove.queue (h : DriveMove c s s') {job : WorkflowJob} :
    (job ∈ s'.queue → job ∈ s.queue ∨ job ∈ s'.enqueued) ∧ (job ∈ s.enqueued → job ∈ s'.enqueued) := by
  have hloop : ∀ {x : State}, Loop c x s' →
      (job ∈ s'.queue → job ∈ x.queue ∨ job ∈ s'.enqueued) ∧
      (job ∈ x.enqueued → job ∈ s'.enqueued) := by
    intro x hl
    cases hl with
    | cancels | finishes => exact ⟨.inl, id⟩
    | enqueues =>
        refine ⟨fun hj => ?_, List.mem_append_left _⟩
        exact (List.mem_append.mp hj).imp_right (List.mem_append_right _)
  cases h with
  | starts hd hl => exact hloop (x := { s with core := promoteReady c s.core }) hl
  | loops hd hall hl => exact hloop hl
  | enqueues =>
      refine ⟨fun hj => ?_, List.mem_append_left _⟩
      exact (List.mem_append.mp hj).imp_right (List.mem_append_right _)
  | aborts | emits | dispatches | resolves => exact ⟨.inl, id⟩

/-- **A tidy process stays tidy.** -/
theorem State.Tidy.step (hnd : (c.graph.map (·.id)).Nodup) (hk : DistinctKeys c)
    (hS : State.Sound c s) (h : State.Tidy c s) (hs : step c s l = some s') :
    State.Tidy c s' := by
  have hcore := step_core hS hnd hs
  have hgrows := hcore.grows hnd hS.core
  have hunknown : ∀ {n}, ¬ Known s'.core (keyOf c n) → ¬ Known s.core (keyOf c n) :=
    fun hno hold => hno (hgrows.known _ hold)
  have htidy : Core.Tidy c s'.core := by
    -- nodes are cancelled once every worker has finished, and then no stored result is awaited
    refine (hcore.keeps (I := fun z => Core.Tidy c z ∧ (l = .drive → (∀ w ∈ s.workers, w = .finished) →
      ∀ n ∈ c.graph, ∀ r, z.store.completed (keyOf c n) = some r → z.status n.id = .completed))
      hnd hS.core (fun z ha => ?_) (fun z z' T q hz hq hI ht => ?_) fun z _ _ _ hI => ?_).1
    · refine ⟨h.core.act hnd hk hS ha (fun i job n s₀ hh hn hid => h.begins hS hh hn hid) h.calm, ?_⟩
      rintro rfl hall n hn r hr
      cases ha
      rcases h.awaited n hn r hr with hd | ⟨job, d, stored, hw⟩
      · exact hd
      · cases hall _ hw
    · refine ⟨hI.1.touch ht fun hq' n hn r hr => hI.2 (hq hq').2.1 (hq hq').2.2 n hn r hr, ?_⟩
      intro hl hall n hn r hr
      rw [ht.sameRest.store] at hr
      have hd := hI.2 hl hall n hn r hr
      rw [ht.terminal (by rw [hd]; rfl), hd]
    · exact ⟨hI.1.congr (fun _ => rfl) rfl, hI.2⟩
  have hdone : ∀ {id}, s.core.status id = .completed → s'.core.status id = .completed :=
    fun hd => step_completed hnd hS hs hd
  -- a move that leaves the workers, the queue and the drive loop alone
  have hstay : s'.workers = s.workers → s'.enqueued = s.enqueued → s'.drive = s.drive →
      (∀ job ∈ s'.queue, job ∈ s.queue ∨ job ∈ s.enqueued) → l ≠ .drive →
      State.Tidy c s' := by
    intro hws he hd hq hl
    refine ⟨htidy, fun n hn r hr => ?_, fun job hj => ?_, fun h₁ h₂ n hn job hid hj hkn => ?_, ?_⟩
    · rw [hws]
      rcases hcore.stored hr with hold | ⟨f, a, -, hf, hgo⟩
      · exact (h.awaited n hn r hold).imp_left hdone
      · obtain ⟨job, m, d, hw, hkey⟩ := hS.held _ f hf hgo
        obtain ⟨⟨hm, -, hmkey⟩, -⟩ := hS.workers _ hw
        obtain rfl := hk _ hm _ hn (hmkey.symm.trans hkey)
        exact .inr ⟨job, d, none, hw⟩
    · rw [he]
      rcases hj with hj | ⟨w, hw, hj⟩
      · exact (hq job hj).elim (fun hj => h.own job (.inl hj)) id
      · exact h.own job (.inr ⟨w, hws ▸ hw, hj⟩)
    · rw [hd] at h₁ h₂ hj
      rw [he] at hj
      exact hcore.ready hnd hS.core hl hn hkn (h.ready h₁ h₂ n hn job hid hj (hunknown hkn))
    · rw [hws]
      exact h.calm
  cases l with
  | flight key a =>
      obtain ⟨y, -, rfl⟩ := Option.map_eq_some_iff.mp hs
      exact hstay rfl rfl rfl (fun _ => .inl) (by simp)
  | late call o =>
      obtain ⟨y, -, rfl⟩ := Option.map_eq_some_iff.mp hs
      exact hstay rfl rfl rfl (fun _ => .inl) (by simp)
  | redeliver j at_ =>
      obtain ⟨job, hj, rfl⟩ := Option.map_eq_some_iff.mp hs
      refine hstay rfl rfl rfl (fun k hk => ?_) (by simp)
      rcases List.eq_or_mem_of_mem_insertIdx hk with rfl | hk
      · exact .inr (List.mem_of_getElem? hj)
      · exact .inl hk
  | cancel reason =>
      cases hs
      exact hstay rfl rfl rfl (fun _ => .inl) (by simp)
  | world w =>
      cases hs
      exact hstay rfl rfl rfl (fun _ => .inl) (by simp)
  | worker i a =>
      have hm := workerStep_move hs
      obtain ⟨-, -, -, -, -, hq, he, hd, -⟩ := hm.frame
      refine ⟨htidy, fun n hn r hr => ?_, fun job hj => ?_, fun h₁ h₂ n hn job hid hj hkn => ?_, ?_⟩
      · rcases hcore.stored hr with hold | ⟨f, a', hl, -⟩
        · rcases h.awaited n hn r hold with hd | ⟨job, d, stored, hw⟩
          · exact .inl (hdone hd)
          · rcases hm.holds hw with hw | hi
            · exact .inr ⟨job, d, stored, hw⟩
            · exact .inl (hm.takes hk hS h hi hold)
        · cases hl
      · rw [he]
        rcases hj with hj | ⟨w, hw, hj⟩
        · exact h.own job (.inl (hq hj))
        · rcases hm.jobs hw hj with hold | hold
          · exact h.own job (.inr hold)
          · exact h.own job (.inl hold)
      · rw [hd] at h₁ h₂ hj
        rw [he] at hj
        exact hcore.ready hnd hS.core (by simp) hn hkn
          (h.ready h₁ h₂ n hn job hid hj (hunknown hkn))
      · intro job n error pc hw
        rcases hm.failing hw with hw | ⟨pc₀, hi, -⟩ | ⟨d, stored, core, hi, hc, ht, hrow⟩
        · exact h.calm _ _ _ _ hw
        · exact h.calm _ _ _ _ (List.mem_of_getElem? hi)
        · obtain ⟨rfl, -, hwait⟩ := hc.waiting hk hS h.core (List.mem_of_getElem? hi) ht
          cases (hrow.of_waiting hwait).1
  | drive =>
      have hm := driveStep_move hs
      have hws := (hS.orderly.drive hm).2
      refine ⟨htidy, fun n hn r hr => ?_, fun job hj => ?_, fun h₁ h₂ n hn job hid hj hkn => ?_, ?_⟩
      · rcases hcore.stored hr with hold | ⟨f, a', hl, -⟩
        · rcases h.awaited n hn r hold with hd | ⟨job, d, stored, hw⟩
          · exact .inl (hdone hd)
          · rcases hws with hws | ⟨hall, -⟩
            · exact .inr ⟨job, d, stored, hws ▸ hw⟩
            · cases hall _ hw
        · cases hl
      · rcases hj with hj | ⟨w, hw, hj⟩
        · exact (hm.queue.1 hj).elim (fun hj => hm.queue.2 (h.own job (.inl hj))) id
        · rcases hws with hws | ⟨-, hidle⟩
          · exact hm.queue.2 (h.own job (.inr ⟨w, hws ▸ hw, hj⟩))
          · rw [hidle w hw] at hj
            cases hj
      · rcases hm.jobs hj h₁ with ⟨x, hl, hx, hd₁, hd₂⟩ | ⟨hj, hst, hd⟩
        · obtain ⟨hsame, hready⟩ := hl.ready hnd hn hid h₁ hj
          rw [hsame]
          rcases hready with hold | hready
          · have hold' := h.ready hd₁ hd₂ n hn job hid (.inl hold) (hunknown hkn)
            rcases hx with rfl | rfl
            · exact hold'
            · exact (promoteReady_spread (T := [])).ready hold'
          · exact hready
        · rw [hst]
          rcases hd with hd | ⟨hd₁, hd₂⟩
          · exact absurd hd h₂
          · exact h.ready hd₁ hd₂ n hn job hid hj (hunknown hkn)
      · intro job n error pc hw
        rcases hws with hws | ⟨-, hidle⟩
        · exact h.calm _ _ _ _ (hws ▸ hw)
        · cases hidle _ hw

/-- What the worker of a tidy process does to the shared state. -/
inductive Work (c : Context) (s : State) (i : Nat) : Core → Prop where
  | nothing : Work c s i s.core
  | begins {job : WorkflowJob} {n : WorkflowNode} {s₀ : State} (hh : InHand c s i job n s₀)
      (hjob : JobOf c job n) (hk : ¬ Known s.core (keyOf c n)) (hr : s.core.status n.id = .ready) :
      Work c s i ((s.core.put n.id { s.core.nodes n.id with status := .running, attempt := job.attempt }
        [.event (.nodeRunning n.id job.id job.attempt job.operationId)]).setFlight (keyOf c n)
          ⟨n, job, .ran⟩)
  | completes {n : WorkflowNode} {r : NodeResult} (hn : n ∈ c.graph)
      (hr : s.core.store.completed (keyOf c n) = some r) (hs : s.core.status n.id = .verifying) :
      Work c s i (promoteReady c (doneCore c s.core n r))
  | dies {job : WorkflowJob} {n : WorkflowNode} {d : Bool}
      (hw : .holding job n d none ∈ s.workers) (hs : s.core.status n.id = .waiting) :
      Work c s i (s.core.put n.id (s.core.nodes n.id) [.illegal n.id .waiting .fail])

/-- **A worker begins an execution, completes a node, dies, or leaves the shared state alone.** -/
theorem WorkerMove.work (hnd : (c.graph.map (·.id)).Nodup) (hk : DistinctKeys c)
    (hS : State.Sound c s) (h : State.Tidy c s) (hm : WorkerMove c s i a s') :
    Work c s i s'.core := by
  cases hm with
  | stops | drops | joins | passes | ended => exact .nothing
  | @waits job n s₀ hh hfull =>
      have hcore : (s₀.setWorker i (.seat job n)).core = s.core := hh.core
      rw [hcore]
      exact .nothing
  | @begins job n s₀ limiter hh hacq hc hf =>
      obtain ⟨hn, hid, hkey⟩ := hh.jobOf hS hnd
      have hno : ¬ Known s.core (keyOf c n) := by
        rw [← hkey]
        rintro (⟨r, hr⟩ | ⟨f, hf'⟩)
        · rw [hc] at hr
          cases hr
        · rw [hf] at hf'
          cases hf'
      have hready := h.begins hS hh hn hid hno
      have heq : beginAttempt s.core n job = _ := beginAttempt_ok (.inl hready)
      show Work c s i ((beginAttempt s.core n job).1.setFlight job.idempotencyKey
        ⟨n, job, (beginAttempt s.core n job).2⟩)
      rw [heq, hkey]
      exact .begins hh ⟨hn, hid, hkey⟩ hno hready
  | @completes job n d stored r k hw hr hs =>
      obtain ⟨⟨hn, hid, hkey⟩, hst, -⟩ := hS.workers _ (List.mem_of_getElem? hw)
      have hcomp : s.core.store.completed (keyOf c n) = some r := by
        rw [← hkey]
        rcases hr with hr | ⟨-, hr⟩
        · exact hst r hr
        · exact hr
      refine .completes hn hcomp ?_
      rcases h.core.stored n hn r hcomp with hv | hd
      · exact hv
      · rcases hs with hs | hs <;> (rw [show s.status n.id = _ from hd] at hs; cases hs)
  | leaves hw hc ht =>
      cases hc with
      | refused hr ht' =>
          have hfalse : (s.status _).isTerminal = false := ht'
          rw [ht] at hfalse
          cases hfalse
      | rejected => exact .nothing
  | givesUp hw hc ht hrow =>
      obtain ⟨rfl, -, hwait⟩ := hc.waiting hk hS h.core (List.mem_of_getElem? hw) ht
      cases (hrow.of_waiting hwait).1
  | @dies job n d stored core s' error message k hw hc ht hrow =>
      have hmem := List.mem_of_getElem? hw
      obtain ⟨rfl, rfl, hwait⟩ := hc.waiting hk hS h.core hmem ht
      obtain ⟨-, rfl⟩ := hrow.of_waiting hwait
      exact .dies hmem hwait
  | ending hw | endRefused hw => exact absurd (List.mem_of_getElem? hw) (h.calm _ _ _ _)

end Machine

/-! ## 4. The beginning -/

/-- A process that was given no job of an earlier one. -/
def Alone (c : Context) (s : State) : Prop := Begins c s ∧ s.enqueued = []

section Beginning

variable {c : Context} {s s₀ : State} {core : Core}

theorem launch_tidy (hcore : Core.Tidy c core)
    (hdone : ∀ n ∈ c.graph, ∀ r, core.store.completed (keyOf c n) = some r →
      core.status n.id = .completed) : State.Tidy c (.launch core []) := by
  refine ⟨hcore, fun n hn r hr => .inl (hdone n hn r hr), fun job hj => ?_,
    fun _ _ n hn job _ hj => ?_, fun _ _ _ _ hw => ?_⟩
  · rcases hj with hj | ⟨w, hw, -⟩
    · cases hj
    · cases hw
  · rcases hj with hj | hj <;> cases hj
  · cases hw

/-- A stored result of a rebuilt executor belongs to a completed node. -/
theorem restore_done (hnd : (c.graph.map (·.id)).Nodup) (hk : DistinctKeys c) {w : World}
    {trace : List Obs} {snapshots : Snapshots} (hu : snapshots.Unique) {n : WorkflowNode}
    (hn : n ∈ c.graph) {r : NodeResult}
    (hr : (restore c snapshots (Core.fresh w trace)).store.completed (keyOf c n) = some r) :
    (restore c snapshots (Core.fresh w trace)).status n.id = .completed := by
  rcases restore_stored _ hr with hr | ⟨snap, hsnap, m, hby, hkey, hst, hres⟩
  · cases hr
  · obtain ⟨hm, hid⟩ := mem_of_nodeById hby
    obtain rfl := hk _ hm _ hn hkey
    have hget := Snapshots.get_of_mem hu hsnap
    rw [← hid] at hget
    rw [Core.status_eq, restore_nodes hnd hm hu, hget]
    simp [restored, hst, hres]

theorem hydrate_tidy (hnd : (c.graph.map (·.id)).Nodup) (hk : DistinctKeys c) {o : Options}
    {w : World} {trace : List Obs} {events : List LedgerEventLike}
    (h : hydrate o w trace events = .ok (c, core)) : State.Tidy c (.launch core []) := by
  obtain ⟨sc, hsc, -, hsp⟩ := hydrate_spread h
  have hr : Rebuilt (restore c sc.snapshots (Core.fresh w trace)) := (rebuilt_fresh w trace).restore _
  have hstore := hsp.sameRest.store
  have hu : ({} : Scan).snapshots.Unique := List.nodup_nil
  have hdone : ∀ n ∈ c.graph, ∀ r, core.store.completed (keyOf c n) = some r →
      core.status n.id = .completed := fun n hn r hs =>
    hsp.completed.mpr (restore_done hnd hk (scanLoop_unique hu hsc) hn (hstore ▸ hs))
  refine launch_tidy ⟨fun n hn _ => ?_, fun key f e hf => ?_, fun n hn r hs => .inr (hdone n hn r hs)⟩ hdone
  · exact .spread hsp ((hr.status n.id).imp_right .inr)
  · rw [hstore, hr.still key] at hf
    cases hf

theorem Alone.tidy (hnd : (c.graph.map (·.id)).Nodup) (hk : DistinctKeys c) (h : Alone c s) :
    State.Tidy c s := by
  obtain ⟨hb, hold⟩ := h
  rcases hb with ⟨w, rfl⟩ | ⟨o, w, trace, events, core, old, hh, -, rfl⟩
  · refine launch_tidy ⟨fun n hn _ => .inl rfl, fun key f e hf => ?_, fun n hn r hr => ?_⟩
      fun n hn r hr => ?_
    · cases hf
    · cases hr
    · cases hr
  · cases (show old = [] from hold)
    exact hydrate_tidy hnd hk hh

theorem alone_initial (w : World) : Alone c (.initial c w) := ⟨.inl ⟨w, rfl⟩, rfl⟩

end Beginning

end AgentKernel.Orchestrator
