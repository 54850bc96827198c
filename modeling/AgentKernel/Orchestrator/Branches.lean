/-
  File:      AgentKernel/Orchestrator/Branches.lean
  Subject:   The two branches of a conditional, over all lives of a run.

  A conditional skips the nodes of the branch it did not choose before it is recorded as
  completed. A crash in between keeps the skips and loses the choice; the conditional is evaluated
  again, and its handler may come to the other verdict. Then the other branch is skipped as well.
  As long as no evaluation contradicts what the ledger holds (`Consistent`), the branch a completed
  conditional names is not skipped in its name (**`branches_kept`**).
-/
import AgentKernel.Orchestrator.LedgerOrder
import AgentKernel.Orchestrator.Tidy
import AgentKernel.Orchestrator.Trace

namespace AgentKernel.Orchestrator

open Lib

/-! ## 1. The property and its condition -/

/-- The branch that is not taken. -/
def Branch.other : Branch → Branch
  | .thenBranch => .elseBranch
  | .elseBranch => .thenBranch

/-- The nodes of a branch. -/
def branchNodes (cond : ConditionSpec) : Branch → List NodeId
  | .thenBranch => cond.thenNodes
  | .elseBranch => cond.elseNodes.getD []

/-- No node is in both branches. -/
def BranchesApart (cond : ConditionSpec) : Prop :=
  ∀ id ∈ branchNodes cond .thenBranch, id ∉ branchNodes cond .elseBranch

instance (cond : ConditionSpec) : Decidable (BranchesApart cond) :=
  inferInstanceAs (Decidable (∀ id ∈ branchNodes cond .thenBranch, id ∉ branchNodes cond .elseBranch))

/-- `result.output.branch` names the branch. -/
def NamesBranch (r : NodeResult) (b : Branch) : Prop :=
  getPath r.output "branch" = some (.str b.text)

/-- No node of the branch is skipped in the name of the conditional `n`. -/
def Unskipped (n : WorkflowNode) (cond : ConditionSpec) (b : Branch) (trace : List Obs) : Prop :=
  ∀ id ∈ branchNodes cond b, ∀ chosen, .event (.nodeSkipped id (skipReason n chosen)) ∉ trace

/-- A completed conditional has not lost the branch it names. -/
def BranchesKept (c : Context) (trace : List Obs) : Prop :=
  ∀ n ∈ c.graph, n.kind = .conditional → ∀ cond, n.condition = some cond → BranchesApart cond →
    ∀ r op key, .event (.nodeCompleted n.id r op key) ∈ trace →
      ∀ b, NamesBranch r b → Unskipped n cond b trace

/-- In this step the conditional `n` comes to a verdict, on the result `source`. -/
def Concludes (s : State) (l : Label) (n : WorkflowNode) (cond : ConditionSpec)
    (source : NodeResult) : Prop :=
  ∃ key f a, l = .flight key a ∧ s.core.store.inFlight key = some f ∧ f.node = n ∧
    n.kind = .conditional ∧ n.condition = some cond ∧
    verdictSource s.core f cond f.pc a = some source

/-- The branch a conditional comes to choose has not been skipped in its name, and no completion of
    it names the other one. -/
def Consistent (s : State) (l : Label) : Prop :=
  ∀ n cond source, Concludes s l n cond source →
    Unskipped n cond (matchCondition cond source).1 s.core.trace ∧
    ∀ r op key, .event (.nodeCompleted n.id r op key) ∈ s.core.trace →
      ∀ b, NamesBranch r b → b = (matchCondition cond source).1

/-! ## 2. Reasons -/

section Reasons

variable {n m : WorkflowNode} {b b' : Branch} {cond : ConditionSpec} {r : NodeResult}

theorem skipReason_inj (h : skipReason n b = skipReason m b') : n.id = m.id ∧ b = b' := by
  have h := congrArg String.toList h
  unfold skipReason at h
  simp only [String.toList_append, List.append_assoc] at h
  have h := List.append_cancel_left h
  have hlen : ∀ b : Branch,
      ("' chose the '".toList ++ (b.text.toList ++ "' branch".toList)).length = 25 := by
    intro b
    cases b <;> rfl
  obtain ⟨hid, hb⟩ := List.append_inj' h (by rw [hlen, hlen])
  refine ⟨String.toList_inj.mp hid, ?_⟩
  cases b <;> cases b' <;> first | rfl | simp [Branch.text] at hb

/-- A skip for the sake of a dependency is in no conditional's name. -/
theorem dependencyReason_ne (id : NodeId) :
    "dependency '" ++ id ++ "' skipped" ≠ skipReason n b := by
  intro h
  have h := congrArg (fun s => s.toList.head?) h
  unfold skipReason at h
  simp at h

theorem NamesBranch.unique (h : NamesBranch r b) (h' : NamesBranch r b') : b = b' := by
  have he := h.symm.trans h'
  revert he
  cases b <;> cases b' <;> simp [Branch.text]

theorem conditionResult_names (source : NodeResult) :
    NamesBranch (conditionResult n cond source) (matchCondition cond source).1 := rfl

theorem Branch.other_ne (b : Branch) : b.other ≠ b := by
  cases b <;> exact fun h => by cases h

theorem unchosen_eq : unchosen cond b = branchNodes cond b.other := by
  cases b <;> rfl

theorem BranchesApart.ne (h : BranchesApart cond) {id : NodeId} (hb : id ∈ branchNodes cond b)
    (hb' : id ∈ branchNodes cond b') : b = b' := by
  cases b <;> cases b'
  · rfl
  · exact absurd hb' (h id hb)
  · exact absurd hb (h id hb')
  · rfl

end Reasons

/-! ## 3. What is skipped in whose name -/

/-- No skip in the name of a conditional. -/
def Unblamed (o : Obs) : Prop := ∀ id n chosen, o ≠ .event (.nodeSkipped id (skipReason n chosen))

/-- What a stretch adds that may throw. -/
def AddsIn (P : Obs → Prop) (x : Core) : Except Thrown Core → Prop
  | .ok y => Adds P x y
  | .error t => Adds P x t.core

section Skips

variable {c : Context} {s s' : State} {x y : Core} {l : Label} {P Q : Obs → Prop} {id : NodeId}

theorem AddsIn.mono (hPQ : ∀ o, P o → Q o) {r : Except Thrown Core} (h : AddsIn P x r) :
    AddsIn Q x r := by
  cases r with
  | ok y => exact Adds.mono hPQ h
  | error t => exact Adds.mono hPQ h

theorem AddsIn.bind {r : Except Thrown Core} {k : Core → Except Thrown Core} (h : AddsIn P x r)
    (hk : ∀ y, AddsIn P y (k y)) : AddsIn P x (r.bind k) := by
  cases r with
  | error t => exact h
  | ok y =>
      have hky := hk y
      show AddsIn P x (k y)
      cases hr : k y with
      | ok z =>
          rw [hr] at hky
          exact Adds.trans h hky
      | error t =>
          rw [hr] at hky
          exact Adds.trans h hky

theorem addsIn_foldlM {α : Type} {f : Core → α → Except Thrown Core} : ∀ {as : List α} {x : Core},
    (∀ a ∈ as, ∀ y, AddsIn P y (f y a)) → AddsIn P x (as.foldlM f x)
  | [], x, _ => Adds.none rfl
  | a :: as, x, h => by
      rw [List.foldlM_cons]
      exact (h a List.mem_cons_self x).bind fun y =>
        addsIn_foldlM fun b hb => h b (List.mem_cons_of_mem _ hb)

theorem fire_adds {e : NodeEvent} (hP : ∀ st, P (.illegal id st e)) : AddsIn P x (x.fire id e) := by
  cases h : nodeStateMachine.transitions (x.status id) e with
  | some st =>
      rw [Core.fire_ok x id st h]
      exact Adds.none (List.append_nil _)
  | none =>
      rw [Core.fire_error x id h]
      exact Adds.one rfl (hP _)

theorem unblamed_illegal (st : NodeStatus) (e : NodeEvent) : Unblamed (.illegal id st e) := by
  intro _ _ _ h
  cases h

theorem markSkipped_adds {reason : String} (hP : P (.event (.nodeSkipped id reason)))
    (hill : ∀ st, P (.illegal id st .skip)) : AddsIn P x (markSkipped x id reason) := by
  unfold markSkipped
  exact (fire_adds hill).bind fun y => Adds.one rfl hP

theorem cascadeSkip_adds : ∀ {fuel : Nat} {x : Core} {id : NodeId},
    AddsIn Unblamed x (cascadeSkip c fuel x id)
  | 0, x, id => Adds.none rfl
  | fuel + 1, x, id => by
      unfold cascadeSkip
      refine addsIn_foldlM fun other _ y => ?_
      split_ifs
      · refine AddsIn.bind (markSkipped_adds (fun _ n b h => ?_) fun st => unblamed_illegal st .skip)
          fun z => cascadeSkip_adds
        exact dependencyReason_ne id (WorkflowEvent.nodeSkipped.inj (Obs.event.inj h)).2
      · exact Adds.none rfl

/-- Skips of `ids` in the name of `n`, and nothing else in anybody's name. -/
def BlamesOn (n : WorkflowNode) (chosen : Branch) (ids : List NodeId) (o : Obs) : Prop :=
  Unblamed o ∨ ∃ id ∈ ids, o = .event (.nodeSkipped id (skipReason n chosen))

theorem conclude_adds {n : WorkflowNode} {cond : ConditionSpec} {source : NodeResult} {pc : FlightPc}
    (h : conclude c x n cond source = (y, pc)) :
    Adds (BlamesOn n (matchCondition cond source).1 (unchosen cond (matchCondition cond source).1))
      x y := by
  have hloop : AddsIn (BlamesOn n (matchCondition cond source).1
      (unchosen cond (matchCondition cond source).1)) x
      ((unchosen cond (matchCondition cond source).1).foldlM
        (fun s id => skipNode c s id (skipReason n (matchCondition cond source).1)) x) := by
    refine addsIn_foldlM fun id hid z => ?_
    unfold skipNode
    split_ifs
    · exact Adds.none rfl
    · exact AddsIn.bind (markSkipped_adds (.inr ⟨id, hid, rfl⟩) fun st =>
        .inl (unblamed_illegal st .skip)) fun z => cascadeSkip_adds.mono fun _ => .inl
  unfold conclude at h
  dsimp only at h
  split at h
  · rename_i hr
    cases h
    rw [hr] at hloop
    exact hloop
  · rename_i hr
    cases h
    rw [hr] at hloop
    exact hloop

theorem promoteReady_adds : Adds Unblamed x (promoteReady c x) := by
  have hnode : ∀ z n, Adds Unblamed z (promoteNode z n) := by
    intro z n
    unfold promoteNode
    split_ifs
    · have hfire : AddsIn Unblamed z (z.fire n.id .prepare) :=
        fire_adds fun st => unblamed_illegal st .prepare
      split
      · rename_i z' hz
        rw [hz] at hfire
        exact Adds.trans hfire (.one rfl fun _ _ _ h => by cases h)
      · rename_i t hz
        rw [hz] at hfire
        exact hfire
    · exact .none rfl
  unfold promoteReady
  induction c.graph generalizing x with
  | nil => exact .none rfl
  | cons n rest ih => exact (hnode x n).trans ih

theorem cancelAll_adds {reason : String} : Adds Unblamed x (cancelAll c x reason) := by
  have hloop : Adds Unblamed x (c.graph.foldl (cancelNode reason) x) := by
    induction c.graph generalizing x with
    | nil => exact .none rfl
    | cons n rest ih =>
        refine Adds.trans ?_ ih
        unfold cancelNode
        split_ifs
        · exact .none rfl
        · exact .one rfl fun _ _ _ h => by cases h
  exact hloop.trans (.one rfl fun _ _ _ h => by cases h)

theorem ActObs.unblamed {o : Obs} (h : ActObs c s l o) : Unblamed o := by
  rintro id n b rfl
  cases h with
  | row hf hrow =>
      cases hrow with
      | head hhead => cases hhead
      | tail htail => cases htail
  | head _ hhead => cases hhead
  | tail _ htail => cases htail

theorem IsNote.unblamed {e : WorkflowEvent} (he : IsNote e) : Unblamed (.event e) := by
  rintro id n b ⟨⟩
  exact he

theorem Loop.unblamed (h : Loop c s s') : Adds Unblamed s.core s'.core := by
  cases h with
  | cancels hc he => exact cancelAll_adds.trans (.one rfl he.unblamed)
  | finishes hc hr he => exact .one rfl he.unblamed
  | enqueues => exact .none rfl

theorem DriveMove.unblamed (h : DriveMove c s s') : Adds Unblamed s.core s'.core := by
  cases h with
  | starts hd h => exact promoteReady_adds.trans h.unblamed
  | loops hd hall h => exact h.unblamed
  | emits hd | enqueues hd => exact .one rfl (IsNote.unblamed trivial)
  | aborts | dispatches | resolves => exact .none rfl

theorem WorkerMove.unblamed {i : Nat} {a : Answer} (hS : State.Sound c s)
    (hnd : (c.graph.map (·.id)).Nodup) (h : WorkerMove c s i a s') :
    Adds Unblamed s.core s'.core := by
  obtain ⟨y, hact, hy⟩ := h.act hS hnd
  have hadds : Adds Unblamed s.core y := hact.adds.mono fun _ => ActObs.unblamed
  rcases hy with hy | hy
  · rw [hy]
    exact hadds
  · rw [hy]
    exact hadds.trans promoteReady_adds

theorem flightStep_blames {key : String} {a : Answer} (hS : Core.Sound c s.core)
    (h : flightStep c s.core key a = some y) : Adds Unblamed s.core y ∨
      ∃ n cond source, Concludes s (.flight key a) n cond source ∧ Adds (BlamesOn n
        (matchCondition cond source).1 (unchosen cond (matchCondition cond source).1)) s.core y := by
  unfold flightStep at h
  split at h
  · cases h
  · rename_i f hf
    split at h
    · cases h
      exact .inl (.none rfl)
    · obtain ⟨⟨z, pc⟩, hnext, rfl⟩ := Option.map_eq_some_iff.mp h
      obtain ⟨z₁, hrow, hend⟩ := flightNext_ends (hS.flight key f hf).2.2 hnext
      have hadds : Adds Unblamed s.core z₁ :=
        hrow.adds.mono fun o ho => ActObs.unblamed (.row (c := c) hf ho)
      rcases hend with rfl | ⟨cond, source, hkind, hcond, hsource, hconc⟩
      · exact .inl hadds
      · exact .inr ⟨f.node, cond, source, ⟨key, f, _, rfl, hf, rfl, hkind, hcond, hsource⟩,
          (hadds.mono fun _ => .inl).trans ((conclude_adds hconc).trans (.none rfl))⟩

/-- **A node is skipped in the name of a conditional when that conditional comes to a verdict**,
    and only if it is in the branch not chosen. -/
theorem step_skips {n : WorkflowNode} {chosen : Branch} (hnd : (c.graph.map (·.id)).Nodup)
    (hS : State.Sound c s) (hs : step c s l = some s')
    (hm : .event (.nodeSkipped id (skipReason n chosen)) ∈ s'.core.trace) :
    .event (.nodeSkipped id (skipReason n chosen)) ∈ s.core.trace ∨
      ∃ m cond source, Concludes s l m cond source ∧ n.id = m.id ∧
        chosen = (matchCondition cond source).1 ∧ id ∈ branchNodes cond chosen.other := by
  have hquiet : Adds Unblamed s.core s'.core →
      .event (.nodeSkipped id (skipReason n chosen)) ∈ s.core.trace := fun h =>
    (h.mem hm).resolve_right fun hu => hu id n chosen rfl
  cases l with
  | drive => exact .inl (hquiet (driveStep_move hs).unblamed)
  | worker i a => exact .inl (hquiet ((workerStep_move hs).unblamed hS hnd))
  | flight key a =>
      obtain ⟨y, hy, rfl⟩ := Option.map_eq_some_iff.mp hs
      rcases flightStep_blames hS.core hy with h | ⟨m, cond, source, hconc, h⟩
      · exact .inl (hquiet h)
      · refine (h.mem hm).imp_right ?_
        rintro (hu | ⟨id', hid', heq⟩)
        · exact absurd rfl (hu id n chosen)
        · obtain ⟨rfl, hreason⟩ := WorkflowEvent.nodeSkipped.inj (Obs.event.inj heq)
          obtain ⟨hnm, rfl⟩ := skipReason_inj hreason
          exact ⟨m, cond, source, hconc, hnm, rfl, unchosen_eq ▸ hid'⟩
  | late call o =>
      obtain ⟨y, hy, rfl⟩ := Option.map_eq_some_iff.mp hs
      unfold lateStep at hy
      split at hy
      · cases hy
      · cases hy
        exact .inl (hquiet (.one rfl fun _ _ _ h => by cases h))
  | redeliver j at_ =>
      obtain ⟨job, -, rfl⟩ := Option.map_eq_some_iff.mp hs
      exact .inl hm
  | cancel reason =>
      cases hs
      exact .inl hm
  | world w =>
      cases hs
      exact .inl hm

end Skips

/-! ## 4. The verdict a conditional is committed to -/

/-- The conditional has come to the result `r`: its execution waits for the last persist, the store
    holds the result, or it is recorded. -/
def Chosen (c : Context) (s : Core) (n : WorkflowNode) (r : NodeResult) : Prop :=
  (∃ key f, s.store.inFlight key = some f ∧ f.node = n ∧ (f.pc = .judged r ∨ f.pc = .verified r)) ∨
  s.store.completed (keyOf c n) = some r ∨
  ∃ op key, .event (.nodeCompleted n.id r op key) ∈ s.trace

section Verdicts

variable {c : Context} {s s' : State} {x y : Core} {l : Label} {n : WorkflowNode}
  {cond : ConditionSpec} {r : NodeResult}

theorem Row.chosen {f : Flight} {a : Answer} {pc' : FlightPc} (hkind : f.node.kind = .conditional)
    (hcond : f.node.condition = some cond) (hrow : Row c x f f.pc a y pc')
    (h : pc' = .judged r ∨ pc' = .verified r) : f.pc = .judged r ∨ f.pc = .verified r ∨
      ∃ source, verdictSource x f cond f.pc a = some source ∧ r = conditionResult f.node cond source := by
  generalize hpc : f.pc = pc at hrow
  cases hrow with
  | @concludes _ _ _ obs cond' source hkind' hcond' hsrc hpc' =>
      obtain rfl : cond = cond' := Option.some.inj (hcond.symm.trans hcond')
      refine .inr (.inr ⟨source, ?_, ?_⟩)
      · rcases hsrc with ⟨rfl, rfl, -, haction, hsource⟩ | ⟨_, _, _, rfl, rfl, -⟩
        · simp only [verdictSource, haction]
          exact hsource
        · rfl
      · rcases hpc' with rfl | ⟨e, rfl⟩
        · rcases h with h | h <;> cases h
          rfl
        · rcases h with h | h <;> cases h
  | approved hkind' =>
      rw [hkind] at hkind'
      cases hkind'
  | settles hpc' =>
      rcases hpc' with ⟨_, -, -, -, hno⟩ | ⟨_, -, -, rfl, -⟩ | ⟨_, -, rfl⟩
      · rcases hno with hno | hno
        · exact absurd hkind hno
        · rw [hcond] at hno
          cases hno
      · rcases h with h | h <;> cases h
      · rcases h with h | h <;> cases h
  | verifies =>
      rcases h with h | h <;> cases h
      exact .inl rfl
  | _ => rcases h with h | h <;> cases h

/-- **A conditional commits itself to a result where it comes to its verdict.** -/
theorem Act.chosen (hnd : (c.graph.map (·.id)).Nodup) (hk : DistinctKeys c) (hS : Core.Sound c s.core) (hn : n ∈ c.graph)
    (hkind : n.kind = .conditional) (hcond : n.condition = some cond) (ha : Act c s l y)
    (h : Chosen c y n r) : Chosen c s.core n r ∨
      ∃ source, Concludes s l n cond source ∧ r = conditionResult n cond source := by
  rcases h with ⟨key, f, hf, hfn, hpc⟩ | hr | ⟨op, key, hm⟩
  · have hold : s.core.store.inFlight key = some f → Chosen c s.core n r := fun hf =>
      .inl ⟨key, f, hf, hfn, hpc⟩
    cases ha with
    | idle | completes | endRefused | late | world => exact .inl (hold hf)
    | @flight k g a z pc hg hrow =>
        rw [Core.setFlight_inFlight] at hf
        split_ifs at hf with hkk
        · cases hf
          cases hfn
          rcases hrow.chosen (f := g) hkind hcond hpc with hpc | hpc | ⟨source, hsource, rfl⟩
          · exact .inl (.inl ⟨k, g, hg, rfl, .inl hpc⟩)
          · exact .inl (.inl ⟨k, g, hg, rfl, .inr hpc⟩)
          · exact .inr ⟨source, ⟨k, g, a, rfl, hg, rfl, hkind, hcond, hsource⟩, rfl⟩
        · rw [hrow.own.store] at hf
          exact .inl (hold hf)
    | settles =>
        simp only [IdempotencyStore.settle] at hf
        split_ifs at hf
        exact .inl (hold hf)
    | @begins i m job s₀ hh =>
        rw [Core.setFlight_inFlight] at hf
        split_ifs at hf
        · cases hf
          rcases beginAttempt_row (s := s.core) (n := m) job with ⟨-, -, hran⟩ | ⟨-, e, hrej⟩
          · rcases hpc with hpc | hpc <;> cases hran.symm.trans hpc
          · rcases hpc with hpc | hpc <;> cases hrej.symm.trans hpc
        · rw [beginAttempt_own.store] at hf
          exact .inl (hold hf)
    | givesUp hw hm hend ht hcore hcaught hrow =>
        rw [hrow.own.store] at hf
        refine .inl (hold ?_)
        rcases hcore with rfl | rfl <;> exact hf
    | ending hw hm hend hrow =>
        rw [hrow.own.store] at hf
        exact .inl (hold hf)
  · refine .inl ?_
    cases ha with
    | idle | completes | endRefused | late | world => exact .inr (.inl hr)
    | flight hg hrow =>
        rw [Core.setFlight, IdempotencyStore.setInFlight, hrow.own.store] at hr
        exact .inr (.inl hr)
    | @settles key f r' hf hpc =>
        simp only [IdempotencyStore.settle] at hr
        split_ifs at hr with hkey
        · cases hr
          obtain ⟨hfn, hkey', -⟩ := hS.flight key f hf
          exact .inl ⟨key, f, hf, hk _ hfn _ hn (by rw [hkey', hkey]), .inr hpc⟩
        · exact .inr (.inl hr)
    | begins =>
        rw [Core.setFlight, IdempotencyStore.setInFlight, beginAttempt_own.store] at hr
        exact .inr (.inl hr)
    | givesUp hw hm hend ht hcore hcaught hrow =>
        rw [hrow.own.store] at hr
        refine .inr (.inl ?_)
        rcases hcore with rfl | rfl <;> exact hr
    | ending hw hm hend hrow =>
        rw [hrow.own.store] at hr
        exact .inr (.inl hr)
  · refine .inl ?_
    rcases ha.adds.mem hm with hm | hobs
    · exact .inr (.inr ⟨op, key, hm⟩)
    · obtain ⟨m, hm, hid, hr⟩ := hobs.completed
      obtain rfl := eq_of_id_eq hnd hm hn hid
      exact .inr (.inl hr)

theorem Touch.chosen {T : List NodeId} {q : Prop} (ht : Touch c T q x y) (h : Chosen c y n r) :
    Chosen c x n r := by
  have hstore := ht.sameRest.store
  rcases h with ⟨key, f, hf, hpc⟩ | hr | ⟨op, key, hm⟩
  · exact .inl ⟨key, f, hstore ▸ hf, hpc⟩
  · exact .inr (.inl (hstore ▸ hr))
  · rcases ht.adds.mem hm with hm | hobs
    · exact .inr (.inr ⟨op, key, hm⟩)
    · cases hobs with
      | note he => exact he.elim

theorem step_chosen (hnd : (c.graph.map (·.id)).Nodup) (hk : DistinctKeys c) (hS : State.Sound c s)
    (hn : n ∈ c.graph) (hkind : n.kind = .conditional) (hcond : n.condition = some cond)
    (hs : step c s l = some s') (h : Chosen c s'.core n r) : Chosen c s.core n r ∨
      ∃ source, Concludes s l n cond source ∧ r = conditionResult n cond source := by
  refine (step_core hS hnd hs).keeps (I := fun z => Chosen c z n r → Chosen c s.core n r ∨
      ∃ source, Concludes s l n cond source ∧ r = conditionResult n cond source) hnd hS.core
    (fun z ha => ha.chosen hnd hk hS.core hn hkind hcond)
    (fun z z' T q _ _ hz ht hz' => hz (ht.chosen hz')) (fun z id st _ hz hz' => hz ?_) h
  rcases hz' with hf | hr | ⟨op, key, hm⟩
  · exact .inl hf
  · exact .inr (.inl hr)
  · refine .inr (.inr ⟨op, key, ?_⟩)
    rcases List.mem_append.mp hm with hm | hm
    · exact hm
    · cases List.mem_singleton.mp hm

theorem Concludes.mem {source : NodeResult} (hS : Core.Sound c s.core)
    (h : Concludes s l n cond source) : n ∈ c.graph := by
  obtain ⟨key, f, a, -, hf, rfl, -⟩ := h
  exact (hS.flight key f hf).1

theorem Concludes.condition {source : NodeResult} (h : Concludes s l n cond source) :
    n.condition = some cond := by
  obtain ⟨-, -, -, -, -, -, -, hcond, -⟩ := h
  exact hcond

theorem Concludes.source_unique {source source' : NodeResult} (h : Concludes s l n cond source)
    (h' : Concludes s l n cond source') : source = source' := by
  obtain ⟨key, f, a, rfl, hf, -, -, -, hsource⟩ := h
  obtain ⟨key', f', a', hl, hf', -, -, -, hsource'⟩ := h'
  obtain ⟨rfl, rfl⟩ := Label.flight.inj hl
  obtain rfl := Option.some.inj (hf.symm.trans hf')
  exact Option.some.inj (hsource.symm.trans hsource')

/-- Where a conditional comes to a verdict it has committed itself to nothing in this process. -/
theorem Concludes.fresh {source : NodeResult} (hS : Core.Sound c s.core)
    (h : Concludes s l n cond source) (hc : Chosen c s.core n r) :
    ∃ op key, .event (.nodeCompleted n.id r op key) ∈ s.core.trace := by
  obtain ⟨key, f, a, rfl, hf, rfl, hkind, hcond, hsource⟩ := h
  have hkey := (hS.flight key f hf).2.1
  rcases hc with ⟨key', g, hg, hgn, hpc⟩ | hr | hm
  · have hkey' := (hS.flight key' g hg).2.1
    rw [hgn, hkey] at hkey'
    subst hkey'
    rw [hf] at hg
    cases hg
    rcases hpc with hpc | hpc <;> (rw [hpc] at hsource; cases hsource)
  · have hnone := hS.excl key f hf
    rw [← hkey, hr] at hnone
    cases hnone
  · exact hm

end Verdicts

/-! ## 5. Every step -/

/-- The branch a conditional is committed to is not skipped in its name. -/
def BranchSafe (c : Context) (s : Core) : Prop :=
  ∀ n ∈ c.graph, n.kind = .conditional → ∀ cond, n.condition = some cond → BranchesApart cond →
    ∀ r b, Chosen c s n r → NamesBranch r b → Unskipped n cond b s.trace

section Safe

variable {c : Context} {s s' : State} {l : Label}

/-- **A consistent step keeps it.** -/
theorem BranchSafe.step (hnd : (c.graph.map (·.id)).Nodup) (hk : DistinctKeys c)
    (hS : State.Sound c s) (h : BranchSafe c s.core) (hok : Consistent s l)
    (hs : step c s l = some s') : BranchSafe c s'.core := by
  intro n hn hkind cond hcond hapart r b hc hb id hid chosen hm
  have hold := step_chosen hnd hk hS hn hkind hcond hs hc
  rcases step_skips hnd hS hs hm with hm | ⟨m, cond', source', hconc, hnm, rfl, hid'⟩
  · -- the skip is old: it contradicts the commitment, or the verdict of this step
    rcases hold with hc | ⟨source, hconc, rfl⟩
    · exact h n hn hkind cond hcond hapart r b hc hb id hid chosen hm
    · obtain rfl := (conditionResult_names source).unique hb
      exact (hok n cond source hconc).1 id hid chosen hm
  · -- the skip is new: the conditional has come to its verdict in this step
    obtain rfl := eq_of_id_eq hnd hn (hconc.mem hS.core) hnm
    obtain rfl : cond = cond' := Option.some.inj (hcond.symm.trans hconc.condition)
    have hother := hapart.ne hid hid'
    rcases hold with hc | ⟨source, hconc', rfl⟩
    · obtain ⟨op, key, hdone⟩ := hconc.fresh hS.core hc
      exact Branch.other_ne _ (hother.symm.trans ((hok n cond source' hconc).2 r op key hdone b hb))
    · obtain rfl := hconc.source_unique hconc'
      obtain rfl := (conditionResult_names source').unique hb
      exact Branch.other_ne _ hother.symm

theorem run_branchSafe {s₀ : State} {ls : List Label} (hnd : (c.graph.map (·.id)).Nodup)
    (hk : DistinctKeys c) (hS : State.Sound c s₀) (h₀ : BranchSafe c s₀.core)
    (h : Run (step c) Consistent s₀ ls s) : BranchSafe c s.core := by
  refine (Run.invariant (I := fun s => State.Sound c s ∧ BranchSafe c s.core) ⟨hS, h₀⟩ ?_ h).2
  exact fun s l s' hI hok hs => ⟨hI.1.step hnd hs, hI.2.step hnd hk hI.1 hok hs⟩

end Safe

/-! ## 6. Every life -/

section Lives

variable {c : Context} {s s₀ : State} {w : World} {cut : List WorkflowEvent}
  {jobs : List WorkflowJob}

/-- A snapshot's result is the one of a recorded completion of its node. -/
theorem scan_results {sc : Scan} (hs : scan (ledgerEvents c cut) = .ok sc) :
    ∀ snap ∈ sc.snapshots, ∀ r, snap.result = some r →
      ∃ op key, .nodeCompleted snap.nodeId r op key ∈ cut := by
  refine scan_all (fun id r hr => by cases hr) (fun e he snap snap' hid hP hw r hr => ?_) hs
  rw [snapshotWrite_nodeId hw]
  cases e <;> simp only [WorkflowEvent.type, snapshotWrite, Option.some.injEq, reduceCtorEq] at hw <;>
    subst hw <;> first | exact hP r hr | skip
  cases hid
  cases hr
  exact ⟨_, _, he⟩

/-- Hydrating skips nothing in the name of a conditional. -/
theorem hydrate_unblamed {trace : List Obs} {events : List LedgerEventLike} {core : Core}
    (h : hydrate c.toOptions w trace events = .ok (c, core)) {o : Obs} (ho : o ∈ core.trace) :
    o ∈ trace ∨ Unblamed o := by
  obtain ⟨sc, graph, mid, hsc, -, -, hcasc, rfl⟩ := hydrate_eq_ok h
  have hadds : AddsIn Unblamed (restore c sc.snapshots (Core.fresh w trace))
      (cascadeSkipped c (restore c sc.snapshots (Core.fresh w trace))) := by
    unfold cascadeSkipped
    refine addsIn_foldlM fun n _ y => ?_
    split_ifs
    · exact cascadeSkip_adds
    · exact Adds.none rfl
  rw [hcasc] at hadds
  have hall : Adds Unblamed (restore c sc.snapshots (Core.fresh w trace)) mid := hadds
  refine ((hall.trans promoteReady_adds).mem ho).imp_left fun ho => ?_
  rw [(restore_frame sc.snapshots _).trace] at ho
  exact ho

/-- A result the rebuilt process is committed to has been recorded. -/
theorem State.resumed.chosen (hnd : (c.graph.map (·.id)).Nodup) (hk : DistinctKeys c)
    (hjobs : JobsOf c jobs) (h : State.resumed c w cut jobs s₀) {n : WorkflowNode} {r : NodeResult}
    (hn : n ∈ c.graph) (hc : Chosen c s₀.core n r) : ∃ op key, .nodeCompleted n.id r op key ∈ cut := by
  have hb := h.begins hjobs
  obtain ⟨core, hh, rfl⟩ := h
  obtain ⟨sc, hsc, -, hsp⟩ := hydrate_spread hh
  rcases hc with ⟨key, f, hf, -⟩ | hr | ⟨op, key, hm⟩
  · cases (hb.still hnd key).symm.trans hf
  · have hstore : core.store.completed (keyOf c n) = some r := hr
    rw [hsp.sameRest.store] at hstore
    rcases restore_stored _ hstore with hr | ⟨snap, hsnap, m, hby, hkey, -, hres⟩
    · cases hr
    · obtain ⟨hm, hid⟩ := mem_of_nodeById hby
      obtain rfl := hk _ hm _ hn hkey
      rw [hid]
      exact scan_results hsc snap hsnap r hres
  · rcases hsp.adds.mem hm with hm | hobs
    · rw [(restore_frame sc.snapshots _).trace] at hm
      obtain ⟨e, he, heq⟩ := List.mem_map.mp hm
      cases heq
      exact ⟨op, key, he⟩
    · cases hobs with
      | note he => exact he.elim

theorem BranchSafe.resumed (hnd : (c.graph.map (·.id)).Nodup) (hk : DistinctKeys c)
    (h : BranchSafe c s.core) (hcut : cut <+: ledgerOf s.core.trace) (hjobs : JobsOf c jobs)
    (hs₀ : State.resumed c w cut jobs s₀) : BranchSafe c s₀.core := by
  have hold : ∀ e ∈ cut, .event e ∈ s.core.trace := fun e he => mem_ledgerOf.mp (hcut.subset he)
  intro n hn hkind cond hcond hapart r b hc hb id hid chosen hm
  obtain ⟨op, key, hdone⟩ := hs₀.chosen hnd hk hjobs hn hc
  refine h n hn hkind cond hcond hapart r b (.inr (.inr ⟨op, key, hold _ hdone⟩)) hb id hid chosen ?_
  obtain ⟨core, hh, rfl⟩ := hs₀
  rcases hydrate_unblamed hh hm with hm | hu
  · obtain ⟨e, he, heq⟩ := List.mem_map.mp hm
    cases heq
    exact hold _ he
  · exact absurd rfl (hu id n chosen)

/-- **A conditional never loses the branch it has chosen**, over every run, every crash and every
    redelivery whose steps are consistent. -/
theorem branches_kept (hv : validateGraph c.graph = .ok ()) (hk : NoCollision c)
    (h : Lives c Consistent (JobsOf c) s) : BranchesKept c s.core.trace := by
  have hnd := validateGraph_nodup hv
  have hkeys := hk.distinctKeys hnd
  have hsafe : State.Sound c s ∧ BranchSafe c s.core := by
    refine h.invariant (I := fun s => State.Sound c s ∧ BranchSafe c s.core)
      (fun w => ⟨initial_sound w, fun n _ _ cond _ _ r b _ _ id _ chosen hm => ?_⟩)
      (fun hI hr => ⟨run_sound hnd hI.1 hr, run_branchSafe hnd hkeys hI.1 hI.2 hr⟩)
      fun hI hcut hjobs hs₀ => ⟨(hs₀.begins hjobs).sound hnd, hI.2.resumed hnd hkeys hcut hjobs hs₀⟩
    cases List.mem_singleton.mp hm
  intro n hn hkind cond hcond hapart r op key hdone b hb
  exact hsafe.2 n hn hkind cond hcond hapart r b (.inr (.inr ⟨op, key, hdone⟩)) hb

end Lives

/-- A check with a handler of its own, and one node for each verdict. -/
def checkNode : WorkflowNode :=
  { id := "check", kind := .conditional, action := some "ci.check", deps := []
    condition := some ⟨.verdict "check" .success, ["ship"], some ["report"]⟩ }

/-- The one way. -/
def shipNode : WorkflowNode :=
  { id := "ship", kind := .action, action := some "ship", deps := ["check"] }

/-- The other way. -/
def reportNode : WorkflowNode :=
  { id := "report", kind := .action, action := some "report", deps := ["check"] }

/-- A check, and what hangs on it. -/
def checkContext : Context :=
  { limits := defaultBulkhead, compensations := .empty, sha256 := fun s => s
    runId := "run", taskId := "task", graph := [checkNode, shipNode, reportNode] }

/-- Nothing needs approval, and no guard stops anything. -/
def silentWorld : World := ⟨fun _ => false, fun _ _ _ => none⟩

/-- Enqueue, dispatch, dequeue, and the execution of the check, whose handler answers `st`. -/
def checkRun (st : ResultStatus) : List Label :=
  [.drive, .drive, .drive, .worker 0 .tick] ++
    [.tick, .run (.resolved ⟨st, .obj [], []⟩), .tick, .tick].map
      (.flight (keyOf checkContext checkNode)) ++ [.worker 0 .tick]

/-- Nothing has been completed or passed over. -/
def verdictFree (trace : List Obs) : Bool :=
  trace.all fun
    | .event (.nodeSkipped ..) | .event (.nodeCompleted ..) => false
    | _ => true

/-- The guard, to be computed: no verdict falls where one has fallen before. -/
def consistentCheck (s : State) : Label → Bool
  | .flight key a => (s.core.store.inFlight key).all fun f =>
      f.node.condition.all fun cond =>
        (verdictSource s.core f cond f.pc a).isNone || verdictFree s.core.trace
  | _ => true

theorem consistent_of_check (s : State) (l : Label) (h : consistentCheck s l = true) :
    Consistent s l := by
  rintro n cond source ⟨key, f, a, rfl, hf, rfl, -, hcond, hsource⟩
  simp only [consistentCheck, hf, Option.all_some, hcond, hsource, Option.isNone_some,
    Bool.false_or] at h
  refine ⟨fun id _ chosen hm => ?_, fun r op key hm => ?_⟩
  · cases List.all_eq_true.mp h _ hm
  · cases List.all_eq_true.mp h _ hm

/-- The check completes in one process, the next one resumes from the whole ledger. -/
theorem branches_kept_check : ∃ s, Lives checkContext Consistent (JobsOf checkContext) s ∧
    BranchesKept checkContext s.core.trace := by
  obtain ⟨s, hs, hcut⟩ := Option.map_eq_some_iff.mp (show (exec (fun s l =>
    if consistentCheck s l then step checkContext s l else none)
    (.initial checkContext silentWorld) (checkRun .success)).map (fun s => ledgerOf s.core.trace) =
      some (ledgerAfter checkContext silentWorld (checkRun .success)) by rfl)
  have hlife : Lives checkContext Consistent (JobsOf checkContext) (.launch (rebuilt checkContext
      silentWorld (ledgerAfter checkContext silentWorld (checkRun .success))) []) :=
    .again (.first (run_of_exec_check consistent_of_check hs)) (hcut ▸ List.prefix_refl _)
      (fun _ hj => by cases hj) (rebuilt_resumed [] rfl) .start
  exact ⟨_, hlife, branches_kept (by rfl) (fun _ _ _ _ h => h) hlife⟩

/-- The event completes the node on this branch. -/
def namesCheck (id : NodeId) (b : Branch) : Obs → Bool
  | .event (.nodeCompleted id' r _ _) =>
      id' = id && match getPath r.output "branch" with
        | some (.str text) => text = b.text
        | _ => false
  | _ => false

/-- The event passes the node over for this reason. -/
def skippedCheck (id : NodeId) (reason : String) : Obs → Bool
  | .event (.nodeSkipped id' reason') => id' = id && reason' = reason
  | _ => false

/-- Whether a trace completes `n` with the branch `b` and skips the node `id` in its name, because
    it chose `chosen`. -/
def lostBranch (n : WorkflowNode) (b chosen : Branch) (id : NodeId) (trace : List Obs) : Bool :=
  trace.any (namesCheck n.id b) && trace.any (skippedCheck id (skipReason n chosen))

theorem not_branchesKept_of_lostBranch {c : Context} {n : WorkflowNode} {cond : ConditionSpec}
    {b chosen : Branch} {id : NodeId} {trace : List Obs} (hn : n ∈ c.graph)
    (hkind : n.kind = .conditional) (hcond : n.condition = some cond) (hapart : BranchesApart cond)
    (hid : id ∈ branchNodes cond b) (h : lostBranch n b chosen id trace = true) :
    ¬ BranchesKept c trace := by
  intro hkept
  obtain ⟨hdone, hskip⟩ := Bool.and_eq_true_iff.mp h
  obtain ⟨o, ho, hnames⟩ := List.any_eq_true.mp hdone
  obtain ⟨o', ho', hskipped⟩ := List.any_eq_true.mp hskip
  unfold namesCheck at hnames
  split at hnames
  · obtain ⟨hid', hb⟩ := Bool.and_eq_true_iff.mp hnames
    cases of_decide_eq_true hid'
    split at hb
    · rename_i text htext
      cases of_decide_eq_true hb
      unfold skippedCheck at hskipped
      split at hskipped
      · obtain ⟨hid'', hr⟩ := Bool.and_eq_true_iff.mp hskipped
        cases of_decide_eq_true hid''
        cases of_decide_eq_true hr
        exact hkept n hn hkind cond hcond hapart _ _ _ ho b htext id hid chosen ho'
      · cases hskipped
    · cases hb
  · cases hnames

/-- The process dies when the report has been skipped; in the next one the handler answers
    'failure', and the ship node is skipped as well. -/
theorem both_branches_lost : validateGraph checkContext.graph = .ok () ∧ NoCollision checkContext ∧
    ∃ s, Lives checkContext (fun _ _ => True) (JobsOf checkContext) s ∧
      ¬ BranchesKept checkContext s.core.trace := by
  obtain ⟨s, hs, hcut⟩ : ∃ s, exec (step checkContext) (.initial checkContext silentWorld)
      ((checkRun .success).take 6) = some s ∧ ledgerOf s.core.trace =
      ledgerAfter checkContext silentWorld ((checkRun .success).take 6) :=
    exec_ledgerAfter (by decide)
  obtain ⟨s', hs', hlost⟩ := Option.map_eq_some_iff.mp (show (exec (step checkContext)
    (.launch (rebuilt checkContext silentWorld
      (ledgerAfter checkContext silentWorld ((checkRun .success).take 6))) []) (checkRun .failure)).map
      (fun s => lostBranch checkNode .elseBranch .thenBranch "report" s.core.trace) =
        some true by decide)
  refine ⟨rfl, fun _ _ _ _ h => h, s', ?_, not_branchesKept_of_lostBranch
    List.mem_cons_self rfl rfl (by decide) List.mem_cons_self hlost⟩
  exact .again (.first (run_of_exec (fun _ _ => trivial) hs)) (hcut ▸ List.prefix_refl _)
    (fun _ hj => by cases hj) (rebuilt_resumed [] rfl) (run_of_exec (fun _ _ => trivial) hs')

end AgentKernel.Orchestrator
