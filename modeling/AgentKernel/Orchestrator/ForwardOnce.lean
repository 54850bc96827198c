/-
  File:      AgentKernel/Orchestrator/ForwardOnce.lean
  Subject:   The forward action of a node is called again only after its earlier calls have
             settled without success.

  The idempotency store lets one execution start under a key; inside it the retry loop calls the
  handler again. A timeout ends an attempt while its call is pending, and a conditional whose
  skipping throws ends one after a success. `SpentFirst` is the condition on the step at which
  the loop decides to try again; **`forward_once`** is the property of the runs that meet it.
-/
import AgentKernel.Orchestrator.Start

namespace AgentKernel.Orchestrator

open Lib

/-! ## 1. The property and its condition -/

/-- The call has settled, and not with status 'success'. -/
def Spent (past : List Obs) (call : Nat) (id : NodeId) : Prop :=
  (∃ o, .settled call id .forward o ∈ past) ∧
    ∀ r, .settled call id .forward (.resolved r) ∈ past → r.status ≠ .success

/-- Every forward call of the node is spent. -/
def AllSpent (past : List Obs) (id : NodeId) : Prop :=
  ∀ call action input flag, .called call id .forward action input flag ∈ past → Spent past call id

/-- A forward call is made once the node's earlier ones are spent, and settles at most once. -/
def OneForward (past : List Obs) : Obs → Prop
  | .called _ id .forward _ _ _ => AllSpent past id
  | .settled call _ .forward _ => ∀ id o, .settled call id .forward o ∉ past
  | _ => True

/-- An attempt is tried again only when every forward call of its node is spent. -/
def SpentFirst (s : State) : Label → Prop
  | .flight key .tick => ∀ f e, s.core.store.inFlight key = some f → f.pc = .threw e →
      willRetry s.core f.node f.job.attempt e = true → AllSpent s.core.trace f.node.id
  | _ => True

/-! ## 2. Forward calls by name -/

/-- The forward call an observation is about. -/
def Obs.forward : Obs → Option Nat
  | .called call _ .forward _ _ _ => some call
  | .settled call _ .forward _ => some call
  | _ => none

/-- The places of an execution before its next forward call. -/
def BeforeCall : FlightPc → Prop
  | .ran | .waiting _ | .answered .. | .retrying => True
  | _ => False

/-- A forward call that has not settled: an execution waits for it, or its attempt timed out. -/
def Pending (s : Core) (call : Nat) : Prop :=
  (∃ key f action input, s.store.inFlight key = some f ∧ f.pc = .calling action input call) ∨
    ∃ id, (call, id) ∈ s.late

/-- What guarded runs keep: one forward call of a node at a time, and none while an earlier one
    may still succeed. -/
structure ForwardKept (c : Context) (s : Core) : Prop where
  once : Justified OneForward s.trace
  named : ∀ o ∈ s.trace, ∀ call, o.forward = some call → call < s.trace.length
  pending : ∀ call, Pending s call → call < s.trace.length ∧
    ∀ id o, .settled call id .forward o ∉ s.trace
  apart : ∀ key f action input call, s.store.inFlight key = some f →
    f.pc = .calling action input call →
    (∀ id, (call, id) ∉ s.late) ∧ ∀ key' f' action' input', s.store.inFlight key' = some f' →
      f'.pc = .calling action' input' call → key' = key
  spent : ∀ key f, s.store.inFlight key = some f → BeforeCall f.pc → AllSpent s.trace f.node.id
  unknown : ∀ n ∈ c.graph, ¬ Known s (keyOf c n) →
    ∀ call action input flag, .called call n.id .forward action input flag ∉ s.trace

section Keeps

variable {c : Context} {s y : Core} {obs : List Obs}

theorem Spent.append {past : List Obs} {call : Nat} {id : NodeId} (h : Spent past call id)
    (hno : ∀ id o, .settled call id .forward o ∉ obs) : Spent (past ++ obs) call id := by
  obtain ⟨⟨o, ho⟩, hs⟩ := h
  refine ⟨⟨o, List.mem_append_left _ ho⟩, fun r hr => ?_⟩
  rcases List.mem_append.mp hr with hr | hr
  · exact hs r hr
  · exact absurd hr (hno _ _)

/-- Entries that make no forward call and settle no spent one keep a node's calls spent. -/
theorem AllSpent.append {past : List Obs} {id : NodeId} (h : AllSpent past id)
    (hcalled : ∀ call action input flag, .called call id .forward action input flag ∉ obs)
    (hno : ∀ call, (∃ id o, .settled call id .forward o ∈ past) →
      ∀ id o, .settled call id .forward o ∉ obs) : AllSpent (past ++ obs) id := by
  intro call action input flag hc
  rcases List.mem_append.mp hc with hc | hc
  · have hs := h call action input flag hc
    exact hs.append (hno call ⟨id, hs.1⟩)
  · exact absurd hc (hcalled _ _ _ _)

/-- An entry that is about no forward call. -/
def Aside (o : Obs) : Prop := o.forward = none

theorem Aside.not_called {o : Obs} (h : Aside o) (call : Nat) (id : NodeId) (action : String)
    (input : Option Json) (flag : Bool) : o ≠ .called call id .forward action input flag := by
  rintro rfl
  cases h

theorem Aside.not_settled {o : Obs} (h : Aside o) (call : Nat) (id : NodeId) (r : RunOutcome) :
    o ≠ .settled call id .forward r := by
  rintro rfl
  cases h

theorem AllSpent.aside {past : List Obs} {id : NodeId} (h : AllSpent past id)
    (hobs : ∀ o ∈ obs, Aside o) : AllSpent (past ++ obs) id :=
  h.append (fun _ _ _ _ hm => (hobs _ hm).not_called _ _ _ _ _ rfl)
    fun _ _ _ _ hm => (hobs _ hm).not_settled _ _ _ rfl

theorem Aside.justified {o : Obs} (h : Aside o) (past : List Obs) : OneForward past o := by
  unfold OneForward
  split
  · cases h
  · cases h
  · trivial

/-- Writing no forward entry, and no new place of an execution that waits for one. -/
theorem ForwardKept.aside (h : ForwardKept c s) (htrace : y.trace = s.trace ++ obs)
    (hobs : ∀ o ∈ obs, Aside o) (hlate : y.late = s.late)
    (hknown : ∀ key, Known s key → Known y key)
    (hcalling : ∀ key f action input call, y.store.inFlight key = some f →
      f.pc = .calling action input call → s.store.inFlight key = some f)
    (hspent : ∀ key f, y.store.inFlight key = some f → BeforeCall f.pc →
      AllSpent s.trace f.node.id) : ForwardKept c y := by
  have hpend : ∀ call, Pending y call → Pending s call := by
    rintro call (⟨key, f, action, input, hf, hpc⟩ | hl)
    · exact .inl ⟨key, f, action, input, hcalling _ _ _ _ _ hf hpc, hpc⟩
    · exact .inr (by rw [← hlate]; exact hl)
  refine ⟨?_, fun o ho call hc => ?_, fun call hp => ?_, fun key f action input call hf hpc => ?_,
    fun key f hf hpc => ?_, fun n hn hk call action input flag hm => ?_⟩
  · rw [htrace]
    exact h.once.append fun o ho past => (hobs o ho).justified past
  · rw [htrace, List.length_append]
    rw [htrace] at ho
    rcases List.mem_append.mp ho with ho | ho
    · exact Nat.lt_add_right _ (h.named o ho call hc)
    · rw [hobs o ho] at hc
      cases hc
  · obtain ⟨hlt, hno⟩ := h.pending call (hpend call hp)
    rw [htrace, List.length_append]
    refine ⟨Nat.lt_add_right _ hlt, fun id o hm => ?_⟩
    rcases List.mem_append.mp hm with hm | hm
    · exact hno id o hm
    · exact (hobs _ hm).not_settled _ _ _ rfl
  · obtain ⟨hl, hap⟩ := h.apart key f action input call (hcalling _ _ _ _ _ hf hpc) hpc
    rw [hlate]
    exact ⟨hl, fun key' f' action' input' hf' hpc' =>
      hap key' f' action' input' (hcalling _ _ _ _ _ hf' hpc') hpc'⟩
  · rw [htrace]
    exact (hspent key f hf hpc).aside hobs
  · rw [htrace] at hm
    rcases List.mem_append.mp hm with hm | hm
    · exact h.unknown n hn (fun hk' => hk (hknown _ hk')) call action input flag hm
    · exact (hobs _ hm).not_called _ _ _ _ _ rfl

/-- The execution under `key` moves on to a place that waits for no forward call. -/
theorem ForwardKept.move {key : String} {g : Flight} (h : ForwardKept c s)
    (htrace : y.trace = s.trace ++ obs)
    (hobs : ∀ o ∈ obs, Aside o) (hlate : y.late = s.late) (hstore : y.store = s.store)
    (hcall : ∀ action input call, g.pc ≠ .calling action input call)
    (hspent : BeforeCall g.pc → AllSpent s.trace g.node.id) : ForwardKept c (y.setFlight key g) := by
  refine h.aside htrace hobs hlate (fun k hk => hk.setFlight hstore)
    (fun k g' action input call hg hpc => ?_) fun k g' hg hpc => ?_
  · rw [Core.setFlight_inFlight] at hg
    split_ifs at hg with hkk
    · cases hg
      exact absurd hpc (hcall _ _ _)
    · rw [← hstore]
      exact hg
  · rw [Core.setFlight_inFlight] at hg
    split_ifs at hg with hkk
    · cases hg
      exact hspent hpc
    · rw [hstore] at hg
      exact h.spent k g' hg hpc

/-! ## 3. Calling and settling -/

/-- The execution under `key` calls the handler. -/
theorem ForwardKept.call {key : String} {f : Flight} {action : String} {input : Option Json}
    {job : WorkflowJob} (hnd : (c.graph.map (·.id)).Nodup) (hS : Core.Sound c s)
    (h : ForwardKept c s)
    (hf : s.store.inFlight key = some f) (hb : BeforeCall f.pc) :
    ForwardKept c ((s.invoke f.node.id .forward action input).setFlight key
      { f with job := job, pc := .calling action input s.trace.length }) := by
  have hn := (hS.flight key f hf).1
  have hkey := (hS.flight key f hf).2.1
  have hlen : ∀ {call}, call < s.trace.length →
      call < (s.invoke f.node.id .forward action input).trace.length := by
    intro call hlt
    rw [Core.invoke, Core.observe_trace, List.length_append]
    exact Nat.lt_add_right _ hlt
  have hmem : ∀ {o : Obs}, o ∈ (s.invoke f.node.id .forward action input).trace ↔ o ∈ s.trace ∨
      o = .called s.trace.length f.node.id .forward action input (s.world.requiresApproval action) := by
    intro o
    rw [Core.invoke, Core.observe_trace, List.mem_append, List.mem_singleton]
  refine ⟨?_, fun o ho call hc => ?_, fun call hp => ?_, fun k g a i call hg hpc => ?_,
    fun k g hg hpc => ?_, fun n hn' hk call a i flag hm => ?_⟩
  · exact justified_snoc.mpr ⟨h.once, h.spent key f hf hb⟩
  · rcases hmem.mp ho with ho | rfl
    · exact hlen (h.named o ho call hc)
    · cases hc
      show _ < (s.trace ++ _).length
      simp
  · have hold : Pending s call ∨ call = s.trace.length := by
      rcases hp with ⟨k, g, a, i, hg, hpc⟩ | hl
      · rw [Core.setFlight_inFlight] at hg
        split_ifs at hg with hkk
        · cases hg
          cases hpc
          exact .inr rfl
        · exact .inl (.inl ⟨k, g, a, i, hg, hpc⟩)
      · exact .inl (.inr hl)
    rcases hold with hp | rfl
    · obtain ⟨hlt, hno⟩ := h.pending call hp
      refine ⟨hlen hlt, fun id o hm => ?_⟩
      rcases hmem.mp hm with hm | hm
      · exact hno id o hm
      · cases hm
    · refine ⟨?_, fun id o hm => ?_⟩
      · show _ < (s.trace ++ _).length
        simp
      · rcases hmem.mp hm with hm | hm
        · exact absurd (h.named _ hm _ rfl) (Nat.lt_irrefl _)
        · cases hm
  · rw [Core.setFlight_inFlight] at hg
    split_ifs at hg with hkk
    · cases hg
      cases hpc
      refine ⟨fun id hl => absurd (h.pending _ (.inr ⟨id, hl⟩)).1 (Nat.lt_irrefl _),
        fun k' g' a' i' hg' hpc' => ?_⟩
      rw [Core.setFlight_inFlight] at hg'
      split_ifs at hg' with hkk'
      · rw [hkk, hkk']
      · exact absurd (h.pending _ (.inl ⟨k', g', a', i', hg', hpc'⟩)).1 (Nat.lt_irrefl _)
    · obtain ⟨hl, hap⟩ := h.apart k g a i call hg hpc
      refine ⟨hl, fun k' g' a' i' hg' hpc' => ?_⟩
      rw [Core.setFlight_inFlight] at hg'
      split_ifs at hg' with hkk'
      · cases hg'
        cases hpc'
        exact absurd (h.pending _ (.inl ⟨k, g, a, i, hg, hpc⟩)).1 (Nat.lt_irrefl _)
      · exact hap k' g' a' i' hg' hpc'
  · rw [Core.setFlight_inFlight] at hg
    split_ifs at hg with hkk
    · cases hg
      cases hpc
    · obtain ⟨hm, hkeym, -⟩ := hS.flight k g hg
      -- two executions of one node have one key
      have hne : g.node.id ≠ f.node.id := fun hid => hkk (by
        rw [← hkeym, ← hkey, eq_of_id_eq hnd hm hn hid])
      show AllSpent (s.trace ++ [_]) g.node.id
      refine (h.spent k g hg hpc).append (fun call a i flag hm => ?_) fun call _ id o hm => ?_
      · have hid := (Obs.called.inj (List.mem_singleton.mp hm)).2.1
        exact hne hid
      · cases List.mem_singleton.mp hm
  · rcases hmem.mp hm with hm | hm
    · exact h.unknown n hn' (fun hk' => hk (hk'.setFlight rfl)) call a i flag hm
    · have hid := (Obs.called.inj hm).2.1
      refine hk ?_
      rw [eq_of_id_eq hnd hn' hn hid, hkey]
      exact known_setFlight _ _ _

/-- Call `call` settles; what waited for it no longer does. -/
theorem ForwardKept.settle {call : Nat} {id : NodeId} {o : RunOutcome} (h : ForwardKept c s)
    (hp : Pending s call) (htrace : y.trace = s.trace ++ [.settled call id .forward o])
    (hlate : y.late ⊆ s.late) (hgone : ¬ Pending y call)
    (hknown : ∀ key, Known s key → Known y key)
    (hcalling : ∀ key f action input call, y.store.inFlight key = some f →
      f.pc = .calling action input call → s.store.inFlight key = some f)
    (hspent : ∀ key f, y.store.inFlight key = some f → BeforeCall f.pc →
      s.store.inFlight key = some f) : ForwardKept c y := by
  obtain ⟨hlt, hno⟩ := h.pending call hp
  have hpend : ∀ k, Pending y k → Pending s k ∧ k ≠ call := by
    intro k hk
    refine ⟨?_, fun he => hgone (he ▸ hk)⟩
    rcases hk with ⟨key, f, action, input, hf, hpc⟩ | ⟨x, hl⟩
    · exact .inl ⟨key, f, action, input, hcalling _ _ _ _ _ hf hpc, hpc⟩
    · exact .inr ⟨x, hlate hl⟩
  refine ⟨?_, fun ob ho k hc => ?_, fun k hk => ?_, fun key f action input k hf hpc => ?_,
    fun key f hf hpc => ?_, fun n hn hk k action input flag hm => ?_⟩
  · rw [htrace]
    exact justified_snoc.mpr ⟨h.once, hno⟩
  · rw [htrace, List.length_append]
    rw [htrace] at ho
    rcases List.mem_append.mp ho with ho | ho
    · exact Nat.lt_add_right _ (h.named ob ho k hc)
    · rw [List.mem_singleton.mp ho] at hc
      cases hc
      exact Nat.lt_add_right _ hlt
  · obtain ⟨hps, hne⟩ := hpend k hk
    obtain ⟨hlt', hno'⟩ := h.pending k hps
    rw [htrace, List.length_append]
    refine ⟨Nat.lt_add_right _ hlt', fun x r hm => ?_⟩
    rcases List.mem_append.mp hm with hm | hm
    · exact hno' x r hm
    · exact hne (Obs.settled.inj (List.mem_singleton.mp hm)).1
  · obtain ⟨hl, hap⟩ := h.apart key f action input k (hcalling _ _ _ _ _ hf hpc) hpc
    exact ⟨fun x hx => hl x (hlate hx), fun key' f' action' input' hf' hpc' =>
      hap key' f' action' input' (hcalling _ _ _ _ _ hf' hpc') hpc'⟩
  · rw [htrace]
    refine (h.spent key f (hspent key f hf hpc) hpc).append (fun k a i flag hm => ?_)
      fun k hk x r hm => ?_
    · cases List.mem_singleton.mp hm
    · obtain ⟨x', r', hset⟩ := hk
      rw [(Obs.settled.inj (List.mem_singleton.mp hm)).1] at hset
      exact hno _ _ hset
  · rw [htrace] at hm
    rcases List.mem_append.mp hm with hm | hm
    · exact h.unknown n hn (fun hk' => hk (hknown _ hk')) k action input flag hm
    · cases List.mem_singleton.mp hm

end Keeps

/-! ## 4. Every act keeps it -/

section Acts

variable {c : Context} {s y : Core} {n : WorkflowNode} {error : String}

theorem headRow_aside {q : Bool} {pc : Option FailPc} (h : HeadRow c s n error q y pc) :
    y.late = s.late ∧ ∃ obs, y.trace = s.trace ++ obs ∧ ∀ o ∈ obs, Aside o := by
  cases h <;> exact ⟨rfl, _, rfl, by simp [Aside, Obs.forward]⟩

theorem sweepNext_aside {failed : NodeId} {ids : List NodeId} {pc : FailPc}
    (h : sweepNext c s failed ids = (y, pc)) :
    y.late = s.late ∧ ∃ obs, y.trace = s.trace ++ obs ∧ ∀ o ∈ obs, Aside o := by
  rcases sweepNext_cases h with ⟨rfl, -⟩ | ⟨_, _, _, _, rfl, _⟩
  · exact ⟨rfl, [], by simp⟩
  · exact ⟨rfl, _, rfl, by simp [Aside, Obs.forward]⟩

theorem failRow_aside {pc pc' : FailPc} {a : Answer} (h : FailRow c s n error pc a y pc') :
    y.late = s.late ∧ ∃ obs, y.trace = s.trace ++ obs ∧ ∀ o ∈ obs, Aside o := by
  have hsweep : ∀ {x failed ids obs}, sweepNext c x failed ids = (y, pc') → x.late = s.late →
      x.trace = s.trace ++ obs → (∀ o ∈ obs, Aside o) →
      y.late = s.late ∧ ∃ obs, y.trace = s.trace ++ obs ∧ ∀ o ∈ obs, Aside o := by
    intro x failed ids obs hx hl ht hobs
    obtain ⟨hl', more, ht', hmore⟩ := sweepNext_aside hx
    refine ⟨hl'.trans hl, obs ++ more, by rw [ht', ht, List.append_assoc], fun o ho => ?_⟩
    rcases List.mem_append.mp ho with ho | ho
    · exact hobs o ho
    · exact hmore o ho
  cases h with
  | undoes => exact ⟨rfl, _, rfl, by simp [Aside, Obs.forward]⟩
  | rollsBack hs hx => exact hsweep hx rfl rfl (by simp [Aside, Obs.forward])
  | swept hx => exact hsweep hx rfl (List.append_assoc ..) (by simp [Aside, Obs.forward])

/-- The attempt under `key` times out; its call goes on. -/
theorem ForwardKept.timeOut {key : String} {f g : Flight} {action : String} {input : Option Json}
    {call : Nat} {id : NodeId} (h : ForwardKept c s) (hf : s.store.inFlight key = some f)
    (hpc : f.pc = .calling action input call) (hcall : ∀ action input call,
      g.pc ≠ .calling action input call) (hb : ¬ BeforeCall g.pc) :
    ForwardKept c ({ s with late := s.late ++ [(call, id)] }.setFlight key g) := by
  refine ⟨h.once, h.named, fun k hk => h.pending k ?_, fun key' g' a i k hg hk => ?_,
    fun key' g' hg hk => ?_, fun n hn hk => h.unknown n hn fun hk' => hk (hk'.setFlight rfl)⟩
  · rcases hk with ⟨key', g', a, i, hg, hk⟩ | ⟨id', hl⟩
    · rw [Core.setFlight_inFlight] at hg
      split_ifs at hg
      · cases hg
        exact absurd hk (hcall _ _ _)
      · exact .inl ⟨key', g', a, i, hg, hk⟩
    · rcases List.mem_append.mp hl with hl | hl
      · exact .inr ⟨id', hl⟩
      · cases List.mem_singleton.mp hl
        exact .inl ⟨key, f, action, input, hf, hpc⟩
  · rw [Core.setFlight_inFlight] at hg
    split_ifs at hg with hkk
    · cases hg
      exact absurd hk (hcall _ _ _)
    · obtain ⟨hl, hap⟩ := h.apart key' g' a i k hg hk
      refine ⟨fun id' hl' => ?_, fun key₂ g₂ a₂ i₂ hg₂ hk₂ => ?_⟩
      · rcases List.mem_append.mp hl' with hl' | hl'
        · exact hl id' hl'
        · cases List.mem_singleton.mp hl'
          exact hkk (hap key f action input hf hpc).symm
      · rw [Core.setFlight_inFlight] at hg₂
        split_ifs at hg₂
        · cases hg₂
          exact absurd hk₂ (hcall _ _ _)
        · exact hap key₂ g₂ a₂ i₂ hg₂ hk₂
  · rw [Core.setFlight_inFlight] at hg
    split_ifs at hg
    · cases hg
      exact absurd hk hb
    · exact h.spent key' g' hg hk

/-- The call of the execution under `key` settles. -/
theorem ForwardKept.settleCall {key : String} {f g : Flight} {action : String}
    {input : Option Json} {call : Nat} {o : RunOutcome} (h : ForwardKept c s)
    (hf : s.store.inFlight key = some f) (hpc : f.pc = .calling action input call)
    (htrace : y.trace = s.trace ++ [.settled call f.node.id .forward o]) (hlate : y.late = s.late)
    (hstore : y.store = s.store) (hcall : ∀ action input call, g.pc ≠ .calling action input call)
    (hb : ¬ BeforeCall g.pc) : ForwardKept c (y.setFlight key g) := by
  refine h.settle (.inl ⟨key, f, action, input, hf, hpc⟩) htrace (by rw [Core.setFlight_late, hlate]; exact List.Subset.refl _)
    ?_ (fun k hk => hk.setFlight hstore) (fun key' g' a i k hg hk => ?_) fun key' g' hg hk => ?_
  · obtain ⟨hl, hap⟩ := h.apart key f action input call hf hpc
    rintro (⟨key', g', a, i, hg, hk⟩ | ⟨id, hl'⟩)
    · rw [Core.setFlight_inFlight] at hg
      split_ifs at hg with hkk
      · cases hg
        exact hcall _ _ _ hk
      · exact hkk (hap key' g' a i (hstore ▸ hg) hk)
    · exact hl id (hlate ▸ hl')
  · rw [Core.setFlight_inFlight] at hg
    split_ifs at hg
    · cases hg
      exact absurd hk (hcall _ _ _)
    · exact hstore ▸ hg
  · rw [Core.setFlight_inFlight] at hg
    split_ifs at hg
    · cases hg
      exact absurd hk hb
    · exact hstore ▸ hg

/-- **A stretch of `executeWithRetry` keeps it**, if a retry finds every call spent. -/
theorem ForwardKept.row {key : String} {f : Flight} {job : WorkflowJob} {pc pc' : FlightPc}
    {a : Answer} (hnd : (c.graph.map (·.id)).Nodup) (hS : Core.Sound c s) (h : ForwardKept c s)
    (hf : s.store.inFlight key = some f) (hpc : f.pc = pc)
    (hretry : a = .tick → ∀ e, pc = .threw e → willRetry s f.node f.job.attempt e = true →
      AllSpent s.trace f.node.id)
    (hrow : Row c s f pc a y pc') : ForwardKept c (y.setFlight key { f with job := job, pc := pc' }) := by
  have hbefore : BeforeCall pc → AllSpent s.trace f.node.id := fun hb =>
    h.spent key f hf (by rw [hpc]; exact hb)
  -- a stretch that is not about a forward call
  have hmove : ∀ {obs : List Obs}, y.trace = s.trace ++ obs → (∀ o ∈ obs, Aside o) →
      y.late = s.late → (∀ action input call, pc' ≠ .calling action input call) →
      (BeforeCall pc' → AllSpent s.trace f.node.id) →
      ForwardKept c (y.setFlight key { f with job := job, pc := pc' }) :=
    fun ht hobs hl hcall hsp => h.move ht hobs hl hrow.own.store hcall hsp
  cases hrow with
  | throws | approved | ended =>
      exact hmove (List.append_nil _).symm (fun o ho => absurd ho List.not_mem_nil) rfl (by simp)
        False.elim
  | calls hgate =>
      refine h.call hnd hS hf ?_
      rw [hpc]
      rcases hgate with ⟨rfl, -⟩ | ⟨req, rfl, -⟩ <;> trivial
  | concludes hkind hcond hsrc hpc' =>
      have hafter : (∀ action input call, pc' ≠ .calling action input call) ∧ ¬ BeforeCall pc' := by
        rcases hpc' with rfl | ⟨e, rfl⟩ <;> exact ⟨by simp, False.elim⟩
      rcases hsrc with ⟨-, -, rfl, -⟩ | ⟨action, input, call, rfl, -, rfl⟩
      · exact hmove rfl (fun o ho => absurd ho List.not_mem_nil) rfl hafter.1
          fun hb => absurd hb hafter.2
      · exact h.settleCall hf hpc rfl rfl rfl hafter.1 hafter.2
  | asks => exact hmove rfl (by simp [Aside, Obs.forward]) rfl (by simp) fun _ => hbefore trivial
  | answers => exact hmove rfl (by simp [Aside, Obs.forward]) rfl (by simp) fun _ => hbefore trivial
  | settles hpc' =>
      have hafter : (∀ action input call, pc' ≠ .calling action input call) ∧ ¬ BeforeCall pc' := by
        rcases hpc' with ⟨_, -, -, rfl, -⟩ | ⟨_, -, -, rfl, -⟩ | ⟨_, -, rfl⟩ <;>
          exact ⟨by simp, False.elim⟩
      exact h.settleCall hf hpc rfl rfl rfl hafter.1 hafter.2
  | timesOut hms => exact h.timeOut hf hpc (by simp) False.elim
  | verifies => exact hmove rfl (by simp [Aside, Obs.forward]) rfl (by simp) False.elim
  | @retries e hagain hs =>
      exact hmove rfl (by simp [Aside, Obs.forward]) rfl (by simp) fun _ => hretry rfl e rfl hagain
  | retryRefused => exact hmove rfl (by simp [Aside, Obs.forward]) rfl (by simp) False.elim
  | resumes => exact hmove rfl (by simp [Aside, Obs.forward]) rfl (by simp) fun _ => hbefore trivial
  | fails hagain hq hhead | failRefused hagain hhead =>
      obtain ⟨hl, obs, ht, hobs⟩ := headRow_aside hhead
      exact hmove ht hobs hl (by simp) False.elim
  | ending hfail =>
      obtain ⟨hl, obs, ht, hobs⟩ := failRow_aside hfail
      exact hmove ht hobs hl (by simp) False.elim

theorem ForwardKept.begin {job : WorkflowJob} (h : ForwardKept c s) (hn : n ∈ c.graph)
    (hkey : job.idempotencyKey = keyOf c n) (hc : s.store.completed job.idempotencyKey = none)
    (hf : s.store.inFlight job.idempotencyKey = none) :
    ForwardKept c ((beginAttempt s n job).1.setFlight job.idempotencyKey
      ⟨n, job, (beginAttempt s n job).2⟩) := by
  have hfresh : AllSpent s.trace n.id := fun call action input flag hm =>
    absurd hm (h.unknown n hn (fun hk => by
      rw [← hkey] at hk
      rcases hk with ⟨r, hr⟩ | ⟨g, hg⟩
      · rw [hc] at hr
        cases hr
      · rw [hf] at hg
        cases hg) call action input flag)
  by_cases hs : s.status n.id = .ready ∨ s.status n.id = .retrying
  · rw [beginAttempt_ok hs]
    exact h.move rfl (by simp [Aside, Obs.forward]) rfl rfl (by simp) fun _ => hfresh
  · simp only [not_or] at hs
    obtain ⟨m, he⟩ := beginAttempt_refused job hs.1 hs.2
    rw [he]
    exact h.move rfl (by simp [Aside, Obs.forward]) rfl rfl (by simp) False.elim

theorem ForwardKept.act {x : State} {l : Label} (hnd : (c.graph.map (·.id)).Nodup)
    (hS : Core.Sound c x.core) (h : ForwardKept c x.core) (hok : SpentFirst x l)
    (ha : Act c x l y) : ForwardKept c y := by
  -- an act that is not about a forward call, and leaves the store as it is
  have hstay : ∀ {y : Core} {obs : List Obs}, y.trace = x.core.trace ++ obs →
      (∀ o ∈ obs, Aside o) → y.late = x.core.late → y.store = x.core.store → ForwardKept c y := by
    intro y obs ht hobs hl hst
    refine h.aside ht hobs hl (fun key hk => ?_) (fun key f _ _ _ hf _ => by rw [← hst]; exact hf)
      fun key f hf hb => h.spent key f (hst ▸ hf) hb
    unfold Known at hk ⊢
    rw [hst]
    exact hk
  cases ha with
  | idle => exact h
  | @flight key f a z pc hf hrow =>
      refine h.row hnd hS hf rfl (fun ha e hpc hagain => ?_) hrow
      subst ha
      exact hok f e hf hpc hagain
  | @settles key f r hf hpc =>
      refine h.aside (List.append_nil _).symm (fun o ho => absurd ho List.not_mem_nil) rfl
        (fun k hk => ?_) (fun k g a i call hg _ => ?_) fun k g hg hb => ?_
      · exact (Act.settles (c := c) hf hpc).grows hS |>.known k hk
      · simp only [IdempotencyStore.settle] at hg
        split_ifs at hg
        exact hg
      · simp only [IdempotencyStore.settle] at hg
        split_ifs at hg
        exact h.spent k g hg hb
  | begins hh hn hid hkey hc hf => exact h.begin hn hkey hc hf
  | completes => exact hstay rfl (by simp [Aside, Obs.forward]) rfl rfl
  | @givesUp i job n d stored error core y pc hw hn hend ht hcore hcaught hrow =>
      obtain ⟨hl, obs, htr, hobs⟩ := headRow_aside hrow
      have hst := hrow.own.store
      rcases hcore with rfl | rfl
      · exact hstay htr hobs hl hst
      · refine hstay (by rw [htr, Core.observe_trace, List.append_assoc]) (fun o ho => ?_) hl hst
        rcases List.mem_append.mp ho with ho | ho
        · rw [List.mem_singleton.mp ho]
          rfl
        · exact hobs o ho
  | ending hw hn hend hrow =>
      obtain ⟨hl, obs, htr, hobs⟩ := failRow_aside hrow
      exact hstay htr hobs hl hrow.own.store
  | endRefused => exact hstay rfl (by simp [Aside, Obs.forward]) rfl rfl
  | @late call id o hl =>
      refine h.settle (.inr ⟨id, hl⟩) rfl (fun _ hp => (List.mem_filter.mp hp).1) ?_ (fun _ hk => hk)
        (fun _ _ _ _ _ hf _ => hf) fun _ _ hf _ => hf
      rintro (⟨key, f, a, i, hf, hpc⟩ | ⟨id', hl'⟩)
      · exact (h.apart key f a i call hf hpc).1 id hl
      · have := (List.mem_filter.mp hl').2
        simp at this
  | world => exact ⟨h.once, h.named, h.pending, h.apart, h.spent, h.unknown⟩

end Acts

/-! ## 5. Every run -/

section Runs

variable {c : Context} {s₀ s : State} {ls : List Label}

theorem ForwardKept.start (hnd : (c.graph.map (·.id)).Nodup) (hb : Begins c s₀) :
    ForwardKept c s₀.core := by
  have hev : ∀ o ∈ s₀.core.trace, Aside o := fun o ho => by
    obtain ⟨e, rfl⟩ := hb.events o ho
    rfl
  have hstill := hb.still hnd
  refine ⟨fun A o B hsplit => (hev o (by rw [hsplit]; simp)).justified A,
    fun o ho call hc => ?_, fun call hp => ?_, fun key f _ _ _ hf => ?_, fun key f hf => ?_,
    fun n _ _ call action input flag hm => (hev _ hm).not_called _ _ _ _ _ rfl⟩
  · rw [hev o ho] at hc
    cases hc
  · rcases hp with ⟨key, f, _, _, hf, -⟩ | ⟨id, hl⟩
    · rw [hstill key] at hf
      cases hf
    · rw [hb.late] at hl
      cases hl
  · rw [hstill key] at hf
    cases hf
  · rw [hstill key] at hf
    cases hf

/-- **At most one effective forward call**: in a run that retries a node only after its forward
    calls have settled without success, no forward call of a node is made while an earlier one is
    pending or after one has succeeded. -/
theorem forward_once (hv : validateGraph c.graph = .ok ()) (hb : Begins c s₀)
    (h : Run (step c) SpentFirst s₀ ls s) : Justified OneForward s.core.trace := by
  have hnd := validateGraph_nodup hv
  refine (run_keeps hnd (hb.sound hnd) (ForwardKept.start hnd hb)
    (fun s l z hS hI hok ha => hI.act hnd hS.core hok ha) (fun z z' T q _ _ hz ht => ?_)
    (fun z id st _ hz => ?_) h).2.once
  · obtain ⟨e, he⟩ := ht.trace
    have hst := ht.sameRest.store
    refine hz.aside he (by simp [Aside, Obs.forward]) ht.sameRest.late (fun key hk => ?_)
      (fun key f _ _ _ hf _ => hst ▸ hf) fun key f hf hpc => hz.spent key f (hst ▸ hf) hpc
    unfold Known at hk ⊢
    rw [hst]
    exact hk
  · exact hz.aside rfl (by simp [Aside, Obs.forward]) rfl (fun _ hk => hk)
      (fun _ _ _ _ _ hf _ => hf) hz.spent

end Runs

/-- A pull request that is opened with a timeout and one retry. -/
def openNode : WorkflowNode :=
  { id := "pr", kind := .action, action := some "open_pr", deps := []
    retry := some ⟨2, ["*"]⟩, timeoutMs := some 100 }

/-- A graph of one node. -/
def openContext : Context :=
  { limits := defaultBulkhead, compensations := .empty, sha256 := id
    runId := "run", taskId := "task", graph := [openNode] }

/-- Nothing needs approval, and no guard stops anything. -/
def freeWorld : World := ⟨fun _ => false, fun _ _ _ => none⟩

/-- Enqueue, dispatch, dequeue, call; the call ends with `a`, and the node is tried again. -/
def retryRun (a : Answer) : List Label :=
  [.drive, .drive, .drive, .worker 0 .tick] ++ [.tick, a, .tick, .tick, .tick].map
    (.flight (keyOf openContext openNode))

/-- The forward call of the node has settled. -/
def settledCheck (call : Nat) (id : NodeId) : Obs → Bool
  | .settled call' id' .forward _ => call' = call ∧ id' = id
  | _ => false

/-- It has settled with a success. -/
def succeededCheck (call : Nat) (id : NodeId) : Obs → Bool
  | .settled call' id' .forward (.resolved r) => call' = call ∧ id' = id ∧ r.status = .success
  | _ => false

/-- All forward calls of the node have settled without one. -/
def spentCheck (past : List Obs) (id : NodeId) : Bool :=
  past.all fun
    | .called call id' .forward _ _ _ =>
        id' ≠ id || (past.any (settledCheck call id) && !past.any (succeededCheck call id))
    | _ => true

/-- The guard, to be computed. -/
def spentFirstCheck (s : State) : Label → Bool
  | .flight key .tick =>
      (s.core.store.inFlight key).all fun f => spentCheck s.core.trace f.node.id ||
        match f.pc with
        | .threw _ => false
        | _ => true
  | _ => true

theorem allSpent_of_check {past : List Obs} {id : NodeId} (h : spentCheck past id = true) :
    AllSpent past id := by
  intro call action input flag hm
  have hc := List.all_eq_true.mp h _ hm
  simp only [decide_not, decide_true, Bool.not_true, Bool.false_or, Bool.and_eq_true,
    Bool.not_eq_true', List.any_eq_true, List.any_eq_false] at hc
  obtain ⟨⟨o, ho, hs⟩, hno⟩ := hc
  refine ⟨?_, fun r hr hsucc => hno _ hr (by simp [succeededCheck, hsucc])⟩
  unfold settledCheck at hs
  split at hs
  · rename_i r
    obtain ⟨rfl, rfl⟩ := of_decide_eq_true hs
    exact ⟨r, ho⟩
  · cases hs

theorem spentFirst_of_check (s : State) (l : Label) (h : spentFirstCheck s l = true) :
    SpentFirst s l := by
  unfold SpentFirst
  split
  · rename_i key
    intro f e hf hpc _
    simp only [spentFirstCheck, hf, Option.all_some, hpc, Bool.or_false] at h
    exact allSpent_of_check h
  · trivial

/-- The first call is rejected, the second one is made after it. -/
theorem forward_once_retry : ∃ s, Run (step openContext) SpentFirst (.initial openContext freeWorld)
    (retryRun (.run (.rejected "down"))) s ∧ Justified OneForward s.core.trace := by
  obtain ⟨s, hs⟩ := Option.isSome_iff_exists.mp (show (exec (fun s l =>
    if spentFirstCheck s l then step openContext s l else none) (.initial openContext freeWorld)
    (retryRun (.run (.rejected "down")))).isSome = true by decide)
  have hr := run_of_exec_check spentFirst_of_check hs
  exact ⟨s, hr, forward_once (by rfl) (.inl ⟨_, rfl⟩) hr⟩

/-- Whether a trace has a second forward call of a node and no settlement at all. -/
def calledAgain (log : List Obs) : Bool :=
  ((List.range log.length).any fun i =>
    match log[i]? with
    | some (.called _ id .forward _ _ _) => (log.take i).any fun
        | .called _ id' .forward _ _ _ => id' = id
        | _ => false
    | _ => false) &&
  log.all fun | .settled .. => false | _ => true

theorem not_oneForward_of_calledAgain {trace : List Obs} (h : calledAgain trace = true) :
    ¬ Justified OneForward trace := by
  intro hj
  obtain ⟨hagain, hnone⟩ := Bool.and_eq_true_iff.mp h
  obtain ⟨i, -, hi⟩ := List.any_eq_true.mp hagain
  split at hi
  · rename_i hget
    obtain ⟨o, ho, hcall⟩ := List.any_eq_true.mp hi
    split at hcall
    · obtain rfl := of_decide_eq_true hcall
      obtain ⟨⟨r, hr⟩, -⟩ := hj.get hget _ _ _ _ ho
      have hset := List.all_eq_true.mp hnone _ (List.mem_of_mem_take hr)
      cases hset
    · cases hcall
  · cases hi

/-- After a timeout the handler is called again while the first call is pending. -/
theorem timeout_calls_again : ∃ c s ls w, validateGraph c.graph = .ok () ∧
    Run (step c) (fun _ _ => True) (.initial c w) ls s ∧ ¬ Justified OneForward s.core.trace := by
  obtain ⟨s, hs, hcalls⟩ := Option.map_eq_some_iff.mp (show (exec (step openContext)
    (.initial openContext freeWorld) (retryRun .timeout)).map (fun s => calledAgain s.core.trace) =
      some true by decide)
  exact ⟨openContext, s, retryRun .timeout, freeWorld, rfl, run_of_exec (fun _ _ => trivial) hs,
    not_oneForward_of_calledAgain hcalls⟩

end AgentKernel.Orchestrator
