/-
  File:      AgentKernel/Orchestrator/Seats.lean
  Subject:   The concurrency limiter against the slots that are held
             (runtime/orchestrator/src/bulkhead.ts).

  Callers acquire and release slots in any order, and each releases only what it holds. Two callers
  may hold slots of one id: a job that is delivered twice runs under one job id.

  * `Counts`: a counter that is the number of holders and within its limit, kept by one slot more
    (`Counts.up`) and one slot less (`Counts.down`);
  * the running jobs are a set of ids, so a second holder of an id is not counted and the first to
    leave takes the id with it. `active_throughout_iff`: all holders are counted exactly in the
    runs in which no slot is acquired whose id is held;
  * **`seats_within_limits`**: the limits per agent, tenant and tool hold in every run, and the
    limit on jobs in these.
-/
import AgentKernel.Orchestrator.Bulkhead
import AgentKernel.Lib.Runs

namespace AgentKernel.Orchestrator

open Lib

/-! ## 1. Callers -/

/-- The limiter and the slots its callers hold, the same slot once for each holder. -/
structure Seating where
  limiter : ConcurrencyLimiter
  held : List BulkheadSlot

/-- The calls of the bulkhead. -/
inductive SeatCall where
  | tryAcquire (slot : BulkheadSlot)
  | release (slot : BulkheadSlot)

/-- A call; only a slot that is held is released. -/
def Seating.step (limits : BulkheadLimits) (s : Seating) : SeatCall → Option Seating
  | .tryAcquire slot =>
      match s.limiter.tryAcquire limits slot with
      | some limiter => some ⟨limiter, slot :: s.held⟩
      | none => some s
  | .release slot =>
      if slot ∈ s.held then some ⟨s.limiter.release slot, s.held.erase slot⟩ else none

/-- Nobody has a seat. -/
def Seating.start : Seating := ⟨.empty, []⟩

/-- No slot is acquired whose id is held. -/
def Unshared (limits : BulkheadLimits) (s : Seating) : SeatCall → Prop
  | .tryAcquire slot =>
      s.limiter.tryAcquire limits slot = none ∨ slot.id ∉ s.held.map (·.id)
  | .release _ => True

instance (limits : BulkheadLimits) (s : Seating) :
    (call : SeatCall) → Decidable (Unshared limits s call)
  | .tryAcquire _ => inferInstanceAs (Decidable (_ = none ∨ _ ∉ _))
  | .release _ => .isTrue trivial

/-! ## 2. One dimension -/

/-- The counter of a dimension: the number of holders of every name, within the limit. -/
def Counts (dim : BulkheadSlot → Option String) (limit : Nat) (counter : String → Nat)
    (held : List BulkheadSlot) : Prop :=
  ∀ k, counter k = holders dim k held ∧ counter k ≤ limit

section Dimension

variable {dim : BulkheadSlot → Option String} {limit : Nat} {counter : String → Nat}
  {held : List BulkheadSlot} {slot : BulkheadSlot} {k : String}

theorem holders_cons : holders dim k (slot :: held) =
    holders dim k held + if truthy (dim slot) = some k then 1 else 0 := by
  simp only [holders, List.countP_cons, decide_eq_true_eq]

theorem holders_erase (hslot : slot ∈ held) : holders dim k held =
    holders dim k (held.erase slot) + if truthy (dim slot) = some k then 1 else 0 := by
  rw [← holders_cons]
  exact (List.perm_cons_erase hslot).countP_eq _

theorem countUp_apply : countUp counter (dim slot) k =
    counter k + if truthy (dim slot) = some k then 1 else 0 := by
  unfold countUp
  cases truthy (dim slot) with
  | none => simp
  | some name =>
      by_cases hk : k = name
      · simp [hk]
      · simp [hk, Ne.symm hk]

theorem countDown_apply : countDown counter (dim slot) k =
    counter k - if truthy (dim slot) = some k then 1 else 0 := by
  unfold countDown
  cases truthy (dim slot) with
  | none => simp
  | some name =>
      by_cases hk : k = name
      · simp [hk]
      · simp [hk, Ne.symm hk]

theorem not_full (h : full counter limit (dim slot) = false)
    (hk : truthy (dim slot) = some k) : counter k < limit := by
  unfold full at h
  rw [hk] at h
  simpa using h

theorem Counts.up (h : Counts dim limit counter held)
    (hfree : full counter limit (dim slot) = false) :
    Counts dim limit (countUp counter (dim slot)) (slot :: held) := by
  intro k
  obtain ⟨hcount, hlimit⟩ := h k
  rw [countUp_apply, holders_cons, hcount]
  refine ⟨rfl, ?_⟩
  by_cases hk : truthy (dim slot) = some k
  · have hlt := not_full hfree hk
    rw [if_pos hk]
    omega
  · rw [if_neg hk]
    omega

theorem Counts.down (h : Counts dim limit counter held) (hslot : slot ∈ held) :
    Counts dim limit (countDown counter (dim slot)) (held.erase slot) := by
  intro k
  obtain ⟨hcount, hlimit⟩ := h k
  have herase : holders dim k held = _ := holders_erase hslot
  rw [countDown_apply]
  omega

end Dimension

/-! ## 3. Every run -/

/-- What every run keeps: a running id is the id of a held slot, and the counters are right. -/
structure Balanced (limits : BulkheadLimits) (s : Seating) : Prop where
  running : ∀ id ∈ s.limiter.running, ∃ slot ∈ s.held, slot.id = id
  nodup : s.limiter.running.Nodup
  active : s.limiter.running.length ≤ limits.maxConcurrentJobs
  byAgent : Counts (·.agentId) limits.maxConcurrentPerAgent s.limiter.byAgent s.held
  byTenant : Counts (·.tenantId) limits.maxConcurrentPerTenant s.limiter.byTenant s.held
  byTool : Counts (·.toolId) limits.maxConcurrentPerTool s.limiter.byTool s.held

section Runs

variable {limits : BulkheadLimits} {s s' : Seating} {call : SeatCall} {slot : BulkheadSlot}
  {l l' : ConcurrencyLimiter}

/-- What a seat that is granted needs, and what it does. -/
theorem tryAcquire_cases (h : l.tryAcquire limits slot = some l') :
    l.running.length < limits.maxConcurrentJobs ∧
    full l.byAgent limits.maxConcurrentPerAgent slot.agentId = false ∧
    full l.byTenant limits.maxConcurrentPerTenant slot.tenantId = false ∧
    full l.byTool limits.maxConcurrentPerTool slot.toolId = false ∧
    l' = { running := l.addRunning slot.id
           byAgent := countUp l.byAgent slot.agentId
           byTenant := countUp l.byTenant slot.tenantId
           byTool := countUp l.byTool slot.toolId } := by
  unfold ConcurrencyLimiter.tryAcquire at h
  split_ifs at h with hfull
  simp only [not_or, Bool.not_eq_true, not_le] at hfull
  exact ⟨hfull.1, hfull.2.1, hfull.2.2.1, hfull.2.2.2, (Option.some.inj h).symm⟩

/-- A call grants a seat, refuses one, or frees one that is held. -/
theorem Seating.step_cases (h : s.step limits call = some s') :
    (∃ slot l', call = .tryAcquire slot ∧ s.limiter.tryAcquire limits slot = some l' ∧
      s' = ⟨l', slot :: s.held⟩) ∨
    s' = s ∨
    ∃ slot ∈ s.held, call = .release slot ∧
      s' = ⟨s.limiter.release slot, s.held.erase slot⟩ := by
  cases call with
  | tryAcquire slot =>
      unfold Seating.step at h
      dsimp only at h
      split at h
      · rename_i l' hl
        exact .inl ⟨slot, l', rfl, hl, (Option.some.inj h).symm⟩
      · exact .inr (.inl (Option.some.inj h).symm)
  | release slot =>
      unfold Seating.step at h
      dsimp only at h
      split_ifs at h with hheld
      exact .inr (.inr ⟨slot, hheld, rfl, (Option.some.inj h).symm⟩)

theorem balanced_start : Balanced limits Seating.start where
  running := nofun
  nodup := List.nodup_nil
  active := Nat.zero_le _
  byAgent _ := ⟨rfl, Nat.zero_le _⟩
  byTenant _ := ⟨rfl, Nat.zero_le _⟩
  byTool _ := ⟨rfl, Nat.zero_le _⟩

theorem Balanced.acquire (h : Balanced limits s) (hl : s.limiter.tryAcquire limits slot = some l') :
    Balanced limits ⟨l', slot :: s.held⟩ := by
  obtain ⟨hjobs, hagent, htenant, htool, rfl⟩ := tryAcquire_cases hl
  by_cases hin : slot.id ∈ s.limiter.running
  · -- a second holder of a running id changes nothing in the set
    have hset : s.limiter.addRunning slot.id = s.limiter.running := if_pos hin
    rw [hset]
    refine ⟨fun id hid => ?_, h.nodup, h.active, h.byAgent.up hagent, h.byTenant.up htenant,
      h.byTool.up htool⟩
    obtain ⟨other, hother, heq⟩ := h.running id hid
    exact ⟨other, List.mem_cons_of_mem _ hother, heq⟩
  · have hset : s.limiter.addRunning slot.id = slot.id :: s.limiter.running := if_neg hin
    rw [hset]
    refine ⟨fun id hid => ?_, List.nodup_cons.mpr ⟨hin, h.nodup⟩, hjobs, h.byAgent.up hagent,
      h.byTenant.up htenant, h.byTool.up htool⟩
    rcases List.mem_cons.mp hid with rfl | hid
    · exact ⟨slot, List.mem_cons_self, rfl⟩
    · obtain ⟨other, hother, heq⟩ := h.running id hid
      exact ⟨other, List.mem_cons_of_mem _ hother, heq⟩

theorem Balanced.release (h : Balanced limits s) (hslot : slot ∈ s.held) :
    Balanced limits ⟨s.limiter.release slot, s.held.erase slot⟩ := by
  refine ⟨?_, h.nodup.filter _, (List.length_filter_le _ _).trans h.active,
    h.byAgent.down hslot, h.byTenant.down hslot, h.byTool.down hslot⟩
  intro id hid
  obtain ⟨hin, hne⟩ := List.mem_filter.mp hid
  obtain ⟨other, hother, rfl⟩ := h.running id hin
  have hdiff : other ≠ slot := by
    rintro rfl
    simp at hne
  exact ⟨other, (List.mem_erase_of_ne hdiff).mpr hother, rfl⟩

theorem Balanced.seated (h : Balanced limits s) : Seated s.limiter s.held where
  running := h.running
  nodup := h.nodup
  byAgent k := (h.byAgent k).1
  byTenant k := (h.byTenant k).1
  byTool k := (h.byTool k).1

theorem Balanced.step (h : Balanced limits s) (hs : s.step limits call = some s') :
    Balanced limits s' := by
  obtain ⟨slot, l', -, hl, rfl⟩ | rfl | ⟨slot, hslot, -, rfl⟩ := Seating.step_cases hs
  · exact h.acquire hl
  · exact h
  · exact h.release hslot

/-! ## 4. Runs without a second holder of an id -/

/-- The running ids are the ids of the held slots, each held once. -/
structure Enrolled (s : Seating) : Prop where
  running : s.limiter.running.Perm (s.held.map (·.id))
  nodup : (s.held.map (·.id)).Nodup

theorem enrolled_start : Enrolled Seating.start := ⟨.refl _, List.nodup_nil⟩

theorem Enrolled.acquire (h : Enrolled s) (hl : s.limiter.tryAcquire limits slot = some l')
    (hnew : slot.id ∉ s.held.map (·.id)) : Enrolled ⟨l', slot :: s.held⟩ := by
  obtain ⟨-, -, -, -, rfl⟩ := tryAcquire_cases hl
  refine ⟨?_, List.nodup_cons.mpr ⟨hnew, h.nodup⟩⟩
  have hnotin : slot.id ∉ s.limiter.running := fun hin => hnew (h.running.mem_iff.mp hin)
  dsimp only
  unfold ConcurrencyLimiter.addRunning
  rw [if_neg hnotin]
  exact h.running.cons _

/-- The id of a slot that is given back is the id of no other holder. -/
theorem Enrolled.release (h : Enrolled s) (hslot : slot ∈ s.held) :
    Enrolled ⟨s.limiter.release slot, s.held.erase slot⟩ := by
  have hids : (s.held.map (·.id)).Perm (slot.id :: (s.held.erase slot).map (·.id)) :=
    (List.perm_cons_erase hslot).map _
  obtain ⟨hnotin, hnodup⟩ := List.nodup_cons.mp (hids.nodup_iff.mp h.nodup)
  refine ⟨?_, hnodup⟩
  have hperm := (h.running.trans hids).filter fun id => decide (id ≠ slot.id)
  rw [List.filter_cons_of_neg (by simp)] at hperm
  have hkeep : ((s.held.erase slot).map (·.id)).filter (fun id => decide (id ≠ slot.id)) =
      (s.held.erase slot).map (·.id) := by
    rw [List.filter_eq_self]
    intro id hid
    refine decide_eq_true ?_
    rintro rfl
    exact hnotin hid
  rw [hkeep] at hperm
  exact hperm

theorem Enrolled.step (h : Enrolled s) (hok : Unshared limits s call)
    (hs : s.step limits call = some s') : Enrolled s' := by
  obtain ⟨slot, l', rfl, hl, rfl⟩ | rfl | ⟨slot, hslot, -, rfl⟩ := Seating.step_cases hs
  · rcases hok with hrefused | hnew
    · rw [hrefused] at hl
      cases hl
    · exact h.acquire hl hnew
  · exact h
  · exact h.release hslot

theorem enrolled_of_run {calls : List SeatCall}
    (h : Run (Seating.step limits) (Unshared limits) .start calls s) : Enrolled s :=
  h.invariant enrolled_start fun _ _ _ hinv hok hs => hinv.step hok hs

theorem Enrolled.length_eq (h : Enrolled s) : s.limiter.running.length = s.held.length := by
  rw [h.running.length_eq, List.length_map]

/-- **Every holder is counted as active exactly where no id is held twice.** -/
theorem active_throughout_iff {calls : List SeatCall}
    (h : Run (Seating.step limits) (fun _ _ => True) .start calls s) :
    Throughout (Seating.step limits) .start calls
        (fun s => s.limiter.running.length = s.held.length) ↔
      Run (Seating.step limits) (Unshared limits) .start calls s := by
  refine h.throughout_iff (fun _ _ hrun => (enrolled_of_run hrun).length_eq) ?_
  rintro calls s call s' hrun hshared hs
  have hlength := (enrolled_of_run hrun).length_eq
  have hids := (enrolled_of_run hrun).running
  cases call with
  | release slot => exact absurd trivial hshared
  | tryAcquire slot =>
      obtain ⟨hgranted, hin⟩ := not_or.mp hshared
      obtain ⟨l', hl⟩ := Option.ne_none_iff_exists'.mp hgranted
      -- the id is in the set already, so the set stays as large as it was
      have hset : s.limiter.addRunning slot.id = s.limiter.running :=
        if_pos (hids.mem_iff.mpr (not_not.mp hin))
      obtain ⟨-, -, -, -, rfl⟩ := tryAcquire_cases hl
      unfold Seating.step at hs
      dsimp only at hs
      rw [hl] at hs
      obtain rfl := Option.some.inj hs
      rw [hset, hlength]
      exact (Nat.lt_succ_self s.held.length).ne

/-- **The bulkhead keeps its limits**: those of agents, tenants and tools in every run, and the
    one on jobs in every run without a second holder of an id. -/
theorem seats_within_limits {calls : List SeatCall}
    (h : Run (Seating.step limits) (fun _ _ => True) .start calls s) :
    Seated s.limiter s.held ∧
    (∀ k, s.limiter.byAgent k ≤ limits.maxConcurrentPerAgent ∧
      s.limiter.byTenant k ≤ limits.maxConcurrentPerTenant ∧
      s.limiter.byTool k ≤ limits.maxConcurrentPerTool) ∧
    (s.held = [] → s.limiter.running = [] ∧ ∀ k, s.limiter.byAgent k = 0 ∧
      s.limiter.byTenant k = 0 ∧ s.limiter.byTool k = 0) ∧
    (Run (Seating.step limits) (Unshared limits) .start calls s →
      s.held.length ≤ limits.maxConcurrentJobs) := by
  have hbalanced : Balanced limits s :=
    h.invariant balanced_start fun _ _ _ hinv _ hs => hinv.step hs
  refine ⟨hbalanced.seated, fun k => ⟨(hbalanced.byAgent k).2, (hbalanced.byTenant k).2,
    (hbalanced.byTool k).2⟩, ?_, ?_⟩
  · intro hnone
    obtain ⟨hrunning, -, hagent, htenant, htool⟩ := hbalanced.seated
    rw [hnone] at hrunning hagent htenant htool
    refine ⟨List.eq_nil_iff_forall_not_mem.mpr fun id hid => ?_,
      fun k => ⟨hagent k, htenant k, htool k⟩⟩
    obtain ⟨slot, hslot, -⟩ := hrunning id hid
    cases hslot
  · intro hun
    rw [← (enrolled_of_run hun).length_eq]
    exact hbalanced.active

end Runs

/-- A job of one agent. -/
def job (id : String) : BulkheadSlot := ⟨id, some "agent", none, none⟩

/-- Two jobs at a time. -/
def pair : BulkheadLimits := ⟨2, 4, 4, 4⟩

theorem jobs_within_pair : ∃ s,
    Run (Seating.step pair) (Unshared pair) .start
      [.tryAcquire (job "j1"), .tryAcquire (job "j2"), .tryAcquire (job "j3"),
        .release (job "j1"), .tryAcquire (job "j3")] s ∧
    s.held = [job "j3", job "j2"] ∧ Seated s.limiter s.held ∧ s.held.length ≤ 2 := by
  obtain ⟨s, hrun, hheld⟩ : ∃ s, Run (Seating.step pair) (Unshared pair) .start
      [.tryAcquire (job "j1"), .tryAcquire (job "j2"), .tryAcquire (job "j3"),
        .release (job "j1"), .tryAcquire (job "j3")] s ∧ s.held = [job "j3", job "j2"] :=
    ⟨_, run_of_exec_check (c := fun s call => decide (Unshared pair s call))
      (fun _ _ => of_decide_eq_true) rfl, rfl⟩
  have hall := seats_within_limits (hrun.mono fun _ _ _ => trivial)
  exact ⟨s, hrun, hheld, hall.1, hall.2.2.2 hrun⟩

/-- A job that is delivered twice takes one of two seats, and there are three holders. -/
theorem redelivered_overfills : ∃ s,
    Run (Seating.step pair) (fun _ _ => True) .start
      [.tryAcquire (job "j1"), .tryAcquire (job "j1"), .tryAcquire (job "j2")] s ∧
    ¬ s.held.length ≤ pair.maxConcurrentJobs :=
  ⟨_, run_of_exec (fun _ _ => trivial) rfl, by decide⟩

end AgentKernel.Orchestrator
