/-
  File:      AgentKernel/Orchestrator/Bulkhead.lean
  Subject:   The concurrency limiter (runtime/orchestrator/src/bulkhead.ts): a seat is admitted
             within a total limit and one limit each per agent, tenant and tool.

  A counter that was never set reads as 0, which is what the source's `?? 0` in `tryAcquire` and
  its `?? 1` in `release` amount to. An empty agent, tenant or tool id is not counted.
-/
import AgentKernel.Orchestrator.Types

namespace AgentKernel.Orchestrator

/-- How many jobs may run at a time. -/
structure BulkheadLimits where
  maxConcurrentJobs : Nat
  maxConcurrentPerAgent : Nat
  maxConcurrentPerTenant : Nat
  maxConcurrentPerTool : Nat
  deriving DecidableEq

/-- The limits unless others are given. -/
def defaultBulkhead : BulkheadLimits := ⟨8, 4, 4, 4⟩

/-- Every limit admits at least one seat. -/
structure BulkheadLimits.Positive (limits : BulkheadLimits) : Prop where
  jobs : 1 ≤ limits.maxConcurrentJobs
  perAgent : 1 ≤ limits.maxConcurrentPerAgent
  perTenant : 1 ≤ limits.maxConcurrentPerTenant
  perTool : 1 ≤ limits.maxConcurrentPerTool

/-- A seat, and whom it counts for. -/
structure BulkheadSlot where
  id : String
  agentId : Option String
  tenantId : Option String
  toolId : Option String
  deriving DecidableEq

/-- `ConcurrencyLimiter`: the set of running ids and one counter map per dimension. -/
structure ConcurrencyLimiter where
  running : List String
  byAgent : String → Nat
  byTenant : String → Nat
  byTool : String → Nat

/-- Nothing runs. -/
def ConcurrencyLimiter.empty : ConcurrencyLimiter := ⟨[], fun _ => 0, fun _ => 0, fun _ => 0⟩

/-- A dimension is full for a slot that names it. -/
def full (counter : String → Nat) (limit : Nat) (name : Option String) : Bool :=
  match truthy name with
  | some k => decide (limit ≤ counter k)
  | none => false

/-- Count a seat up in one dimension. -/
def countUp (counter : String → Nat) (name : Option String) : String → Nat :=
  match truthy name with
  | some k => fun x => if x = k then counter k + 1 else counter x
  | none => counter

/-- `Math.max(0, count - 1)` in one dimension. -/
def countDown (counter : String → Nat) (name : Option String) : String → Nat :=
  match truthy name with
  | some k => fun x => if x = k then counter k - 1 else counter x
  | none => counter

namespace ConcurrencyLimiter

/-- `running.add(id)` on a set. -/
def addRunning (l : ConcurrencyLimiter) (id : String) : List String :=
  if id ∈ l.running then l.running else id :: l.running

/-- A seat, if every limit leaves one. -/
def tryAcquire (limits : BulkheadLimits) (l : ConcurrencyLimiter) (slot : BulkheadSlot) :
    Option ConcurrencyLimiter :=
  if limits.maxConcurrentJobs ≤ l.running.length
      ∨ full l.byAgent limits.maxConcurrentPerAgent slot.agentId
      ∨ full l.byTenant limits.maxConcurrentPerTenant slot.tenantId
      ∨ full l.byTool limits.maxConcurrentPerTool slot.toolId then none
  else some
    { running := l.addRunning slot.id
      byAgent := countUp l.byAgent slot.agentId
      byTenant := countUp l.byTenant slot.tenantId
      byTool := countUp l.byTool slot.toolId }

/-- The seat is given back. -/
def release (l : ConcurrencyLimiter) (slot : BulkheadSlot) : ConcurrencyLimiter where
  running := l.running.filter (· ≠ slot.id)
  byAgent := countDown l.byAgent slot.agentId
  byTenant := countDown l.byTenant slot.tenantId
  byTool := countDown l.byTool slot.toolId

end ConcurrencyLimiter

/-! ## Seats held and seats counted -/

/-- How many of the held slots name `k` in the dimension `dim`. -/
def holders (dim : BulkheadSlot → Option String) (k : String) (held : List BulkheadSlot) : Nat :=
  held.countP fun s => truthy (dim s) = some k

/-- **The limiter agrees with the slots held**: each counter is the number of held slots naming
    it, and a running id belongs to a held slot. -/
structure Seated (l : ConcurrencyLimiter) (held : List BulkheadSlot) : Prop where
  running : ∀ id ∈ l.running, ∃ s ∈ held, s.id = id
  nodup : l.running.Nodup
  byAgent : ∀ k, l.byAgent k = holders (·.agentId) k held
  byTenant : ∀ k, l.byTenant k = holders (·.tenantId) k held
  byTool : ∀ k, l.byTool k = holders (·.toolId) k held

end AgentKernel.Orchestrator
