/-
  File:      AgentKernel/Contracts/Events.lean
  Subject:   The envelope of an event and its canonical text (kernel/contracts/src/actor.ts, secret.ts
             and events.ts; kernel/events/src/canonicalize.ts).

  A payload is `unknown`: `Value` covers what `canonicalize` and `JSON.stringify` distinguish and a
  JSON value does not have: `undefined`, numbers that are not finite, big integers, functions,
  symbols, the holes of an array, and what converts itself. The entries of an object stand in the
  order of `Object.entries`; an entry under a symbol is none of them.
-/
import AgentKernel.Contracts.Json

namespace AgentKernel

/-! ## 1. Payloads -/

/-- What can stand in a payload. -/
inductive Value where
  | undefined
  | null
  | bool (b : Bool)
  | num (n : JsonNumber)
  | nonFinite
  | bigint (n : Int)
  | str (s : String)
  | arr (items : List Value)
  | obj (entries : List (String × Value))
  | function (text : String)
  | symbol (description : String)
  /-- an item that an array does not have -/
  | hole
  /-- A value with a method `toJSON` (a URL, a buffer, an instance of a class, or a date, which has
      no properties of its own), or a primitive in an object: `self` is it with its own properties,
      `written` what `JSON.stringify` writes in its place. -/
  | converting (self written : Value)

mutual

/-- The text that is hashed: the keys of objects are sorted, at every depth. -/
def canonicalize : Value → String
  | .undefined => "undefined"
  | .null => "null"
  | .str s => quoteJson s
  | .num n => n.text
  | .nonFinite => "null"
  | .bool b => if b then "true" else "false"
  | .bigint n => quoteJson (toString n)
  | .arr items => "[" ++ joinComma (canonicalItems items) ++ "]"
  | .obj entries =>
      "\x7b" ++ joinComma ((sortByKey (canonicalEntries entries)).map fun e =>
        quoteJson e.1 ++ ":" ++ e.2) ++ "\x7d"
  | .function text => text
  | .symbol description => "Symbol(" ++ description ++ ")"
  -- `map` passes over it, and `join` writes nothing for it
  | .hole => ""
  -- `canonicalize` does not ask for `toJSON`
  | .converting self _ => canonicalize self

/-- Item by item. -/
def canonicalItems : List Value → List String
  | [] => []
  | v :: vs => canonicalize v :: canonicalItems vs

/-- Entry by entry, under its own key. -/
def canonicalEntries : List (String × Value) → List (String × String)
  | [] => []
  | (k, v) :: entries => (k, canonicalize v) :: canonicalEntries entries

end

/-! ## 2. Events -/

/-- Who can act. -/
inductive ActorType where
  | user | system | agent | tool
  deriving DecidableEq

/-- Who has acted. -/
structure Actor where
  type : ActorType
  id : String
  deriving DecidableEq

/-- Where a vault keeps a secret. -/
structure SecretRef where
  id : String
  vault : String
  key : String
  deriving DecidableEq

/-- The kernel itself. -/
def systemActor : Actor := { type := .system, id := "kernel" }

/-- A reference to a piece of evidence, as an event carries it. -/
structure LedgerEvidence where
  evidenceId : String
  kind : String
  deriving DecidableEq

/-- What is handed to the ledger; the rest of the event is computed there. -/
structure LedgerEventDraft where
  actor : Actor
  type : String
  taskId : String
  runId : String
  payload : Value
  evidence : Option (List LedgerEvidence) := none

/-- An event in the ledger. -/
structure LedgerEvent extends LedgerEventDraft where
  id : String
  seq : Nat
  timestamp : String
  prevHash : Option String
  hash : String

/-- The random id and the time of day an event gets. -/
structure Stamp where
  id : String
  timestamp : String

end AgentKernel
