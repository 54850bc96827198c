/-
  File:      AgentKernel/Registry.lean
  Subject:   The registry of names and schemas (kernel/registry/src/index.ts).

  A name is checked when it is registered, and an entry stays once it is there. So every registered
  name has the form of `Contracts/Naming.lean`, and nothing in a reserved namespace is ever found
  (**`names_follow_grammar`**).
-/
import AgentKernel.Contracts.Naming
import AgentKernel.Lib.Runs

namespace AgentKernel

open Lib

/-! ## 1. The registry -/

/-- What the registry throws. -/
inductive RegistryError where
  | unregisteredCapability (name : String)
  | invalidName (name reason : String)
  | capabilityRegistered (name : String)
  | eventRegistered (type : String)
  deriving DecidableEq

/-- The text of what is thrown. -/
def RegistryError.message : RegistryError → String
  | .unregisteredCapability name =>
      "capability '" ++ name ++ "' is not registered in the Schema Registry"
  | .invalidName name reason => "invalid name '" ++ name ++ "': " ++ reason
  | .capabilityRegistered name => "capability '" ++ name ++ "' already registered"
  | .eventRegistered type => "event '" ++ type ++ "' already registered"

/-- A capability with its schemas. -/
structure CapabilityEntry (ζ : Type) where
  name : String
  inputSchema : ζ
  outputSchema : ζ

/-- A type of events with its schema. -/
structure EventEntry (ζ : Type) where
  type : String
  payloadSchema : ζ

/-- `ζ` are the schemas. The entries of both maps, in the order in which they were registered. -/
structure SchemaRegistry (ζ : Type) where
  capabilities : List (CapabilityEntry ζ) := []
  events : List (EventEntry ζ) := []

namespace SchemaRegistry

variable {ζ : Type} (s : SchemaRegistry ζ)

/-- The capability is registered. -/
def hasCapability (name : String) : Bool := s.capabilities.any (·.name = name)

/-- The type is registered. -/
def hasEvent (type : String) : Bool := s.events.any (·.type = type)

/-- Throws unless the capability is registered. -/
def assertCapabilityRegistered (name : String) : Except RegistryError Unit :=
  if s.hasCapability name then .ok () else .error (.unregisteredCapability name)

/-- The names of all capabilities. -/
def listCapabilities : List String := s.capabilities.map (·.name)

section Registration

variable (toLowerCase : String → String)

/-- A capability with a name that is well formed and new. -/
def registerCapability (name : String) (inputSchema outputSchema : ζ) :
    Except RegistryError (SchemaRegistry ζ) :=
  let check := validateName toLowerCase name
  if !check.valid then .error (.invalidName name (check.reason.getD "undefined"))
  else if s.hasCapability name then .error (.capabilityRegistered name)
  else .ok { s with capabilities := s.capabilities ++ [⟨name, inputSchema, outputSchema⟩] }

/-- A type of events with a name that is well formed and new. -/
def registerEvent (type : String) (payloadSchema : ζ) : Except RegistryError (SchemaRegistry ζ) :=
  let check := validateName toLowerCase type
  if !check.valid then .error (.invalidName type (check.reason.getD "undefined"))
  else if s.hasEvent type then .error (.eventRegistered type)
  else .ok { s with events := s.events ++ [⟨type, payloadSchema⟩] }

end Registration

/-- The names of both maps. -/
def names : List String := s.listCapabilities ++ s.events.map (·.type)

end SchemaRegistry

/-! ## 2. Calls -/

/-- A call that registers something. -/
inductive Registration (ζ : Type) where
  | capability (name : String) (inputSchema outputSchema : ζ)
  | event (type : String) (payloadSchema : ζ)

namespace SchemaRegistry

variable {ζ : Type} {s s' : SchemaRegistry ζ} {toLowerCase : String → String} {name : String}

/-- One registration. -/
def call (toLowerCase : String → String) (s : SchemaRegistry ζ) :
    Registration ζ → Except RegistryError (SchemaRegistry ζ)
  | .capability name inputSchema outputSchema =>
      s.registerCapability toLowerCase name inputSchema outputSchema
  | .event type payloadSchema => s.registerEvent toLowerCase type payloadSchema

/-- A call that throws leaves the registry as it is. -/
def step (toLowerCase : String → String) (s : SchemaRegistry ζ) (r : Registration ζ) :
    Option (SchemaRegistry ζ) :=
  some ((s.call toLowerCase r).toOption.getD s)

theorem mem_names_iff : name ∈ s.names ↔
    (∃ e ∈ s.capabilities, e.name = name) ∨ ∃ e ∈ s.events, e.type = name := by
  simp [names, listCapabilities]

/-- A call registers a name that has been checked, or nothing. -/
theorem call_names {r : Registration ζ} (h : s.call toLowerCase r = .ok s') :
    ∃ name, (validateName toLowerCase name).valid = true ∧
      ∀ other ∈ s'.names, other ∈ s.names ∨ other = name := by
  cases r with
  | capability name inputSchema outputSchema =>
      unfold call registerCapability at h
      dsimp only at h
      split_ifs at h with hvalid hhas
      cases h
      refine ⟨name, by simpa using hvalid, fun other hother => ?_⟩
      simpa [mem_names_iff, or_and_right, exists_or, or_right_comm, eq_comm] using hother
  | event type payloadSchema =>
      unfold call registerEvent at h
      dsimp only at h
      split_ifs at h with hvalid hhas
      cases h
      refine ⟨type, by simpa using hvalid, fun other hother => ?_⟩
      simpa [mem_names_iff, or_and_right, exists_or, or_assoc, eq_comm] using hother

theorem run_valid {calls : List (Registration ζ)}
    (h : Run (step toLowerCase) (fun _ _ => True) {} calls s) :
    ∀ name ∈ s.names, (validateName toLowerCase name).valid = true := by
  refine h.invariant (I := fun s => ∀ name ∈ s.names, (validateName toLowerCase name).valid = true)
    (fun name hname => by cases hname) ?_
  intro s r s' hI _ hs
  obtain rfl := Option.some.inj hs
  cases hcall : s.call toLowerCase r with
  | error error => exact hI
  | ok s' =>
      obtain ⟨new, hnew, hnames⟩ := call_names hcall
      intro name hname
      rcases hnames name hname with hold | rfl
      · exact hI name hold
      · exact hnew

end SchemaRegistry

theorem Named.namespaceOf_notMem {name : String} (h : Named name) :
    namespaceOf name ∉ reservedNamespaces := by
  obtain ⟨seg, segs, -, hjoined, hsegs, hreserved⟩ := h
  rwa [namespaceOf_intercalate hjoined (hsegs seg List.mem_cons_self).dot_notMem]

/-- **Names follow just the grammar, those of a registry too**: a name in a reserved namespace is
    accepted nowhere, and not found after any calls. -/
theorem names_follow_grammar {ζ : Type} {toLowerCase : String → String}
    (hlower : KeepsLowerCase toLowerCase) :
    (∀ name, (validateName toLowerCase name).valid = true ↔ Named name) ∧
    ∀ (calls : List (Registration ζ)) (s : SchemaRegistry ζ),
      Run (SchemaRegistry.step toLowerCase) (fun _ _ => True) {} calls s →
      (∀ name ∈ s.names, Named name) ∧
      ∀ name, namespaceOf name ∈ reservedNamespaces →
        s.assertCapabilityRegistered name = .error (.unregisteredCapability name) := by
  refine ⟨fun name => validateName_iff hlower, fun calls s hrun => ?_⟩
  have hnamed : ∀ name ∈ s.names, Named name := fun name hname =>
    (validateName_iff hlower).mp (SchemaRegistry.run_valid hrun name hname)
  refine ⟨hnamed, fun name hreserved => if_neg fun hhas => ?_⟩
  obtain ⟨e, he, hname⟩ := List.any_eq_true.mp hhas
  have hmem : name ∈ s.names :=
    SchemaRegistry.mem_names_iff.mpr (.inl ⟨e, he, of_decide_eq_true hname⟩)
  exact (hnamed name hmem).namespaceOf_notMem hreserved

/-- `toLowerCase` on ASCII text. -/
def asciiLower (s : String) : String := String.ofList (s.toList.map Char.toLower)

theorem keepsLowerCase_asciiLower : KeepsLowerCase asciiLower := by
  intro s hs
  have hchar : ∀ c ∈ s.toList, c.toLower = id c := by
    intro c hc
    have hupper := (hs c hc).2
    rw [Char.isUpper, decide_eq_false_iff_not] at hupper
    rw [Char.toLower, dif_neg hupper]
    rfl
  rw [asciiLower, List.map_congr_left hchar, List.map_id, String.ofList_toList]

/-- The shortest names. -/
theorem named_a_b : Named "a.b" := by
  have hsegment : ∀ c, isEdge c = true → IsSegment [c] := fun c hc =>
    ⟨List.forall_mem_singleton.mpr (isInner_of_isEdge hc), ⟨c, rfl, hc⟩, ⟨c, rfl, hc⟩⟩
  exact ⟨['a'], [['b']], List.cons_ne_nil _ _, by decide,
    by simpa using ⟨hsegment 'a' (by decide), hsegment 'b' (by decide)⟩, by decide⟩

theorem names_follow_grammar_ascii :
    (validateName asciiLower "a.b").valid = true ∧
    ∀ (calls : List (Registration Unit)) (s : SchemaRegistry Unit),
      Run (SchemaRegistry.step asciiLower) (fun _ _ => True) {} calls s →
      (∀ name ∈ s.names, Named name) ∧
      ∀ name, namespaceOf name ∈ reservedNamespaces →
        s.assertCapabilityRegistered name = .error (.unregisteredCapability name) :=
  ⟨((names_follow_grammar (ζ := Unit) keepsLowerCase_asciiLower).1 "a.b").mpr named_a_b,
    (names_follow_grammar keepsLowerCase_asciiLower).2⟩

end AgentKernel
