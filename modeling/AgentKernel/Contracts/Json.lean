/-
  File:      AgentKernel/Contracts/Json.lean
  Subject:   JSON values and the orchestrator's canonical text of them
             (runtime/orchestrator/src/hash.ts).

  Everything the executor passes around as `unknown` is JSON-safe (types.ts), so `Json` stands
  for it; an absent value (`undefined`) is `none` of `Option Json`. A number is held as the text
  `JSON.stringify` prints for it, which is what every function here does with a number.

  * `stableStringify`, `getPath`, `isInputRef` are hash.ts; `idempotencyKey` takes the digest as a
    parameter, since sha256 is a function of `node:crypto`;
  * `nul_notMem_stableStringify`: the canonical text never contains the separator character of
    `idempotencyKey`, so the hashed text determines the operation id (`keyText_operationId`).
-/
import Mathlib

namespace AgentKernel

/-! ## 1. Values -/

/-- A character of a printed number: digits, sign, point and exponent. -/
def isNumberChar (c : Char) : Bool := c.isDigit || c == '-' || c == '+' || c == '.' || c == 'e'

/-- A number, as the text `JSON.stringify` prints for it. -/
structure JsonNumber where
  text : String
  printed : text.toList.all isNumberChar = true
  nonempty : text ≠ ""
  deriving DecidableEq

/-- A natural number. -/
def JsonNumber.ofNat (n : Nat) : JsonNumber where
  text := toString n
  printed := by
    simp only [List.all_eq_true]
    intro c hc
    have hd : c.isDigit = true := by
      have hm : c ∈ Nat.toDigits 10 n := by simpa [toString, Nat.repr] using hc
      exact Nat.isDigit_of_mem_toDigits (by decide) (by decide) hm
    simp [isNumberChar, hd]
  nonempty := Nat.repr_ne_empty

/-- A value that JSON has. -/
inductive Json where
  | null
  | bool (b : Bool)
  | num (n : JsonNumber)
  | str (s : String)
  | arr (items : List Json)
  | obj (fields : List (String × Json))

/-- Property access on an object or an array; `none` is `undefined`. -/
def Json.property (key : String) : Json → Option Json
  | .obj fields => fields.lookup key
  | .arr items =>
      if key = "length" then some (.num (.ofNat items.length))
      else (items.zipIdx.find? fun p => toString p.2 = key).map (·.1)
  | _ => none

/-! ## 2. JSON.stringify and stableStringify -/

/-- The digit of a value below sixteen. -/
def hexDigit (n : Nat) : Char := "0123456789abcdef".toList.getD n '0'

/-- How `JSON.stringify` writes one character of a string. -/
def escapeChar (c : Char) : List Char :=
  if c = '"' then ['\\', '"']
  else if c = '\\' then ['\\', '\\']
  else if c.toNat = 8 then ['\\', 'b']
  else if c.toNat = 12 then ['\\', 'f']
  else if c = '\n' then ['\\', 'n']
  else if c = '\r' then ['\\', 'r']
  else if c = '\t' then ['\\', 't']
  else if c.toNat < 32 then ['\\', 'u', '0', '0', hexDigit (c.toNat / 16), hexDigit (c.toNat % 16)]
  else [c]

/-- `JSON.stringify` of a string. -/
def quoteJson (s : String) : String :=
  "\"" ++ String.ofList (s.toList.flatMap escapeChar) ++ "\""

/-- `parts.join(',')`. -/
def joinComma : List String → String
  | [] => ""
  | [x] => x
  | x :: y :: rest => x ++ "," ++ joinComma (y :: rest)

/-- The UTF-16 code units of a character: `Array.prototype.sort` compares strings by them. -/
def utf16 (c : Char) : List Nat :=
  if c.toNat < 0x10000 then [c.toNat]
  else [0xD800 + (c.toNat - 0x10000) / 0x400, 0xDC00 + (c.toNat - 0x10000) % 0x400]

/-- The order of keys, by their UTF-16 units. -/
def keyLe (a b : String) : Bool := decide (a.toList.flatMap utf16 ≤ b.toList.flatMap utf16)

/-- Entries in the order of their sorted keys. -/
def sortByKey (entries : List (String × String)) : List (String × String) :=
  entries.insertionSort fun a b => keyLe a.1 b.1

mutual

/-- The text of a value, its keys in order. -/
def stableStringify : Json → String
  | .null => "null"
  | .bool b => if b then "true" else "false"
  | .num n => n.text
  | .str s => quoteJson s
  | .arr items => "[" ++ joinComma (stableItems items) ++ "]"
  | .obj fields =>
      "\x7b" ++ joinComma ((sortByKey (stableFields fields)).map fun e => quoteJson e.1 ++ ":" ++ e.2)
        ++ "\x7d"

/-- Item by item. -/
def stableItems : List Json → List String
  | [] => []
  | v :: vs => stableStringify v :: stableItems vs

/-- Entry by entry, under its own key. -/
def stableFields : List (String × Json) → List (String × String)
  | [] => []
  | (k, v) :: fs => (k, stableStringify v) :: stableFields fs

end

/-! ## 3. Paths and references -/

/-- `path.split(sep)`, on characters. -/
def splitChars (sep : Char) : List Char → List (List Char)
  | [] => [[]]
  | c :: cs =>
      if c = sep then [] :: splitChars sep cs
      else match splitChars sep cs with
        | [] => [[c]]
        | part :: parts => (c :: part) :: parts

/-- The value at a dotted path such as `output.passed`. -/
def getPath (v : Json) (path : String) : Option Json :=
  ((splitChars '.' path.toList).map String.ofList).foldl
    (fun cur part => cur.bind (Json.property part)) (some v)

/-- A reference to a value inside the documented result of an earlier node. -/
structure RefTarget where
  nodeId : String
  path : String
  deriving DecidableEq

/-- `isInputRef` together with the two texts it checks. -/
def isInputRef (value : Option Json) : Option RefTarget :=
  match value with
  | some (.obj fields) =>
      match fields.lookup "$ref" with
      | some (.obj ref) =>
          match ref.lookup "nodeId", ref.lookup "path" with
          | some (.str nodeId), some (.str path) => some ⟨nodeId, path⟩
          | _, _ => none
      | _ => none
  | _ => none

/-- `hash(operationId, input)`, stable across attempts and restarts. -/
def idempotencyKey (sha256 : String → String) (operationId : String) (input : Json) : String :=
  sha256 (operationId ++ "\x00" ++ stableStringify input)

/-! ## 4. The separator of a key does not occur in canonical text -/

/-- The character between the two parts of a hashed key. -/
def nul : Char := '\x00'

theorem nul_ne_hexDigit (n : Nat) : nul ≠ hexDigit n := by
  by_cases hn : n < 16
  · have h16 : ∀ m < 16, nul ≠ hexDigit m := by decide
    exact h16 n hn
  · have hd : hexDigit n = '0' := by
      unfold hexDigit
      rw [List.getD_eq_getElem?_getD, List.getElem?_eq_none (by simpa using hn)]
      rfl
    rw [hd]
    decide

theorem nul_notMem_escapeChar (c : Char) : nul ∉ escapeChar c := by
  have hhex : nul ∉ ['\\', 'u', '0', '0', hexDigit (c.toNat / 16), hexDigit (c.toNat % 16)] := by
    simp only [List.mem_cons, List.not_mem_nil, or_false, not_or]
    exact ⟨by decide, by decide, by decide, by decide, nul_ne_hexDigit _, nul_ne_hexDigit _⟩
  unfold escapeChar
  split_ifs with _ _ _ _ _ _ _ h32
  -- the two branches that keep a part of `c`: a control character in hex, and `c` itself
  on_goal 8 => exact hhex
  on_goal 8 =>
    intro h
    have hc : nul = c := by simpa using h
    exact h32 (by rw [← hc]; decide)
  all_goals decide

theorem nul_notMem_quoteJson (s : String) : nul ∉ (quoteJson s).toList := by
  simp only [quoteJson, String.toList_append, String.toList_ofList, List.mem_append, not_or,
    List.mem_flatMap, not_exists, not_and]
  exact ⟨⟨by decide, fun c _ => nul_notMem_escapeChar c⟩, by decide⟩

theorem nul_notMem_joinComma : ∀ (parts : List String), (∀ p ∈ parts, nul ∉ p.toList) →
    nul ∉ (joinComma parts).toList
  | [], _ => by simp [joinComma]
  | [x], h => by simpa [joinComma] using h
  | x :: y :: rest, h => by
      simp only [joinComma, String.toList_append, List.mem_append, not_or]
      exact ⟨⟨h x (by simp), by decide⟩,
        nul_notMem_joinComma (y :: rest) fun p hp => h p (by simp [List.mem_cons.mp hp])⟩

theorem nul_notMem_number (n : JsonNumber) : nul ∉ n.text.toList := by
  intro h
  have := List.all_eq_true.mp n.printed _ h
  exact absurd this (by decide)

mutual

/-- **Canonical text contains no separator.** -/
theorem nul_notMem_stableStringify : ∀ v : Json, nul ∉ (stableStringify v).toList
  | .null => by decide
  | .bool b => by cases b <;> decide
  | .num n => nul_notMem_number n
  | .str s => nul_notMem_quoteJson s
  | .arr items => by
      simp only [stableStringify, String.toList_append, List.mem_append, not_or]
      exact ⟨⟨by decide, nul_notMem_joinComma _ (nul_notMem_stableItems items)⟩, by decide⟩
  | .obj fields => by
      simp only [stableStringify, String.toList_append, List.mem_append, not_or]
      refine ⟨⟨by decide, nul_notMem_joinComma _ fun p hp => ?_⟩, by decide⟩
      obtain ⟨e, he, rfl⟩ := List.mem_map.mp hp
      have he' : e ∈ stableFields fields := (List.mem_insertionSort _).mp he
      simp only [String.toList_append, List.mem_append, not_or]
      exact ⟨⟨nul_notMem_quoteJson _, by decide⟩, nul_notMem_stableFields fields e he'⟩

theorem nul_notMem_stableItems : ∀ (vs : List Json), ∀ p ∈ stableItems vs, nul ∉ p.toList
  | [], p, hp => by simp [stableItems] at hp
  | v :: vs, p, hp => by
      rcases List.mem_cons.mp hp with rfl | hp
      · exact nul_notMem_stableStringify v
      · exact nul_notMem_stableItems vs p hp

theorem nul_notMem_stableFields : ∀ (fs : List (String × Json)), ∀ e ∈ stableFields fs,
    nul ∉ e.2.toList
  | [], e, he => by simp [stableFields] at he
  | (k, v) :: fs, e, he => by
      rcases List.mem_cons.mp he with rfl | he
      · exact nul_notMem_stableStringify v
      · exact nul_notMem_stableFields fs e he

end

/-- Two lists that each begin with separator-free text and the separator have the same parts. -/
theorem sep_append_inj {α : Type} {sep : α} : ∀ {a a' b b' : List α}, sep ∉ a → sep ∉ a' →
    a ++ sep :: b = a' ++ sep :: b' → a = a' ∧ b = b'
  | [], [], _, _, _, _, h => ⟨rfl, (List.cons.inj h).2⟩
  | [], x :: _, _, _, _, ha', h => by
      obtain rfl : sep = x := (List.cons.inj h).1
      exact absurd List.mem_cons_self ha'
  | x :: _, [], _, _, ha, _, h => by
      obtain rfl : x = sep := (List.cons.inj h).1
      exact absurd List.mem_cons_self ha
  | x :: a, y :: a', _, _, ha, ha', h => by
      obtain ⟨rfl, hrest⟩ := List.cons.inj h
      obtain ⟨rfl, hb⟩ := sep_append_inj (fun hm => ha (List.mem_cons_of_mem _ hm))
        (fun hm => ha' (List.mem_cons_of_mem _ hm)) hrest
      exact ⟨rfl, hb⟩

/-- Two lists that each end in the separator and separator-free text have the same head. -/
theorem append_sep_inj {α : Type} {sep : α} {a a' b b' : List α} (hb : sep ∉ b) (hb' : sep ∉ b')
    (h : a ++ sep :: b = a' ++ sep :: b') : a = a' := by
  have hr : b.reverse ++ sep :: a.reverse = b'.reverse ++ sep :: a'.reverse := by
    simpa using congrArg List.reverse h
  obtain ⟨-, hheads⟩ := sep_append_inj (by simpa using hb) (by simpa using hb') hr
  exact List.reverse_injective hheads

/-- **The hashed text determines the operation id it was made for.** -/
theorem keyText_operationId {o o' : String} {v v' : Json}
    (h : o ++ "\x00" ++ stableStringify v = o' ++ "\x00" ++ stableStringify v') : o = o' := by
  have ht := congrArg String.toList h
  simp only [String.toList_append, List.append_assoc] at ht
  have hl : o.toList = o'.toList :=
    append_sep_inj (nul_notMem_stableStringify v) (nul_notMem_stableStringify v') ht
  exact String.toList_injective hl

end AgentKernel
