/-
  File:      AgentKernel/Contracts/JsonText.lean
  Subject:   The text of a JSON value, written and read: `JSON.stringify` and `JSON.parse`.

  `Json.parse` reads what `Json.text` writes: no spaces, numbers as they are printed, escapes as
  `JSON.stringify` makes them. A reader takes a fuel of twice the length of its text.

  **`parse_text`**: a value comes back from its text, with the entries of its objects in the order
  in which they were written. So the text determines the value (**`text_injective`**).
-/
import AgentKernel.Contracts.Json

namespace AgentKernel

/-! ## 1. Writing -/

mutual

/-- `JSON.stringify` of a JSON value. -/
def Json.text : Json → String
  | .null => "null"
  | .bool b => if b then "true" else "false"
  | .num n => n.text
  | .str s => quoteJson s
  | .arr items => "[" ++ joinComma (itemTexts items) ++ "]"
  | .obj fields => "\x7b" ++ joinComma (fieldTexts fields) ++ "\x7d"

/-- Item by item. -/
def itemTexts : List Json → List String
  | [] => []
  | v :: vs => v.text :: itemTexts vs

/-- Entry by entry, behind its key. -/
def fieldTexts : List (String × Json) → List String
  | [] => []
  | (k, v) :: fs => (quoteJson k ++ ":" ++ v.text) :: fieldTexts fs

end

/-! ## 2. Reading -/

/-- The value of a hexadecimal digit. -/
def hexValue (c : Char) : Option Nat :=
  if c.isDigit then some (c.toNat - '0'.toNat)
  else if 'a' ≤ c ∧ c ≤ 'f' then some (c.toNat - 'a'.toNat + 10)
  else none

/-- The character a backslash and `c` stand for. -/
def unescape (c : Char) : Option Char :=
  match c with
  | '"' => some '"'
  | '\\' => some '\\'
  | '/' => some '/'
  | 'b' => some (Char.ofNat 8)
  | 'f' => some (Char.ofNat 12)
  | 'n' => some '\n'
  | 'r' => some '\r'
  | 't' => some '\t'
  | _ => none

/-- The character of four hexadecimal digits. -/
def hexChar (a b c d : Char) : Option Char := do
  let a ← hexValue a
  let b ← hexValue b
  let c ← hexValue c
  let d ← hexValue d
  some (Char.ofNat (4096 * a + 256 * b + 16 * c + d))

/-- A string after its opening quote: its characters, and what follows its closing quote. -/
def readString : List Char → Option (List Char × List Char)
  | [] => none
  | c :: cs =>
      if c = '"' then some ([], cs)
      else if c = '\\' then
        match cs with
        | 'u' :: x :: y :: z :: w :: rest =>
            (hexChar x y z w).bind fun c => (readString rest).map fun r => (c :: r.1, r.2)
        | e :: rest => (unescape e).bind fun c => (readString rest).map fun r => (c :: r.1, r.2)
        | [] => none
      else (readString cs).map fun r => (c :: r.1, r.2)
termination_by structural cs => cs

/-- A number: the characters of one that stand at the beginning. -/
def readNumber (cs : List Char) : Option (JsonNumber × List Char) :=
  let digits := String.ofList (cs.takeWhile isNumberChar)
  if h : digits ≠ "" then
    some (⟨digits, by rw [String.toList_ofList]; exact List.all_takeWhile, h⟩,
      cs.dropWhile isNumberChar)
  else none

mutual

/-- One value, and what stands behind it. -/
def readValue : Nat → List Char → Option (Json × List Char)
  | 0, _ => none
  | fuel + 1, cs =>
      match cs with
      | 'n' :: 'u' :: 'l' :: 'l' :: rest => some (.null, rest)
      | 't' :: 'r' :: 'u' :: 'e' :: rest => some (.bool true, rest)
      | 'f' :: 'a' :: 'l' :: 's' :: 'e' :: rest => some (.bool false, rest)
      | '"' :: rest => (readString rest).map fun r => (.str (String.ofList r.1), r.2)
      | '[' :: ']' :: rest => some (.arr [], rest)
      | '[' :: rest => (readItems fuel rest).map fun r => (.arr r.1, r.2)
      | '\x7b' :: '\x7d' :: rest => some (.obj [], rest)
      | '\x7b' :: rest => (readFields fuel rest).map fun r => (.obj r.1, r.2)
      | cs => (readNumber cs).map fun r => (.num r.1, r.2)

/-- The items of an array, from one that must follow to the closing bracket. -/
def readItems : Nat → List Char → Option (List Json × List Char)
  | 0, _ => none
  | fuel + 1, cs =>
      (readValue fuel cs).bind fun v =>
        match v.2 with
        | ',' :: rest => (readItems fuel rest).map fun r => (v.1 :: r.1, r.2)
        | ']' :: rest => some ([v.1], rest)
        | _ => none

/-- The entries of an object, from one that must follow to the closing brace. -/
def readFields : Nat → List Char → Option (List (String × Json) × List Char)
  | 0, _ => none
  | fuel + 1, cs =>
      match cs with
      | '"' :: cs =>
          (readString cs).bind fun k =>
            match k.2 with
            | ':' :: cs =>
                (readValue fuel cs).bind fun v =>
                  let entry := (String.ofList k.1, v.1)
                  match v.2 with
                  | ',' :: rest => (readFields fuel rest).map fun r => (entry :: r.1, r.2)
                  | '\x7d' :: rest => some ([entry], rest)
                  | _ => none
            | _ => none
      | _ => none

end

/-- `JSON.parse`. -/
def Json.parse (text : String) : Option Json :=
  match readValue (2 * text.toList.length) text.toList with
  | some (v, []) => some v
  | _ => none

/-! ## 3. Strings and numbers come back -/

theorem hexChar_control : ∀ n < 32,
    hexChar '0' '0' (hexDigit (n / 16)) (hexDigit (n % 16)) = some (Char.ofNat n) := by
  decide

theorem eq_ofNat {c : Char} {n : Nat} (h : c.toNat = n) : c = Char.ofNat n := by
  rw [← h, Char.ofNat_toNat]

/-- One escaped character is read as the character. -/
theorem readString_escapeChar (c : Char) (cs : List Char) :
    readString (escapeChar c ++ cs) = (readString cs).map fun r => (c :: r.1, r.2) := by
  have hplain : c ≠ '"' → c ≠ '\\' →
      readString ([c] ++ cs) = (readString cs).map fun r => (c :: r.1, r.2) := by
    intro hq hb
    rw [List.singleton_append, readString.eq_def]
    simp only [if_neg hq, if_neg hb]
  unfold escapeChar
  split_ifs with hq hb h8 h12 hn hr ht h32
  · rw [hq]
    rfl
  · rw [hb]
    rfl
  · rw [eq_ofNat h8]
    rfl
  · rw [eq_ofNat h12]
    rfl
  · rw [hn]
    rfl
  · rw [hr]
    rfl
  · rw [ht]
    rfl
  · have hhex := hexChar_control c.toNat h32
    rw [Char.ofNat_toNat] at hhex
    simp only [List.cons_append, List.nil_append, readString, hhex, Option.bind_some]
    rfl
  · exact hplain hq hb

/-- **An escaped string is read up to its closing quote.** -/
theorem readString_escaped : ∀ (s rest : List Char),
    readString (s.flatMap escapeChar ++ '"' :: rest) = some (s, rest)
  | [], rest => by
      rw [List.flatMap_nil, List.nil_append, readString.eq_def]
      simp only [if_true]
  | c :: s, rest => by
      rw [List.flatMap_cons, List.append_assoc, readString_escapeChar, readString_escaped s rest]
      rfl

/-- A quoted string in front of `rest`. -/
theorem quoteJson_append (s : String) (rest : List Char) :
    (quoteJson s).toList ++ rest = '"' :: (s.toList.flatMap escapeChar ++ '"' :: rest) := by
  simp [quoteJson]

/-- What may follow a value: nothing that could belong to a number. -/
def EndsNumber (rest : List Char) : Prop := ∀ c ∈ rest.head?, isNumberChar c = false

theorem takeWhile_append_ends {ds rest : List Char} (hd : ds.all isNumberChar = true)
    (hr : EndsNumber rest) : (ds ++ rest).takeWhile isNumberChar = ds ∧
      (ds ++ rest).dropWhile isNumberChar = rest := by
  have hall : ∀ c ∈ ds, isNumberChar c = true := List.all_eq_true.mp hd
  have hstop : rest.takeWhile isNumberChar = [] ∧ rest.dropWhile isNumberChar = rest := by
    cases rest with
    | nil => exact ⟨rfl, rfl⟩
    | cons c cs =>
        have hc : isNumberChar c = false := hr c rfl
        simp [hc]
  rw [List.takeWhile_append_of_pos hall, List.dropWhile_append_of_pos hall, hstop.1, hstop.2]
  exact ⟨List.append_nil _, rfl⟩

/-- **A number is read whole.** -/
theorem readNumber_text (n : JsonNumber) {rest : List Char} (hr : EndsNumber rest) :
    readNumber (n.text.toList ++ rest) = some (n, rest) := by
  obtain ⟨htake, hdrop⟩ := takeWhile_append_ends n.printed hr
  simp only [readNumber, htake, hdrop, String.ofList_toList, ne_eq, n.nonempty, not_false_eq_true,
    dite_true]

/-! ## 4. Values come back -/

section Reading

variable {fuel : Nat} {rest : List Char}

theorem readValue_string (s : String) (rest : List Char) :
    readValue (fuel + 1) ((quoteJson s).toList ++ rest) = some (.str s, rest) := by
  rw [quoteJson_append]
  simp only [readValue, readString_escaped, Option.map_some, String.ofList_toList]

/-- The first character of a number is none that another value begins with. -/
theorem readValue_number (n : JsonNumber) (hr : EndsNumber rest) :
    readValue (fuel + 1) (n.text.toList ++ rest) = some (.num n, rest) := by
  have hne : n.text.toList ≠ [] := by
    intro h
    exact n.nonempty (String.toList_eq_nil_iff.mp h)
  obtain ⟨c, cs, hcs⟩ := List.exists_cons_of_ne_nil hne
  have hc : isNumberChar c = true := by
    refine List.all_eq_true.mp n.printed c ?_
    rw [hcs]
    exact List.mem_cons_self
  have hnum := readNumber_text n hr
  rw [hcs, List.cons_append] at hnum ⊢
  unfold readValue
  split
  case h_9 =>
    rw [hnum]
    rfl
  all_goals
    rename_i heq
    obtain rfl := List.head_eq_of_cons_eq heq
    exact absurd hc (by decide)

/-- A text does not begin with the end of an array or an object. -/
theorem text_cons (v : Json) : ∃ c cs, v.text.toList = c :: cs ∧ c ≠ ']' ∧ c ≠ '\x7d' := by
  cases v with
  | null => exact ⟨_, _, rfl, by decide, by decide⟩
  | bool b => cases b <;> exact ⟨_, _, rfl, by decide, by decide⟩
  | num n =>
      cases hn : n.text.toList with
      | nil => exact absurd (String.toList_eq_nil_iff.mp hn) n.nonempty
      | cons c cs =>
          have hc : isNumberChar c = true := by
            refine List.all_eq_true.mp n.printed c ?_
            rw [hn]
            exact List.mem_cons_self
          refine ⟨c, cs, hn, ?_, ?_⟩
          all_goals
            rintro rfl
            exact absurd hc (by decide)
  | str s =>
      refine ⟨'"', s.toList.flatMap escapeChar ++ ['"'], ?_, by decide, by decide⟩
      rw [← List.append_nil (Json.str s).text.toList]
      exact quoteJson_append s []
  | arr items => exact ⟨'[', _, by simp [Json.text]; rfl, by decide, by decide⟩
  | obj fields => exact ⟨'\x7b', _, by simp [Json.text]; rfl, by decide, by decide⟩

theorem text_length (v : Json) : 0 < v.text.toList.length := by
  obtain ⟨c, cs, h, -⟩ := text_cons v
  rw [h]
  exact Nat.succ_pos _

/-- What follows an item or an entry does not continue a number. -/
theorem endsNumber_cons {c : Char} (hc : isNumberChar c = false) (rest : List Char) :
    EndsNumber (c :: rest) := by
  rintro d ⟨⟩
  exact hc

theorem readValue_arr {c : Char} {cs : List Char} (hc : c ≠ ']') :
    readValue (fuel + 1) ('[' :: c :: cs) =
      (readItems fuel (c :: cs)).map fun r => (.arr r.1, r.2) := by
  unfold readValue
  split
  case h_5 heq => exact absurd (List.cons.inj (List.cons.inj heq).2).1 hc
  case h_6 heq => rw [(List.cons.inj heq).2]
  case h_9 =>
    rename ∀ rest, '[' :: c :: cs = '[' :: rest → False => hno
    exact absurd rfl (hno _)
  all_goals
    rename_i heq
    cases heq

theorem readValue_obj {c : Char} {cs : List Char} (hc : c ≠ '\x7d') :
    readValue (fuel + 1) ('\x7b' :: c :: cs) =
      (readFields fuel (c :: cs)).map fun r => (.obj r.1, r.2) := by
  unfold readValue
  split
  case h_7 heq => exact absurd (List.cons.inj (List.cons.inj heq).2).1 hc
  case h_8 heq => rw [(List.cons.inj heq).2]
  case h_9 hno => exact absurd rfl (hno _)
  all_goals
    rename_i heq
    cases heq

theorem joinItems_cons (v : Json) (vs : List Json) :
    ∃ c cs, (joinComma (itemTexts (v :: vs))).toList = c :: cs ∧ c ≠ ']' := by
  obtain ⟨c, cs, h, hne, -⟩ := text_cons v
  cases vs with
  | nil => exact ⟨c, cs, h, hne⟩
  | cons w vs =>
      refine ⟨c, cs ++ ',' :: (joinComma (itemTexts (w :: vs))).toList, ?_, hne⟩
      simp [itemTexts, joinComma, h]

theorem joinFields_one (k : String) (v : Json) :
    joinComma (fieldTexts [(k, v)]) = quoteJson k ++ ":" ++ v.text := rfl

theorem joinFields_more (k : String) (v : Json) {es : List (String × Json)} (hes : es ≠ []) :
    joinComma (fieldTexts ((k, v) :: es)) =
      quoteJson k ++ ":" ++ v.text ++ "," ++ joinComma (fieldTexts es) := by
  obtain ⟨e, es, rfl⟩ := List.exists_cons_of_ne_nil hes
  rfl

theorem joinFields_cons (k : String) (v : Json) (es : List (String × Json)) :
    ∃ cs, (joinComma (fieldTexts ((k, v) :: es))).toList = '"' :: cs := by
  cases es with
  | nil => exact ⟨_, by simp [fieldTexts, joinComma, quoteJson]; rfl⟩
  | cons e es => exact ⟨_, by simp [fieldTexts, joinComma, quoteJson]; rfl⟩

/-- An entry is its key, a colon and a value. -/
theorem readFields_entry (k : String) (v : Json) (tail : List Char) :
    readFields (fuel + 1) ((quoteJson k ++ ":" ++ v.text).toList ++ tail) =
      (readValue fuel (v.text.toList ++ tail)).bind fun v =>
        match v.2 with
        | ',' :: rest => (readFields fuel rest).map fun r => ((k, v.1) :: r.1, r.2)
        | '\x7d' :: rest => some ([(k, v.1)], rest)
        | _ => none := by
  have htext : (quoteJson k ++ ":" ++ v.text).toList ++ tail =
      '"' :: (k.toList.flatMap escapeChar ++ '"' :: ':' :: (v.text.toList ++ tail)) := by
    simp [quoteJson]
  rw [htext]
  simp only [readFields, readString_escaped, Option.bind_some, String.ofList_toList]

mutual

/-- **A value is read from its text**, whatever follows that is not part of a number. -/
theorem readValue_text (v : Json) {fuel : Nat} {rest : List Char}
    (hf : 2 * v.text.toList.length ≤ fuel) (hr : EndsNumber rest) :
    readValue fuel (v.text.toList ++ rest) = some (v, rest) := by
  have hpos := text_length v
  obtain ⟨fuel, rfl⟩ : ∃ m, fuel = m + 1 := ⟨fuel - 1, by omega⟩
  cases v with
  | null => rfl
  | bool b => cases b <;> rfl
  | num n => exact readValue_number n hr
  | str s => exact readValue_string s rest
  | arr items =>
      cases items with
      | nil => rfl
      | cons v vs =>
          have htext : (Json.arr (v :: vs)).text.toList ++ rest =
              '[' :: ((joinComma (itemTexts (v :: vs))).toList ++ ']' :: rest) := by
            simp [Json.text]
          have hlen : (Json.arr (v :: vs)).text.toList.length =
              (joinComma (itemTexts (v :: vs))).toList.length + 2 := by
            simp [Json.text]
          have hitems := @readItems_text (v :: vs) fuel rest (List.cons_ne_nil _ _) (by omega)
          obtain ⟨c, cs, hc, hne⟩ := joinItems_cons v vs
          rw [htext, hc, List.cons_append, readValue_arr hne, ← List.cons_append, ← hc, hitems]
          rfl
  | obj fields =>
      match fields with
      | [] => rfl
      | (k, v) :: es =>
          have htext : (Json.obj ((k, v) :: es)).text.toList ++ rest =
              '\x7b' :: ((joinComma (fieldTexts ((k, v) :: es))).toList ++ '\x7d' :: rest) := by
            simp [Json.text]
          have hlen : (Json.obj ((k, v) :: es)).text.toList.length =
              (joinComma (fieldTexts ((k, v) :: es))).toList.length + 2 := by
            simp [Json.text]
          have hfields := @readFields_text ((k, v) :: es) fuel rest (List.cons_ne_nil _ _)
            (by omega)
          obtain ⟨cs, hc⟩ := joinFields_cons k v es
          have hquote : '"' ≠ '\x7d' := by decide
          rw [htext, hc, List.cons_append, readValue_obj hquote, ← List.cons_append, ← hc, hfields]
          rfl

theorem readItems_text : ∀ (items : List Json) {fuel : Nat} {rest : List Char}, items ≠ [] →
    2 * (joinComma (itemTexts items)).toList.length + 1 ≤ fuel →
    readItems fuel ((joinComma (itemTexts items)).toList ++ ']' :: rest) = some (items, rest)
  | [], _, _, hne, _ => absurd rfl hne
  | _ :: _, 0, _, _, hf => by omega
  | [v], fuel + 1, rest, _, hf => by
      have hj : joinComma (itemTexts [v]) = v.text := rfl
      have hbracket : isNumberChar ']' = false := by decide
      have hv := @readValue_text v fuel _ (by
        rw [hj] at hf
        omega) (endsNumber_cons hbracket rest)
      rw [hj]
      unfold readItems
      rw [hv]
      rfl
  | v :: w :: vs, fuel + 1, rest, _, hf => by
      have hj : (joinComma (itemTexts (v :: w :: vs))).toList ++ ']' :: rest =
          v.text.toList ++ ',' :: ((joinComma (itemTexts (w :: vs))).toList ++ ']' :: rest) := by
        simp [itemTexts, joinComma]
      have hlen : (joinComma (itemTexts (v :: w :: vs))).toList.length =
          v.text.toList.length + (joinComma (itemTexts (w :: vs))).toList.length + 1 := by
        simp [itemTexts, joinComma]
        omega
      have hcomma : isNumberChar ',' = false := by decide
      have hv := @readValue_text v fuel _ (by omega)
        (endsNumber_cons hcomma ((joinComma (itemTexts (w :: vs))).toList ++ ']' :: rest))
      have hvs := @readItems_text (w :: vs) fuel rest (List.cons_ne_nil _ _) (by omega)
      unfold readItems
      rw [hj, hv, Option.bind_some]
      simp only [hvs]
      rfl

theorem readFields_text : ∀ (fields : List (String × Json)) {fuel : Nat} {rest : List Char},
    fields ≠ [] → 2 * (joinComma (fieldTexts fields)).toList.length + 1 ≤ fuel →
    readFields fuel ((joinComma (fieldTexts fields)).toList ++ '\x7d' :: rest) =
      some (fields, rest)
  | [], _, _, hne, _ => absurd rfl hne
  | (k, v) :: es, fuel, rest, _, hf => by
      obtain ⟨fuel, rfl⟩ : ∃ m, fuel = m + 1 := ⟨fuel - 1, by omega⟩
      by_cases hes : es = []
      · rw [hes, joinFields_one] at hf ⊢
        have hbrace : isNumberChar '\x7d' = false := by decide
        have hv := @readValue_text v fuel _ (by
          simp only [String.toList_append, List.length_append] at hf
          omega) (endsNumber_cons hbrace rest)
        rw [readFields_entry, hv]
        rfl
      · rw [joinFields_more k v hes] at hf ⊢
        have hcomma : isNumberChar ',' = false := by decide
        have hone : ",".toList.length = 1 := rfl
        simp only [String.toList_append, List.length_append, hone] at hf
        have hv := @readValue_text v fuel _ (by omega) (endsNumber_cons hcomma
          ((joinComma (fieldTexts es)).toList ++ '\x7d' :: rest))
        have hrest := @readFields_text es fuel rest hes (by omega)
        have htext : (quoteJson k ++ ":" ++ v.text ++ "," ++ joinComma (fieldTexts es)).toList ++
            '\x7d' :: rest = (quoteJson k ++ ":" ++ v.text).toList ++
              ',' :: ((joinComma (fieldTexts es)).toList ++ '\x7d' :: rest) := by
          simp
        rw [htext, readFields_entry, hv, Option.bind_some]
        simp only [hrest]
        rfl

end

/-- **A value comes back from its text.** -/
theorem parse_text (v : Json) : Json.parse v.text = some v := by
  have hend : EndsNumber [] := by rintro c ⟨⟩
  have hread := readValue_text v (Nat.le_refl _) hend
  rw [List.append_nil] at hread
  unfold Json.parse
  rw [hread]

/-- **The text determines the value.** -/
theorem text_injective : Function.Injective Json.text := by
  intro v w h
  have hparse := congrArg Json.parse h
  rw [parse_text, parse_text] at hparse
  exact Option.some.inj hparse

end Reading

end AgentKernel
