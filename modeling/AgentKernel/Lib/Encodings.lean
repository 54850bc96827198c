/-
  File:      AgentKernel/Lib/Encodings.lean
  Subject:   Texts as bytes, and bytes as texts that can be sent.

  * `utf8`, and back: `ofUtf8` refuses what is no text, `toText` has a replacement character for it;
  * `percentEncode`, with the characters that stay as they are, and `percentBytes`;
  * `base64`, and `unbase64`, which passes over white space.

  Each is read back as it was: **`ofUtf8_utf8`**, **`toText_utf8`**, **`decode_encodeURIComponent`**,
  **`unbase64_wrapped`** (with any white space put in between).
-/
import Mathlib

namespace AgentKernel.Lib

/-! ## 1. UTF-8 -/

/-- The bytes of a text. -/
def utf8 (s : String) : List UInt8 := s.toList.flatMap String.utf8EncodeChar

/-- `none` where the bytes are no text. -/
def ofUtf8 (bytes : List UInt8) : Option String := String.fromUTF8? bytes.toByteArray

theorem ofUtf8_utf8 (s : String) : ofUtf8 (utf8 s) = some s := by
  have hbytes : (utf8 s).toByteArray = s.toByteArray := String.utf8Encode_toList
  unfold ofUtf8 String.fromUTF8?
  rw [hbytes, dif_pos s.isValidUTF8]
  rfl

/-- The character at the beginning of some bytes. -/
def firstChar (bytes : List UInt8) : Option Char := bytes.toByteArray.utf8DecodeChar? 0

/-- A byte that goes on with a character. -/
def isContinuation (b : UInt8) : Bool := 0x80 ≤ b && b ≤ 0xBF

/-- The second byte of a character of three bytes or four. -/
def isSecond (a b : UInt8) : Bool :=
  if a = 0xE0 then 0xA0 ≤ b && b ≤ 0xBF
  else if a = 0xED then 0x80 ≤ b && b ≤ 0x9F
  else if a = 0xF0 then 0x90 ≤ b && b ≤ 0xBF
  else if a = 0xF4 then 0x80 ≤ b && b ≤ 0x8F
  else 0xE1 ≤ a && a ≤ 0xF3 && isContinuation b

/-- How many bytes one replacement character stands for: a character that has been begun. -/
def brokenLength : List UInt8 → Nat
  | a :: b :: rest =>
      if isSecond a b then if 0xF0 ≤ a && rest.head?.any isContinuation then 3 else 2 else 1
  | _ => 1

/-- The characters of some bytes, in so many steps at the most. -/
def toChars : Nat → List UInt8 → List Char
  | 0, _ => []
  | _ + 1, [] => []
  | n + 1, b :: bytes =>
      match firstChar (b :: bytes) with
      | some c => c :: toChars n ((b :: bytes).drop c.utf8Size)
      | none => '\uFFFD' :: toChars n ((b :: bytes).drop (brokenLength (b :: bytes)))

/-- What is no text becomes replacement characters. -/
def toText (bytes : List UInt8) : String := String.ofList (toChars bytes.length bytes)

theorem toChars_utf8 : ∀ (cs : List Char) (n : Nat), (cs.flatMap String.utf8EncodeChar).length ≤ n →
    toChars n (cs.flatMap String.utf8EncodeChar) = cs
  | [], n, _ => by
      cases n <;> rfl
  | c :: cs, n, h => by
      have hsize := c.utf8Size_pos
      have hlength := String.length_utf8EncodeChar c
      rw [List.flatMap_cons, List.length_append] at h
      obtain ⟨n, rfl⟩ : ∃ m, n = m + 1 := ⟨n - 1, by omega⟩
      obtain ⟨b, bs, hb⟩ := List.exists_cons_of_length_pos (l := String.utf8EncodeChar c) (by omega)
      have hfirst : firstChar (String.utf8EncodeChar c ++ cs.flatMap String.utf8EncodeChar) = some c := by
        unfold firstChar
        rw [List.toByteArray_append]
        exact ByteArray.utf8DecodeChar?_utf8EncodeChar_append
      rw [List.flatMap_cons]
      rw [hb] at hfirst hlength h ⊢
      rw [List.cons_append] at hfirst ⊢
      rw [toChars, hfirst]
      dsimp only
      rw [← List.cons_append, List.drop_left' hlength, toChars_utf8 cs n (by omega)]

theorem toText_utf8 (s : String) : toText (utf8 s) = s := by
  unfold toText utf8
  rw [toChars_utf8 _ _ le_rfl, String.ofList_toList]

/-! ## 2. Percent-encoding -/

/-- The value of a hexadecimal digit. -/
def hexNibble (c : Char) : Option Nat :=
  if c.isDigit then some (c.toNat - '0'.toNat)
  else if 'a' ≤ c ∧ c ≤ 'f' then some (c.toNat - 'a'.toNat + 10)
  else if 'A' ≤ c ∧ c ≤ 'F' then some (c.toNat - 'A'.toNat + 10)
  else none

/-- The digit of a value below sixteen. -/
def upperHex (n : Nat) : Char := "0123456789ABCDEF".toList.getD n '0'

/-- A byte behind a percent sign. -/
def percent (b : UInt8) : List Char := ['%', upperHex (b.toNat / 16), upperHex (b.toNat % 16)]

/-- Every other character than those to keep becomes its bytes. -/
def percentEncode (keep : Char → Bool) (s : String) : String :=
  String.ofList (s.toList.flatMap fun c =>
    if keep c then [c] else (String.utf8EncodeChar c).flatMap percent)

/-- The bytes of a text with escapes. -/
def percentBytes : List Char → Option (List UInt8)
  | [] => some []
  | '%' :: a :: b :: cs => do
      let high ← hexNibble a
      let low ← hexNibble b
      let rest ← percentBytes cs
      some (UInt8.ofNat (16 * high + low) :: rest)
  | '%' :: _ => none
  | c :: cs => (percentBytes cs).map (String.utf8EncodeChar c ++ ·)

/-- `A-Z a-z 0-9 - _ . ! ~ * ' ( )`. -/
def isUnreserved (c : Char) : Bool := c.isAlphanum || c ∈ "-_.!~*'()".toList

/-- A text that can stand in a part of a URL. -/
def encodeURIComponent (s : String) : String := percentEncode isUnreserved s

/-- `none` where it throws. -/
def decodeURIComponent (s : String) : Option String := (percentBytes s.toList).bind ofUtf8

theorem hexNibble_upperHex : ∀ n < 16, hexNibble (upperHex n) = some n := by decide

theorem percentBytes_percent (b : UInt8) (cs : List Char) :
    percentBytes (percent b ++ cs) = (percentBytes cs).map (b :: ·) := by
  have hb := b.toNat_lt
  change (hexNibble (upperHex (b.toNat / 16))).bind (fun high =>
    (hexNibble (upperHex (b.toNat % 16))).bind fun low =>
      (percentBytes cs).bind fun rest => some (UInt8.ofNat (16 * high + low) :: rest)) = _
  rw [hexNibble_upperHex _ (by omega), hexNibble_upperHex _ (by omega), Option.bind_some,
    Option.bind_some, Nat.div_add_mod, UInt8.ofNat_toNat]
  cases percentBytes cs <;> rfl

theorem percentBytes_escaped : ∀ (bytes : List UInt8) (cs : List Char),
    percentBytes (bytes.flatMap percent ++ cs) = (percentBytes cs).map (bytes ++ ·)
  | [], cs => by simp
  | b :: bytes, cs => by
      rw [List.flatMap_cons, List.append_assoc, percentBytes_percent, percentBytes_escaped bytes cs,
        Option.map_map]
      rfl

theorem percentBytes_kept {c : Char} (h : c ≠ '%') (cs : List Char) :
    percentBytes (c :: cs) = (percentBytes cs).map (String.utf8EncodeChar c ++ ·) := by
  rw [percentBytes]
  · rintro a b cs rfl
    exact absurd rfl h
  · rintro rfl
    exact absurd rfl h

section Keep

variable {keep : Char → Bool}

theorem percentBytes_encode (hkeep : keep '%' = false) (s : String) :
    percentBytes (percentEncode keep s).toList = some (utf8 s) := by
  unfold percentEncode utf8
  rw [String.toList_ofList]
  induction s.toList with
  | nil => rfl
  | cons c cs ih =>
      rw [List.flatMap_cons, List.flatMap_cons]
      by_cases hc : keep c = true
      · have hpercent : c ≠ '%' := by
          rintro rfl
          rw [hkeep] at hc
          cases hc
        rw [if_pos hc, List.singleton_append, percentBytes_kept hpercent, ih]
        rfl
      · rw [if_neg hc, percentBytes_escaped, ih]
        rfl

/-- The characters of an escaped text. -/
theorem mem_percentEncode {s : String} {c : Char} (h : c ∈ (percentEncode keep s).toList) :
    keep c = true ∨ c = '%' ∨ c ∈ "0123456789ABCDEF".toList := by
  have hhex : ∀ n < 16, upperHex n ∈ "0123456789ABCDEF".toList := by decide
  unfold percentEncode at h
  rw [String.toList_ofList, List.mem_flatMap] at h
  obtain ⟨d, -, hd⟩ := h
  split_ifs at hd with hkeep
  · obtain rfl := List.mem_singleton.mp hd
    exact .inl hkeep
  · obtain ⟨b, -, hb⟩ := List.mem_flatMap.mp hd
    have := b.toNat_lt
    unfold percent at hb
    simp only [List.mem_cons, List.not_mem_nil, or_false] at hb
    rcases hb with rfl | rfl | rfl
    · exact .inr (.inl rfl)
    · exact .inr (.inr (hhex _ (by omega)))
    · exact .inr (.inr (hhex _ (by omega)))

theorem percentEncode_eq_empty {s : String} : percentEncode keep s = "" ↔ s = "" := by
  constructor
  · intro h
    by_contra hs
    obtain ⟨c, cs, hcs⟩ := List.exists_cons_of_ne_nil fun h => hs (String.toList_eq_nil_iff.mp h)
    have hempty := congrArg String.toList h
    unfold percentEncode at hempty
    rw [String.toList_ofList, hcs, List.flatMap_cons] at hempty
    have hnil := (List.append_eq_nil_iff.mp hempty).1
    split_ifs at hnil with hkeep
    have hsize := c.utf8Size_pos
    have hlength := String.length_utf8EncodeChar c
    obtain ⟨b, bs, hb⟩ := List.exists_cons_of_length_pos (l := String.utf8EncodeChar c) (by omega)
    rw [hb] at hnil
    simp [percent] at hnil
  · rintro rfl
    rfl

end Keep

theorem decode_encodeURIComponent (s : String) : decodeURIComponent (encodeURIComponent s) = some s := by
  unfold decodeURIComponent encodeURIComponent
  rw [percentBytes_encode (by decide)]
  exact ofUtf8_utf8 s

/-! ## 3. Base64 -/

/-- The sixty-four letters. -/
def base64Alphabet : List Char :=
  "ABCDEFGHIJKLMNOPQRSTUVWXYZabcdefghijklmnopqrstuvwxyz0123456789+/".toList

/-- The letter of six bits. -/
def sextetChar (n : Nat) : Char := base64Alphabet.getD n 'A'

/-- The characters of both alphabets; the others say nothing. -/
def sextet (c : Char) : Option Nat :=
  if c = '-' then some 62
  else if c = '_' then some 63
  else if c ∈ base64Alphabet then some (base64Alphabet.idxOf c)
  else none

/-- Three bytes are four letters. -/
def base64Chars : List UInt8 → List Char
  | [] => []
  | [a] => [sextetChar (a.toNat / 4), sextetChar (a.toNat % 4 * 16), '=', '=']
  | [a, b] =>
      [sextetChar (a.toNat / 4), sextetChar (a.toNat % 4 * 16 + b.toNat / 16),
        sextetChar (b.toNat % 16 * 4), '=']
  | a :: b :: c :: rest =>
      sextetChar (a.toNat / 4) :: sextetChar (a.toNat % 4 * 16 + b.toNat / 16) ::
        sextetChar (b.toNat % 16 * 4 + c.toNat / 64) :: sextetChar (c.toNat % 64) :: base64Chars rest

/-- Four times six bits are three bytes. -/
def octets : List Nat → List UInt8
  | a :: b :: c :: d :: rest =>
      UInt8.ofNat (a * 4 + b / 16) :: UInt8.ofNat (b % 16 * 16 + c / 4) ::
        UInt8.ofNat (c % 4 * 64 + d) :: octets rest
  | [a, b, c] => [UInt8.ofNat (a * 4 + b / 16), UInt8.ofNat (b % 16 * 16 + c / 4)]
  | [a, b] => [UInt8.ofNat (a * 4 + b / 16)]
  | _ => []

/-- The letters of some bytes. -/
def base64 (bytes : List UInt8) : String := String.ofList (base64Chars bytes)

/-- The padding ends the text. -/
def unbase64Chars (cs : List Char) : List UInt8 := octets ((cs.takeWhile (· ≠ '=')).filterMap sextet)

/-- The bytes of some letters; what is none of the letters is passed over. -/
def unbase64 (s : String) : List UInt8 := unbase64Chars s.toList

theorem sextet_sextetChar : ∀ n < 64, sextet (sextetChar n) = some n := by decide +kernel

theorem sextetChar_ne : ∀ n < 64, sextetChar n ≠ '=' := by decide +kernel

theorem unbase64_base64Chars (bytes : List UInt8) : unbase64Chars (base64Chars bytes) = bytes := by
  unfold unbase64Chars
  induction bytes using base64Chars.induct with
  | case1 => rfl
  | case2 a =>
      have ha := a.toNat_lt
      simp only [base64Chars, List.takeWhile, ne_eq, sextetChar_ne _ (show a.toNat / 4 < 64 by omega),
        sextetChar_ne _ (show a.toNat % 4 * 16 < 64 by omega), not_false_eq_true, decide_true,
        not_true_eq_false, decide_false, List.filterMap_cons, List.filterMap_nil,
        sextet_sextetChar _ (show a.toNat / 4 < 64 by omega),
        sextet_sextetChar _ (show a.toNat % 4 * 16 < 64 by omega), octets]
      rw [show a.toNat / 4 * 4 + a.toNat % 4 * 16 / 16 = a.toNat by omega, UInt8.ofNat_toNat]
  | case3 a b =>
      have ha := a.toNat_lt
      have hb := b.toNat_lt
      have h₁ : a.toNat / 4 < 64 := by omega
      have h₂ : a.toNat % 4 * 16 + b.toNat / 16 < 64 := by omega
      have h₃ : b.toNat % 16 * 4 < 64 := by omega
      simp only [base64Chars, List.takeWhile, ne_eq, sextetChar_ne _ h₁, sextetChar_ne _ h₂,
        sextetChar_ne _ h₃, not_false_eq_true, decide_true, not_true_eq_false, decide_false,
        List.filterMap_cons, List.filterMap_nil, sextet_sextetChar _ h₁, sextet_sextetChar _ h₂,
        sextet_sextetChar _ h₃, octets]
      rw [show a.toNat / 4 * 4 + (a.toNat % 4 * 16 + b.toNat / 16) / 16 = a.toNat by omega,
        show (a.toNat % 4 * 16 + b.toNat / 16) % 16 * 16 + b.toNat % 16 * 4 / 4 = b.toNat by omega,
        UInt8.ofNat_toNat, UInt8.ofNat_toNat]
  | case4 a b c rest ih =>
      have ha := a.toNat_lt
      have hb := b.toNat_lt
      have hc := c.toNat_lt
      have h₁ : a.toNat / 4 < 64 := by omega
      have h₂ : a.toNat % 4 * 16 + b.toNat / 16 < 64 := by omega
      have h₃ : b.toNat % 16 * 4 + c.toNat / 64 < 64 := by omega
      have h₄ : c.toNat % 64 < 64 := by omega
      simp only [base64Chars, List.takeWhile_cons, ne_eq, sextetChar_ne _ h₁, sextetChar_ne _ h₂,
        sextetChar_ne _ h₃, sextetChar_ne _ h₄, not_false_eq_true, decide_true, if_true,
        List.filterMap_cons, sextet_sextetChar _ h₁, sextet_sextetChar _ h₂, sextet_sextetChar _ h₃,
        sextet_sextetChar _ h₄, octets]
      rw [ih, show a.toNat / 4 * 4 + (a.toNat % 4 * 16 + b.toNat / 16) / 16 = a.toNat by omega,
        show (a.toNat % 4 * 16 + b.toNat / 16) % 16 * 16 + (b.toNat % 16 * 4 + c.toNat / 64) / 4 =
          b.toNat by omega,
        show (b.toNat % 16 * 4 + c.toNat / 64) % 4 * 64 + c.toNat % 64 = c.toNat by omega,
        UInt8.ofNat_toNat, UInt8.ofNat_toNat, UInt8.ofNat_toNat]

/-- What says nothing and is no padding can be left out. -/
theorem unbase64Chars_filter {p : Char → Bool} (h : ∀ c, p c = false → sextet c = none ∧ c ≠ '=')
    (cs : List Char) : unbase64Chars (cs.filter p) = unbase64Chars cs := by
  unfold unbase64Chars
  congr 1
  induction cs with
  | nil => rfl
  | cons c cs ih =>
      by_cases hc : p c = true
      · rw [List.filter_cons_of_pos hc, List.takeWhile_cons, List.takeWhile_cons]
        split_ifs
        · rw [List.filterMap_cons, List.filterMap_cons, ih]
        · rfl
      · obtain ⟨hnone, hpad⟩ := h c (by simpa using hc)
        rw [List.filter_cons_of_neg hc, List.takeWhile_cons, if_pos (by simpa using hpad),
          List.filterMap_cons, hnone, ih]

/-- **Bytes are read back from their text**, however it has been broken into lines. -/
theorem unbase64_wrapped {bytes : List UInt8} {text : String}
    (h : text.toList.filter (fun c => !c.isWhitespace) = (base64 bytes).toList) :
    unbase64 text = bytes := by
  have hspace : ∀ c : Char, (!c.isWhitespace) = false → sextet c = none ∧ c ≠ '=' := by
    intro c hc
    have hc : c.isWhitespace = true := by simpa using hc
    unfold Char.isWhitespace at hc
    simp only [Bool.or_eq_true, decide_eq_true_eq] at hc
    rcases hc with ((rfl | rfl) | rfl) | rfl <;> decide
  unfold unbase64
  rw [← unbase64Chars_filter hspace, h]
  unfold base64
  rw [String.toList_ofList, unbase64_base64Chars]

end AgentKernel.Lib
