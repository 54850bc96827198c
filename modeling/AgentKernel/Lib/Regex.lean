/-
  File:      AgentKernel/Lib/Regex.lean
  Subject:   Regular expressions with word boundaries, and the search of one in a text.

  Letters are compared without regard to case. An expression is run as a function from a place in
  the text to all places where a match that begins there can end.

  * `Regex.test`: somewhere in the text a match begins;
  * `test_append`: a match at the beginning of a rest of the text is found;
  * **`test_literal`**: a literal text is found wherever it stands;
  * `Regex.whole`: a match of the whole text, as `^` and `$` ask for (`whole_edged_iff`).
-/
import Mathlib

namespace AgentKernel.Lib

/-! ## 1. Expressions -/

/-- Expressions, as far as they are searched for. -/
inductive Regex where
  | empty
  /-- One character of a class. -/
  | char (p : Char → Bool)
  /-- Any number of characters of a class. -/
  | many (p : Char → Bool)
  /-- A place between a character of a word and one that is none. -/
  | boundary
  | seq (r s : Regex)
  | alt (r s : Regex)
  | opt (r : Regex)

namespace Regex

/-- `\w`. -/
def isWord (c : Char) : Bool := c.isAlphanum || c == '_'

/-- The white space and line ends of `\s`. -/
def isSpace (c : Char) : Bool :=
  (9 ≤ c.toNat && c.toNat ≤ 13) || (0x2000 ≤ c.toNat && c.toNat ≤ 0x200A) ||
    [0x20, 0xA0, 0x1680, 0x2028, 0x2029, 0x202F, 0x205F, 0x3000, 0xFEFF].contains c.toNat

/-- A text without the white space at its ends. -/
def trim (cs : List Char) : List Char := (cs.dropWhile isSpace).rdropWhile isSpace

/-- The same letter, small or capital. -/
def sameLetter (c d : Char) : Bool := c.toLower == d.toLower

/-- A text, letter by letter. -/
def literal (text : String) : Regex :=
  text.toList.foldr (fun c r => .seq (.char (sameLetter c)) r) .empty

/-- One expression behind the other. -/
def cat (rs : List Regex) : Regex := rs.foldr .seq .empty

/-- One of the texts. -/
def oneOf : List String → Regex
  | [] => .char fun _ => false
  | [text] => literal text
  | text :: texts => .alt (literal text) (oneOf texts)

/-- `\s+`. -/
def spaces : Regex := .seq (.char isSpace) (.many isSpace)

/-! ## 2. Search -/

/-- A place in a text: the character before it and the characters after it. -/
structure Place where
  before : Option Char
  after : List Char

/-- The places after any number of characters of `p`. -/
def manyEnds (p : Char → Bool) : Option Char → List Char → List Place
  | before, [] => [⟨before, []⟩]
  | before, c :: cs => ⟨before, c :: cs⟩ :: if p c then manyEnds p (some c) cs else []

/-- Where a match that begins at a place can end. -/
def ends : Regex → Place → List Place
  | .empty, at_ => [at_]
  | .char p, at_ =>
      match at_.after with
      | [] => []
      | c :: cs => if p c then [⟨some c, cs⟩] else []
  | .many p, at_ => manyEnds p at_.before at_.after
  | .boundary, at_ =>
      if at_.before.any isWord ≠ at_.after.head?.any isWord then [at_] else []
  | .seq r s, at_ => (r.ends at_).flatMap s.ends
  | .alt r s, at_ => r.ends at_ ++ s.ends at_
  | .opt r, at_ => r.ends at_ ++ [at_]

/-- All places of a text. -/
def places : Option Char → List Char → List Place
  | before, [] => [⟨before, []⟩]
  | before, c :: cs => ⟨before, c :: cs⟩ :: places (some c) cs

/-- `RegExp.prototype.test`. -/
def test (r : Regex) (text : String) : Bool :=
  (places none text.toList).any fun at_ => !(r.ends at_).isEmpty

/-- `^r$`: a match from the beginning of the text to its end. -/
def whole (r : Regex) (text : List Char) : Bool := (r.ends ⟨none, text⟩).any (·.after.isEmpty)

/-! ## 3. What is found -/

theorem mem_places : ∀ (a b : List Char) (before : Option Char),
    ∃ c, (⟨c, b⟩ : Place) ∈ places before (a ++ b)
  | [], [], before => ⟨before, List.mem_cons_self⟩
  | [], _ :: _, before => ⟨before, List.mem_cons_self⟩
  | x :: a, b, before => by
      obtain ⟨c, hc⟩ := mem_places a b (some x)
      exact ⟨c, List.mem_cons_of_mem _ hc⟩

/-- **A match at the beginning of a rest of the text is found.** -/
theorem test_append {r : Regex} {text : String} {a b : List Char} (htext : text.toList = a ++ b)
    (h : ∀ before, r.ends ⟨before, b⟩ ≠ []) : r.test text = true := by
  obtain ⟨c, hc⟩ := mem_places a b none
  refine List.any_eq_true.mpr ⟨⟨c, b⟩, ?_, ?_⟩
  · rw [htext]
    exact hc
  · simpa using h c

theorem ends_literal : ∀ (cs rest : List Char) (before : Option Char),
    ∃ last, (⟨last, rest⟩ : Place) ∈
      (cs.foldr (fun c r => .seq (.char (sameLetter c)) r) Regex.empty).ends ⟨before, cs ++ rest⟩
  | [], rest, before => ⟨before, List.mem_singleton_self _⟩
  | c :: cs, rest, before => by
      obtain ⟨last, hlast⟩ := ends_literal cs rest (some c)
      have hc : sameLetter c c = true := beq_self_eq_true _
      refine ⟨last, ?_⟩
      simp only [List.foldr_cons, List.cons_append, ends, hc, if_true, List.flatMap_singleton]
      exact hlast

/-- **A literal text is found wherever it stands.** -/
theorem test_literal {text word : String} {a b : List Char}
    (h : text.toList = a ++ (word.toList ++ b)) : (literal word).test text = true := by
  refine test_append h fun before hnil => ?_
  obtain ⟨last, hlast⟩ := ends_literal word.toList b before
  rw [literal] at hnil
  rw [hnil] at hlast
  exact List.not_mem_nil hlast

theorem test_alt (r s : Regex) (text : String) :
    (Regex.alt r s).test text = (r.test text || s.test text) := by
  rw [Bool.eq_iff_iff]
  simp only [test, ends, List.any_eq_true, Bool.or_eq_true, Bool.not_eq_true',
    List.isEmpty_eq_false_iff, ne_eq, List.append_eq_nil_iff, not_and_or]
  constructor
  · rintro ⟨at_, hat, h | h⟩
    · exact .inl ⟨at_, hat, h⟩
    · exact .inr ⟨at_, hat, h⟩
  · rintro (⟨at_, hat, h⟩ | ⟨at_, hat, h⟩)
    · exact ⟨at_, hat, .inl h⟩
    · exact ⟨at_, hat, .inr h⟩

/-! ## 4. Matches of the whole text -/

theorem whole_iff {r : Regex} {text : List Char} :
    r.whole text = true ↔ ∃ b, (⟨b, []⟩ : Place) ∈ r.ends ⟨none, text⟩ := by
  unfold whole
  rw [List.any_eq_true]
  constructor
  · rintro ⟨⟨b, after⟩, hmem, hafter⟩
    obtain rfl := List.isEmpty_iff.mp hafter
    exact ⟨b, hmem⟩
  · rintro ⟨b, hmem⟩
    exact ⟨_, hmem, rfl⟩

theorem mem_char_ends {p : Char → Bool} {before : Option Char} {cs : List Char} {at_ : Place} :
    at_ ∈ (char p).ends ⟨before, cs⟩ ↔ ∃ c rest, cs = c :: rest ∧ p c = true ∧ at_ = ⟨some c, rest⟩ := by
  cases cs with
  | nil => simp [ends]
  | cons c rest =>
      cases hp : p c <;> simp [ends, hp]

/-- Any number of characters of the class can be read. -/
theorem exists_mem_manyEnds {p : Char → Bool} {rest : List Char} : ∀ (before : Option Char)
    (cs : List Char), (∃ b, (⟨b, rest⟩ : Place) ∈ manyEnds p before cs) ↔
      ∃ front, cs = front ++ rest ∧ ∀ c ∈ front, p c = true
  | before, [] => by
      constructor
      · rintro ⟨b, hb⟩
        cases List.mem_singleton.mp hb
        exact ⟨[], rfl, nofun⟩
      · rintro ⟨front, hcs, -⟩
        obtain ⟨rfl, rfl⟩ := List.append_eq_nil_iff.mp hcs.symm
        exact ⟨before, List.mem_singleton_self _⟩
  | before, c :: cs => by
      unfold manyEnds
      constructor
      · rintro ⟨b, hb⟩
        rcases List.mem_cons.mp hb with hb | hb
        · cases hb
          exact ⟨[], rfl, nofun⟩
        · split_ifs at hb with hc
          · obtain ⟨front, rfl, hall⟩ := (exists_mem_manyEnds _ cs).mp ⟨b, hb⟩
            exact ⟨c :: front, rfl, List.forall_mem_cons.mpr ⟨hc, hall⟩⟩
          · cases hb
      · rintro ⟨front, hcs, hall⟩
        cases front with
        | nil => exact ⟨before, by rw [show rest = c :: cs from hcs.symm]; exact List.mem_cons_self⟩
        | cons d front =>
            obtain ⟨rfl, rfl⟩ := List.cons.inj hcs
            obtain ⟨hc, hall⟩ := List.forall_mem_cons.mp hall
            obtain ⟨b, hb⟩ := (exists_mem_manyEnds (some c) _).mpr ⟨front, rfl, hall⟩
            exact ⟨b, List.mem_cons_of_mem _ (by rwa [if_pos hc])⟩

/-- `^p(?:q*p)?$`: a character of `p` at both ends, and characters of `q` in between. -/
theorem whole_edged_iff {p q : Char → Bool} {text : List Char} :
    (Regex.seq (.char p) (.opt (.seq (.many q) (.char p)))).whole text = true ↔
      ∃ c, p c = true ∧ (text = [c] ∨
        ∃ mid d, text = c :: (mid ++ [d]) ∧ p d = true ∧ ∀ x ∈ mid, q x = true) := by
  rw [whole_iff]
  constructor
  · rintro ⟨b, hb⟩
    obtain ⟨at₁, hfirst, hb⟩ := List.mem_flatMap.mp hb
    obtain ⟨c, rest, rfl, hc, rfl⟩ := mem_char_ends.mp hfirst
    refine ⟨c, hc, ?_⟩
    rcases List.mem_append.mp hb with hb | hb
    · obtain ⟨⟨b', after⟩, hmany, hlast⟩ := List.mem_flatMap.mp hb
      obtain ⟨d, rest', rfl, hd, heq⟩ := mem_char_ends.mp hlast
      cases heq
      obtain ⟨mid, rfl, hmid⟩ := (exists_mem_manyEnds _ _).mp ⟨b', hmany⟩
      exact .inr ⟨mid, d, rfl, hd, hmid⟩
    · cases List.mem_singleton.mp hb
      exact .inl rfl
  · rintro ⟨c, hc, hrest⟩
    have hfirst : ∀ rest, (⟨some c, rest⟩ : Place) ∈ (char p).ends ⟨none, c :: rest⟩ :=
      fun rest => mem_char_ends.mpr ⟨c, rest, rfl, hc, rfl⟩
    rcases hrest with rfl | ⟨mid, d, rfl, hd, hmid⟩
    · exact ⟨some c, List.mem_flatMap.mpr
        ⟨_, hfirst [], List.mem_append_right _ (List.mem_singleton_self _)⟩⟩
    · obtain ⟨b, hb⟩ := (exists_mem_manyEnds (some c) _).mpr ⟨mid, rfl, hmid⟩
      exact ⟨some d, List.mem_flatMap.mpr ⟨_, hfirst _, List.mem_append_left _
        (List.mem_flatMap.mpr ⟨_, hb, mem_char_ends.mpr ⟨d, [], rfl, hd, rfl⟩⟩)⟩⟩

end Regex

end AgentKernel.Lib
