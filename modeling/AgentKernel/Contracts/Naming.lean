/-
  File:      AgentKernel/Contracts/Naming.lean
  Subject:   Names of capabilities and events (kernel/contracts/src/naming.ts).

  `validateName` is a chain of tests that overlap. `Named` is the grammar they are about: segments
  joined by single dots, two at least, the first of them not reserved.

  * `isSegment_iff`: what the regular expression of a segment accepts;
  * **`validateName_iff`**: the tests accept just the names of the grammar. Of `toLowerCase` this
    uses only that it leaves ASCII text without capital letters as it is.
-/
import AgentKernel.Lib.Regex

namespace AgentKernel

open Lib

/-! ## 1. The tests -/

/-- `RESERVED_NAMESPACES`. -/
def reservedNamespaces : List String :=
  ["admin", "kernel", "root", "system", "super", "everything", "anything", "global", "privileged",
    "sudo", "aok", "internal"]

/-- `[a-z0-9]`. -/
def isEdge (c : Char) : Bool := c.isLower || c.isDigit

/-- `[a-z0-9_-]`. -/
def isInner (c : Char) : Bool := isEdge c || c == '_' || c == '-'

/-- `SEGMENT`, between `^` and `$`. -/
def segmentRegex : Regex := .seq (.char isEdge) (.opt (.seq (.many isInner) (.char isEdge)))

/-- Whether a name is well formed, and why not. -/
structure NameValidation where
  valid : Bool
  reason : Option String := none
  deriving DecidableEq

/-- The name up to its first dot. -/
def namespaceOf (name : String) : String := String.ofList (name.toList.takeWhile (· ≠ '.'))

/-- `name.split('.')`. -/
def segmentsOf (name : String) : List (List Char) := name.toList.splitOn '.'

section Validation

variable (toLowerCase : String → String)

/-- A value that is no string is outside the type of names. -/
def validateName (name : String) : NameValidation :=
  if name = "" then { valid := false, reason := some "name must be a non-empty string" }
  else if name ≠ toLowerCase name then
    { valid := false, reason := some ("'" ++ name ++ "' must be lowercase") }
  else if ['.'] <+: name.toList ∨ ['.'] <:+ name.toList then
    { valid := false, reason := some ("'" ++ name ++ "' must not start or end with '.'") }
  else if ['.', '.'] <:+: name.toList then
    { valid := false, reason := some ("'" ++ name ++ "' contains empty segment") }
  else if (segmentsOf name).length < 2 then
    { valid := false, reason := some ("'" ++ name ++ "' must have at least a namespace and an action") }
  else
    match (segmentsOf name).find? fun seg => !segmentRegex.whole seg with
    | some seg =>
        { valid := false, reason := some ("segment '" ++ String.ofList seg ++ "' is invalid") }
    | none =>
        if namespaceOf name ∈ reservedNamespaces then
          { valid := false, reason := some ("namespace '" ++ namespaceOf name ++ "' is reserved") }
        else { valid := true }

/-- The name is well formed. -/
def isValidName (name : String) : Bool := (validateName toLowerCase name).valid

/-- A capability is named like everything else. -/
def validateCapabilityName (name : String) : NameValidation := validateName toLowerCase name

/-- And so is a type of events. -/
def validateEventType (name : String) : NameValidation := validateName toLowerCase name

end Validation

/-! ## 2. The grammar -/

/-- A segment: lower-case letters, digits, `_` and `-`, with a letter or a digit at both ends. -/
structure IsSegment (seg : List Char) : Prop where
  chars : ∀ c ∈ seg, isInner c = true
  first : ∃ c, seg.head? = some c ∧ isEdge c = true
  last : ∃ c, seg.getLast? = some c ∧ isEdge c = true

/-- Segments joined by single dots, two at least, the first of them not reserved. -/
def Named (name : String) : Prop :=
  ∃ seg segs, segs ≠ [] ∧ name.toList = ['.'].intercalate (seg :: segs) ∧
    (∀ s ∈ seg :: segs, IsSegment s) ∧ String.ofList seg ∉ reservedNamespaces

/-- What is used of `toLowerCase`: ASCII text without capital letters is left as it is. -/
def KeepsLowerCase (toLowerCase : String → String) : Prop :=
  ∀ s : String, (∀ c ∈ s.toList, c.toNat < 128 ∧ c.isUpper = false) → toLowerCase s = s

section Grammar

variable {seg : List Char} {segs : List (List Char)} {name : String} {c : Char}

theorem isInner_of_isEdge (h : isEdge c = true) : isInner c = true := by
  unfold isInner
  rw [h]
  rfl

/-- **The regular expression accepts just the segments.** -/
theorem isSegment_iff : segmentRegex.whole seg = true ↔ IsSegment seg := by
  unfold segmentRegex
  rw [Regex.whole_edged_iff]
  constructor
  · rintro ⟨c, hc, rfl | ⟨mid, d, rfl, hd, hmid⟩⟩
    · exact ⟨List.forall_mem_singleton.mpr (isInner_of_isEdge hc), ⟨c, rfl, hc⟩, ⟨c, rfl, hc⟩⟩
    · refine ⟨fun x hx => ?_, ⟨c, rfl, hc⟩, ⟨d, by rw [← List.cons_append, List.getLast?_concat], hd⟩⟩
      rcases List.mem_cons.mp hx with rfl | hx
      · exact isInner_of_isEdge hc
      · rcases List.mem_append.mp hx with hx | hx
        · exact hmid x hx
        · rw [List.mem_singleton.mp hx]
          exact isInner_of_isEdge hd
  · rintro ⟨hchars, ⟨c, hhead, hc⟩, ⟨d, hlast, hd⟩⟩
    refine ⟨c, hc, ?_⟩
    obtain ⟨rest, rfl⟩ : ∃ rest, seg = c :: rest := by
      cases seg with
      | nil => cases hhead
      | cons x rest => exact ⟨rest, by rw [Option.some.inj hhead]⟩
    rcases List.eq_nil_or_concat rest with rfl | ⟨mid, x, rfl⟩
    · exact .inl rfl
    · rw [List.concat_eq_append] at hlast hchars ⊢
      rw [← List.cons_append, List.getLast?_concat] at hlast
      obtain rfl := Option.some.inj hlast
      refine .inr ⟨mid, x, rfl, hd, fun y hy => hchars y ?_⟩
      exact List.mem_cons_of_mem _ (List.mem_append_left _ hy)

theorem dot_not_inner : isInner '.' = false := by decide

theorem IsSegment.dot_notMem (h : IsSegment seg) : '.' ∉ seg := fun hm => by
  have := h.chars _ hm
  rw [dot_not_inner] at this
  cases this

theorem IsSegment.ne_nil (h : IsSegment seg) : seg ≠ [] := by
  rintro rfl
  obtain ⟨c, hc, -⟩ := h.first
  cases hc

/-- What begins or ends with a dot, or has two dots in a row, has an empty segment. -/
theorem nil_mem_splitOn {cs : List Char}
    (h : ['.'] <+: cs ∨ ['.'] <:+ cs ∨ ['.', '.'] <:+: cs) : [] ∈ cs.splitOn '.' := by
  rcases h with ⟨rest, rfl⟩ | ⟨front, rfl⟩ | ⟨front, rest, rfl⟩
  · rw [show ['.'] ++ rest = [] ++ '.' :: rest from rfl, List.splitOn_append_cons_self]
    exact List.mem_append_left _ (by simp)
  · rw [List.splitOn_append_cons_self]
    exact List.mem_append_right _ (by simp)
  · rw [show front ++ ['.', '.'] ++ rest = front ++ '.' :: ([] ++ '.' :: rest) by simp,
      List.splitOn_append_cons_self, List.splitOn_append_cons_self]
    exact List.mem_append_right _ (List.mem_append_left _ (by simp))

theorem namespaceOf_intercalate (h : name.toList = ['.'].intercalate (seg :: segs))
    (hseg : '.' ∉ seg) : namespaceOf name = String.ofList seg := by
  have hall : ∀ c ∈ seg, decide (c ≠ '.') = true := fun c hc =>
    decide_eq_true fun he => hseg (he ▸ hc)
  unfold namespaceOf
  rw [h]
  cases segs with
  | nil => rw [List.intercalate_singleton, List.takeWhile_eq_self_iff.mpr hall]
  | cons s segs =>
      rw [List.intercalate_cons_cons, List.append_assoc, List.takeWhile_append_of_pos hall]
      simp

theorem segmentsOf_intercalate (h : name.toList = ['.'].intercalate (seg :: segs))
    (hsegs : ∀ s ∈ seg :: segs, IsSegment s) : segmentsOf name = seg :: segs := by
  unfold segmentsOf
  rw [h, List.splitOn_intercalate '.' (fun s hs => (hsegs s hs).dot_notMem) (List.cons_ne_nil _ _)]

theorem isUpper_iff : c.isUpper = true ↔ 65 ≤ c.toNat ∧ c.toNat ≤ 90 := by
  simp [Char.isUpper, UInt32.le_iff_toNat_le, ← Char.toNat_val]

theorem isLower_iff : c.isLower = true ↔ 97 ≤ c.toNat ∧ c.toNat ≤ 122 := by
  simp [Char.isLower, UInt32.le_iff_toNat_le, ← Char.toNat_val]

/-- The characters of segments are ASCII, and none is a capital letter. -/
theorem lower_of_isInner (h : isInner c = true) : c.toNat < 128 ∧ c.isUpper = false := by
  rw [← Bool.not_eq_true, isUpper_iff]
  simp only [isInner, isEdge, Bool.or_eq_true, beq_iff_eq] at h
  rcases h with ((h | h) | rfl) | rfl
  · have hrange := isLower_iff.mp h
    omega
  · have hrange : 48 ≤ c.toNat ∧ c.toNat ≤ 57 := Char.isDigit_iff_toNat.mp h
    omega
  · decide
  · decide

theorem mem_intercalate {c : Char} : ∀ {segs : List (List Char)}, c ∈ ['.'].intercalate segs →
    c = '.' ∨ ∃ s ∈ segs, c ∈ s
  | [], h => by simp at h
  | [s], h => .inr ⟨s, List.mem_singleton_self s, by simpa using h⟩
  | s :: t :: segs, h => by
      rw [List.intercalate_cons_cons, List.append_assoc] at h
      rcases List.mem_append.mp h with h | h
      · exact .inr ⟨s, List.mem_cons_self, h⟩
      · rcases List.mem_append.mp h with h | h
        · exact .inl (List.mem_singleton.mp h)
        · exact (mem_intercalate h).imp_right fun ⟨u, hu, hc⟩ => ⟨u, List.mem_cons_of_mem _ hu, hc⟩

/-- **The tests accept just the names of the grammar.** -/
theorem validateName_iff {toLowerCase : String → String} (hlower : KeepsLowerCase toLowerCase) :
    (validateName toLowerCase name).valid = true ↔ Named name := by
  constructor
  · intro h
    unfold validateName at h
    split at h
    · cases h
    split at h
    · cases h
    split at h
    · cases h
    split at h
    · cases h
    split at h
    · cases h
    rename_i hshort
    obtain ⟨seg, segs, hsplit⟩ := List.exists_cons_of_ne_nil (List.splitOn_ne_nil '.' name.toList)
    have hjoined : name.toList = ['.'].intercalate (seg :: segs) := by
      rw [← hsplit, List.intercalate_splitOn]
    split at h
    · cases h
    · rename_i hfind
      have hsegs : ∀ s ∈ seg :: segs, IsSegment s := fun s hs => by
        have hwhole := List.find?_eq_none.mp hfind s (by rw [segmentsOf, hsplit]; exact hs)
        exact isSegment_iff.mp (by simpa using hwhole)
      split at h
      · cases h
      rename_i hreserved
      rw [namespaceOf_intercalate hjoined (hsegs seg List.mem_cons_self).dot_notMem] at hreserved
      refine ⟨seg, segs, ?_, hjoined, hsegs, hreserved⟩
      rintro rfl
      rw [segmentsOf, hsplit] at hshort
      exact hshort (Nat.lt_succ_self 1)
  · rintro ⟨seg, segs, hne, hjoined, hsegs, hreserved⟩
    have hsplit := segmentsOf_intercalate hjoined hsegs
    have hnil : [] ∉ name.toList.splitOn '.' := fun hmem => by
      rw [segmentsOf] at hsplit
      rw [hsplit] at hmem
      exact (hsegs [] hmem).ne_nil rfl
    have hempty : name ≠ "" := by
      rintro rfl
      exact hnil (by simp)
    have hlow : name = toLowerCase name := by
      refine (hlower name fun c hc => ?_).symm
      rw [hjoined] at hc
      rcases mem_intercalate hc with rfl | ⟨s, hs, hc⟩
      · decide
      · exact lower_of_isInner ((hsegs s hs).chars c hc)
    have hends : ¬ (['.'] <+: name.toList ∨ ['.'] <:+ name.toList) := fun h =>
      hnil (nil_mem_splitOn (h.imp_right .inl))
    have hdots : ¬ ['.', '.'] <:+: name.toList := fun h => hnil (nil_mem_splitOn (.inr (.inr h)))
    have hlong : ¬ (segmentsOf name).length < 2 := by
      rw [hsplit]
      cases segs with
      | nil => exact absurd rfl hne
      | cons s segs => simp
    have hfind : (segmentsOf name).find? (fun seg => !segmentRegex.whole seg) = none := by
      rw [hsplit, List.find?_eq_none]
      intro s hs
      simpa using isSegment_iff.mpr (hsegs s hs)
    have hns := namespaceOf_intercalate hjoined (hsegs seg List.mem_cons_self).dot_notMem
    rw [validateName, if_neg hempty, if_neg (not_not.mpr hlow), if_neg hends, if_neg hdots,
      if_neg hlong, hfind, hns]
    dsimp only
    rw [if_neg hreserved]

end Grammar

end AgentKernel
