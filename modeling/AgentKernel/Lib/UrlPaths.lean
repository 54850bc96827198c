/-
  File:      AgentKernel/Lib/UrlPaths.lean
  Subject:   What a path asks for once it stands in a URL of http or https.

  Whoever takes a URL reads its path before anything is sent: what has no width is left out, a query
  or a fragment ends it, a backslash is a slash, and two dots (also percent-encoded) take back the
  segment before them.

  * `resolve`: the segments that are asked for;
  * **`resolve_plain`**: without such dots they are the segments of the path as it is written.
-/
import Mathlib

namespace AgentKernel.Lib.UrlPath

/-! ## 1. Reading -/

/-- A control character or a blank; at its end a URL loses them. -/
def isControl (c : Char) : Bool := c.toNat ≤ 0x20

/-- A tabulator or a line end; a URL loses them wherever they stand. -/
def isBreak (c : Char) : Bool := c == '\t' || c == '\n' || c == '\r'

/-- What stands behind it is no path. -/
def endsPath (c : Char) : Bool := c == '?' || c == '#'

/-- What stands between segments. -/
def isSlash (c : Char) : Bool := c == '/' || c == '\\'

/-- What is read of a path at the end of a URL. -/
def read (path : List Char) : List Char :=
  ((path.rdropWhile isControl).filter fun c => !isBreak c).takeWhile fun c => !endsPath c

/-- The segments as they are written. -/
def segments (path : List Char) : List (List Char) := (read path).splitOnP isSlash

/-- The segment stands for the place itself. -/
def isDot (segment : List Char) : Bool :=
  [".", "%2e"].contains (String.ofList (segment.map Char.toLower))

/-- The segment stands for the place above. -/
def isDoubleDot (segment : List Char) : Bool :=
  ["..", ".%2e", "%2e.", "%2e%2e"].contains (String.ofList (segment.map Char.toLower))

/-- Where the segments lead from a place. -/
def walk : List (List Char) → List (List Char) → List (List Char)
  | place, [] => place
  | place, segment :: rest =>
      if isDoubleDot segment then walk (place.dropLast ++ if rest.isEmpty then [[]] else []) rest
      else if isDot segment then walk (place ++ if rest.isEmpty then [[]] else []) rest
      else walk (place ++ [segment]) rest

/-- What is asked for with a path that begins with a slash. -/
def resolve (path : List Char) : List (List Char) := walk [] (segments path).tail

/-! ## 2. Paths without dots -/

/-- No segment stands for a place. -/
def Plain (path : List Char) : Prop :=
  ∀ segment ∈ segments path, isDot segment = false ∧ isDoubleDot segment = false

theorem walk_plain {segs : List (List Char)}
    (h : ∀ segment ∈ segs, isDot segment = false ∧ isDoubleDot segment = false) :
    ∀ place, walk place segs = place ++ segs := by
  induction segs with
  | nil => exact fun place => (List.append_nil place).symm
  | cons segment rest ih =>
      intro place
      obtain ⟨hdot, hdouble⟩ := h segment List.mem_cons_self
      unfold walk
      rw [hdot, hdouble]
      simp only [Bool.false_eq_true, if_false]
      rw [ih fun x hx => h x (List.mem_cons_of_mem _ hx), List.append_assoc]
      rfl

/-- **A path without dots is asked for as it is written.** -/
theorem resolve_plain {path : List Char} (h : Plain path) : resolve path = (segments path).tail :=
  walk_plain (fun segment hs => h segment (List.mem_of_mem_tail hs)) []

/-! ## 3. Names in a path -/

/-- The character is read as it is, and does not end a segment. -/
def isPlain (c : Char) : Bool := !isControl c && !endsPath c && !isSlash c

/-- A text that stands in a path for itself. -/
def Name (name : List Char) : Prop := ∀ c ∈ name, isPlain c = true

instance : DecidablePred Name := fun name => List.decidableBAll (fun c => isPlain c = true) name

section Name

variable {name more : List Char} {c : Char}

theorem isPlain_iff :
    isPlain c = true ↔ isControl c = false ∧ endsPath c = false ∧ isSlash c = false := by
  unfold isPlain
  simp [and_assoc]

theorem isBreak_of_control (h : isControl c = false) : isBreak c = false := by
  unfold isControl at h
  unfold isBreak
  simp only [Bool.or_eq_false_iff, beq_eq_false_iff_ne, ne_eq]
  refine ⟨⟨?_, ?_⟩, ?_⟩ <;> (rintro rfl; simp at h)

theorem rdropWhile_append {p : Char → Bool} {l : List Char} (h : ∀ c ∈ l, p c = false) :
    (l ++ more).rdropWhile p = l ++ more.rdropWhile p := by
  have hkept : l.reverse.dropWhile p = l.reverse := by
    cases hl : l.reverse with
    | nil => rfl
    | cons c rest =>
        have hc := h c (List.mem_reverse.mp (hl ▸ List.mem_cons_self))
        rw [List.dropWhile_cons_of_neg (by simp [hc])]
  unfold List.rdropWhile
  rw [List.reverse_append, List.dropWhile_append, hkept]
  split_ifs with hempty
  · rw [List.isEmpty_iff.mp hempty]
    simp
  · rw [List.reverse_append, List.reverse_reverse]

/-- What is read as it is stays in front. -/
theorem read_append {l : List Char} (h : ∀ c ∈ l, isControl c = false ∧ endsPath c = false) :
    read (l ++ more) = l ++ read more := by
  unfold read
  rw [rdropWhile_append fun c hc => (h c hc).1, List.filter_append, List.filter_eq_self.mpr fun c hc => ?_]
  · exact List.takeWhile_append_of_pos fun c hc => by simp [(h c hc).2]
  · simp [isBreak_of_control (h c hc).1]

theorem Name.visible (h : Name name) : ∀ c ∈ name, isControl c = false ∧ endsPath c = false :=
  fun c hc => ⟨(isPlain_iff.mp (h c hc)).1, (isPlain_iff.mp (h c hc)).2.1⟩

/-- A name before a slash is a segment. -/
theorem segments_name_cons (h : Name name) :
    segments (name ++ '/' :: more) = name :: segments more := by
  have hvisible : ∀ c ∈ name ++ ['/'], isControl c = false ∧ endsPath c = false := by
    intro c hc
    rcases List.mem_append.mp hc with hc | hc
    · exact h.visible c hc
    · rw [List.mem_singleton.mp hc]
      decide
  unfold segments
  rw [List.append_cons, read_append hvisible, ← List.append_cons]
  exact List.splitOnP_append_cons_of_forall_mem (fun c hc => (isPlain_iff.mp (h c hc)).2.2) '/' rfl _

/-- And so is the last one. -/
theorem segments_name (h : Name name) : segments name = [name] := by
  have hread : read name = name := by
    have happend : read (name ++ []) = name ++ read [] := read_append h.visible
    rw [List.append_nil] at happend
    exact happend.trans (List.append_nil name)
  unfold segments
  rw [hread]
  exact List.splitOnP_eq_singleton fun c hc => (isPlain_iff.mp (h c hc)).2.2

end Name

end AgentKernel.Lib.UrlPath
