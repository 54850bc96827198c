/-
  File:      AgentKernel/Tools/RestrictedShell.lean
  Subject:   Commands against a shell policy (plugins/tools/src/restricted-shell.ts).

  The validator reads one word of a command: the program it takes from there must be on the
  allowlist and on no deny entry (`validate_allowed_iff`).

  **`no_open_shell_iff`**: so no segment of an allowed command runs a rejected program just where
  the segments the validator does not read, those behind an operator and the first one where an
  operator ends it within its first word, run none.
-/
import AgentKernel.Lib.Regex
import AgentKernel.Policy
import AgentKernel.Contracts.Json

namespace AgentKernel.Tools

open Lib Regex
open Immune (startsWith)

/-! ## 1. The validator -/

/-- What the validator reads of a policy. -/
structure ShellCommandPolicy where
  allowlist : List String
  deny : List String
  maxStdoutBytes : Int

/-- Whether a command is allowed, and why not. -/
structure ShellCommandDecision where
  allowed : Bool
  reason : Option String := none
  binary : Option String := none
  deriving DecidableEq

/-- `command.trim().split(/\s+/)[0]`: the white space that `trim` drops is that of `\s`, so there is
    none before the first word. -/
def firstWord (command : String) : List Char :=
  (trim command.toList).takeWhile fun c => !isSpace c

/-- The name of the program: what stands behind the last slash of the first word. -/
def extractBinary (command : String) : String :=
  String.ofList ((firstWord command).rtakeWhile (· ≠ '/'))

/-- An entry is all, the beginning of a name, or a name. -/
def entryMatches (entry binary : String) : Bool :=
  if entry = "*" then true
  else if endsWith entry "*" then startsWith binary (dropLast 1 entry)
  else entry = binary

/-- `command.length`, in UTF-16 units. -/
def commandLength (command : String) : Nat := (command.toList.flatMap utf16).length

/-- A denial comes before the allowlist. -/
def validateShellCommand (command : String) (policy : ShellCommandPolicy) : ShellCommandDecision :=
  let binary := extractBinary command
  if policy.deny.any (entryMatches · binary) then
    { allowed := false, reason := some ("'" ++ binary ++ "' is explicitly denied")
      binary := some binary }
  else if !policy.allowlist.any (entryMatches · binary) then
    { allowed := false, reason := some ("'" ++ binary ++ "' is not in the allowlist")
      binary := some binary }
  else if policy.maxStdoutBytes < commandLength command then
    { allowed := false, reason := some "command exceeds max length", binary := some binary }
  else { allowed := true, binary := some binary }

/-! ## 2. What a policy permits -/

variable {policy : ShellCommandPolicy} {command : String}

/-- The program is on the allowlist and on no deny entry. -/
def Permitted (policy : ShellCommandPolicy) (binary : String) : Prop :=
  (∃ a ∈ policy.allowlist, entryMatches a binary = true) ∧
    ∀ d ∈ policy.deny, ¬entryMatches d binary = true

/-- **Allowed is a command whose own program is permitted, and that is not too long.** -/
theorem validate_allowed_iff : (validateShellCommand command policy).allowed = true ↔
    Permitted policy (extractBinary command) ∧ (commandLength command : Int) ≤ policy.maxStdoutBytes := by
  unfold validateShellCommand Permitted
  dsimp only
  split_ifs with hdeny hallow hlong
  · obtain ⟨d, hd, hmatch⟩ := List.any_eq_true.mp hdeny
    exact iff_of_false id fun h => h.1.2 d hd hmatch
  · have hnone : ¬∃ a ∈ policy.allowlist, entryMatches a (extractBinary command) = true := by
      simpa using hallow
    simp [hnone]
  · simp [not_le.mpr hlong]
  · have hsome : ∃ a ∈ policy.allowlist, entryMatches a (extractBinary command) = true := by
      simpa using hallow
    have hnone : ∀ d ∈ policy.deny, ¬entryMatches d (extractBinary command) = true := by
      simpa using hdeny
    exact iff_of_true rfl ⟨⟨hsome, hnone⟩, not_lt.mp hlong⟩

/-! ## 3. Segments -/

/-- The shell control operators. -/
def isOperator (c : Char) : Bool := c == ';' || c == '&' || c == '|' || c == '\n'

/-- The command, split at the operators. -/
def segments (command : String) : List String :=
  (command.toList.splitOnP isOperator).map String.ofList

/-- A segment that is not blank names a program. -/
def Names (segment : String) : Prop := ∃ c ∈ segment.toList, ¬isSpace c = true

theorem takeWhile_rdropWhile (p : Char → Bool) (cs : List Char) :
    (cs.rdropWhile p).takeWhile (fun c => !p c) = cs.takeWhile fun c => !p c := by
  induction cs using List.reverseRecOn with
  | nil => rfl
  | append_singleton cs c ih =>
      rw [List.rdropWhile_concat]
      split_ifs with hc
      · rw [ih, List.takeWhile_append]
        split_ifs with hall
        · have hlast : [c].takeWhile (fun c => !p c) = [] := List.takeWhile_cons_of_neg (by simp [hc])
          rw [hlast, List.append_nil]
          exact (List.takeWhile_prefix _).eq_of_length hall
        · rfl
      · rfl

/-- Trimming the end does not touch the first word. -/
theorem firstWord_ofList (cs : List Char) : firstWord (String.ofList cs) =
    (cs.dropWhile isSpace).takeWhile fun c => !isSpace c := by
  unfold firstWord trim
  rw [String.toList_ofList, takeWhile_rdropWhile]

/-- Without an operator in it, the first word of a command is that of its first segment. -/
theorem firstWord_append {segment rest : List Char} {op : Char}
    (hnames : ∃ c ∈ segment, ¬isSpace c = true) (hop : isOperator op = true)
    (hno : ∀ c ∈ firstWord (String.ofList (segment ++ op :: rest)), ¬isOperator c = true) :
    firstWord (String.ofList segment) = firstWord (String.ofList (segment ++ op :: rest)) := by
  have hne : ¬(segment.dropWhile isSpace).isEmpty = true := by
    simpa [List.isEmpty_iff, List.dropWhile_eq_nil_iff] using hnames
  rw [firstWord_ofList, List.dropWhile_append, if_neg hne, List.takeWhile_append] at hno
  rw [firstWord_ofList, firstWord_ofList, List.dropWhile_append, if_neg hne, List.takeWhile_append]
  split_ifs with hall
  · rw [if_pos hall] at hno
    have hword := (List.takeWhile_prefix fun c => !isSpace c).eq_of_length hall
    cases hspace : isSpace op with
    | true =>
        rw [List.takeWhile_cons_of_neg (by simp [hspace]), List.append_nil]
        exact hword
    | false =>
        -- the operator ends the segment within the word
        rw [List.takeWhile_cons_of_pos (by simp [hspace])] at hno
        exact absurd hop (hno op (by simp))
  · rfl

/-- A command is one segment, or its first segment and what stands behind an operator. -/
theorem segments_cases (command : String) : (segments command = [command]) ∨
    ∃ segment op rest, command = String.ofList (segment ++ op :: rest) ∧ isOperator op = true ∧
      segments command = String.ofList segment :: segments (String.ofList rest) := by
  have hsplit := List.takeWhile_append_dropWhile (p := fun c => !isOperator c) (l := command.toList)
  have hfront : ∀ c ∈ command.toList.takeWhile (fun c => !isOperator c), isOperator c = false :=
    fun c hc => by simpa using List.mem_takeWhile_imp hc
  unfold segments
  cases hrest : command.toList.dropWhile fun c => !isOperator c with
  | nil =>
      rw [hrest, List.append_nil] at hsplit
      rw [hsplit] at hfront
      refine .inl ?_
      rw [List.splitOnP_eq_singleton hfront, List.map_singleton, String.ofList_toList]
  | cons op rest =>
      have hop : isOperator op = true := by
        have hne : command.toList.dropWhile (fun c => !isOperator c) ≠ [] := by simp [hrest]
        simpa [hrest] using List.head_dropWhile_not _ hne
      rw [hrest] at hsplit
      refine .inr ⟨command.toList.takeWhile fun c => !isOperator c, op, rest, ?_, hop, ?_⟩
      · rw [hsplit, String.ofList_toList]
      · rw [String.toList_ofList]
        conv_lhs => rw [← hsplit, List.splitOnP_append_cons_of_forall_mem hfront op hop]
        rfl

/-! ## 4. Hidden programs -/

/-- The policy rejects the program the validator reads, or the command is too long. -/
def Rejected (policy : ShellCommandPolicy) (command : String) : Prop :=
  ¬Permitted policy (extractBinary command) ∨ policy.maxStdoutBytes < commandLength command

/-- The programs the validator does not read are permitted: those behind an operator, and the first
    one where an operator stands in the first word. -/
structure HiddenPermitted (policy : ShellCommandPolicy) (command : String) : Prop where
  glued : (∃ c ∈ firstWord command, isOperator c = true) →
    ∀ s ∈ (segments command).head?, Names s → Permitted policy (extractBinary s)
  chained : ∀ s ∈ (segments command).tail, Names s → Permitted policy (extractBinary s)

/-- Otherwise the first segment runs the program the validator reads. -/
theorem extractBinary_first (hno : ¬∃ c ∈ firstWord command, isOperator c = true) {s : String}
    (hs : s ∈ (segments command).head?) (hnames : Names s) :
    extractBinary s = extractBinary command := by
  rcases segments_cases command with honly | ⟨segment, op, rest, rfl, hop, hsegments⟩
  · rw [honly] at hs
    rw [← Option.some.inj hs]
  · rw [hsegments] at hs
    obtain rfl : String.ofList segment = s := Option.some.inj hs
    unfold extractBinary
    rw [firstWord_append (by simpa [Names] using hnames) hop fun c hc hin => hno ⟨c, hc, hin⟩]

/-- **An allowed command runs permitted programs only, just where it is rejected or the programs
    the validator does not read are permitted.** -/
theorem no_open_shell_iff (policy : ShellCommandPolicy) (command : String) :
    ((validateShellCommand command policy).allowed = true →
      ∀ s ∈ segments command, Names s → Permitted policy (extractBinary s)) ↔
    Rejected policy command ∨ HiddenPermitted policy command := by
  rw [validate_allowed_iff]
  constructor
  · intro h
    by_cases hpermitted : Permitted policy (extractBinary command)
    · rcases lt_or_ge policy.maxStdoutBytes (commandLength command : Int) with hlong | hshort
      · exact .inl (.inr hlong)
      · have hall := h ⟨hpermitted, hshort⟩
        exact .inr ⟨fun _ s hs => hall s (List.mem_of_head? hs),
          fun s hs => hall s (List.mem_of_mem_tail hs)⟩
    · exact .inl (.inl hpermitted)
  · rintro (hrejected | hhidden) ⟨hpermitted, hshort⟩ s hs hnames
    · rcases hrejected with hnot | hlong
      · exact absurd hpermitted hnot
      · exact absurd hlong hshort.not_gt
    · obtain ⟨first, others, hsegments⟩ := List.exists_cons_of_ne_nil (List.ne_nil_of_mem hs)
      rcases List.mem_cons.mp (hsegments ▸ hs) with rfl | hs
      · have hhead : s ∈ (segments command).head? := by simp [hsegments]
        by_cases hglued : ∃ c ∈ firstWord command, isOperator c = true
        · exact hhidden.glued hglued s hhead hnames
        · rw [extractBinary_first hglued hhead hnames]
          exact hpermitted
      · exact hhidden.chained s (by simpa [hsegments] using hs) hnames

/-- Git, npm and node, and never `rm`. -/
def gitNotRm : ShellCommandPolicy where
  allowlist := ["git*", "npm", "node"]
  deny := ["rm"]
  maxStdoutBytes := 1024

/-- **A chained `rm` is allowed.** -/
theorem rm_behind_git : (validateShellCommand "git status; rm -rf /" gitNotRm).allowed = true ∧
    " rm -rf /" ∈ segments "git status; rm -rf /" ∧ Names " rm -rf /" ∧
    ¬Permitted gitNotRm (extractBinary " rm -rf /") := by
  refine ⟨by decide, by decide, ⟨'r', by decide, by decide⟩, fun h => ?_⟩
  exact h.2 "rm" (by decide) (by decide)

end AgentKernel.Tools
