import StackMigrate.Library.Lines
import StackMigrate.Graph.Replay
import StackMigrate.Sandbox.DockerRunner
import Mathlib.Data.List.TakeWhile

/-!
# Which failing tests reach the error analysis

The adapter parses what is left of the output after it was cut, and pytest prints its summary
at the end. An identifier that ends behind the cut is lost, or comes out shorter than it is.
-/

namespace StackMigrate

open Lines

/-- The identifiers that were found are all there are, and none of them is the beginning of
one that was cut off. -/
structure NothingLost (output : String) (failingTests : List String) : Prop where
  complete : failingTests = findFailed output
  genuine : ∀ identifier ∈ failingTests,
    (∃ real ∈ findFailed output, startsWith real identifier ∧ real ≠ identifier) →
    identifier ∈ findFailed output

/-- The characters of a line up to the end of its identifier. -/
def failedExtent (identifier : List Char) : ℕ := "FAILED ".length + identifier.length

/-- No identifier of the output ends behind the characters that are captured. -/
def IdentifiersCaptured (output : String) : Prop :=
  EndWithin failedIdentifier failedExtent '\n' output.toList maxCapturedOutputChars

variable {line rest identifier : List Char}

/-! ### The regular expression -/

theorem failedIdentifier_append (tail : List Char) :
    failedIdentifier ("FAILED ".toList ++ tail) =
      if (tail.takeWhile fun c => !isSpace c).isEmpty then none
      else some (tail.takeWhile fun c => !isSpace c) := by
  rw [failedIdentifier, if_pos (List.isPrefixOf_iff_prefix.mpr (List.prefix_append _ _))]
  rfl

/-- The match is the run of characters without white space behind the word. -/
theorem failedIdentifier_eq_some : failedIdentifier line = some identifier ↔
    identifier ≠ [] ∧ (∀ c ∈ identifier, isSpace c = false) ∧
      ∃ rest, line = "FAILED ".toList ++ (identifier ++ rest) ∧ ∀ c ∈ rest.head?, isSpace c := by
  constructor
  · intro h
    have hstart : "FAILED ".toList.isPrefixOf line = true := by
      by_contra hno
      rw [failedIdentifier, if_neg hno] at h
      cases h
    obtain ⟨tail, rfl⟩ := List.isPrefixOf_iff_prefix.mp hstart
    rw [failedIdentifier_append] at h
    split_ifs at h with hempty
    rw [Option.some.injEq] at h
    have hsplit := List.takeWhile_append_dropWhile (p := fun c => !isSpace c) (l := tail)
    rw [h] at hempty hsplit
    refine ⟨by simpa using hempty, ?_, tail.dropWhile fun c => !isSpace c, ?_, ?_⟩
    · intro c hc
      rw [← h] at hc
      simpa using List.mem_takeWhile_imp hc
    · rw [hsplit]
    · intro c hc
      have hstop := List.head?_dropWhile_not (fun c => !isSpace c) tail
      rw [Option.mem_def.mp hc] at hstop
      simpa using hstop
  · rintro ⟨hne, hchars, rest, rfl, hrest⟩
    have htake : (identifier ++ rest).takeWhile (fun c => !isSpace c) = identifier := by
      rw [List.takeWhile_append_of_pos fun c hc => by simp [hchars c hc]]
      cases rest with
      | nil => simp
      | cons c rest => simp [hrest c rfl]
    rw [failedIdentifier_append, htake, if_neg (by simpa using hne)]

theorem reads_failedIdentifier : Reads failedIdentifier failedExtent where
  mono := by
    intro line more identifier hread
    obtain ⟨hne, hchars, rest, rfl, -⟩ := failedIdentifier_eq_some.mp hread
    have htake : (identifier ++ (rest ++ more)).takeWhile (fun c => !isSpace c) =
        identifier ++ (rest ++ more).takeWhile fun c => !isSpace c :=
      List.takeWhile_append_of_pos fun c hc => by simp [hchars c hc]
    refine ⟨identifier ++ (rest ++ more).takeWhile fun c => !isSpace c, ?_⟩
    rw [List.append_assoc, List.append_assoc, failedIdentifier_append, htake,
      if_neg (by simp [hne])]
  cut := by
    intro line more identifier hread
    obtain ⟨hne, hchars, rest, hline, hrest⟩ := failedIdentifier_eq_some.mp hread
    constructor
    · intro hread'
      obtain ⟨-, -, rest', rfl, -⟩ := failedIdentifier_eq_some.mp hread'
      rw [List.length_append, List.length_append, String.length_toList, failedExtent]
      omega
    · intro hextent
      have htoken : "FAILED ".toList ++ identifier <+: line ++ more := by
        rw [hline, ← List.append_assoc]
        exact List.prefix_append _ _
      have hpre : "FAILED ".toList ++ identifier <+: line := by
        refine List.prefix_of_prefix_length_le htoken (List.prefix_append _ _) ?_
        rwa [List.length_append, String.length_toList]
      obtain ⟨rest', rfl⟩ := hpre
      refine failedIdentifier_eq_some.mpr ⟨hne, hchars, rest', by simp, ?_⟩
      intro c hc
      have hsame : rest' ++ more = rest := by simpa using hline
      apply hrest c
      rw [← hsame]
      cases rest' with
      | nil => cases hc
      | cons d rest' => exact hc

/-! ### The cut -/

theorem findFailed_truncate (output : String) : findFailed (truncate output) = findFailed output ↔
    IdentifiersCaptured output := by
  rw [truncate]
  split_ifs with hshort
  · exact iff_of_true rfl (endWithin_of_length_le reads_failedIdentifier hshort)
  · have hmark : (("\n... [truncated]".toList.tail).splitOn '\n').filterMap failedIdentifier =
        [] := by
      decide
    have hlines : (String.ofList (output.toList.take maxCapturedOutputChars) ++
        "\n... [truncated]").toList = output.toList.take maxCapturedOutputChars ++
          '\n' :: "\n... [truncated]".toList.tail := by
      rw [String.toList_append, String.toList_ofList]
      rfl
    rw [findFailed, findFailed, hlines, List.splitOn_append_cons_self, List.filterMap_append, hmark,
      List.append_nil, IdentifiersCaptured, ← filterMap_take_iff reads_failedIdentifier]
    exact (List.map_injective_iff.mpr fun a b h => String.ofList_injective h).eq_iff

theorem nothingLost_iff (output : String) (failingTests : List String) :
    NothingLost output failingTests ↔ failingTests = findFailed output := by
  refine ⟨NothingLost.complete, ?_⟩
  rintro rfl
  exact ⟨rfl, fun identifier hmem _ => hmem⟩

/-! ### The result -/

theorem parseTestOutput_one (stdout : String) :
    parseTestOutput stdout 1 = (.failed, findFailed stdout) := by
  simp [parseTestOutput]

theorem runTests_failed {limits : SandboxLimits} {docker : Docker} {fs : FileSystem}
    {workspaceRoot : String} {taskId : Option String} {installOutput output : String}
    {duration : ℚ} {result : SandboxRunResult}
    (h : runTests limits docker fs workspaceRoot fastApiTargetAdapter taskId installOutput =
      .ok result)
    (htest : docker (testKwargs limits fs workspaceRoot fastApiTargetAdapter) =
      .exited output (some 1) duration) :
    result.testResult.failingTests = findFailed (truncate output) := by
  rw [runTests, runContainer, htest] at h
  obtain rfl := Except.ok.inj h
  simp only [fastApiTargetAdapter, Option.getD_some, parseTestOutput_one]

/-- For a test container that ends with exit code 1, no failing test is lost if and only if all
identifiers end within the captured characters. -/
theorem no_failing_test_lost_iff (limits : SandboxLimits) (docker : Docker) (fs : FileSystem)
    (workspaceRoot : String) (taskId : Option String) (output : String) (duration : ℚ)
    (result : SandboxRunResult)
    (hrun : runSandbox limits docker fs workspaceRoot fastApiTargetAdapter taskId = .ok result)
    (hsetup : result.setupSucceeded = true)
    (htest : docker (testKwargs limits fs workspaceRoot fastApiTargetAdapter) =
      .exited output (some 1) duration) :
    NothingLost output result.testResult.failingTests ↔ IdentifiersCaptured output := by
  have hfailing : result.testResult.failingTests = findFailed (truncate output) := by
    rw [runSandbox] at hrun
    split at hrun
    · cases hrun
    · obtain rfl := Except.ok.inj hrun
      cases hsetup
    · split_ifs at hrun
      · obtain rfl := Except.ok.inj hrun
        cases hsetup
      · exact runTests_failed hrun htest
  rw [nothingLost_iff, hfailing, findFailed_truncate]

/-! ### A long run of dots -/

/-- A daemon that installs without a word and whose tests print `output`. -/
def printing (output : String) : Docker := fun kwargs =>
  if kwargs.networkDisabled then .exited output (some 1) 1 else .exited "" (some 0) 1

theorem runSandbox_printing (output : String) : ∃ result,
    runSandbox {} (printing output) demoWorkspace "/workspace" fastApiTargetAdapter none =
      .ok result ∧ result.setupSucceeded = true ∧
    result.testResult.failingTests = findFailed (truncate output) := by
  refine ⟨_, rfl, rfl, ?_⟩
  simp only [fastApiTargetAdapter, Option.getD_some, parseTestOutput_one]

theorem no_failing_test_lost_short :
    NothingLost "FAILED tests/test_a.py::test_b\n" ["tests/test_a.py::test_b"] :=
  (no_failing_test_lost_iff {} (printing "FAILED tests/test_a.py::test_b\n") demoWorkspace
    "/workspace" none "FAILED tests/test_a.py::test_b\n" 1
    { testResult :=
        { taskId := none
          outcome := .failed
          rawOutput := "FAILED tests/test_a.py::test_b\n"
          failingTests := ["tests/test_a.py::test_b"]
          durationSeconds := 1 }
      setupOutput := ""
      setupSucceeded := true }
    rfl rfl rfl).mpr (endWithin_of_length_le reads_failedIdentifier (by decide +kernel))

/-- The characters that pytest prints while the tests run, and its summary. -/
def dotted (n : ℕ) (summary : List Char) : String :=
  String.ofList (List.replicate n '.' ++ '\n' :: summary)

theorem findFailed_dotted (n : ℕ) (summary : List Char) :
    findFailed (dotted n summary) = findFailed (String.ofList summary) := by
  have hdots : (List.replicate n '.').splitOn '\n' = [List.replicate n '.'] :=
    List.splitOn_eq_singleton (by simp [List.mem_replicate])
  have hnone : failedIdentifier (List.replicate n '.') = none := by
    cases n with
    | zero => rfl
    | succ n => rfl
  rw [findFailed, findFailed, dotted, String.toList_ofList, String.toList_ofList,
    List.splitOn_append_cons_self, hdots, List.filterMap_append]
  simp [hnone]

theorem truncate_dotted (n : ℕ) (summary : List Char) (hn : n < maxCapturedOutputChars)
    (hlong : maxCapturedOutputChars < n + 1 + summary.length) :
    truncate (dotted n summary) = dotted n
      (summary.take (maxCapturedOutputChars - (n + 1)) ++ "\n... [truncated]".toList) := by
  have hlength : (dotted n summary).toList.length = n + 1 + summary.length := by
    rw [dotted, String.toList_ofList, List.length_append, List.length_replicate, List.length_cons]
    omega
  have htake : (dotted n summary).toList.take maxCapturedOutputChars =
      List.replicate n '.' ++ '\n' :: summary.take (maxCapturedOutputChars - (n + 1)) := by
    obtain ⟨left, hleft⟩ := Nat.exists_eq_add_of_lt hn
    rw [dotted, String.toList_ofList, List.take_append, List.length_replicate,
      List.take_of_length_le (by simpa using hn.le), hleft, Nat.add_assoc, Nat.add_sub_cancel_left,
      List.take_succ_cons, ← Nat.add_assoc, Nat.add_right_comm, Nat.add_sub_cancel_left]
  rw [truncate, if_neg (by omega), htake, ← String.toList_inj]
  simp [dotted]

/-- The summary of a run with one failing test. -/
def oneFailing : List Char := "FAILED tests/test_orders.py::test_total - assert 1 == 2\n".toList

/-- Behind enough dots the identifier is cut in the middle. -/
theorem identifier_cut_short : ∃ result,
    runSandbox {} (printing (dotted 19970 oneFailing)) demoWorkspace "/workspace"
      fastApiTargetAdapter none = .ok result ∧ result.setupSucceeded = true ∧
    findFailed (dotted 19970 oneFailing) = ["tests/test_orders.py::test_total"] ∧
    result.testResult.failingTests = ["tests/test_orders.py::"] ∧
    ¬ NothingLost (dotted 19970 oneFailing) result.testResult.failingTests := by
  have hfound : findFailed (dotted 19970 oneFailing) = ["tests/test_orders.py::test_total"] := by
    rw [findFailed_dotted]
    decide +kernel
  have hcut : findFailed (truncate (dotted 19970 oneFailing)) = ["tests/test_orders.py::"] := by
    rw [truncate_dotted 19970 oneFailing (by decide) (by decide +kernel), findFailed_dotted]
    decide +kernel
  obtain ⟨result, hrun, hsetup, hfailing⟩ := runSandbox_printing (dotted 19970 oneFailing)
  refine ⟨result, hrun, hsetup, hfound, hfailing.trans hcut, ?_⟩
  intro hnothing
  have hsame := hnothing.complete.symm.trans (hfailing.trans hcut)
  rw [hfound] at hsame
  exact absurd hsame (by decide)

end StackMigrate
