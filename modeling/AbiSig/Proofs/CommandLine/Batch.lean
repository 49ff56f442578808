import AbiSig.Proofs.CommandLine.Lookup
import AbiSig.Proofs.Interface.Failures
import AbiSig.Proofs.Listing.Joined

/-!
# What a batch writes can be read back

A batch writes one row for each accepted declaration and one line for each failed one. A declaration
stands on one line, and so does every part of it that a message quotes (`oneLine_message`). So what is
written falls into these rows and lines again: `batch_written` says so for every listing that can be
read.
-/

namespace AbiSig.CommandLine

open Declaration Listing

variable {raw listing : String} {e : SignatureError}

/-! ## Messages -/

/-- What is said of a declaration that stands on one line stands on one line. -/
theorem oneLine_message (hraw : OneLine raw) (h : canonicalize raw = .error e) :
    OneLine e.message := by
  rcases canonicalize_eq_error_inv h with ⟨fault, rfl⟩ | ⟨index, rfl⟩ | ⟨imbalance, rfl, -⟩
  · -- the declaration is quoted, and behind it the name, if that is at fault
    have hreason : OneLine fault.reason := by
      cases fault with
      | noClose => decide
      | noOpen => decide
      | noName => decide
      | badName name =>
        -- the name is quoted in its tidy form, which is not part of the declaration as it stands
        have hname : OneLine name := by
          intro hfeed
          rcases layout_of_badName h hfeed with hspace | hlayout
          · exact absurd hspace (by decide)
          · exact absurd hlayout (by decide)
        exact (OneLine.append (by decide) hname).append (by decide)
    exact ((OneLine.append (by decide) hraw).append (by decide)).append hreason
  · exact OneLine.append (by decide) (oneLine_toString index)
  · have hdelimiter : OneLine (toString imbalance.delimiter.toChar) := by
      cases imbalance.delimiter <;> decide
    exact ((OneLine.append (by decide) hdelimiter).append (by decide)).append
      (oneLine_toString imbalance.offset)

/-- The line for a failed declaration. -/
def failureLine (failure : String × SignatureError) : String :=
  s!"✗ {failure.1}: {failure.2.message}"

/-- Every line on a failure is one line. -/
theorem oneLine_failureLine {failure : String × SignatureError}
    (h : failure ∈ Outcome.failures (declarations listing)) : OneLine (failureLine failure) := by
  obtain ⟨raw, e⟩ := failure
  obtain ⟨hmem, herror⟩ := Outcome.of_mem_failures h
  have hraw : OneLine raw := (isDeclaration_of_mem hmem).one_line
  exact ((OneLine.append (by decide) hraw).append (by decide)).append (oneLine_message hraw herror)

/-- The last line of an account of failures. -/
def summaryLine (failed all : Nat) : String :=
  s!"{failed} of {all} declarations failed"

theorem oneLine_summaryLine (failed all : Nat) : OneLine (summaryLine failed all) :=
  (((oneLine_toString failed).append (by decide)).append (oneLine_toString all)).append (by decide)

/-- The lines on the failures of a list are read off the failures, without their positions. -/
theorem failureLines_canonicalizeAll (inputs : List String) :
    failureLines inputs (canonicalizeAll inputs).failed =
      if Outcome.failures inputs = [] then []
      else (Outcome.failures inputs).map failureLine ++
        [summaryLine (Outcome.failures inputs).length inputs.length] := by
  have hlines := congrArg (List.map fun (raw?, e) => failureLine (raw?.getD default, e))
    (Outcome.map_failed_canonicalizeAll inputs)
  simp only [List.map_map, Function.comp_def, Option.getD_some, ← List.getD_eq_getElem?_getD] at hlines
  simp only [failureLines, Outcome.isEmpty_failed_iff, Outcome.length_failures, ← hlines]
  rfl

/-! ## Runs -/

/-- What a batch writes of a listing that can be read under a path. -/
structure Written (d : Directory) (input : ByteArray) (file listing : String) : Prop where
  /-- The output is one row for each accepted declaration, in order. -/
  rows : ∃ rows, HasLines (Command.reportIn d input (.batch file false)).output rows ∧
    List.Forall₂ Shows rows (declared listing)
  /-- Every declaration has a row, or is one of the failures. -/
  total : (declared listing).length + (Outcome.failures (declarations listing)).length =
    (declarations listing).length
  /-- If there are failures, each has one line, in order, and the last line counts them. -/
  failed : ∀ json, Outcome.failures (declarations listing) ≠ [] →
    (Command.reportIn d input (.batch file json)).status = 1 ∧
      HasLines (Command.reportIn d input (.batch file json)).errors
        ((Outcome.failures (declarations listing)).map failureLine ++
          [summaryLine (Outcome.failures (declarations listing)).length
            (declarations listing).length])
  /-- Otherwise nothing is written of failures. -/
  succeeded : ∀ json, Outcome.failures (declarations listing) = [] →
    (Command.reportIn d input (.batch file json)).status = 0 ∧
      (Command.reportIn d input (.batch file json)).errors = ""

variable {d : Directory} {input : ByteArray} {file : String}

/-- Whatever its declarations hold, a listing is written like this. -/
theorem batch_written (hread : Reads d input file listing) : Written d input file listing := by
  have hempty := Outcome.isEmpty_failed_iff (declarations listing)
  have hlines := failureLines_canonicalizeAll (declarations listing)
  constructor
  case rows => exact presents_batch hread false
  case total =>
    rw [← map_accepted_eq_declared, List.length_map, Outcome.length_accepted_add_failures]
  case failed =>
    intro json hsome
    rw [reportIn_batch hread]
    constructor
    · exact if_neg (mt hempty.1 hsome)
    · unfold reportBatch
      simp only
      rw [hlines, if_neg hsome]
      apply hasLines_unlines
      rw [List.forall_mem_append, List.forall_mem_singleton]
      refine ⟨?_, oneLine_summaryLine _ _⟩
      intro line hline
      obtain ⟨failure, hfailure, rfl⟩ := List.mem_map.1 hline
      exact oneLine_failureLine hfailure
  case succeeded =>
    intro json hnone
    rw [reportIn_batch hread]
    constructor
    · exact if_pos (hempty.2 hnone)
    · unfold reportBatch
      simp only
      rw [hlines, if_pos hnone]
      rfl

/-- A listing with a method, an event, a comment and a declaration that fails. -/
def mixedListing : String :=
  "transfer(address,uint256)\nbroken(\n# no longer in use\nevent Burned( uint256 )\r\n"

theorem batch_written_mixedListing :
    Reads {} mixedListing.toUTF8 "-" mixedListing ∧
      Written {} mixedListing.toUTF8 "-" mixedListing ∧
      (Command.reportIn {} mixedListing.toUTF8 (.batch "-" false)).status = 1 := by
  have hread := reads_standardInput {} mixedListing
  have hwritten := batch_written hread
  have hbroken : canonicalize "broken(" = .error (.invalidFormat "broken(" .noClose) := by decide +kernel
  have hmem : "broken(" ∈ declarations mixedListing := by
    have hlisting : declarations mixedListing =
        ["transfer(address,uint256)", "broken(", "event Burned( uint256 )"] := by decide +kernel
    rw [hlisting]
    decide
  have hsome : Outcome.failures (declarations mixedListing) ≠ [] := by
    intro hnil
    have hnone := List.filterMap_eq_nil_iff.1 hnil "broken(" hmem
    rw [hbroken] at hnone
    contradiction
  exact ⟨hread, hwritten, (hwritten.failed false hsome).1⟩

end AbiSig.CommandLine
