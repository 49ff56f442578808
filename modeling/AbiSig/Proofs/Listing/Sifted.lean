import AbiSig.Proofs.Batch.Outcome
import AbiSig.Proofs.Interface.Blanks
import AbiSig.Proofs.Listing.Joined

/-!
# No declaration is lost among the comments

A listing is sifted twice: its lines are trimmed, the blank ones and the comments are skipped, and what
remains is canonicalized. The first sieve holds nothing back that would pass the second one:

1. **Comments**: an accepted line begins, behind blanks, with a character of an identifier or a
   keyword. So it is no comment (`isEntry_of_accepted`).
2. **Batches**: what a batch accepts of a listing is what `canonicalize` accepts of its lines as they
   stand in the text, and what it reports as failed are the other lines that are neither blank nor a
   comment (`Sifted`).

`sifted_listing` says so of every listing, together with the laws that put listings in a row and make
a listing of its own declarations.
-/

namespace AbiSig

open Text Declaration Listing

variable {i : Interface} {raw : String} {c : Char} {before line lead : List Char}

/-! ## Comments -/

/-- Before the first `(` of an accepted text stand characters of an identifier only, and blanks: those
of the keywords are of this kind too. -/
theorem isIdentifierPart_of_mem_before (hname : isIdentifier (declaredName before) = true)
    (h : c ∈ before) (hc : isBlank c = false) : isIdentifierPart c = true := by
  have hkeywords : ∀ d ∈ "function".toList ++ "event".toList, isIdentifierPart d = true := by decide
  by_cases hword : c ∈ "function".toList ++ "event".toList
  · exact hkeywords c hword
  · rw [List.mem_append, not_or] at hword
    exact isIdentifierPart_of_mem hname (mem_declaredName h hc hword.1 hword.2)

/-- So an accepted text does not begin with another character. -/
theorem not_prefix_of_accepted (h : canonicalize raw = .ok i) (hpart : isIdentifierPart c = false)
    (hc : isBlank c = false) (hopen : c ≠ '(') : ¬ c :: lead <+: raw.toList := by
  obtain ⟨before, inside, rest, -, hparts, hname, -⟩ := canonicalize_parts_iff.1 h
  rw [hparts.text]
  intro hprefix
  cases before with
  | nil => exact hopen (List.cons_prefix_cons.1 hprefix).1
  | cons b before =>
    obtain ⟨rfl, -⟩ := List.cons_prefix_cons.1 hprefix
    have hidentifier := isIdentifierPart_of_mem_before hname List.mem_cons_self hc
    rw [hpart] at hidentifier
    contradiction

theorem Listing.isEntry_iff :
    isEntry line = true ↔ line ≠ [] ∧ ¬ ['#'] <+: line ∧ ¬ ['/', '/'] <+: line := by
  have hcomment : isComment line = true ↔ ['#'] <+: line ∨ ['/', '/'] <+: line := by
    simp only [isComment, Bool.or_eq_true, isSome_after?_iff]
  rw [isEntry, Bool.and_eq_true, Bool.not_eq_true', Bool.not_eq_true', List.isEmpty_eq_false_iff,
    ← Bool.not_eq_true, hcomment, not_or]

/-- A line that declares something is an entry of the listing. -/
theorem isEntry_of_accepted (h : canonicalize (String.ofList line) = .ok i) :
    isEntry (trim line) = true := by
  have htrimmed := (canonicalize_trim line).2 h
  have hstart {c : Char} {lead : List Char} (hpart : isIdentifierPart c = false)
      (hc : isBlank c = false) (hopen : c ≠ '(') : ¬ c :: lead <+: trim line := by
    have hnot : ¬ c :: lead <+: (String.ofList (trim line)).toList :=
      not_prefix_of_accepted htrimmed hpart hc hopen
    rwa [String.toList_ofList] at hnot
  rw [isEntry_iff]
  refine ⟨?_, hstart (by decide) (by decide) (by decide), hstart (by decide) (by decide) (by decide)⟩
  obtain ⟨before, inside, rest, -, hparts, -⟩ := canonicalize_parts_iff.1 htrimmed
  have htext := hparts.text
  rw [String.toList_ofList] at htext
  simp [htext]

/-! ## Batches -/

/-- A line that counts as failed: it declares nothing, and trimmed it is neither empty nor a comment. -/
structure Listing.Fails (line : List Char) : Prop where
  rejected : ∀ i, canonicalize (String.ofList line) ≠ .ok i
  nonempty : trim line ≠ []
  no_hash : ¬ ['#'] <+: trim line
  no_slashes : ¬ ['/', '/'] <+: trim line

theorem Listing.fails_iff :
    Fails line ↔
      (canonicalize (String.ofList line)).toOption.isNone = true ∧ isEntry (trim line) = true := by
  rw [isEntry_iff, Option.isNone_iff_eq_none, Option.eq_none_iff_forall_ne_some]
  simp only [ne_eq, Outcome.toOption_eq_some_iff]
  constructor
  · rintro ⟨hrejected, hnonempty, hhash, hslashes⟩
    exact ⟨hrejected, hnonempty, hhash, hslashes⟩
  · rintro ⟨hrejected, hnonempty, hhash, hslashes⟩
    exact ⟨hrejected, hnonempty, hhash, hslashes⟩

instance : DecidablePred Fails := fun _ => decidable_of_iff _ fails_iff.symm

theorem toOption_canonicalize_trim (cs : List Char) :
    (canonicalize (String.ofList (trim cs))).toOption =
      (canonicalize (String.ofList cs)).toOption := by
  apply Option.ext
  intro r
  rw [Outcome.toOption_eq_some_iff, Outcome.toOption_eq_some_iff, canonicalize_trim]

/-- What a batch makes of a listing that falls into the lines. -/
structure Listing.Sifted (text : String) (ls : List (List Char)) : Prop where
  /-- It accepts what the lines declare as they stand in the text, in order. -/
  accepted : (canonicalizeAll (declarations text)).accepted.map (·.2) =
    ls.filterMap fun line => (canonicalize (String.ofList line)).toOption
  /-- The failed ones are the lines that count as failed, in order and trimmed. -/
  failed : (canonicalizeAll (declarations text)).failed.map (fun (k, _) => (declarations text)[k]?) =
    (ls.filter (Fails ·)).map fun line => some (String.ofList (trim line))
  /-- Each fails with the error of its declaration. -/
  errors : ∀ k e, (k, e) ∈ (canonicalizeAll (declarations text)).failed →
    ∃ raw, (declarations text)[k]? = some raw ∧ canonicalize raw = .error e

theorem sifted_lines (text : String) : Sifted text (lines text.toList) := by
  constructor
  case accepted =>
    unfold canonicalizeAll declarations
    rw [Outcome.map_accepted_ofResults, List.filterMap_map, List.filterMap_map,
      List.filterMap_filter, List.filterMap_map]
    apply List.filterMap_congr
    intro line _
    simp only [Function.comp_apply, toOption_canonicalize_trim]
    split
    · rfl
    · next hskipped =>
      -- a line that is skipped declares nothing
      symm
      rw [Option.eq_none_iff_forall_ne_some]
      intro i hi
      exact hskipped (isEntry_of_accepted (Outcome.toOption_eq_some_iff.1 hi))
  case failed =>
    have hfst := congrArg (List.map (·.1)) (Outcome.map_failed_canonicalizeAll (declarations text))
    simp only [List.map_map, Function.comp_def] at hfst
    have hfailures : (Outcome.failures (declarations text)).map (·.1) =
        ((lines text.toList).filter (Fails ·)).map fun line => String.ofList (trim line) := by
      rw [Outcome.map_fst_failures]
      unfold declarations
      rw [List.filter_map, List.filter_map, List.filter_map, List.filter_filter, List.map_map]
      simp only [Function.comp_def, toOption_canonicalize_trim, fails_iff, Bool.decide_and,
        Bool.decide_eq_true]
    have hsome := congrArg (List.map some) hfailures
    simp only [List.map_map, Function.comp_def] at hsome
    exact hfst.trans hsome
  case errors => exact fun k e => ((Outcome.sorts_canonicalizeAll _).failed k e).1

/-! ## The whole -/

/-- Every listing falls into lines in one way, and its batch accepts and refuses what these lines are
by themselves. The declarations of two listings in a row are those of both, and the declarations of a
listing make a listing with the same declarations. -/
theorem sifted_listing (text a b : String) :
    (∃! ls, FallsInto text.toList ls) ∧ (∀ ls, FallsInto text.toList ls → Sifted text ls) ∧
      declarations (a ++ "\n" ++ b) = declarations a ++ declarations b ∧
      declarations ("\n".intercalate (declarations text)) = declarations text := by
  refine ⟨?_, ?_, declarations_append a b, ?_⟩
  · exact ⟨lines text.toList, fallsInto_lines text.toList, fun ls => fallsInto_iff.1⟩
  · intro ls hls
    rw [fallsInto_iff.1 hls]
    exact sifted_lines text
  · exact declarations_intercalate _ fun e => isDeclaration_of_mem

/-- A listing with a carriage return, a blank line, both kinds of comments, a line that fails, and blanks
around what it declares. -/
def commented : String :=
  "\tburn( uint256 )\r\n\n  # mint(address)\n//\nburn\nBurned(uint256)\u00a0"

theorem sifted_listing_commented :
    ∃ ls, ls.map String.ofList =
        ["\tburn( uint256 )", "", "  # mint(address)", "//", "burn", "Burned(uint256)\u00a0"] ∧
      FallsInto commented.toList ls ∧ Sifted commented ls := by
  have hlines := fallsInto_lines commented.toList
  exact ⟨_, by decide +kernel, hlines, (sifted_listing commented "" "").2.1 _ hlines⟩

end AbiSig
