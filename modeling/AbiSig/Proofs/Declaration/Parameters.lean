import AbiSig.Proofs.Declaration.Indexed
import AbiSig.Proofs.Declaration.Normalized
import AbiSig.Proofs.Declaration.Types

/-!
# From the argument list to its types

`Normalized.types` takes the word `indexed` out of the argument list, trims it and scans what is
left, the `parameterText`.

* `Normalized.types_eq_ok_iff`: a blank list has no types, any other those of the scan.
* `Normalized.run_of_types`: only a balanced argument list has types.
* `exists_types_iff`: if all blanks are layout, the argument list of a declaration has types exactly
  if it is balanced and `Filled`: blank as a whole, or without a blank piece.
-/

namespace AbiSig

open Text

namespace Declaration

variable {n : Nesting} {c : Char} {inside cs : List Char}

/-! ## The text that is scanned -/

/-- The argument list without the word `indexed` between spaces and without blanks at its ends. -/
def parameterText (cs : List Char) : List Char :=
  trim (removeIndexed cs)

/-- No delimiter is lost before the scan. -/
theorem filter_isDelimiter_parameterText (cs : List Char) :
    (parameterText cs).filter isDelimiter = cs.filter isDelimiter := by
  rw [parameterText, filter_trim fun _ => not_isDelimiter_of_isBlank,
    filter_isDelimiter_removeIndexed]

theorem run_parameterText (n : Nesting) (cs : List Char) :
    n.run (parameterText cs) = n.run cs :=
  Nesting.run_of_filter_eq (filter_isDelimiter_parameterText cs)

/-- A text without blanks is scanned as it is. -/
theorem parameterText_eq_self (h : ∀ c ∈ cs, isBlank c = false) : parameterText cs = cs := by
  have hspace : ' ' ∉ cs := by
    intro hmem
    exact absurd (h ' ' hmem) (by decide)
  rw [parameterText, removeIndexed_eq_self hspace, trim_of_not_isBlank h]

theorem mem_of_mem_parameterText (h : c ∈ parameterText cs) : c ∈ cs :=
  mem_of_mem_removeIndexed (mem_of_mem_trim h)

/-! ## Texts whose blanks are layout -/

theorem spaced_argumentText (h : ∀ c ∈ inside, isBlank c = true → isLayout c = true) :
    Spaced (argumentText inside) :=
  isChain_respace h (by decide) (by simp)

/-- The only blanks that are left are spaces. -/
theorem eq_space_of_mem_argumentText (h : ∀ c ∈ inside, isBlank c = true → isLayout c = true)
    (hc : c ∈ argumentText inside) (hblank : isBlank c = true) : c = ' ' := by
  rcases mem_of_mem_argumentText hc with hspace | ⟨hc, hlayout⟩
  · exact hspace
  · rw [h c hc hblank] at hlayout
    exact absurd hlayout (by simp)

theorem parameterText_argumentText (h : ∀ c ∈ inside, isBlank c = true → isLayout c = true) :
    parameterText (argumentText inside) = removeIndexed (argumentText inside) := by
  apply (spaced_argumentText h).removeIndexed.trim_eq
  intro c hc hblank
  exact eq_space_of_mem_argumentText h (mem_of_mem_removeIndexed hc) hblank

/-- Neither the spacing nor the word `indexed` makes a piece blank. -/
theorem blankPieces_parameterText (h : ∀ c ∈ inside, isBlank c = true → isLayout c = true) :
    blankPieces n (parameterText (argumentText inside)) = blankPieces n inside := by
  have hfilter : removeBlanks (argumentText inside) = removeBlanks inside := by
    apply filter_argumentText
    intro c hc
    simp [isBlank_of_isLayout hc]
  calc blankPieces n (parameterText (argumentText inside))
      = blankPieces n (removeIndexed (argumentText inside)) := by
        rw [parameterText_argumentText h]
    _ = blankPieces n (argumentText inside) := (spaced_argumentText h).blankPieces_removeIndexed
    _ = blankPieces n inside := by
        rw [← blankPieces_removeBlanks, hfilter, blankPieces_removeBlanks]

theorem parameterText_eq_nil_iff (h : ∀ c ∈ inside, isBlank c = true → isLayout c = true) :
    parameterText (argumentText inside) = [] ↔ blankPieces {} inside = [true] := by
  rw [← blankPieces_parameterText h]
  constructor
  · intro hnil
    rw [hnil]
    rfl
  · intro hblank
    rw [blankPieces_eq_singleton_iff, parameterText_argumentText h] at hblank
    have hstart : trimStart (removeIndexed (argumentText inside)) = [] :=
      List.dropWhile_eq_nil_iff.2 hblank
    rw [parameterText, trim, hstart]
    rfl

/-- The text is blank, or none of its pieces is. -/
def Filled (cs : List Char) : Prop :=
  (∀ c ∈ cs, isBlank c = true) ∨ ∀ p ∈ pieces {} cs, ∃ c ∈ p, isBlank c = false

theorem filled_iff : Filled cs ↔ blankPieces {} cs = [true] ∨ true ∉ blankPieces {} cs := by
  have hmem : true ∉ blankPieces {} cs ↔ ∀ p ∈ pieces {} cs, ∃ c ∈ p, isBlank c = false := by
    simp [blankPieces]
  rw [Filled, blankPieces_eq_singleton_iff, hmem]

/-- If the only blanks are spaces, a piece without a type is a blank piece. -/
theorem nil_mem_types_iff (h : ∀ c ∈ cs, isBlank c = true → c = ' ') :
    [] ∈ (pieces n cs).map typeOf ↔ true ∈ blankPieces n cs := by
  have hpiece : ∀ p ∈ pieces n cs, typeOf p = [] ↔ p.all isBlank = true := by
    intro p hp
    rw [typeOf_eq_nil_iff, List.all_eq_true]
    constructor
    · intro hspaces c hc
      rw [hspaces c hc]
      decide
    · intro hblank c hc
      exact h c (mem_of_mem_pieces hp hc) (hblank c hc)
  simp only [blankPieces, List.mem_map]
  constructor
  · rintro ⟨p, hp, htype⟩
    exact ⟨p, hp, (hpiece p hp).1 htype⟩
  · rintro ⟨p, hp, hblank⟩
    exact ⟨p, hp, (hpiece p hp).2 hblank⟩

end Declaration

open Declaration

/-! ## The types of a normal form -/

namespace Normalized

variable {n : Normalized} {types : List (List Char)} {list : String}

/-- A blank list has no types, any other has those of the scan. -/
theorem types_eq_ok_iff :
    n.types = .ok types ↔
      parameterText n.params.toList = [] ∧ types = [] ∨
        parameterText n.params.toList ≠ [] ∧
          typeTokens (parameterText n.params.toList) = .ok types := by
  have hlist : trim (removeIndexed n.params.toList) = parameterText n.params.toList := rfl
  rw [Normalized.types, hlist]
  by_cases hnil : parameterText n.params.toList = []
  · simp [hnil, eq_comm]
  · simp [hnil]

theorem types_of_typeTokens (h : typeTokens (parameterText n.params.toList) = .ok types) :
    n.types = .ok types :=
  types_eq_ok_iff.2 (Or.inr ⟨ne_nil_of_typeTokens h, h⟩)

theorem typeList_eq_ok_iff :
    n.typeList = .ok list ↔
      ∃ types, n.types = .ok types ∧
        list = String.ofList (removeBlanks ([','].intercalate types)) := by
  rw [typeList, bind_eq_ok_iff]
  constructor
  · rintro ⟨types, htypes, hlist⟩
    exact ⟨types, htypes, (Except.ok.inj hlist).symm⟩
  · rintro ⟨types, htypes, rfl⟩
    exact ⟨types, htypes, rfl⟩

/-- An argument list has no types for an error of the scan. -/
theorem typeTokens_of_typeList {e : SignatureError} (h : n.typeList = .error e) :
    typeTokens (parameterText n.params.toList) = .error e := by
  unfold typeList at h
  rcases bind_eq_error_iff.1 h with htypes | ⟨types, -, hreturn⟩
  · unfold types at htypes
    dsimp only at htypes
    split at htypes
    · contradiction
    · exact htypes
  · exact absurd hreturn (by simp [pure, Except.pure])

/-- Only a balanced argument list has types. -/
theorem run_of_types (h : n.types = .ok types) : Nesting.run {} n.params.toList = some {} := by
  rw [← run_parameterText]
  rcases types_eq_ok_iff.1 h with ⟨hnil, -⟩ | ⟨-, htokens⟩
  · rw [hnil]
    rfl
  · exact (typeTokens_eq_ok_iff.1 htokens).1

theorem isType_of_mem_types {t : List Char} (h : n.types = .ok types) (ht : t ∈ types) :
    IsType t ∧ t ≠ [] := by
  rcases types_eq_ok_iff.1 h with ⟨-, rfl⟩ | ⟨-, htokens⟩
  · exact absurd ht List.not_mem_nil
  · exact isType_of_mem_typeTokens htokens ht

theorem mem_of_mem_types {t : List Char} {c : Char} (h : n.types = .ok types) (ht : t ∈ types)
    (hc : c ∈ t) : c ∈ n.params.toList := by
  rcases types_eq_ok_iff.1 h with ⟨-, rfl⟩ | ⟨-, htokens⟩
  · exact absurd ht List.not_mem_nil
  · exact mem_of_mem_parameterText (mem_of_mem_typeTokens htokens ht hc)

end Normalized

/-- Which argument lists have types, if all blanks are layout. -/
theorem exists_types_iff {name : String} {inside : List Char}
    (h : ∀ c ∈ inside, isBlank c = true → isLayout c = true) :
    (∃ types, Normalized.types ⟨name, String.ofList (argumentText inside)⟩ = .ok types) ↔
      Nesting.run {} inside = some {} ∧ Filled inside := by
  have hspaces : ∀ c ∈ parameterText (argumentText inside), isBlank c = true → c = ' ' :=
    fun c hc => eq_space_of_mem_argumentText h (mem_of_mem_parameterText hc)
  have hrun : Nesting.run {} (parameterText (argumentText inside)) = Nesting.run {} inside := by
    rw [run_parameterText, run_argumentText]
  simp only [Normalized.types_eq_ok_iff, String.toList_ofList, ne_eq, parameterText_eq_nil_iff h]
  rw [filled_iff]
  constructor
  · rintro ⟨types, ⟨hblank, -⟩ | ⟨-, htokens⟩⟩
    · have hnil : parameterText (argumentText inside) = [] := (parameterText_eq_nil_iff h).2 hblank
      rw [← hrun, hnil]
      exact ⟨rfl, Or.inl hblank⟩
    · rcases typeTokens_eq_ok_iff.1 htokens with ⟨hbalanced, rfl, hne⟩
      rw [nil_mem_types_iff hspaces, blankPieces_parameterText h] at hne
      exact ⟨hrun ▸ hbalanced, Or.inr hne⟩
  · rintro ⟨hbalanced, hpieces⟩
    by_cases hblank : blankPieces {} inside = [true]
    · exact ⟨[], Or.inl ⟨hblank, rfl⟩⟩
    · have hne := hpieces.resolve_left hblank
      rw [← blankPieces_parameterText h, ← nil_mem_types_iff hspaces] at hne
      exact ⟨_, Or.inr ⟨hblank, typeTokens_eq_ok_iff.2 ⟨hrun ▸ hbalanced, rfl, hne⟩⟩⟩

end AbiSig
