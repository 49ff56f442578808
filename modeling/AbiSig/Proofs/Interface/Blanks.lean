import AbiSig.Proofs.Interface.Language

/-!
# Blanks around a declaration

A declaration is accepted with blanks around it if it is accepted without them, and it declares the same.
The blanks in front belong to the part before the first `(`, of which only the name counts, and those
at the end belong to the rest, of which only the delimiters count (`canonicalize_congr`).

Errors can differ, for they quote the blanks, and count them in offsets.
-/

namespace AbiSig

open Text Declaration

variable {raw raw' : String} {r : Interface} {before before' inside rest rest' cs left right : List Char}

/-! ## Names and parts -/

theorem declaredName_trimStart (before : List Char) :
    declaredName (trimStart before) = declaredName before := by
  have htwice : trimStart (trimStart before) = trimStart before := List.dropWhile_idempotent isBlank before
  unfold declaredName
  rw [htwice]

theorem declaredName_append_blanks (hleft : ∀ c ∈ left, isBlank c = true) (before : List Char) :
    declaredName (left ++ before) = declaredName before := by
  unfold declaredName
  rw [trimStart_append_blanks hleft]

/-- The parts of a text are those of the trimmed text, up to the blanks at its ends. -/
theorem Parts.trimmed (h : Parts (String.ofList cs) before inside rest) :
    Parts (String.ofList (trim cs)) (trimStart before) inside (trimEnd rest) := by
  have htext := h.text
  rw [String.toList_ofList] at htext
  refine ⟨?_, fun hopen => h.first (mem_of_mem_trimStart hopen), h.closed, h.earliest⟩
  have hbehind : '(' :: (inside ++ ')' :: rest) = ('(' :: inside) ++ ')' :: rest := rfl
  rw [String.toList_ofList, htext, trim, trimStart_append_cons (by decide), hbehind,
    ← List.append_assoc, trimEnd_append_cons (by decide), List.append_assoc]
  rfl

/-- Blanks in front belong to the part before the parentheses, and blanks at the end to the rest. -/
theorem Parts.between (h : Parts (String.ofList cs) before inside rest)
    (hleft : ∀ c ∈ left, isBlank c = true) (right : List Char) :
    Parts (String.ofList (left ++ (cs ++ right))) (left ++ before) inside (rest ++ right) := by
  have htext := h.text
  rw [String.toList_ofList] at htext
  constructor
  case text =>
    rw [String.toList_ofList, htext]
    simp only [List.append_assoc, List.cons_append]
  case first =>
    rw [List.mem_append, not_or]
    refine ⟨fun hopen => ?_, h.first⟩
    exact absurd (hleft _ hopen) (by decide)
  case closed => exact h.closed
  case earliest => exact h.earliest

/-! ## Results -/

/-- The name, the argument list and the delimiters in the rest decide what a text declares. -/
theorem canonicalize_congr (h : Parts raw before inside rest) (h' : Parts raw' before' inside rest')
    (hname : declaredName before = declaredName before')
    (hrest : rest.filter isDelimiter = rest'.filter isDelimiter) :
    canonicalize raw = .ok r ↔ canonicalize raw' = .ok r := by
  rw [canonicalize_of_parts h, canonicalize_of_parts h', normalOf, normalOf, hname,
    Nesting.run_of_filter_eq hrest]

/-- Trimming keeps what a text declares. -/
theorem canonicalize_trim (cs : List Char) :
    canonicalize (String.ofList (trim cs)) = .ok r ↔ canonicalize (String.ofList cs) = .ok r := by
  constructor
  · intro h
    obtain ⟨before, inside, rest, -, hparts, -⟩ := canonicalize_parts_iff.1 h
    obtain ⟨left, right, hleft, hright, hcs⟩ := exists_eq_append_trim cs
    have hbetween := hparts.between hleft right
    rw [← hcs] at hbetween
    have hrest : (rest ++ right).filter isDelimiter = rest.filter isDelimiter := by
      have hnone : right.filter isDelimiter = [] :=
        List.filter_eq_nil_iff.2 fun c hc => by simp [not_isDelimiter_of_isBlank (hright c hc)]
      rw [List.filter_append, hnone, List.append_nil]
    exact (canonicalize_congr hbetween hparts (declaredName_append_blanks hleft before) hrest).2 h
  · intro h
    obtain ⟨before, inside, rest, -, hparts, -⟩ := canonicalize_parts_iff.1 h
    have hrest : (trimEnd rest).filter isDelimiter = rest.filter isDelimiter :=
      filter_trimEnd (fun c => not_isDelimiter_of_isBlank) rest
    exact (canonicalize_congr hparts.trimmed hparts (declaredName_trimStart before) hrest).2 h

end AbiSig
