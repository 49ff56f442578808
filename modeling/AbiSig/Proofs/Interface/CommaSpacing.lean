import AbiSig.Proofs.Declaration.CommaSpacing
import AbiSig.Proofs.Interface.FixedPoints

/-!
# Layout behind a comma of a declaration

The spacing of a declaration keeps the layout behind a comma, so a text with such layout and the text
without it may have different normal forms. Their signatures are compared here, for a comma of the
argument list at any depth.

1. **Other argument lists**: the argument list of a text may be replaced by one with the same
   delimiters (`Parts.of_filter_eq`).
2. **Layout behind a comma**: the signature, the digest and the selector stay the same, unless the
   word `indexed`, layout and something else than a delimiter follow (`IndexedAhead`). Then the layout
   has the effect of deleting the word (`signature_of_comma_layout`).
3. **The difference** shows where the word is all that a declaration gives for a type
   (`signature_lost_behind_comma`).
-/

namespace AbiSig

open Text Declaration Grammar

variable {raw : String} {r : Interface} {l : Char}
  {before inside inside' rest as bs tail : List Char}

/-! ## Other argument lists -/

/-- The text with the parts given. -/
def ofParts (before inside rest : List Char) : String :=
  String.ofList (before ++ '(' :: (inside ++ ')' :: rest))

/-- With other text between the same delimiters, the argument list ends at the same parenthesis. -/
theorem Parts.of_filter_eq (h : Parts raw before inside rest)
    (hfilter : inside'.filter isDelimiter = inside.filter isDelimiter) :
    Parts (ofParts before inside' rest) before inside' rest := by
  rw [parts_iff]
  refine ⟨String.toList_ofList, h.first, ?_⟩
  rw [depthAfter_of_filter_eq hfilter]
  exact h.depth

/-! ## Layout behind a comma -/

/-- The text begins with the word `indexed`, layout, and a character in front of which the layout
stays; `tail` is what follows the word. -/
def IndexedAhead (cs tail : List Char) : Prop :=
  cs = indexedWord ++ tail ∧ ∃ gap c rest, tail = gap ++ c :: rest ∧ gap ≠ [] ∧ IsRun gap ∧
    isLayout c = false ∧ snugBefore c = false

theorem filter_comma_layout (hl : isLayout l = true) (as bs : List Char) :
    (as ++ ',' :: l :: bs).filter isDelimiter = (as ++ ',' :: bs).filter isDelimiter := by
  have hplain : isDelimiter l = false := not_isDelimiter_of_isBlank (isBlank_of_isLayout hl)
  have hcomma : isDelimiter ',' = false := rfl
  simp [hplain, hcomma]

/-- Layout behind a comma changes nothing in the signature if the word `indexed` does not follow. -/
theorem canonicalize_comma_layout (hparts : Parts raw before (as ++ ',' :: bs) rest)
    (hl : isLayout l = true) (hbs : ∀ tail, ¬ IndexedAhead bs tail)
    (h : canonicalize raw = .ok r) :
    ∃ r', canonicalize (ofParts before (as ++ ',' :: l :: bs) rest) = .ok r' ∧
      r'.signature = r.signature := by
  have hparts' := hparts.of_filter_eq (filter_comma_layout hl as bs)
  obtain ⟨hident, hrest, types, htypes, rfl⟩ := (canonicalize_of_parts hparts).1 h
  unfold normalOf at htypes
  rcases argumentText_comma_layout hl as bs with hsame | hspace
  · -- the spacing drops the layout
    rw [← hsame] at htypes
    exact ⟨_, (canonicalize_of_parts hparts').2 ⟨hident, hrest, types, htypes, rfl⟩, rfl⟩
  · have hword : ∀ rest, respace false false false bs ≠ indexedWord ++ ' ' :: rest := by
      intro rest heq
      obtain ⟨gap, c, cs, hcs, hne, hgap, hc, hsnug⟩ :=
        exists_of_respace_eq_word_space (by decide) heq
      exact hbs _ ⟨hcs, gap, c, cs, rfl, hne, hgap, hc, hsnug⟩
    rw [argumentText_comma] at htypes
    obtain ⟨types', htypes', hwritten⟩ := exists_types_comma_space hword htypes
    rw [← hspace] at htypes'
    refine ⟨_, (canonicalize_of_parts hparts').2 ⟨hident, hrest, types', htypes', rfl⟩, ?_⟩
    show signatureOf _ types' = signatureOf _ types
    rw [← signatureOf_map_removeBlanks, hwritten, signatureOf_map_removeBlanks]

/-- If the word `indexed` follows, the text that is scanned is the one without the word. -/
theorem parameterText_comma_layout (hl : isLayout l = true) (hbs : IndexedAhead bs tail)
    (as : List Char) :
    parameterText (argumentText (as ++ ',' :: l :: bs)) =
      parameterText (argumentText (as ++ ',' :: tail)) := by
  obtain ⟨rfl, gap, c, rest, rfl, hne, hgap, hc, hsnug⟩ := hbs
  have htail : respace false false false (gap ++ c :: rest) =
      ' ' :: c :: respace false (snugBehind c) false rest := by
    have hrun : (false || !gap.isEmpty) = true := by simpa using hne
    rw [respace_run hgap, hrun, respace_other hc, hsnug]
    rfl
  -- behind the layout stands the word, and then what stands behind the comma without the word
  have hword : respace false false false (l :: (indexedWord ++ (gap ++ c :: rest))) =
      ' ' :: (indexedWord ++ respace false false false (gap ++ c :: rest)) := by
    rw [respace_layout hl]
    rfl
  rw [argumentText_comma, argumentText_comma, hword, htail]
  exact parameterText_comma_indexed _ _

theorem filter_indexedAhead (hbs : IndexedAhead bs tail) (as : List Char) :
    (as ++ ',' :: tail).filter isDelimiter = (as ++ ',' :: bs).filter isDelimiter := by
  obtain ⟨rfl, -⟩ := hbs
  rw [List.filter_append, List.filter_append]
  rfl

/-- The argument list decides the types by the text that is scanned. -/
theorem types_normalOf_congr (h : parameterText (argumentText inside) =
    parameterText (argumentText inside')) (before : List Char) (types : List (List Char)) :
    (normalOf before inside).types = .ok types ↔ (normalOf before inside').types = .ok types := by
  unfold normalOf
  simp only [Normalized.types_eq_ok_iff, String.toList_ofList, h]

/-- What layout behind a comma of the argument list does to the signature, and with it to the digest
and the selector: nothing, unless the word `indexed` follows. Then it has the effect of deleting this
word. -/
theorem signature_of_comma_layout (hparts : Parts raw before (as ++ ',' :: bs) rest)
    (hl : isLayout l = true) :
    ((∀ tail, ¬ IndexedAhead bs tail) → ∀ r, canonicalize raw = .ok r →
      ∃ r', canonicalize (ofParts before (as ++ ',' :: l :: bs) rest) = .ok r' ∧
        r'.signature = r.signature ∧ r'.digest = r.digest ∧ r'.selector = r.selector) ∧
    (∀ tail, IndexedAhead bs tail → ∀ s,
      (∃ r, canonicalize (ofParts before (as ++ ',' :: l :: bs) rest) = .ok r ∧ r.signature = s) ↔
        ∃ r, canonicalize (ofParts before (as ++ ',' :: tail) rest) = .ok r ∧ r.signature = s) := by
  constructor
  · intro hbs r h
    obtain ⟨r', h', hsignature⟩ := canonicalize_comma_layout hparts hl hbs h
    obtain ⟨hdigest, hselector⟩ := keys_of_canonicalize h
    obtain ⟨hdigest', hselector'⟩ := keys_of_canonicalize h'
    have hdigests : r'.digest = r.digest := by rw [hdigest', hdigest, hsignature]
    exact ⟨r', h', hsignature, hdigests, by rw [hselector', hselector, hdigests]⟩
  · intro tail hbs s
    have hparts₁ := hparts.of_filter_eq (filter_comma_layout hl as bs)
    have hparts₂ := hparts.of_filter_eq (filter_indexedAhead hbs as)
    have htypes := types_normalOf_congr (parameterText_comma_layout hl hbs as) before
    simp only [canonicalize_of_parts hparts₁, canonicalize_of_parts hparts₂, htypes]
    constructor
    · rintro ⟨_, ⟨hident, hrest, types, hfound, rfl⟩, hs⟩
      exact ⟨_, ⟨hident, hrest, types, hfound, rfl⟩, hs⟩
    · rintro ⟨_, ⟨hident, hrest, types, hfound, rfl⟩, hs⟩
      exact ⟨_, ⟨hident, hrest, types, hfound, rfl⟩, hs⟩

/-- A line end behind a comma inside of a tuple. -/
theorem signature_of_comma_layout_tuple :
    Parts "f(uint[] indexed xs,(bool b,address to) pair)" "f".toList
        ("uint[] indexed xs,(bool b".toList ++ ',' :: "address to) pair".toList) [] ∧
      (∀ tail, ¬ IndexedAhead "address to) pair".toList tail) ∧
      ∃ r r', canonicalize "f(uint[] indexed xs,(bool b,address to) pair)" = .ok r ∧
        canonicalize "f(uint[] indexed xs,(bool b,\naddress to) pair)" = .ok r' ∧
        r'.signature = r.signature ∧ r'.digest = r.digest ∧ r'.selector = r.selector := by
  have hparts : Parts "f(uint[] indexed xs,(bool b,address to) pair)" "f".toList
      ("uint[] indexed xs,(bool b".toList ++ ',' :: "address to) pair".toList) [] := by
    rw [parts_iff]
    decide
  have hword : ∀ tail, ¬ IndexedAhead "address to) pair".toList tail := by
    rintro tail ⟨heq, -⟩
    have hhead := congrArg List.head? heq
    exact absurd hhead (by simp [indexedWord])
  have haccepted : ∃ r, canonicalize "f(uint[] indexed xs,(bool b,address to) pair)" = .ok r :=
    ⟨_, canonicalize_eq_ok_iff.2 ⟨⟨"f", "uint[] indexed xs,(bool b,address to) pair"⟩,
      ["uint[]".toList, "(bool b,address to)".toList], by decide +kernel, by decide +kernel, rfl⟩⟩
  obtain ⟨r, hr⟩ := haccepted
  obtain ⟨r', hr', hsame⟩ := (signature_of_comma_layout (l := '\n') hparts rfl).1 hword r hr
  exact ⟨hparts, hword, r, r', hr, hr', hsame⟩

/-! ## The difference -/

/-- Of two declarations that differ by a space behind a comma, one has a type that the other one
lacks. -/
theorem signature_lost_behind_comma :
    Parts "f(a,indexed b)" "f".toList ("a".toList ++ ',' :: "indexed b".toList) [] ∧
      ofParts "f".toList ("a".toList ++ ',' :: ' ' :: "indexed b".toList) [] = "f(a, indexed b)" ∧
      ∃ r r', canonicalize "f(a,indexed b)" = .ok r ∧ canonicalize "f(a, indexed b)" = .ok r' ∧
        r.signature.text = "f(a,indexed)" ∧ r'.signature.text = "f(a,b)" := by
  refine ⟨?_, by decide, ?_⟩
  · rw [parts_iff]
    decide
  · have haccepted : canonicalize "f(a,indexed b)" = .ok (.ofSignature ⟨"f", "a,indexed b"⟩
        (signatureOf "f".toList ["a".toList, "indexed".toList])) :=
      canonicalize_eq_ok_iff.2 ⟨_, _, by decide +kernel, by decide +kernel, rfl⟩
    have haccepted' : canonicalize "f(a, indexed b)" = .ok (.ofSignature ⟨"f", "a, indexed b"⟩
        (signatureOf "f".toList ["a".toList, "b".toList])) :=
      canonicalize_eq_ok_iff.2 ⟨_, _, by decide +kernel, by decide +kernel, rfl⟩
    have htext : (signatureOf "f".toList ["a".toList, "indexed".toList]).text = "f(a,indexed)" := by
      decide +kernel
    have htext' : (signatureOf "f".toList ["a".toList, "b".toList]).text = "f(a,b)" := by decide +kernel
    exact ⟨_, _, haccepted, haccepted', htext, htext'⟩

end AbiSig
