import AbiSig.Proofs.Declaration.IndexedPass
import AbiSig.Proofs.Grammar.Spacing

/-!
# A space behind a comma

The spacing of a declaration keeps a space behind a comma. Whether this space makes a difference is
decided by the later stages.

1. **The spacing**: layout behind a comma leaves the argument list as it is, or puts one space behind
   the comma (`argumentText_comma_layout`).
2. **The scan**: at top level a space behind a comma is skipped, below it is kept among the blanks that
   no signature shows. The types are the same without their blanks (`sameTypes_comma_space`).
3. **The word `indexed`**: a space in front of the word and another one behind it take the word out
   (`parameterText_comma_indexed`). If the text behind the comma does not begin so, its types are the
   same, but for blanks, with the space as without it (`exists_types_comma_space`).
4. **Words in the spacing**: a word with a space behind it is the same word in the text, with layout
   behind it and no delimiter that would drop this (`exists_of_respace_eq_word_space`).
-/

namespace AbiSig.Declaration

open Text Grammar

variable {n : Nesting} {c : Char} {name : String} {complete opened gap : Bool}
  {reversed reversed' as bs cs word rest : List Char} {ts us types : List (List Char)}

/-! ## The spacing -/

theorem argumentText_comma (as bs : List Char) :
    argumentText (as ++ ',' :: bs) =
      respace false true false as ++ ',' :: respace false false false bs :=
  respace_append_cons (by decide) as bs

/-- A gap in front of a text is one space, or nothing. -/
theorem respace_gap_cases (cs : List Char) :
    respace false false true cs = respace false false false cs ∨
      respace false false true cs = ' ' :: respace false false false cs := by
  cases cs with
  | nil => exact Or.inl rfl
  | cons c cs =>
    by_cases hc : isLayout c = true
    · -- layout follows anyway
      left
      rw [respace_layout hc, respace_layout hc]
    · rw [Bool.not_eq_true] at hc
      rw [respace_other hc, respace_other hc]
      cases snugBefore c with
      | true => exact Or.inl rfl
      | false => exact Or.inr rfl

/-- Layout behind a comma is one space behind it, or nothing. -/
theorem argumentText_comma_layout (hc : isLayout c = true) (as bs : List Char) :
    argumentText (as ++ ',' :: c :: bs) = argumentText (as ++ ',' :: bs) ∨
      argumentText (as ++ ',' :: c :: bs) =
        respace false true false as ++ ',' :: ' ' :: respace false false false bs := by
  rw [argumentText_comma, argumentText_comma, respace_layout hc]
  rcases respace_gap_cases bs with hgap | hgap
  · left
    exact congrArg _ (congrArg _ hgap)
  · right
    exact congrArg _ (congrArg _ hgap)

/-! ## The scan -/

/-- The types look alike in a signature, and one is empty exactly if one of the others is. -/
structure SameTypes (ts us : List (List Char)) : Prop where
  written : ts.map removeBlanks = us.map removeBlanks
  empty : [] ∈ ts ↔ [] ∈ us

theorem SameTypes.refl (ts : List (List Char)) : SameTypes ts ts :=
  ⟨rfl, Iff.rfl⟩

theorem SameTypes.cons (h : SameTypes ts us) (t : List Char) : SameTypes (t :: ts) (t :: us) where
  written := by rw [List.map_cons, List.map_cons, h.written]
  empty := by rw [List.mem_cons, List.mem_cons, h.empty]

theorem typeFrom_of_ne_nil (h : reversed ≠ []) (p : List Char) :
    typeFrom n reversed complete p =
      reversed.reverse ++ if complete then [] else upToSpace n p := by
  have hempty : reversed.isEmpty = false := List.isEmpty_eq_false_iff.2 h
  unfold typeFrom
  cases complete with
  | true => simp
  | false => simp [hempty]

/-- In the middle of a type, blanks that were read do not count. -/
theorem sameTypes_of_reversed (hne : reversed ≠ []) (hne' : reversed' ≠ [])
    (h : removeBlanks reversed.reverse = removeBlanks reversed'.reverse) :
    SameTypes (typesFrom n reversed complete cs) (typesFrom n reversed' complete cs) := by
  obtain ⟨p, ps, hps⟩ := exists_pieces_eq_cons n cs
  unfold typesFrom
  rw [hps]
  simp only [typeFrom_of_ne_nil hne, typeFrom_of_ne_nil hne']
  constructor
  · simp only [List.map_cons, removeBlanks_append, h]
  · simp [hne, hne']

/-- A space behind a comma makes no difference to the scan. -/
theorem sameTypes_comma_space (hstart : reversed = [] → n = {} ∧ complete = false)
    (as bs : List Char) :
    SameTypes (typesFrom n reversed complete (as ++ ',' :: ' ' :: bs))
      (typesFrom n reversed complete (as ++ ',' :: bs)) := by
  induction as generalizing n reversed complete with
  | nil =>
    have hcomma : n.next ',' = n := Nesting.next_of_not_isDelimiter rfl n
    have hspace : n.next ' ' = n := isTopLevel_next_space n
    rw [List.nil_append, List.nil_append]
    by_cases htop : n.isTopLevel = true
    · -- the next type has not begun, so the space is skipped
      have hends : (n.next ',').isTopLevel ∧ ',' = ',' := ⟨by rw [hcomma, htop], rfl⟩
      have hskips : (n.next ' ').isTopLevel ∧ ' ' = ' ' := ⟨by rw [hspace, htop], rfl⟩
      rw [typesFrom_comma hends, typesFrom_comma hends, hcomma, typesFrom_space hskips, hspace]
      exact SameTypes.refl _
    · -- comma and space belong to the type
      have hends : ¬((n.next ',').isTopLevel ∧ ',' = ',') := by
        rw [hcomma]
        exact fun h => htop h.1
      have hskips : ¬((n.next ',').isTopLevel ∧ ',' = ' ') := fun h => absurd h.2 (by decide)
      have hends' : ¬((n.next ' ').isTopLevel ∧ ' ' = ',') := fun h => absurd h.2 (by decide)
      have hskips' : ¬((n.next ' ').isTopLevel ∧ ' ' = ' ') := by
        rw [hspace]
        exact fun h => htop h.1
      cases complete with
      | true =>
        rw [typesFrom_complete hends, typesFrom_complete hends, hcomma, typesFrom_complete hends',
          hspace]
        exact SameTypes.refl _
      | false =>
        have hbegun : reversed = [] → n = {} := fun h => (hstart h).1
        rw [typesFrom_cons hbegun hends hskips, typesFrom_cons hbegun hends hskips, hcomma,
          typesFrom_cons (by simp) hends' hskips', hspace]
        apply sameTypes_of_reversed (by simp) (by simp)
        have hblank : removeBlanks [',', ' '] = removeBlanks [','] := by decide
        simp [hblank]
  | cons c as ih =>
    rw [List.cons_append, List.cons_append]
    by_cases hcomma : (n.next c).isTopLevel ∧ c = ','
    · -- the type ends here in both texts
      have hnext : n.next c = {} := Nesting.isTopLevel_iff.1 hcomma.1
      rw [typesFrom_comma hcomma, typesFrom_comma hcomma]
      exact (ih fun _ => ⟨hnext, rfl⟩).cons reversed.reverse
    by_cases hspace : (n.next c).isTopLevel ∧ c = ' '
    · rw [typesFrom_space hspace, typesFrom_space hspace]
      apply ih
      intro hnil
      exact ⟨Nesting.isTopLevel_iff.1 hspace.1, by simp [hnil, (hstart hnil).2]⟩
    cases complete with
    | true =>
      rw [typesFrom_complete hcomma, typesFrom_complete hcomma]
      exact ih fun hnil => absurd (hstart hnil).2 (by simp)
    | false =>
      have hbegun : reversed = [] → n = {} := fun h => (hstart h).1
      rw [typesFrom_cons hbegun hcomma hspace, typesFrom_cons hbegun hcomma hspace]
      exact ih (by simp)

/-- So a text with the space is accepted if the text without it is, with the same types but for
blanks. -/
theorem exists_typeTokens_comma_space (h : typeTokens (as ++ ',' :: bs) = .ok types) :
    ∃ types', typeTokens (as ++ ',' :: ' ' :: bs) = .ok types' ∧
      types'.map removeBlanks = types.map removeBlanks := by
  obtain ⟨hrun, htypes, hne⟩ := typeTokens_eq_ok_iff.1 h
  have hsame : SameTypes (typesFrom {} [] false (as ++ ',' :: ' ' :: bs))
      (typesFrom {} [] false (as ++ ',' :: bs)) :=
    sameTypes_comma_space (fun _ => ⟨rfl, rfl⟩) as bs
  have hrun' : Nesting.run {} (as ++ ',' :: ' ' :: bs) = Nesting.run {} (as ++ ',' :: bs) := by
    rw [← Nesting.run_removeBlanks, ← Nesting.run_removeBlanks (as ++ ',' :: bs)]
    simp [removeBlanks_cons (show isBlank ',' = false by decide),
      removeBlanks_cons_blank (show isBlank ' ' = true by decide)]
  rw [← typesFrom_start] at htypes
  rw [htypes] at hne
  refine ⟨typesFrom {} [] false (as ++ ',' :: ' ' :: bs), ?_, ?_⟩
  · rw [typeTokens_eq_ok_iff]
    refine ⟨hrun'.trans hrun, typesFrom_start _, ?_⟩
    rwa [hsame.empty]
  · rw [htypes]
    exact hsame.written

/-! ## The word `indexed` -/

theorem parameterText_comma (as bs : List Char) :
    parameterText (as ++ ',' :: bs) =
      trimStart (removeIndexed as) ++ ',' :: trimEnd (removeIndexed bs) :=
  parameterText_append_cons (by decide) (by decide) as bs

/-- Between the space behind the comma and another space the word is lost. -/
theorem parameterText_comma_indexed (as bs : List Char) :
    parameterText (as ++ ',' :: ' ' :: (indexedWord ++ ' ' :: bs)) =
      parameterText (as ++ ',' :: ' ' :: bs) := by
  rw [parameterText_comma, parameterText_comma, removeIndexed_space_indexed]

theorem parameterText_comma_ne_nil (as bs : List Char) : parameterText (as ++ ',' :: bs) ≠ [] := by
  rw [parameterText_comma]
  simp

/-- If the word and another space do not follow, the types are the same but for blanks. -/
theorem exists_types_comma_space (hbs : ∀ rest, bs ≠ indexedWord ++ ' ' :: rest)
    (h : Normalized.types ⟨name, String.ofList (as ++ ',' :: bs)⟩ = .ok types) :
    ∃ types', Normalized.types ⟨name, String.ofList (as ++ ',' :: ' ' :: bs)⟩ = .ok types' ∧
      types'.map removeBlanks = types.map removeBlanks := by
  simp only [Normalized.types_eq_ok_iff, String.toList_ofList, parameterText_comma_ne_nil,
    false_and, false_or, ne_eq, not_false_eq_true, true_and] at h ⊢
  rw [parameterText_comma] at h
  simp only [parameterText_comma, removeIndexed_space hbs]
  rcases trimEnd_cons ' ' (removeIndexed bs) with htrim | htrim
  · -- nothing but blanks follows the comma
    rw [htrim]
    exact ⟨types, h, rfl⟩
  · rw [htrim]
    exact exists_typeTokens_comma_space h

/-! ## Words in the spacing -/

/-- Behind a gap stands a space, or a delimiter that drops it. -/
theorem head_respace_gap (h : respace false false true cs = c :: rest) :
    c = ' ' ∨ snugBefore c = true := by
  induction cs with
  | nil => exact absurd h (by simp)
  | cons d cs ih =>
    by_cases hd : isLayout d = true
    · rw [respace_layout hd] at h
      exact ih h
    · rw [Bool.not_eq_true] at hd
      rw [respace_other hd] at h
      cases hsnug : snugBefore d with
      | true =>
        rw [hsnug] at h
        right
        rw [← (List.cons.inj h).1]
        exact hsnug
      | false =>
        rw [hsnug] at h
        left
        exact (List.cons.inj h).1.symm

/-- A space stands for layout, in front of a character that does not drop it. -/
theorem exists_of_respace_eq_space (h : respace false false gap cs = ' ' :: rest) :
    ∃ l c tail, cs = l ++ c :: tail ∧ (gap = false → l ≠ []) ∧ IsRun l ∧ isLayout c = false ∧
      snugBefore c = false := by
  induction cs generalizing gap with
  | nil => exact absurd h (by simp)
  | cons d cs ih =>
    by_cases hd : isLayout d = true
    · rw [respace_layout hd] at h
      obtain ⟨l, c, tail, rfl, -, hl, hc, hsnug⟩ := ih h
      refine ⟨d :: l, c, tail, rfl, by simp, ?_, hc, hsnug⟩
      rw [IsRun, List.forall_mem_cons]
      exact ⟨hd, hl⟩
    · -- the character stands behind the gap, and is not the space itself
      rw [Bool.not_eq_true] at hd
      have hspace : d ≠ ' ' := by
        rintro rfl
        exact absurd hd (by decide)
      rw [respace_other hd] at h
      cases hgap : (gap && !snugBefore d) with
      | false =>
        rw [hgap] at h
        exact absurd (List.cons.inj h).1 hspace
      | true =>
        rw [Bool.and_eq_true, Bool.not_eq_true'] at hgap
        exact ⟨[], d, cs, rfl, by simp [hgap.1], by simp [IsRun], hd, hgap.2⟩

/-- A word that is followed by a space in the spacing is followed by layout in the text. -/
theorem exists_of_respace_eq_word_space
    (hword : ∀ c ∈ word, isLayout c = false ∧ snugBefore c = false ∧ snugBehind c = false)
    (h : respace false false false cs = word ++ ' ' :: rest) :
    ∃ l c tail, cs = word ++ (l ++ c :: tail) ∧ l ≠ [] ∧ IsRun l ∧ isLayout c = false ∧
      snugBefore c = false := by
  induction word generalizing cs with
  | nil =>
    obtain ⟨l, c, tail, hcs, hne, hl, hc, hsnug⟩ := exists_of_respace_eq_space h
    exact ⟨l, c, tail, hcs, hne rfl, hl, hc, hsnug⟩
  | cons w word ih =>
    rw [List.forall_mem_cons] at hword
    obtain ⟨⟨hlayout, hbefore, hbehind⟩, hword⟩ := hword
    cases cs with
    | nil => exact absurd h (by simp)
    | cons d cs =>
      by_cases hd : isLayout d = true
      · -- behind layout stands no character of a word
        rw [respace_layout hd] at h
        rcases head_respace_gap h with rfl | hsnug
        · exact absurd hlayout (by decide)
        · rw [hbefore] at hsnug
          contradiction
      · rw [Bool.not_eq_true] at hd
        rw [respace_other hd] at h
        obtain ⟨rfl, htail⟩ := List.cons.inj h
        rw [hbehind] at htail
        obtain ⟨l, c, tail, rfl, hrest⟩ := ih hword htail
        exact ⟨l, c, tail, rfl, hrest⟩

end AbiSig.Declaration
