import AbiSig.Proofs.Grammar.Indexed
import AbiSig.Proofs.Grammar.Spacing
import AbiSig.Proofs.Grammar.Types
import AbiSig.Proofs.Interface.Language

/-!
# Written declarations have their signature

`canonicalize_written`: whatever layout, keywords and words a declaration of the grammar is written
with, and whatever balanced text follows it, its signature is the name and the compact types.

Before that, the two parts of the text by themselves: `declaredName_written` finds the name in what
stands before the parameter list, `types_written` the types in the list.
-/

namespace AbiSig.Grammar

open Text Declaration

variable {c : Char} {ps : List Parameter}
  {l cs rest keyword word start function event name gap list text suffix : List Char}

/-! ## The name -/

/-- A text begins like its first part, if this is not empty. -/
theorem forall_head_append {P : Char → Prop} (hne : cs ≠ []) (hcs : ∀ c ∈ cs, P c)
    (rest : List Char) : ∀ c ∈ (cs ++ rest).head?, P c := by
  rcases List.exists_cons_of_ne_nil hne with ⟨d, ds, rfl⟩
  intro c hc
  rw [List.cons_append, List.head?_cons, Option.mem_some_iff] at hc
  exact hc ▸ hcs d List.mem_cons_self

theorem not_mem_run (hl : IsRun l) (hc : isLayout c = false) : c ∉ l := by
  intro hmem
  rw [hl c hmem] at hc
  exact absurd hc (by simp)

theorem trimStart_run (hl : IsRun l) (hrest : ∀ c ∈ rest.head?, isBlank c = false) :
    trimStart (l ++ rest) = rest := by
  induction l with
  | nil => exact trimStart_eq_self hrest
  | cons c l ih =>
    rw [IsRun, List.forall_mem_cons] at hl
    rw [List.cons_append, trimStart_cons_blank (isBlank_of_isLayout hl.1)]
    exact ih hl.2

theorem dropWhile_run (hl : IsRun l) (hrest : ∀ c ∈ rest.head?, isLayout c = false) :
    (l ++ rest).dropWhile isLayout = rest := by
  rw [List.dropWhile_append_of_pos hl]
  cases rest with
  | nil => rfl
  | cons c rest => exact List.dropWhile_cons_of_neg (by simp [hrest c rfl])

theorem not_mem_keyword (hkeyword : WrittenKeyword word keyword) (hword : c ∉ word)
    (hc : isLayout c = false) : c ∉ keyword := by
  cases hkeyword with
  | missing => exact List.not_mem_nil
  | present hne hl =>
    rw [List.mem_append, not_or]
    exact ⟨hword, not_mem_run hl hc⟩

/-- A keyword that is written is dropped with its layout. -/
theorem dropWord_keyword (hkeyword : WrittenKeyword word keyword)
    (hrest : ∀ c ∈ rest.head?, isLayout c = false) (hself : dropWord word rest = rest) :
    dropWord word (keyword ++ rest) = rest := by
  cases hkeyword with
  | missing => exact hself
  | @present l hne hl =>
    rcases List.exists_cons_of_ne_nil hne with ⟨c, l, rfl⟩
    rw [IsRun, List.forall_mem_cons] at hl
    rw [List.append_assoc, List.cons_append, dropWord_eq hl.1]
    exact dropWhile_run hl.2 hrest

/-- The word in front of layout. -/
theorem takeWhile_word (hcs : ∀ c ∈ cs, isLayout c = false)
    (hrest : ∀ c ∈ rest.head?, isLayout c = true) :
    (cs ++ rest).takeWhile (!isLayout ·) = cs := by
  rw [List.takeWhile_append_of_pos fun c hc => by simp [hcs c hc]]
  cases rest with
  | nil => simp
  | cons c rest => simp [hrest c rfl]

/-- Another word in its place stays, even one that only begins like it. -/
theorem dropWord_other (hword : ∀ c ∈ word, isLayout c = false) (hcs : ∀ c ∈ cs, isLayout c = false)
    (hrest : ∀ c ∈ rest.head?, isLayout c = true) (hne : cs ≠ word) :
    dropWord word (cs ++ rest) = cs ++ rest := by
  apply dropWord_eq_self
  rintro ⟨c, tail, hc, heq⟩
  have htail : ∀ d ∈ (c :: tail).head?, isLayout d = true := by
    intro d hd
    rw [List.head?_cons, Option.mem_some_iff] at hd
    exact hd ▸ hc
  apply hne
  rw [← takeWhile_word hcs hrest, heq, takeWhile_word hword htail]

/-- The name is found behind layout and keywords. -/
theorem declaredName_written (hstart : IsRun start)
    (hfunction : WrittenKeyword "function".toList function)
    (hevent : WrittenKeyword "event".toList event) (hgap : IsRun gap)
    (hname : isIdentifier name = true) (hne : name ≠ "function".toList ∧ name ≠ "event".toList) :
    declaredName (start ++ (function ++ (event ++ (name ++ gap)))) = name := by
  have hblank : ∀ c ∈ name, isBlank c = false := fun c => not_isBlank_of_mem_identifier hname
  have hlayout : ∀ c ∈ name, isLayout c = false :=
    fun c hc => not_isLayout_of_not_isBlank (hblank c hc)
  have hwords : (∀ c ∈ "function".toList, isLayout c = false) ∧
      ∀ c ∈ "event".toList, isLayout c = false := by decide
  have hbehind : ∀ c ∈ gap.head?, isLayout c = true := fun c hc => hgap c (List.mem_of_head? hc)
  -- each part begins with a character that is not blank
  have hhead₁ : ∀ c ∈ (name ++ gap).head?, isBlank c = false :=
    forall_head_append (ne_nil_of_isIdentifier hname) hblank gap
  have hhead₂ : ∀ c ∈ (event ++ (name ++ gap)).head?, isBlank c = false := by
    cases hevent with
    | missing => exact hhead₁
    | present => simp; decide
  have hhead₃ : ∀ c ∈ (function ++ (event ++ (name ++ gap))).head?, isBlank c = false := by
    cases hfunction with
    | missing => exact hhead₂
    | present => simp; decide
  have hdropEvent : dropWord "event".toList (event ++ (name ++ gap)) = name ++ gap := by
    refine dropWord_keyword hevent ?_ (dropWord_other hwords.2 hlayout hbehind hne.2)
    exact fun c hc => not_isLayout_of_not_isBlank (hhead₁ c hc)
  have hdropFunction : dropWord "function".toList (function ++ (event ++ (name ++ gap))) =
      event ++ (name ++ gap) := by
    refine dropWord_keyword hfunction ?_ ?_
    · exact fun c hc => not_isLayout_of_not_isBlank (hhead₂ c hc)
    · -- what comes next is not `function` again
      cases hevent with
      | missing =>
        rw [List.nil_append]
        exact dropWord_other hwords.1 hlayout hbehind hne.1
      | @present l hl hrun =>
        rw [List.append_assoc]
        exact dropWord_other hwords.1 hwords.2 (forall_head_append hl hrun _) (by decide)
  rw [declaredName, trimStart_run hstart hhead₃, hdropFunction, hdropEvent, trim,
    trimStart_eq_self hhead₁, trimEnd_append_blanks fun c hc => isBlank_of_isLayout (hgap c hc)]
  exact trimEnd_eq_self fun c hc => hblank c (List.mem_of_getLast? hc)

/-! ## The types -/

/-- The scan finds the types of a written parameter list. -/
theorem types_written {n : String} (h : WrittenList .free ps list) :
    Nesting.run {} list = some {} ∧ ∃ types,
      Normalized.types ⟨n, String.ofList (argumentText list)⟩ = .ok types ∧
        types.map removeBlanks = ps.map (·.type.compact) := by
  have hscanned := parameterText_argumentText h.layout
  rw [← run_argumentText]
  rcases h.exists_tidy with ⟨rfl, hnil⟩ | htidy
  · -- an empty list: what is scanned is empty
    rw [hnil] at hscanned ⊢
    refine ⟨rfl, [], Normalized.types_eq_ok_iff.2 (Or.inl ⟨?_, rfl⟩), rfl⟩
    rw [String.toList_ofList, hscanned]
    exact removeIndexed_eq_self List.not_mem_nil
  · -- the word between spaces makes no difference, so the types are those of the tidy list
    rcases htidy.exists_types with ⟨hrun, types, htypes, hall⟩
    refine ⟨hrun, types, Normalized.types_of_typeTokens ?_, map_removeBlanks_of_forall₂ hall⟩
    rw [String.toList_ofList, hscanned, typeTokens_eq_ok_iff, run_removeIndexed,
      htidy.kept.map_typeOf_pieces]
    exact ⟨hrun, htypes.symm, nil_not_mem_of_forall₂ hall⟩

/-! ## The signature -/

/-- The signature of a written declaration is its name and its types without layout. -/
theorem canonicalize_written (hname : isIdentifier name = true)
    (hne : name ≠ "function".toList ∧ name ≠ "event".toList)
    (htext : WrittenDeclaration name ps text) (hparens : Balanced '(' ')' suffix)
    (hbrackets : Balanced '[' ']' suffix) :
    ∃ r, canonicalize (String.ofList (text ++ suffix)) = .ok r ∧
      r.signature.text = String.ofList
        (name ++ '(' :: ([','].intercalate (ps.map (·.type.compact)) ++ [')'])) := by
  rcases htext with @⟨start, function, event, gap, list, hstart, hfunction, hevent, hgap, hlist⟩
  have hdeclared := declaredName_written hstart hfunction hevent hgap hname hne
  rcases @types_written _ _ (String.ofList name) hlist with ⟨hrun, types, htypes, hcompact⟩
  -- the parenthesis of the list is the first one, and the list closes it
  have hopen : '(' ∉ start ++ (function ++ (event ++ (name ++ gap))) := by
    simp only [List.mem_append, not_or]
    exact ⟨not_mem_run hstart rfl, not_mem_keyword hfunction (by decide) rfl,
      not_mem_keyword hevent (by decide) rfl, not_mem_identifier hname (by decide),
      not_mem_run hgap rfl⟩
  have hparts : Parts (String.ofList
      (start ++ (function ++ (event ++ (name ++ (gap ++ '(' :: (list ++ [')']))))) ++ suffix))
      (start ++ (function ++ (event ++ (name ++ gap)))) list suffix := by
    refine parts_iff.2 ⟨?_, hopen, (Nesting.run_eq_some_iff.1 hrun).1⟩
    rw [String.toList_ofList]
    simp
  have hresult := canonicalize_parts_iff.2 ⟨_, _, _, types, hparts, by rwa [hdeclared],
    Nesting.run_eq_zero_iff.2 ⟨hparens, hbrackets⟩, by rwa [normalOf, hdeclared], rfl⟩
  refine ⟨_, hresult, ?_⟩
  apply String.toList_injective
  show (signatureOf _ types).text.toList = _
  rw [hdeclared, toList_signatureOf fun c => not_isBlank_of_mem_identifier hname,
    removeBlanks_intercalate, hcompact, String.toList_ofList]

/-! ## An event -/

/-- The type `(address,uint[8][])`. -/
def payment : Tree .type :=
  .tuple (.more (.base ⟨"address".toList, by decide, by decide⟩ (by decide))
    (.last (.array (.array (.base ⟨"uint".toList, by decide, by decide⟩ (by decide)) ['8']
      (by decide)) [] (by decide))))

/-- The type `indexedBy`, which only begins like the word `indexed`. -/
def indexedBy : Tree .type :=
  .base ⟨"indexedBy".toList, by decide, by decide⟩ (by decide)

/-- The parameters `(address,uint[8][]) indexed by` and `indexedBy`. -/
def paid : List Parameter :=
  [⟨payment, [⟨indexedWord, by decide, by decide⟩, ⟨"by".toList, by decide, by decide⟩]⟩,
    ⟨indexedBy, []⟩]

theorem written_payment : Written .free payment "( address , uint [ 8 ][ ])".toList := by
  have huint : Written .free
      (.base ⟨"uint".toList, by decide, by decide⟩ (by decide)) "uint".toList := .base _ _
  have hinner := @Written.array .free _ _ [' '] [' '] ['8'] [' '] huint (by decide : IsRun _)
    (by decide : IsRun _) (by decide) (by decide : IsRun _)
  have houter := @Written.array .free _ _ [] [' '] [] [] hinner (by decide : IsRun _)
    (by decide : IsRun _) (by decide) (by decide : IsRun _)
  have hmembers := @Written.more .free _ _ _ [' '] [' '] _
    (.base ⟨"address".toList, by decide, by decide⟩ (by decide)) (by decide : IsRun _)
    (by decide : IsRun _) (.last houter)
  exact @Written.tuple .free _ [' '] _ [] (by decide : IsRun _) hmembers (by decide : IsRun _)

theorem writtenDeclaration_paid : WrittenDeclaration "Paid".toList paid
    " event\tPaid (( address , uint [ 8 ][ ])  indexed by,\n indexedBy )".toList := by
  have hby := @WrittenWords.cons .free ⟨"by".toList, by decide, by decide⟩ [] [' '] []
    ⟨by decide, by decide⟩ .nil
  have hwords := @WrittenWords.cons .free ⟨indexedWord, by decide, by decide⟩ _ [' ', ' '] _
    ⟨by decide, by decide⟩ hby
  have hindexedBy : WrittenParameters .free [⟨indexedBy, []⟩] "indexedBy".toList :=
    @WrittenParameters.last .free ⟨indexedBy, []⟩ _ _ (.base _ _) .nil
  have hparameters := @WrittenParameters.more .free ⟨payment, _⟩ _ _ _ [] ['\n', ' '] _
    written_payment hwords (by decide : IsRun _) (by decide : IsRun _) hindexedBy
  have hlist := @WrittenList.parameters .free _ [] _ [' '] (by decide : IsRun _) hparameters
    (by decide : IsRun _)
  exact @WrittenDeclaration.mk "Paid".toList paid [' '] _ _ [' '] _ (by decide) .missing
    (@WrittenKeyword.present "event".toList ['\t'] (by decide) (by decide)) (by decide) hlist

theorem canonicalize_written_paid :
    ∃ r, canonicalize
        " event\tPaid (( address , uint [ 8 ][ ])  indexed by,\n indexedBy ) anonymous;" = .ok r ∧
      r.signature.text = "Paid((address,uint[8][]),indexedBy)" := by
  have hsuffix : Nesting.run {} " anonymous;".toList = some {} := by decide
  have hbalanced := Nesting.run_eq_zero_iff.1 hsuffix
  exact canonicalize_written (by decide) (by decide) writtenDeclaration_paid hbalanced.1 hbalanced.2

end AbiSig.Grammar
