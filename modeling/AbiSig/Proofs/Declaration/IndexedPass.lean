import AbiSig.Proofs.Declaration.Parameters

/-!
# The word `indexed` in one pass

`removeIndexed` is defined by a rule that is applied until it does not match. `dropIndexed` writes the
same text from left to right, and remembers only whether a space was written last.

1. **The pass and the rule**: what follows a space that stays may be rewritten
   (`dropIndexed_space_congr`), so an application of the rule makes no difference to the pass. Both
   write the same text (`removeIndexed_eq_dropIndexed`).
2. **Cuts**: a text may be cut at a character that does not occur in the rule
   (`removeIndexed_append_cons`). A space in front of a text only matters if the word and another space
   follow it (`removeIndexed_space`); then the word is lost (`removeIndexed_space_indexed`).
-/

namespace AbiSig.Declaration

open Text

variable {c : Char} {behindSpace : Bool} {as bs cs rest : List Char}

/-! ## The pass -/

/-- What follows the word and the space behind it, if the text begins so behind a space. -/
def behindIndexed? (behindSpace : Bool) (cs : List Char) : Option (List Char) :=
  if behindSpace then after? (indexedWord ++ [' ']) cs else none

theorem behindIndexed?_eq_some_iff :
    behindIndexed? behindSpace cs = some rest ↔
      behindSpace = true ∧ cs = indexedWord ++ ' ' :: rest := by
  unfold behindIndexed?
  cases behindSpace with
  | true =>
    rw [if_pos rfl, after?_eq_some_iff, List.append_assoc]
    simp
  | false => simp

theorem behindIndexed?_eq_none
    (h : behindSpace = true → ∀ rest, cs ≠ indexedWord ++ ' ' :: rest) :
    behindIndexed? behindSpace cs = none := by
  apply Option.eq_none_iff_forall_ne_some.2
  intro rest hrest
  obtain ⟨hbehind, heq⟩ := behindIndexed?_eq_some_iff.1 hrest
  exact h hbehind rest heq

/-- The text without the words `indexed` that stand between spaces. `behindSpace` says that a space
stands in front of the text. -/
def dropIndexed (behindSpace : Bool) (cs : List Char) : List Char :=
  match _h : behindIndexed? behindSpace cs with
  | some rest => dropIndexed true rest
  | none =>
    match cs with
    | [] => []
    | c :: cs => c :: dropIndexed (c == ' ') cs
termination_by cs.length
decreasing_by
  · have hlength := congrArg List.length (behindIndexed?_eq_some_iff.1 _h).2
    rw [List.length_append, List.length_cons] at hlength
    omega
  · simp

theorem dropIndexed_nil : dropIndexed behindSpace [] = [] := by
  unfold dropIndexed
  split
  · rename_i hword
    have hnil := (behindIndexed?_eq_some_iff.1 hword).2
    exact absurd hnil (by simp)
  · rfl

/-- Behind a space the word is dropped, together with the space behind it. -/
theorem dropIndexed_word (cs : List Char) :
    dropIndexed true (indexedWord ++ ' ' :: cs) = dropIndexed true cs := by
  have hword : behindIndexed? true (indexedWord ++ ' ' :: cs) = some cs :=
    behindIndexed?_eq_some_iff.2 ⟨rfl, rfl⟩
  conv_lhs => unfold dropIndexed
  split
  · rename_i rest hrest
    rw [hword] at hrest
    rw [Option.some.inj hrest]
  · rename_i hnone
    rw [hword] at hnone
    contradiction

/-- Any other character stays. -/
theorem dropIndexed_cons (h : behindIndexed? behindSpace (c :: cs) = none) :
    dropIndexed behindSpace (c :: cs) = c :: dropIndexed (c == ' ') cs := by
  conv_lhs => unfold dropIndexed
  split
  · rename_i hsome
    rw [h] at hsome
    contradiction
  · rfl

theorem dropIndexed_false_cons (c : Char) (cs : List Char) :
    dropIndexed false (c :: cs) = c :: dropIndexed (c == ' ') cs :=
  dropIndexed_cons rfl

/-- A text that does not begin with the word is treated alike behind a space and elsewhere. -/
theorem dropIndexed_true (h : ∀ rest, cs ≠ indexedWord ++ ' ' :: rest) :
    dropIndexed true cs = dropIndexed false cs := by
  cases cs with
  | nil => rw [dropIndexed_nil, dropIndexed_nil]
  | cons c cs =>
    have hnone : behindIndexed? true (c :: cs) = none := behindIndexed?_eq_none fun _ => h
    rw [dropIndexed_cons hnone, dropIndexed_false_cons]

/-! ## The pass and the rule -/

/-- What follows a space that stays may be rewritten. -/
theorem dropIndexed_space_congr (h : dropIndexed true as = dropIndexed true bs)
    (behindSpace : Bool) (before : List Char) :
    dropIndexed behindSpace (before ++ ' ' :: as) = dropIndexed behindSpace (before ++ ' ' :: bs) := by
  have hspace : ' ' ∉ indexedWord := by decide
  induction hn : before.length using Nat.strongRecOn generalizing behindSpace before with
  | ind n ih =>
    subst hn
    by_cases hbegins : behindSpace = true ∧
        (before = indexedWord ∨ ∃ before', before = indexedWord ++ ' ' :: before')
    · -- the word is dropped from both texts
      obtain ⟨rfl, rfl | ⟨before', rfl⟩⟩ := hbegins
      · rw [dropIndexed_word, dropIndexed_word, h]
      · rw [List.append_assoc, List.append_assoc, List.cons_append, List.cons_append,
          dropIndexed_word, dropIndexed_word]
        exact ih before'.length (by simp; omega) true before' rfl
    · have hnone (cs : List Char) : behindIndexed? behindSpace (before ++ ' ' :: cs) = none := by
        apply behindIndexed?_eq_none
        intro hbehind rest heq
        rcases append_space_eq_append_space hspace heq with ⟨hword, -⟩ | ⟨before', hword, -⟩
        · exact hbegins ⟨hbehind, Or.inl hword⟩
        · exact hbegins ⟨hbehind, Or.inr ⟨before', hword⟩⟩
      cases before with
      | nil =>
        rw [List.nil_append, List.nil_append, dropIndexed_cons (hnone as), dropIndexed_cons (hnone bs)]
        exact congrArg (' ' :: ·) h
      | cons c before =>
        have hnone' (cs : List Char) :
            behindIndexed? behindSpace (c :: (before ++ ' ' :: cs)) = none := hnone cs
        have hrest := ih before.length (by simp) (c == ' ') before rfl
        rw [List.cons_append, List.cons_append, dropIndexed_cons (hnone' as),
          dropIndexed_cons (hnone' bs), hrest]

/-- One replacement does not change what the pass writes. -/
theorem dropIndexed_of_step (h : Step [indexedRule] as bs) :
    dropIndexed behindSpace bs = dropIndexed behindSpace as := by
  obtain ⟨before, after, rfl, rfl⟩ := step_indexed_inv h
  apply dropIndexed_space_congr
  exact (dropIndexed_word after).symm

/-- The pass leaves a text alone in which the rule does not match. -/
theorem dropIndexed_eq_self (h : ¬ indexedRule.pattern <:+: space behindSpace ++ cs) :
    dropIndexed behindSpace cs = cs := by
  induction cs generalizing behindSpace with
  | nil => exact dropIndexed_nil
  | cons c cs ih =>
    have hnone : behindIndexed? behindSpace (c :: cs) = none := by
      apply behindIndexed?_eq_none
      rintro rfl rest heq
      apply h
      rw [heq]
      exact ⟨[], rest, rfl⟩
    have htail : ¬ indexedRule.pattern <:+: space (c == ' ') ++ cs := by
      intro hpattern
      have hspace : space (c == ' ') ++ cs <:+ c :: cs := by
        by_cases hc : c = ' '
        · subst hc
          exact List.suffix_refl _
        · have hfalse : (c == ' ') = false := by simpa using hc
          rw [hfalse]
          exact List.suffix_cons c cs
      exact h (hpattern.trans (hspace.trans (List.suffix_append _ _)).isInfix)
    rw [dropIndexed_cons hnone, ih htail]

/-- The rule and the pass write the same text. -/
theorem removeIndexed_eq_dropIndexed (cs : List Char) :
    removeIndexed cs = dropIndexed false cs := by
  refine normalForm_eq_of_steps (fun _ _ => dropIndexed_of_step) ?_ cs
  intro cs hnone
  have hpattern : ¬ indexedRule.pattern <:+: space false ++ cs :=
    hnone indexedRule List.mem_cons_self
  exact dropIndexed_eq_self hpattern

/-! ## Cuts -/

theorem behindIndexed?_append_cons (hc : c ∉ indexedRule.pattern) (behindSpace : Bool)
    (as bs : List Char) :
    behindIndexed? behindSpace (as ++ c :: bs) =
      (behindIndexed? behindSpace as).map (· ++ c :: bs) := by
  have hlead : c ∉ indexedWord ++ [' '] := fun hmem => hc (List.mem_cons_of_mem ' ' hmem)
  unfold behindIndexed?
  cases behindSpace with
  | true => exact after?_append_cons hlead as bs
  | false => rfl

/-- The pass may be cut at a character that does not occur in the rule. -/
theorem dropIndexed_append_cons (hc : c ∉ indexedRule.pattern) (behindSpace : Bool)
    (as bs : List Char) :
    dropIndexed behindSpace (as ++ c :: bs) =
      dropIndexed behindSpace as ++ c :: dropIndexed false bs := by
  have hspace : (c == ' ') = false := by
    rw [beq_eq_false_iff_ne]
    rintro rfl
    exact hc List.mem_cons_self
  fun_induction dropIndexed behindSpace as with
  | case1 behindSpace as rest hword ih =>
    -- the word is in front of the cut
    obtain ⟨rfl, rfl⟩ := behindIndexed?_eq_some_iff.1 hword
    rw [List.append_assoc, List.cons_append, dropIndexed_word, ih]
  | case2 behindSpace hword =>
    have hnone := behindIndexed?_append_cons hc behindSpace [] bs
    rw [hword] at hnone
    rw [List.nil_append, dropIndexed_cons hnone, hspace]
    rfl
  | case3 behindSpace a as hword ih =>
    have hnone := behindIndexed?_append_cons hc behindSpace (a :: as) bs
    rw [hword] at hnone
    have hcons : dropIndexed behindSpace (a :: (as ++ c :: bs)) =
        a :: dropIndexed (a == ' ') (as ++ c :: bs) := dropIndexed_cons hnone
    rw [List.cons_append, hcons, ih, List.cons_append]

theorem removeIndexed_append_cons (hc : c ∉ indexedRule.pattern) (as bs : List Char) :
    removeIndexed (as ++ c :: bs) = removeIndexed as ++ c :: removeIndexed bs := by
  simp only [removeIndexed_eq_dropIndexed]
  exact dropIndexed_append_cons hc false as bs

/-- So may the text that is scanned, if the character is not blank. -/
theorem parameterText_append_cons (hc : c ∉ indexedRule.pattern) (hblank : isBlank c = false)
    (as bs : List Char) :
    parameterText (as ++ c :: bs) =
      trimStart (removeIndexed as) ++ c :: trimEnd (removeIndexed bs) := by
  unfold parameterText trim
  rw [removeIndexed_append_cons hc, trimStart_append_cons hblank, trimEnd_append_cons hblank]

/-- A space in front of a text stays, and does no harm if the word and a space do not follow it. -/
theorem removeIndexed_space (h : ∀ rest, cs ≠ indexedWord ++ ' ' :: rest) :
    removeIndexed (' ' :: cs) = ' ' :: removeIndexed cs := by
  simp only [removeIndexed_eq_dropIndexed]
  rw [dropIndexed_false_cons]
  exact congrArg (' ' :: ·) (dropIndexed_true h)

/-- Otherwise the word is lost. -/
theorem removeIndexed_space_indexed (cs : List Char) :
    removeIndexed (' ' :: (indexedWord ++ ' ' :: cs)) = removeIndexed (' ' :: cs) := by
  simp only [removeIndexed_eq_dropIndexed]
  rw [dropIndexed_false_cons, dropIndexed_false_cons]
  exact congrArg (' ' :: ·) (dropIndexed_word cs)

end AbiSig.Declaration
