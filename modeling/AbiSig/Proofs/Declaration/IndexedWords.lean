import AbiSig.Proofs.Declaration.IndexedPass

/-!
# The word `indexed` among the words of a text

Cut at every single space, a text falls into words, some of them empty. `removeIndexed` takes the words
`indexed` out of them, except where one is the first word or the last. The proof follows the pass
`dropIndexed` from one space to the next: behind a space, every word but the last is dropped if it is
`indexed` (`splitOn_dropIndexed_true`), and the first word is not behind a space
(`splitOn_removeIndexed`).
-/

namespace AbiSig.Declaration

open Text

variable {behindSpace : Bool} {cs w word : List Char} {ws : List (List Char)}

/-! ## Words -/

/-- The words without those equal to `word`; the last one stays whatever it is. -/
def withoutBeforeLast (word : List Char) (ws : List (List Char)) : List (List Char) :=
  ws.dropLast.filter (· != word) ++ ws.getLast?.toList

/-- The words without those equal to `word`; the first one and the last one stay whatever they are. -/
def withoutInner (word : List Char) : List (List Char) → List (List Char)
  | [] => []
  | first :: others => first :: withoutBeforeLast word others

theorem withoutBeforeLast_singleton (word w : List Char) : withoutBeforeLast word [w] = [w] := rfl

theorem withoutBeforeLast_self (hws : ws ≠ []) (word : List Char) :
    withoutBeforeLast word (word :: ws) = withoutBeforeLast word ws := by
  obtain ⟨v, ws, rfl⟩ := List.exists_cons_of_ne_nil hws
  simp [withoutBeforeLast]

theorem withoutBeforeLast_cons (hws : ws ≠ []) (hw : w ≠ word) :
    withoutBeforeLast word (w :: ws) = w :: withoutBeforeLast word ws := by
  obtain ⟨v, ws, rfl⟩ := List.exists_cons_of_ne_nil hws
  simp [withoutBeforeLast, hw]

/-- All other words stay, in their order. -/
theorem filter_withoutInner (word : List Char) (ws : List (List Char)) :
    (withoutInner word ws).filter (· != word) = ws.filter (· != word) := by
  have hbefore (vs : List (List Char)) :
      (withoutBeforeLast word vs).filter (· != word) = vs.filter (· != word) := by
    induction vs using List.reverseRecOn with
    | nil => rfl
    | append_singleton vs v _ => simp [withoutBeforeLast]
  cases ws with
  | nil => rfl
  | cons first others => rw [withoutInner, List.filter_cons, List.filter_cons, hbefore]

/-! ## The pass from space to space -/

theorem dropIndexed_of_not_mem (hcs : ' ' ∉ cs) : dropIndexed behindSpace cs = cs := by
  induction cs generalizing behindSpace with
  | nil => exact dropIndexed_nil
  | cons c cs ih =>
    have hnone : behindIndexed? behindSpace (c :: cs) = none := by
      apply behindIndexed?_eq_none
      intro _ rest heq
      exact hcs (heq ▸ List.mem_append_right indexedWord List.mem_cons_self)
    rw [dropIndexed_cons hnone, ih fun hmem => hcs (List.mem_cons_of_mem c hmem)]

/-- A word stays with the space behind it, unless it is dropped. -/
theorem dropIndexed_append_space (hw : ' ' ∉ w) (hne : behindSpace = true → w ≠ indexedWord)
    (cs : List Char) :
    dropIndexed behindSpace (w ++ ' ' :: cs) = w ++ ' ' :: dropIndexed true cs := by
  have hspace : ' ' ∉ indexedWord := by decide
  have hnone : behindIndexed? behindSpace (w ++ ' ' :: cs) = none := by
    apply behindIndexed?_eq_none
    intro hbehind rest heq
    exact hne hbehind (append_cons_inj hw hspace heq).1
  induction w generalizing behindSpace with
  | nil => exact dropIndexed_cons hnone
  | cons c w ih =>
    rw [List.mem_cons, not_or] at hw
    have hc : (c == ' ') = false := by simpa using Ne.symm hw.1
    rw [List.cons_append] at hnone ⊢
    rw [dropIndexed_cons hnone, hc, ih hw.2 (by simp) rfl, List.cons_append]

/-- Behind a space, all words `indexed` but the last word are dropped. -/
theorem splitOn_dropIndexed_true (cs : List Char) :
    (dropIndexed true cs).splitOn ' ' = withoutBeforeLast indexedWord (cs.splitOn ' ') := by
  induction hn : cs.length using Nat.strongRecOn generalizing cs with
  | ind n ih =>
    subst hn
    by_cases hmem : ' ' ∈ cs
    · obtain ⟨w, rest, rfl, hw⟩ := List.eq_append_cons_of_mem hmem
      have hrest := ih rest.length (by simp; omega) rest rfl
      have hwords : rest.splitOn ' ' ≠ [] := List.splitOn_ne_nil ' ' rest
      rw [List.splitOn_append_cons_self_of_not_mem hw]
      by_cases heq : w = indexedWord
      · subst heq
        rw [dropIndexed_word, hrest, withoutBeforeLast_self hwords]
      · rw [dropIndexed_append_space hw fun _ => heq, List.splitOn_append_cons_self_of_not_mem hw,
          hrest, withoutBeforeLast_cons hwords heq]
    · -- the only word is the last one
      rw [dropIndexed_of_not_mem hmem, List.splitOn_eq_singleton hmem, withoutBeforeLast_singleton]

/-- The words that are left. -/
theorem splitOn_removeIndexed (cs : List Char) :
    (removeIndexed cs).splitOn ' ' = withoutInner indexedWord (cs.splitOn ' ') := by
  rw [removeIndexed_eq_dropIndexed]
  by_cases hmem : ' ' ∈ cs
  · obtain ⟨w, rest, rfl, hw⟩ := List.eq_append_cons_of_mem hmem
    rw [dropIndexed_append_space hw (by simp), List.splitOn_append_cons_self_of_not_mem hw,
      List.splitOn_append_cons_self_of_not_mem hw, splitOn_dropIndexed_true, withoutInner]
  · rw [dropIndexed_of_not_mem hmem, List.splitOn_eq_singleton hmem]
    rfl

/-! ## The whole -/

/-- The loop ends, and it takes the inner words `indexed` out of the text and nothing else. -/
theorem removeIndexed_inner_words (cs : List Char) :
    removeIndexed cs = [' '].intercalate (withoutInner indexedWord (cs.splitOn ' ')) ∧
      (removeIndexed cs).splitOn ' ' = withoutInner indexedWord (cs.splitOn ' ') ∧
      ((removeIndexed cs).splitOn ' ').filter (· != indexedWord) =
        (cs.splitOn ' ').filter (· != indexedWord) ∧
      (removeIndexed cs).filter isDelimiter = cs.filter isDelimiter ∧
      ∃ n, n ≤ cs.length ∧ indexedRule.replaceAll^[n] cs = removeIndexed cs ∧
        ¬ indexedRule.pattern <:+: removeIndexed cs ∧
        ∀ m, m < n → indexedRule.pattern <:+: indexedRule.replaceAll^[m] cs := by
  have hwords := splitOn_removeIndexed cs
  refine ⟨?_, hwords, ?_, filter_isDelimiter_removeIndexed cs, ?_⟩
  · rw [← hwords, List.intercalate_splitOn]
  · rw [hwords, filter_withoutInner]
  · obtain ⟨n, hn, hstops⟩ := exists_stopsAfter [indexedRule] cs
    have hpass : pass [indexedRule] = indexedRule.replaceAll := rfl
    refine ⟨n, hn, hstops.result, not_infix_normalForm List.mem_cons_self cs, ?_⟩
    intro m hm
    -- a pass that changes the text finds the word
    have hchanges := hstops.goes_on m hm
    rw [ne_eq, pass_eq_self_iff, hpass] at hchanges
    simpa using hchanges

/-- Two words in a row share a space, and the words at the ends stay. -/
example : removeIndexed "indexed indexed indexed  indexedly indexed".toList =
    "indexed  indexedly indexed".toList := by
  decide +kernel

end AbiSig.Declaration
