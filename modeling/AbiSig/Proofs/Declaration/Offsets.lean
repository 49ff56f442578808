import AbiSig.Proofs.Declaration.IndexedPass

/-!
# The offset of an imbalance in an argument list

The scan counts its offsets in the text that it reads, and this is the argument list without the words
`indexed` between spaces and without the blanks at its ends. So the offset that it reports may differ
from the place in the argument list itself.

1. **The same delimiter**: what is taken out has no delimiters. The list loses its balance where the
   text that is read does, and the offset that is reported is the size of what is left in front of
   this place (`LosesBalance.parameterText`).
2. **The difference**: the two offsets are the same exactly if nothing is taken out in front
   (`utf8Size_trimStart_removeIndexed_eq_iff`, `utf8Size_parameterText_eq_iff`).
3. `offset_of_unbalanced_list` puts both together for a declaration, and `offset_behind_indexed` is one
   in which the offset that is reported is not that of the bracket.
-/

namespace AbiSig

open Text

variable {as bs cs : List Char}

/-! ## Sizes -/

namespace Text

theorem utf8Size_le_of_sublist (h : as.Sublist bs) : utf8Size as ≤ utf8Size bs := by
  induction h with
  | slnil => exact Nat.le_refl 0
  | cons c h ih =>
    rw [utf8Size_cons]
    omega
  | cons_cons c h ih =>
    rw [utf8Size_cons, utf8Size_cons]
    omega

/-- A text from which something was taken out takes fewer bytes. -/
theorem eq_of_sublist_of_utf8Size_eq (h : as.Sublist bs) (hsize : utf8Size as = utf8Size bs) :
    as = bs := by
  induction h with
  | slnil => rfl
  | cons c h ih =>
    have hle := utf8Size_le_of_sublist h
    have hpos := Char.utf8Size_pos c
    rw [utf8Size_cons] at hsize
    omega
  | cons_cons c h ih =>
    rw [utf8Size_cons, utf8Size_cons] at hsize
    rw [ih (by omega)]

/-- The size is kept only if nothing is taken out. -/
theorem utf8Size_eq_iff_of_sublist (h : as.Sublist bs) : utf8Size as = utf8Size bs ↔ as = bs :=
  ⟨eq_of_sublist_of_utf8Size_eq h, congrArg utf8Size⟩

end Text

namespace Declaration

/-! ## What is taken out -/

theorem removeIndexed_sublist (cs : List Char) : (removeIndexed cs).Sublist cs := by
  refine removeIndexed_keeps (P := fun text => text.Sublist cs) ?_ (List.Sublist.refl cs)
  intro before after h
  have hword : (' ' :: after).Sublist (' ' :: (indexedWord ++ ' ' :: after)) :=
    (List.sublist_append_right (' ' :: indexedWord) (' ' :: after))
  exact (hword.append_left before).trans h

theorem removeIndexed_eq_self_iff : removeIndexed cs = cs ↔ ¬ indexedRule.pattern <:+: cs := by
  constructor
  · intro h
    rw [← h]
    exact not_infix_normalForm List.mem_cons_self cs
  · intro h
    apply normalForm_eq_self
    intro r hr
    rw [List.mem_singleton] at hr
    rw [hr]
    exact h

/-- Nothing is taken out in front of the end of a text that has no `indexed` between spaces and does
not begin with a blank. -/
theorem utf8Size_trimStart_removeIndexed_eq_iff :
    utf8Size (trimStart (removeIndexed cs)) = utf8Size cs ↔
      ¬ indexedRule.pattern <:+: cs ∧ ∀ c ∈ cs.head?, isBlank c = false := by
  have htrim : (trimStart (removeIndexed cs)).Sublist (removeIndexed cs) :=
    List.dropWhile_sublist isBlank
  rw [utf8Size_eq_iff_of_sublist (htrim.trans (removeIndexed_sublist cs)),
    ← removeIndexed_eq_self_iff, ← trimStart_eq_self_iff]
  constructor
  · intro h
    rw [h] at htrim
    have hself := (removeIndexed_sublist cs).antisymm htrim
    rw [hself] at h
    exact ⟨hself, h⟩
  · rintro ⟨hself, h⟩
    rw [hself, h]

/-- Nothing at all is taken out of a text that has no `indexed` between spaces and neither begins nor
ends with a blank. -/
theorem utf8Size_parameterText_eq_iff :
    utf8Size (parameterText cs) = utf8Size cs ↔
      ¬ indexedRule.pattern <:+: cs ∧ (∀ c ∈ cs.head?, isBlank c = false) ∧
        ∀ c ∈ cs.getLast?, isBlank c = false := by
  have htrim : (parameterText cs).Sublist (removeIndexed cs) := trim_sublist _
  rw [utf8Size_eq_iff_of_sublist (htrim.trans (removeIndexed_sublist cs)),
    ← removeIndexed_eq_self_iff, ← trim_eq_self_iff]
  constructor
  · intro h
    rw [h] at htrim
    have hself := (removeIndexed_sublist cs).antisymm htrim
    rw [parameterText, hself] at h
    exact ⟨hself, h⟩
  · rintro ⟨hself, h⟩
    rw [parameterText, hself, h]

/-! ## The same delimiter -/

/-- What is left of a text in front of a place has the delimiters of the text. -/
theorem filter_isDelimiter_front (cs : List Char) :
    (trimStart (removeIndexed cs)).filter isDelimiter = cs.filter isDelimiter := by
  rw [filter_trimStart fun _ => not_isDelimiter_of_isBlank, filter_isDelimiter_removeIndexed]

theorem count_of_filter_eq {c : Char} (hc : isDelimiter c = true)
    (h : as.filter isDelimiter = bs.filter isDelimiter) : as.count c = bs.count c := by
  rw [← List.count_filter hc, h, List.count_filter hc]

end Declaration

open Declaration

variable {e : Imbalance} {raw : String} {n : Normalized} {front back : List Char}

theorem parameterText_of_closing {d : Delimiter} (hd : d = .closeParen ∨ d = .closeBracket)
    (front back : List Char) :
    parameterText (front ++ d.toChar :: back) =
      trimStart (removeIndexed front) ++ d.toChar :: trimEnd (removeIndexed back) := by
  rcases hd with rfl | rfl
  · exact parameterText_append_cons (by decide) (by decide) front back
  · exact parameterText_append_cons (by decide) (by decide) front back

/-- The text that is read loses its balance for the delimiter for which the list does: at a closing
one behind what is left in front of it, for an opening one at the end. -/
theorem LosesBalance.parameterText (h : LosesBalance 0 cs e) :
    ((e.delimiter = .closeParen ∨ e.delimiter = .closeBracket) ∧
      ∃ front back, cs = front ++ e.delimiter.toChar :: back ∧ e.offset = utf8Size front ∧
        LosesBalance 0 (parameterText cs)
          { e with offset := utf8Size (trimStart (removeIndexed front)) }) ∨
    ((e.delimiter = .openParen ∨ e.delimiter = .openBracket) ∧ e.offset = utf8Size cs ∧
      LosesBalance 0 (parameterText cs) { e with offset := utf8Size (parameterText cs) }) := by
  have hwhole := (filter_isDelimiter_parameterText cs).symm
  cases h with
  | closeParen front back hcs hfront hzero =>
    have hsame := (filter_isDelimiter_front front).symm
    rw [count_of_filter_eq rfl hsame, count_of_filter_eq rfl hsame] at hzero
    subst hcs
    refine Or.inl ⟨Or.inl rfl, front, back, rfl, Nat.zero_add _, ?_⟩
    rw [← Nat.zero_add (utf8Size (trimStart (removeIndexed front)))]
    exact .closeParen _ _ (parameterText_of_closing (Or.inl rfl) front back)
      (Nesting.neverNegative_of_filter_eq hsame hfront) hzero
  | closeBracket front back hcs hfront hzero =>
    have hsame := (filter_isDelimiter_front front).symm
    rw [count_of_filter_eq rfl hsame, count_of_filter_eq rfl hsame] at hzero
    subst hcs
    refine Or.inl ⟨Or.inr rfl, front, back, rfl, Nat.zero_add _, ?_⟩
    rw [← Nat.zero_add (utf8Size (trimStart (removeIndexed front)))]
    exact .closeBracket _ _ (parameterText_of_closing (Or.inr rfl) front back)
      (Nesting.neverNegative_of_filter_eq hsame hfront) hzero
  | openParen hcs hopen =>
    rw [count_of_filter_eq rfl hwhole, count_of_filter_eq rfl hwhole] at hopen
    refine Or.inr ⟨Or.inl rfl, Nat.zero_add _, ?_⟩
    rw [← Nat.zero_add (utf8Size (Declaration.parameterText cs))]
    exact .openParen (Nesting.neverNegative_of_filter_eq hwhole hcs) hopen
  | openBracket hcs hclosed hopen =>
    rw [count_of_filter_eq rfl hwhole, count_of_filter_eq rfl hwhole] at hclosed hopen
    refine Or.inr ⟨Or.inr rfl, Nat.zero_add _, ?_⟩
    rw [← Nat.zero_add (utf8Size (Declaration.parameterText cs))]
    exact .openBracket (Nesting.neverNegative_of_filter_eq hwhole hcs) hclosed hopen

/-! ## Declarations -/

/-- An imbalance that is reported for a declaration is one of the text that is read. -/
theorem Normalized.losesBalance_of_typeList (h : n.typeList = .error (.unbalanced e)) :
    LosesBalance 0 (parameterText n.params.toList) e := by
  rcases typeTokens_eq_error_inv (n.typeTokens_of_typeList h) with ⟨k, heq⟩ | ⟨imbalance, hlost, heq⟩
  · contradiction
  · rw [SignatureError.unbalanced.inj heq]
    exact hlost

/-- Where the argument list of a declaration loses its balance, and the offset that is reported for
it. The two are the same exactly if nothing is taken out in front of the place. -/
theorem offset_of_unbalanced_list (hn : normalize raw = .ok n)
    (h : n.typeList = .error (.unbalanced e)) :
    ∃ list, n.text.toList = n.name.toList ++ '(' :: (list ++ [')']) ∧ '(' ∉ n.name.toList ∧
      ∃ place, LosesBalance 0 list { e with offset := place } ∧
        (((e.delimiter = .closeParen ∨ e.delimiter = .closeBracket) ∧
            ∃ front back, list = front ++ e.delimiter.toChar :: back ∧ place = utf8Size front ∧
              e.offset = utf8Size (trimStart (removeIndexed front)) ∧
              (e.offset = place ↔
                ¬ indexedRule.pattern <:+: front ∧ ∀ c ∈ front.head?, isBlank c = false)) ∨
          ((e.delimiter = .openParen ∨ e.delimiter = .openBracket) ∧ place = utf8Size list ∧
            e.offset = utf8Size (trim (removeIndexed list)) ∧
            (e.offset = place ↔
              ¬ indexedRule.pattern <:+: list ∧ (∀ c ∈ list.head?, isBlank c = false) ∧
                ∀ c ∈ list.getLast?, isBlank c = false))) := by
  have hname : '(' ∉ n.name.toList := by
    obtain ⟨before, inside, -, -, hident, rfl⟩ := normalize_eq_ok_iff.1 hn
    rw [String.toList_ofList]
    exact not_mem_identifier hident (by decide)
  have hlost := Normalized.losesBalance_of_typeList h
  -- the list loses its balance, too
  have hlist : Nesting.run {} n.params.toList ≠ some {} := by
    rw [← run_parameterText]
    exact hlost.not_run
  obtain ⟨e', hlost'⟩ := exists_losesBalance 0 hlist
  refine ⟨n.params.toList, n.toList_text, hname, e'.offset, ?_⟩
  rcases hlost'.parameterText with ⟨hd, front, back, hcs, hplace, hread⟩ | ⟨hd, hplace, hread⟩
  · obtain rfl := hlost.unique hread
    refine ⟨hlost', Or.inl ⟨hd, front, back, hcs, hplace, rfl, ?_⟩⟩
    rw [hplace]
    exact utf8Size_trimStart_removeIndexed_eq_iff
  · obtain rfl := hlost.unique hread
    refine ⟨hlost', Or.inr ⟨hd, hplace, rfl, ?_⟩⟩
    rw [hplace]
    exact utf8Size_parameterText_eq_iff

/-- A no-break space in front of the list is no layout, so it stays in the normal form. It is not
counted in the offset that is reported for the bracket. -/
theorem offset_of_unbalanced_list_no_break_space :
    normalize "f(\u00a0a])" = .ok ⟨"f", "\u00a0a]"⟩ ∧
      Normalized.typeList ⟨"f", "\u00a0a]"⟩ =
        .error (.unbalanced { delimiter := .closeBracket, offset := 1 }) ∧
      ∃ place, LosesBalance 0 "\u00a0a]".toList { delimiter := .closeBracket, offset := place } ∧
        place ≠ 1 := by
  have hn : normalize "f(\u00a0a])" = .ok ⟨"f", "\u00a0a]"⟩ := by decide +kernel
  have h : Normalized.typeList ⟨"f", "\u00a0a]"⟩ =
      .error (.unbalanced { delimiter := .closeBracket, offset := 1 }) := by decide +kernel
  refine ⟨hn, h, ?_⟩
  obtain ⟨list, htext, -, place, hlost, hplace⟩ := offset_of_unbalanced_list hn h
  have hlist : "\u00a0a]".toList = list := by
    have hinside : "\u00a0a]".toList ++ [')'] = list ++ [')'] := by
      simpa [Normalized.toList_text] using htext
    exact List.append_cancel_right hinside
  subst hlist
  refine ⟨place, hlost, ?_⟩
  rintro rfl
  rcases hplace with ⟨-, front, back, hfront, -, -, hsame⟩ | ⟨hopening, -⟩
  · -- the list begins with a blank
    have hhead := (hsame.1 rfl).2
    cases front with
    | nil => exact absurd (List.cons.inj hfront).1 (by decide)
    | cons c front =>
      have hc := hhead c rfl
      rw [← (List.cons.inj hfront).1] at hc
      exact absurd hc (by decide)
  · exact absurd hopening (by decide)

/-- The bracket that nothing opened stands at byte 11 of the argument list. The word that is taken out
in front of it is not counted, and the offset that is reported is that of a letter of this word. -/
theorem offset_behind_indexed :
    normalize "f(a indexed b])" = .ok ⟨"f", "a indexed b]"⟩ ∧
      Normalized.typeList ⟨"f", "a indexed b]"⟩ =
        .error (.unbalanced { delimiter := .closeBracket, offset := 3 }) ∧
      LosesBalance 0 "a indexed b]".toList { delimiter := .closeBracket, offset := 11 } ∧
      (utf8Bytes "a indexed b]".toList)[3]? ≠ some ']'.toUInt8 := by
  refine ⟨by decide +kernel, by decide +kernel, ?_, by decide⟩
  exact checkBalanced_eq_error_iff.1 rfl

end AbiSig
