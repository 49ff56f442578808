import AbiSig.Proofs.Declaration.Offsets
import AbiSig.Proofs.Declaration.Written
import AbiSig.Proofs.Interface.Suffix

/-!
# How a declaration can fail

Each stage of `canonicalize` has failures of its own, and none is left for a later stage to find again.

1. **The cut** leaves an argument list in which no `)` closes more than was opened
   (`exists_depth_of_normalize`). So the scan never reports a `)`, and whoever reads the normal form as
   a text always finds its parentheses.
2. **The way without a match**: if the first `(` is never closed, its list stays open to the end, and
   the scan fails (`Parts.of_typeList`).
3. **What is reported**: a fault of the form quotes the declaration as it was given, and its name in a
   tidy form (`layout_of_badName`). A `)` that is reported stands behind the argument list
   (`canonicalize_eq_error_inv`).

`failures_of_canonicalize` puts these together.
-/

namespace AbiSig

open Text Declaration

variable {raw : String} {n : Normalized} {e : SignatureError} {imbalance : Imbalance}
  {before inside cs : List Char} {offset d : Nat}

/-! ## The argument list of a normal form -/

/-- A `)` behind as many `)` as `(` closes more than was opened. -/
theorem exists_overclosed (hcount : cs.count '(' = cs.count ')') (rest : List Char) :
    ∃ p, p <+: cs ++ ')' :: rest ∧ p.count '(' < p.count ')' := by
  refine ⟨cs ++ [')'], ⟨rest, by simp⟩, ?_⟩
  simp only [List.count_append, List.count_singleton_self,
    List.count_eq_zero_of_not_mem (show '(' ∉ [')'] by decide)]
  omega

/-- Where the counter of the parentheses does not go below zero, no `)` is refused. -/
theorem LosesBalance.ne_closeParen (h : LosesBalance offset cs imbalance)
    (hdepth : depthAfter '(' ')' 0 cs = some d) : imbalance.delimiter ≠ .closeParen := by
  obtain ⟨hfront, -⟩ := (depthAfter_eq_some_iff (by decide)).1 hdepth
  cases h with
  | closeParen front back hcs _ hzero =>
    obtain ⟨p, hp, hlt⟩ := exists_overclosed hzero back
    have hle := hfront p (hcs ▸ hp)
    omega
  | closeBracket => simp
  | openParen => simp
  | openBracket => simp

/-- No `)` of an argument list closes more than was opened: the cut is at the first one that would, or
there is none. -/
theorem exists_depth_of_normalize (hn : normalize raw = .ok n) :
    ∃ d, depthAfter '(' ')' 0 n.params.toList = some d := by
  obtain ⟨before, inside, hbefore, hcut, -, rfl⟩ := normalize_eq_ok_iff.1 hn
  rw [String.toList_ofList, depthAfter_argumentText]
  obtain ⟨rest, hraw, ⟨hsplit, -⟩ | ⟨hnone, -⟩⟩ := throughArguments_open_inv hcut
  · obtain ⟨before', inside', hbefore', hkept, -, hzero⟩ := splitArguments_eq_some_iff.1 hsplit
    obtain ⟨-, hinside⟩ := append_cons_inj hbefore hbefore' hkept
    rw [List.append_cancel_right hinside]
    exact ⟨0, hzero⟩
  · rw [hraw, splitArguments_eq_none_iff hbefore] at hnone
    obtain ⟨d, hd⟩ := hnone
    rw [depthAfter_append] at hd
    obtain ⟨d', hd', -⟩ := Option.bind_eq_some_iff.1 hd
    exact ⟨d', hd'⟩

/-- A declaration with a normal form that has types falls into parts. -/
theorem Parts.of_typeList {list : String} (hn : normalize raw = .ok n) (h : n.typeList = .ok list) :
    ∃ before inside rest, Parts raw before inside rest := by
  obtain ⟨types, htypes, -⟩ := Normalized.typeList_eq_ok_iff.1 h
  have haccepted := canonicalize_eq_ok_iff.2 ⟨n, types, hn, htypes, rfl⟩
  obtain ⟨before, inside, rest, -, hparts, -⟩ := canonicalize_parts_iff.1 haccepted
  exact ⟨before, inside, rest, hparts⟩

/-- If the first `(` of a text is never closed, the text does not fall into parts. -/
theorem not_parts_of_unclosed (htext : raw.toList = before ++ '(' :: cs) (hbefore : '(' ∉ before)
    (hunclosed : ∀ p, p <+: cs → p.count ')' ≤ p.count '(') :
    ¬ ∃ before inside rest, Parts raw before inside rest := by
  rintro ⟨before', inside, rest, hparts⟩
  obtain ⟨-, rfl⟩ := append_cons_inj hbefore hparts.first (htext.symm.trans hparts.text)
  obtain ⟨p, hp, hlt⟩ := exists_overclosed hparts.closed.symm rest
  exact absurd (hunclosed p hp) (Nat.not_le.2 hlt)

/-! ## What is reported -/

/-- The cut fails for what follows the argument list, or for want of a `)`. -/
theorem throughArguments_eq_error_inv (h : throughArguments raw = .error e) :
    (∃ before inside rest imbalance, Parts raw before inside rest ∧
        LosesBalance (utf8Size (before ++ '(' :: (inside ++ [')']))) rest imbalance ∧
        e = .unbalanced imbalance) ∨
      e = .invalidFormat raw .noClose := by
  unfold throughArguments at h
  split at h
  · next kept rest hsplit =>
    split at h
    · contradiction
    · next imbalance hcheck =>
      obtain ⟨before, inside, hbefore, rfl, hraw, hdepth⟩ := splitArguments_eq_some_iff.1 hsplit
      exact Or.inl ⟨before, inside, rest, imbalance, parts_iff.2 ⟨hraw, hbefore, hdepth⟩,
        checkBalanced_eq_error_iff.1 hcheck, (Except.error.inj h).symm⟩
  · split at h
    · exact Or.inr (Except.error.inj h).symm
    · contradiction

/-- Behind the cut only the form can be at fault, and the declaration is quoted as it was given. -/
theorem normalize_eq_error_inv (h : normalize raw = .error e) :
    throughArguments raw = .error e ∨ ∃ kept fault,
      Normalized.ofTidy (trimStart (dropKeywords (tidy (trimStart kept)))) = .error fault ∧
        e = .invalidFormat raw fault := by
  unfold normalize at h
  rcases bind_eq_error_iff.1 h with hcut | ⟨kept, -, hform⟩
  · exact Or.inl hcut
  · split at hform
    · contradiction
    · next fault hfault => exact Or.inr ⟨kept, fault, hfault, (Except.error.inj hform).symm⟩

/-- What the types of a normal form can fail for: an argument without a type, or a delimiter other than
`)`. -/
theorem typeList_eq_error_inv (hn : normalize raw = .ok n) (h : n.typeList = .error e) :
    (∃ index, e = .emptyArgument index) ∨
      ∃ imbalance, e = .unbalanced imbalance ∧ imbalance.delimiter ≠ .closeParen := by
  obtain ⟨d, hdepth⟩ := exists_depth_of_normalize hn
  rcases typeTokens_eq_error_inv (n.typeTokens_of_typeList h) with hempty | ⟨imbalance, hlost, heq⟩
  · exact Or.inl hempty
  · rw [← depthAfter_of_filter_eq (filter_isDelimiter_parameterText _)] at hdepth
    exact Or.inr ⟨imbalance, heq, hlost.ne_closeParen hdepth⟩

/-- Whatever stage fails: the form of the whole declaration is at fault, an argument has no type, or a
delimiter lacks its partner, and then it is not a `)` or what follows the argument list is at fault. -/
theorem canonicalize_eq_error_inv (h : canonicalize raw = .error e) :
    (∃ fault, e = .invalidFormat raw fault) ∨ (∃ index, e = .emptyArgument index) ∨
      ∃ imbalance, e = .unbalanced imbalance ∧
        (imbalance.delimiter ≠ .closeParen ∨
          ∃ before inside rest, Parts raw before inside rest ∧
            LosesBalance (utf8Size (before ++ '(' :: (inside ++ [')']))) rest imbalance) := by
  unfold canonicalize at h
  rcases bind_eq_error_iff.1 h with hn | ⟨n, hn, htypes⟩
  · rcases normalize_eq_error_inv hn with hcut | hform
    · rcases throughArguments_eq_error_inv hcut with
        ⟨before, inside, rest, imbalance, hparts, hlost, heq⟩ | hform
      · exact Or.inr (Or.inr ⟨imbalance, heq, Or.inr ⟨before, inside, rest, hparts, hlost⟩⟩)
      · exact Or.inl ⟨.noClose, hform⟩
    · obtain ⟨-, fault, -, heq⟩ := hform
      exact Or.inl ⟨fault, heq⟩
  · rcases bind_eq_error_iff.1 htypes with htypes | ⟨list, -, hreturn⟩
    · rcases typeList_eq_error_inv hn htypes with hempty | ⟨imbalance, heq, hne⟩
      · exact Or.inr (Or.inl hempty)
      · exact Or.inr (Or.inr ⟨imbalance, heq, Or.inl hne⟩)
    · exact absurd hreturn (by simp [pure, Except.pure])

/-- The name that a fault of the form quotes is part of the text. -/
theorem mem_of_ofTidy_eq_badName {name : String} {c : Char}
    (h : Normalized.ofTidy cs = .error (.badName name)) (hc : c ∈ name.toList) : c ∈ cs := by
  unfold Normalized.ofTidy at h
  split at h
  · exact absurd (Except.error.inj h) (by simp)
  · simp only at h
    split at h
    · exact absurd (Except.error.inj h) (by simp)
    · split at h
      · contradiction
      · rw [← FormatFault.badName.inj (Except.error.inj h), String.toList_ofList] at hc
        have htake := (List.rdropWhile_prefix isBlank _).subset hc
        exact (List.takeWhile_prefix _).subset htake

/-- What is reported as a name is tidy, so no layout is left in it but spaces. -/
theorem layout_of_badName {input name : String} {c : Char}
    (h : canonicalize raw = .error (.invalidFormat input (.badName name))) (hc : c ∈ name.toList) :
    c = ' ' ∨ isLayout c = false := by
  unfold canonicalize at h
  rcases bind_eq_error_iff.1 h with hn | ⟨n, hn, htypes⟩
  · rcases normalize_eq_error_inv hn with hcut | ⟨kept, fault, hfault, heq⟩
    · rcases throughArguments_eq_error_inv hcut with ⟨_, _, _, _, -, -, heq⟩ | heq
      · contradiction
      · exact absurd (SignatureError.invalidFormat.inj heq).2 (by simp)
    · obtain ⟨-, rfl⟩ := SignatureError.invalidFormat.inj heq
      have htidy := mem_of_mem_trimStart (mem_of_ofTidy_eq_badName hfault hc)
      rw [dropKeywords_eq, tidy_eq_respace] at htidy
      rcases mem_of_mem_respace (mem_of_mem_dropLead (mem_of_mem_dropLead htidy)) with hspace | hmem
      · exact Or.inl hspace
      · exact Or.inr hmem.2
  · rcases bind_eq_error_iff.1 htypes with htypes | ⟨list, -, hreturn⟩
    · -- the types fail otherwise
      rcases typeList_eq_error_inv hn htypes with ⟨index, heq⟩ | ⟨imbalance, heq, -⟩
      · contradiction
      · contradiction
    · contradiction

/-! ## The whole -/

/-- How a declaration can fail. Its normal form, read as a text, is never refused for its form nor for
a `)`, and always fails if the first `(` is never closed. A fault of the form quotes the declaration,
and a `)` that is reported stands behind the argument list. -/
theorem failures_of_canonicalize (raw : String) :
    (∀ n, normalize raw = .ok n →
      nameAndTypes n.text = n.typeList.map (fun list => (n.name, list)) ∧
      (∀ e, nameAndTypes n.text = .error e →
        (∃ index, e = .emptyArgument index) ∨
          ∃ imbalance, e = .unbalanced imbalance ∧ imbalance.delimiter ≠ .closeParen) ∧
      (∀ before behind, raw.toList = before ++ '(' :: behind → '(' ∉ before →
        (∀ p, p <+: behind → p.count ')' ≤ p.count '(') →
        ∃ e, nameAndTypes n.text = .error e)) ∧
    (∀ input fault, canonicalize raw = .error (.invalidFormat input fault) → input = raw) ∧
    ∀ offset, canonicalize raw = .error (.unbalanced { delimiter := .closeParen, offset }) →
      ∃ before inside rest, Parts raw before inside rest ∧
        utf8Size (before ++ '(' :: (inside ++ [')'])) ≤ offset ∧
        (utf8Bytes raw.toList)[offset]? = some ')'.toUInt8 := by
  refine ⟨?_, ?_, ?_⟩
  · intro n hn
    have hident : isIdentifier n.name.toList = true := by
      obtain ⟨before, inside, -, -, hident, rfl⟩ := normalize_eq_ok_iff.1 hn
      rw [String.toList_ofList]
      exact hident
    have hread := nameAndTypes_text hident
    cases htypes : n.typeList with
    | ok list =>
      rw [htypes] at hread
      refine ⟨hread, ?_, ?_⟩
      · intro e he
        rw [hread] at he
        contradiction
      · intro before behind htext hbefore hunclosed
        exact absurd (Parts.of_typeList hn htypes) (not_parts_of_unclosed htext hbefore hunclosed)
    | error e =>
      rw [htypes] at hread
      refine ⟨hread, ?_, fun _ _ _ _ _ => ⟨e, hread⟩⟩
      intro e' he
      rw [← Except.error.inj (hread.symm.trans he)]
      exact typeList_eq_error_inv hn htypes
  · intro input fault h
    rcases canonicalize_eq_error_inv h with ⟨fault', heq⟩ | ⟨index, heq⟩ | ⟨imbalance, heq, -⟩
    · exact (SignatureError.invalidFormat.inj heq).1
    · contradiction
    · contradiction
  · intro offset h
    rcases canonicalize_eq_error_inv h with ⟨fault, heq⟩ | ⟨index, heq⟩ | ⟨imbalance, heq, hplace⟩
    · contradiction
    · contradiction
    obtain rfl := SignatureError.unbalanced.inj heq
    rcases hplace with hne | ⟨before, inside, rest, hparts, hlost⟩
    · exact absurd rfl hne
    refine ⟨before, inside, rest, hparts, hlost.offset_le, ?_⟩
    have htext : raw.toList = (before ++ '(' :: (inside ++ [')'])) ++ rest := by
      rw [hparts.text]
      simp
    rw [htext]
    exact hlost.byte_at (Or.inl rfl)

/-- The first parenthesis of `f((a)` is never closed, a bare name is refused for its form, and in
`f(a)b)` the `)` at byte 5 is one too many. -/
theorem failures_of_unclosed_bare_and_overclosed :
    (normalize "f((a)" = .ok ⟨"f", "(a"⟩ ∧ ∃ e, nameAndTypes "f((a)" = .error e ∧
      ((∃ index, e = .emptyArgument index) ∨
        ∃ imbalance, e = .unbalanced imbalance ∧ imbalance.delimiter ≠ .closeParen)) ∧
    (∃ input fault, canonicalize "transfer" = .error (.invalidFormat input fault) ∧
      input = "transfer") ∧
    canonicalize "f(a)b)" = .error (.unbalanced { delimiter := .closeParen, offset := 5 }) ∧
      ∃ before inside rest, Parts "f(a)b)" before inside rest ∧
        utf8Size (before ++ '(' :: (inside ++ [')'])) ≤ 5 ∧
        (utf8Bytes "f(a)b)".toList)[5]? = some ')'.toUInt8 := by
  have hn : normalize "f((a)" = .ok ⟨"f", "(a"⟩ := by decide +kernel
  have hbare : canonicalize "transfer" = .error (.invalidFormat "transfer" .noClose) := by decide +kernel
  have hover : canonicalize "f(a)b)" =
      .error (.unbalanced { delimiter := .closeParen, offset := 5 }) := by decide +kernel
  have hunclosed : ∀ p ∈ "(a)".toList.inits, p.count ')' ≤ p.count '(' := by decide
  refine ⟨⟨hn, ?_⟩, ⟨_, _, hbare, ?_⟩, hover, ?_⟩
  · obtain ⟨-, hkinds, herror⟩ := (failures_of_canonicalize "f((a)").1 _ hn
    obtain ⟨e, he⟩ := herror ['f'] "(a)".toList rfl (by decide)
      fun p hp => hunclosed p ((List.mem_inits p _).2 hp)
    exact ⟨e, he, hkinds e he⟩
  · exact (failures_of_canonicalize "transfer").2.1 _ _ hbare
  · exact (failures_of_canonicalize "f(a)b)").2.2 5 hover

end AbiSig
