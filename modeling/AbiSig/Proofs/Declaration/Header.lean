import AbiSig.Declaration.Normalized
import AbiSig.Proofs.Declaration.Spacing
import AbiSig.Proofs.Text.Trimming

/-!
# The name in front of the argument list

The name is what is left of the text before the first `(` once it was respaced, its keywords were
dropped, and it was trimmed: `nameBefore`. `declaredName` reads it off the text as it was written,
with the layout that the text has. `nameBefore_eq_declaredName` says that the two are the same as
soon as one of them is an identifier.
-/

namespace AbiSig.Declaration

open Text

variable {keep opened gap : Bool} {c : Char} {cs before word rest : List Char}

/-! ## Identifiers -/

theorem toNat_of_isIdentifierPart (h : isIdentifierPart c = true) :
    36 ≤ c.toNat ∧ c.toNat ≤ 122 := by
  change (((decide (c.val ≥ 'A'.val ∧ c.val ≤ 'Z'.val) ||
      (decide (c.val ≥ 'a'.val) && decide (c.val ≤ 'z'.val))) ||
    (decide (c.val ≥ '0'.val) && decide (c.val ≤ '9'.val))) || c == '_' || c == '$') = true at h
  simp only [Bool.or_eq_true, beq_iff_eq, Bool.and_eq_true, decide_eq_true_eq,
    UInt32.le_iff_toNat_le, ge_iff_le] at h
  change (((65 ≤ c.toNat ∧ c.toNat ≤ 90 ∨ 97 ≤ c.toNat ∧ c.toNat ≤ 122) ∨
    48 ≤ c.toNat ∧ c.toNat ≤ 57) ∨ c = '_') ∨ c = '$' at h
  rcases h with ((((h | h) | h) | rfl) | rfl)
  · omega
  · omega
  · omega
  · decide
  · decide

theorem not_isBlank_of_isIdentifierPart (h : isIdentifierPart c = true) : isBlank c = false := by
  have hbounds := toNat_of_isIdentifierPart h
  rw [← Bool.not_eq_true]
  intro hblank
  simp only [isBlank, blankRanges, List.any_cons, List.any_nil, Bool.or_false, Bool.or_eq_true,
    Bool.and_eq_true, decide_eq_true_eq] at hblank
  omega

theorem isIdentifierPart_of_mem (h : isIdentifier cs = true) (hc : c ∈ cs) :
    isIdentifierPart c = true := by
  cases cs with
  | nil => exact absurd h (by simp [isIdentifier])
  | cons a cs =>
    rw [isIdentifier, Bool.and_eq_true, List.all_eq_true] at h
    rcases List.mem_cons.1 hc with rfl | hc
    · have hstart := h.1
      simp only [isIdentifierStart, Bool.or_eq_true, beq_iff_eq] at hstart
      simp only [isIdentifierPart, Bool.or_eq_true, beq_iff_eq, Char.isAlphanum]
      tauto
    · exact h.2 c hc

theorem ne_nil_of_isIdentifier (h : isIdentifier cs = true) : cs ≠ [] := by
  rintro rfl
  exact absurd h (by simp [isIdentifier])

theorem not_isBlank_of_mem_identifier (h : isIdentifier cs = true) (hc : c ∈ cs) :
    isBlank c = false :=
  not_isBlank_of_isIdentifierPart (isIdentifierPart_of_mem h hc)

theorem not_mem_identifier (h : isIdentifier cs = true) (hc : isIdentifierPart c = false) :
    c ∉ cs := by
  intro hmem
  rw [isIdentifierPart_of_mem h hmem] at hc
  exact absurd hc (by simp)

/-! ## The two readings of the name -/

/-- The name as it is left over from the respaced text. -/
def nameBefore (before : List Char) : List Char :=
  trim (dropKeywords (tidy (trimStart before)))

/-- The text without `word` and the layout behind it, if it begins with these. -/
def dropWord (word cs : List Char) : List Char :=
  match after? word cs with
  | some (c :: rest) => if isLayout c then rest.dropWhile isLayout else cs
  | _ => cs

/-- The name as it stands in the text. -/
def declaredName (before : List Char) : List Char :=
  trim (dropWord "event".toList (dropWord "function".toList (trimStart before)))

theorem dropKeywords_eq (cs : List Char) :
    dropKeywords cs = dropLead "event ".toList (dropLead "function ".toList cs) := rfl

theorem dropWord_eq (hc : isLayout c = true) :
    dropWord word (word ++ c :: rest) = rest.dropWhile isLayout := by
  rw [dropWord, after?_eq_some_iff.2 rfl]
  simp [hc]

theorem dropWord_eq_self (h : ¬ ∃ c rest, isLayout c = true ∧ cs = word ++ c :: rest) :
    dropWord word cs = cs := by
  rw [dropWord]
  split
  · next c rest hafter =>
    rw [after?_eq_some_iff] at hafter
    split
    · next hc => exact absurd ⟨c, rest, hc, hafter⟩ h
    · rfl
  · rfl

theorem dropWord_cases (word cs : List Char) :
    (∃ c rest, isLayout c = true ∧ cs = word ++ c :: rest ∧
        dropWord word cs = rest.dropWhile isLayout) ∨
      (¬ ∃ c rest, isLayout c = true ∧ cs = word ++ c :: rest) ∧ dropWord word cs = cs := by
  by_cases h : ∃ c rest, isLayout c = true ∧ cs = word ++ c :: rest
  · rcases h with ⟨c, rest, hc, rfl⟩
    exact Or.inl ⟨c, rest, hc, rfl, dropWord_eq hc⟩
  · exact Or.inr ⟨h, dropWord_eq_self h⟩

theorem mem_of_mem_dropWord (h : c ∈ dropWord word cs) : c ∈ cs := by
  rcases dropWord_cases word cs with ⟨d, rest, -, rfl, heq⟩ | ⟨-, heq⟩
  · rw [heq] at h
    have hrest : c ∈ rest := (List.dropWhile_suffix isLayout).subset h
    exact List.mem_append_right word (List.mem_cons_of_mem d hrest)
  · rwa [heq] at h

theorem mem_dropWhile_layout (h : c ∈ cs) (hc : isLayout c = false) :
    c ∈ cs.dropWhile isLayout := by
  rw [← List.takeWhile_append_dropWhile (p := isLayout) (l := cs), List.mem_append] at h
  rcases h with h | h
  · rw [List.mem_takeWhile_imp h] at hc
    exact absurd hc (by simp)
  · exact h

theorem mem_dropWord (h : c ∈ cs) (hc : isLayout c = false) (hword : c ∉ word) :
    c ∈ dropWord word cs := by
  rcases dropWord_cases word cs with ⟨d, rest, hd, rfl, heq⟩ | ⟨-, heq⟩
  · rw [heq]
    apply mem_dropWhile_layout _ hc
    simp only [List.mem_append, List.mem_cons] at h
    rcases h with h | rfl | h
    · exact absurd h hword
    · exact absurd hd (by simp [hc])
    · exact h
  · rwa [heq]

/-! ## Texts without delimiters

In a text without a delimiter that swallows layout, respacing writes one space for each run of
layout. -/

/-- No character of the text swallows layout. -/
def Loose (cs : List Char) : Prop :=
  ∀ c ∈ cs, snugBefore c = false ∧ snugBehind c = false

theorem Loose.of_subset {as : List Char} (h : Loose cs) (has : ∀ c ∈ as, c ∈ cs) : Loose as :=
  fun c hc => h c (has c hc)

theorem Loose.tail (h : Loose (c :: cs)) : Loose cs :=
  h.of_subset fun _ hd => List.mem_cons_of_mem c hd

theorem respace_loose_other (h : Loose (c :: cs)) (hc : isLayout c = false) :
    respace true opened gap (c :: cs) = space gap ++ c :: respace true false false cs := by
  rcases h c List.mem_cons_self with ⟨hbefore, hbehind⟩
  rw [respace_other hc, hbefore, hbehind, Bool.not_false, Bool.and_true]

/-- A run of layout is one space. -/
theorem respace_gap (h : Loose cs) :
    respace true false true cs = ' ' :: respace true false false (cs.dropWhile isLayout) := by
  induction cs with
  | nil => rfl
  | cons c cs ih =>
    by_cases hc : isLayout c = true
    · rw [respace_layout hc, List.dropWhile_cons_of_pos hc]
      exact ih h.tail
    · rw [List.dropWhile_cons_of_neg hc]
      rw [Bool.not_eq_true] at hc
      rw [respace_loose_other h hc, respace_loose_other h hc]
      rfl

theorem respace_word (hword : ∀ c ∈ word, isLayout c = false) (h : Loose (word ++ rest)) :
    respace true false false (word ++ rest) = word ++ respace true false false rest := by
  induction word with
  | nil => rfl
  | cons c word ih =>
    rw [List.forall_mem_cons] at hword
    rw [List.cons_append] at h ⊢
    rw [respace_loose_other h hword.1,
      ih hword.2 h.tail]
    rfl

/-- A space in the respaced text stands for layout at the same place. -/
theorem eq_of_respace_eq_word {as : List Char} (hword : ∀ c ∈ word, isLayout c = false)
    (h : Loose cs) (heq : respace true false false cs = word ++ ' ' :: as) :
    ∃ c rest, isLayout c = true ∧ cs = word ++ c :: rest := by
  induction word generalizing cs with
  | nil =>
    cases cs with
    | nil => exact absurd heq (by simp)
    | cons c cs =>
      by_cases hc : isLayout c = true
      · exact ⟨c, cs, hc, rfl⟩
      · rw [Bool.not_eq_true] at hc
        rw [respace_loose_other h hc] at heq
        have hspace : c = ' ' := (List.cons.inj heq).1
        exact absurd hc (by simp [hspace, isLayout])
  | cons a word ih =>
    rw [List.forall_mem_cons] at hword
    cases cs with
    | nil => exact absurd heq (by simp)
    | cons c cs =>
      have hcs : Loose cs := h.tail
      by_cases hc : isLayout c = true
      · -- the text begins with layout, the respaced one with a space
        rw [respace_layout hc, Bool.not_false, respace_gap hcs] at heq
        have hspace : ' ' = a := (List.cons.inj heq).1
        exact absurd hword.1 (by simp [← hspace, isLayout])
      · rw [Bool.not_eq_true] at hc
        rw [respace_loose_other h hc] at heq
        rcases List.cons.inj heq with ⟨rfl, htail⟩
        rcases ih hword.2 hcs htail with ⟨d, rest, hd, rfl⟩
        exact ⟨d, rest, hd, rfl⟩

/-- A keyword with its space is dropped from the respaced text where the keyword with its layout
is dropped from the text. -/
theorem dropLead_respace (hword : ∀ c ∈ word, isLayout c = false) (h : Loose cs) :
    dropLead (word ++ [' ']) (respace true false false cs) =
      respace true false false (dropWord word cs) := by
  rcases dropWord_cases word cs with ⟨c, rest, hc, rfl, heq⟩ | ⟨hnot, heq⟩
  · have hrest : Loose rest :=
      h.of_subset fun d hd => List.mem_append_right word (List.mem_cons_of_mem c hd)
    rw [heq, respace_word hword h, respace_layout hc, Bool.not_false, respace_gap hrest,
      List.append_cons word ' ' (respace true false false _), dropLead_append]
  · rw [heq]
    rcases eq_or_eq_append_dropLead (word ++ [' ']) (respace true false false cs) with hself | hlead
    · exact hself
    · rw [List.append_assoc] at hlead
      exact absurd (eq_of_respace_eq_word hword h hlead) hnot

/-! ## Trimming the respaced text -/

/-- A blank swallows no layout behind it, so it makes no difference whether blanks in front are
trimmed before the pass or behind it. -/
theorem trimStart_respace (gap : Bool) (cs : List Char) :
    trimStart (respace true false gap cs) = respace true false false (trimStart cs) := by
  have hspace (b : Bool) : trimStart (space b) = [] := by cases b <;> rfl
  induction cs generalizing gap with
  | nil => rw [respace_nil, hspace]; rfl
  | cons c cs ih =>
    by_cases hc : isLayout c = true
    · rw [respace_layout hc, ih, trimStart_cons_blank (isBlank_of_isLayout hc)]
    · rw [Bool.not_eq_true] at hc
      rw [respace_other hc]
      by_cases hblank : isBlank c = true
      · have hbehind : snugBehind c = false := by
          simp only [snugBehind, Bool.or_eq_false_iff, beq_eq_false_iff_ne]
          constructor
          · rintro rfl
            exact absurd hblank (by decide)
          · rintro rfl
            exact absurd hblank (by decide)
        rw [hbehind, trimStart_cons_blank hblank, ← ih false]
        cases (gap && !snugBefore c) with
        | false => exact trimStart_cons_blank hblank
        | true => exact (trimStart_cons_blank rfl).trans (trimStart_cons_blank hblank)
      · rw [Bool.not_eq_true] at hblank
        rw [trimStart_append_cons hblank, hspace, trimStart_cons hblank, respace_other hc]
        rfl

theorem tidy_trimStart (cs : List Char) : tidy (trimStart cs) = trimStart (tidy cs) := by
  rw [tidy_eq_respace, tidy_eq_respace, trimStart_respace]

/-- Layout at the end is worth a space or nothing. -/
theorem exists_respace_eq_append_space (opened gap : Bool) (cs : List Char) :
    ∃ b, respace true opened gap cs = respace false opened gap cs ++ space b := by
  induction cs generalizing opened gap with
  | nil => exact ⟨gap, rfl⟩
  | cons c cs ih =>
    by_cases hc : isLayout c = true
    · rw [respace_layout hc, respace_layout hc]
      exact ih opened (!opened)
    · rw [Bool.not_eq_true] at hc
      rcases ih (snugBehind c) false with ⟨b, hb⟩
      refine ⟨b, ?_⟩
      rw [respace_other hc, respace_other hc, hb, List.append_assoc, List.cons_append]

theorem respace_concat_layout (hc : isLayout c = true) (cs : List Char) :
    respace false opened gap (cs ++ [c]) = respace false opened gap cs := by
  induction cs generalizing opened gap with
  | nil => rw [List.nil_append, respace_layout hc]; rfl
  | cons d cs ih =>
    rw [List.cons_append, respace, respace, ih, ih]

theorem trimEnd_respace_keep (opened gap : Bool) (cs : List Char) :
    trimEnd (respace true opened gap cs) = trimEnd (respace false opened gap cs) := by
  rcases exists_respace_eq_append_space opened gap cs with ⟨b, hb⟩
  rw [hb]
  apply trimEnd_append_blanks
  intro c hc
  rw [eq_of_mem_space hc]
  rfl

theorem trimEnd_respace (h : Loose cs) :
    trimEnd (respace true false false cs) = respace true false false (trimEnd cs) := by
  induction cs using List.reverseRecOn with
  | nil => rfl
  | append_singleton cs c ih =>
    have hcs : Loose cs := h.of_subset fun d hd => List.mem_append_left [c] hd
    by_cases hc : isLayout c = true
    · -- layout at the end is trimmed before the pass, and its space is trimmed behind it
      rw [trimEnd_concat_blank (isBlank_of_isLayout hc), ← ih hcs, trimEnd_respace_keep,
        respace_concat_layout hc, ← trimEnd_respace_keep]
    · -- any other character is the last one in both texts
      rw [Bool.not_eq_true] at hc
      have hbefore := (h c (by simp)).1
      have hsplit : respace true false false (cs ++ [c]) = respace true false false cs ++ [c] := by
        rw [respace_append_cons hc, hbefore]
        rfl
      by_cases hblank : isBlank c = true
      · rw [hsplit, trimEnd_concat_blank hblank, trimEnd_concat_blank hblank, ih hcs]
      · rw [Bool.not_eq_true] at hblank
        rw [hsplit, trimEnd_concat hblank, trimEnd_concat hblank, hsplit]

theorem trim_respace (h : Loose cs) :
    trim (respace true false false cs) = respace true false false (trim cs) := by
  rw [trim, trimStart_respace, trim]
  exact trimEnd_respace (h.of_subset fun _ => mem_of_mem_trimStart)

/-- A loose text that is respaced without a space was without layout. -/
theorem eq_of_respace_without_layout (h : Loose cs)
    (hlayout : ∀ c ∈ respace true false gap cs, isLayout c = false) :
    gap = false ∧ respace true false gap cs = cs := by
  induction cs generalizing gap with
  | nil =>
    cases gap with
    | false => exact ⟨rfl, rfl⟩
    | true => exact absurd (hlayout ' ' (by simp)) (by decide)
  | cons c cs ih =>
    have hcs : Loose cs := h.tail
    by_cases hc : isLayout c = true
    · rw [respace_layout hc] at hlayout
      exact absurd (ih hcs hlayout).1 (by simp)
    · rw [Bool.not_eq_true] at hc
      rw [respace_loose_other h hc] at hlayout ⊢
      cases gap with
      | true => exact absurd (hlayout ' ' (by simp)) (by decide)
      | false =>
        have hrest := ih hcs fun d hd => hlayout d (List.mem_cons_of_mem c hd)
        exact ⟨rfl, by rw [hrest.2]; rfl⟩

/-! ## Both readings agree -/

theorem mem_respace (h : c ∈ cs) (hc : isLayout c = false) : c ∈ respace keep opened gap cs := by
  have hmem : c ∈ (respace keep opened gap cs).filter (!isLayout ·) := by
    rw [filter_respace (by simp)]
    exact List.mem_filter.2 ⟨h, by simp [hc]⟩
  exact (List.mem_filter.1 hmem).1

theorem mem_trimStart (h : c ∈ before) (hc : isBlank c = false) : c ∈ trimStart before :=
  (List.rdropWhile_prefix isBlank _).subset (mem_trim h hc)

/-- A character that is not blank stands in the declared name, unless it may belong to a keyword. -/
theorem mem_declaredName (h : c ∈ before) (hc : isBlank c = false)
    (hfunction : c ∉ "function".toList) (hevent : c ∉ "event".toList) : c ∈ declaredName before := by
  have hlayout := not_isLayout_of_not_isBlank hc
  apply mem_trim _ hc
  exact mem_dropWord (mem_dropWord (mem_trimStart h hc) hlayout hfunction) hlayout hevent

/-- A delimiter in the text stands in both readings. -/
theorem mem_names (h : c ∈ before) (hc : snugBefore c = true) :
    c ∈ nameBefore before ∧ c ∈ declaredName before := by
  have hchar : isLayout c = false ∧ isBlank c = false ∧ c ∉ "function ".toList ∧
      c ∉ "event ".toList ∧ c ∉ "function".toList ∧ c ∉ "event".toList := by
    simp only [snugBefore, Bool.or_eq_true, beq_iff_eq] at hc
    rcases hc with ((rfl | rfl) | rfl) | rfl <;> decide
  rcases hchar with ⟨hlayout, hblank, hfunction, hevent, hfunction', hevent'⟩
  constructor
  · apply mem_trim _ hblank
    rw [dropKeywords_eq, tidy_eq_respace]
    exact mem_dropLead (mem_dropLead (mem_respace (mem_trimStart h hblank) hlayout) hfunction) hevent
  · exact mem_declaredName h hblank hfunction' hevent'

/-- Once one of the two readings of the name is an identifier, they are the same. -/
theorem nameBefore_eq_declaredName (hbefore : '(' ∉ before)
    (h : isIdentifier (nameBefore before) = true ∨ isIdentifier (declaredName before) = true) :
    nameBefore before = declaredName before := by
  have hdelimiter : ∀ c, snugBefore c = true → isIdentifierPart c = false := by
    intro c hc
    simp only [snugBefore, Bool.or_eq_true, beq_iff_eq] at hc
    rcases hc with ((rfl | rfl) | rfl) | rfl <;> decide
  have hloose : Loose (trimStart before) := by
    intro c hc
    have hmem : c ∈ before := mem_of_mem_trimStart hc
    have hsnug : snugBefore c = false := by
      -- a delimiter would stand in both readings, and neither were an identifier
      rw [← Bool.not_eq_true]
      intro hsnug
      rcases mem_names hmem hsnug with ⟨hname, hdeclared⟩
      rcases h with h | h
      · exact not_mem_identifier h (hdelimiter c hsnug) hname
      · exact not_mem_identifier h (hdelimiter c hsnug) hdeclared
    refine ⟨hsnug, ?_⟩
    simp only [snugBehind, Bool.or_eq_false_iff, beq_eq_false_iff_ne]
    refine ⟨fun heq => hbefore (heq ▸ hmem), ?_⟩
    rintro rfl
    exact absurd hsnug (by decide)
  have hwords : (∀ c ∈ "function".toList, isLayout c = false) ∧
      ∀ c ∈ "event".toList, isLayout c = false := by decide
  have hloose' : Loose (dropWord "function".toList (trimStart before)) :=
    hloose.of_subset fun _ => mem_of_mem_dropWord
  have hloose'' : Loose (dropWord "event".toList (dropWord "function".toList (trimStart before))) :=
    hloose'.of_subset fun _ => mem_of_mem_dropWord
  -- without delimiters every stage can be done before the pass
  have hname : nameBefore before = respace true false false (declaredName before) := by
    rw [declaredName, ← trim_respace hloose'', ← dropLead_respace hwords.2 hloose',
      ← dropLead_respace hwords.1 hloose, nameBefore, dropKeywords_eq, tidy_eq_respace]
    rfl
  have hdeclared : Loose (declaredName before) := hloose''.of_subset fun _ => mem_of_mem_trim
  -- an identifier has no layout, neither when it comes out of the pass nor when it goes in
  rw [hname]
  rcases h with h | h
  · rw [hname] at h
    exact (eq_of_respace_without_layout hdeclared fun c hc =>
      not_isLayout_of_not_isBlank (not_isBlank_of_mem_identifier h hc)).2
  · exact respace_eq_self fun c hc =>
      not_isLayout_of_not_isBlank (not_isBlank_of_mem_identifier h hc)

theorem tidy_of_isIdentifier (h : isIdentifier cs = true) : tidy cs = cs := by
  rw [tidy_eq_respace]
  exact respace_eq_self fun c hc =>
    not_isLayout_of_not_isBlank (not_isBlank_of_mem_identifier h hc)

/-- An identifier is its own name. -/
theorem nameBefore_of_isIdentifier (h : isIdentifier cs = true) : nameBefore cs = cs := by
  have hblank : ∀ c ∈ cs, isBlank c = false := fun c => not_isBlank_of_mem_identifier h
  have hspace : ' ' ∉ cs := not_mem_identifier h (by decide)
  have hstart : trimStart cs = cs := trimStart_eq_self fun c hc => hblank c (List.mem_of_head? hc)
  rw [nameBefore, hstart, tidy_of_isIdentifier h, dropKeywords_eq, dropLead_eq_self (by decide) hspace,
    dropLead_eq_self (by decide) hspace, trim_of_not_isBlank hblank]

theorem declaredName_of_isIdentifier (h : isIdentifier cs = true) : declaredName cs = cs := by
  have hself := nameBefore_of_isIdentifier h
  have hopen : '(' ∉ cs := not_mem_identifier h (by decide)
  rw [← nameBefore_eq_declaredName hopen (Or.inl (by rwa [hself])), hself]

end AbiSig.Declaration
