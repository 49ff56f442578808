import AbiSig.Declaration.Spacing
import AbiSig.Proofs.Text.Rewriting
import AbiSig.Text.Blank

/-!
# The spacing of a declaration in one pass

`tidy` is defined by rules that are applied until none of them matches. `respace` writes the same
text from left to right, with two bits of memory: whether the character written last swallows the
layout behind it, and whether layout was read since.

* `tidy_eq_respace`: both write the same text.
* `respace_append_cons`: a text is respaced piece by piece, cut at any character that is not layout.
* `filter_respace`: nothing but layout is added, lost or moved.
* `respace_respace`: a text that was respaced stays as it is.
-/

namespace AbiSig.Declaration

open Text

/-! ## The pass -/

/-- Whether layout behind the character is dropped. -/
def snugBehind (c : Char) : Bool :=
  c == '(' || c == '['

/-- Whether layout in front of the character is dropped. -/
def snugBefore (c : Char) : Bool :=
  c == ')' || c == ',' || c == ']' || c == '['

/-- One space or none. -/
def space (b : Bool) : List Char :=
  if b then [' '] else []

/-- The text in its one spacing. `opened` says that the character in front of the text swallows
layout, `gap` that layout stands in front of the text, and `keep` that layout at the end is worth a
space. -/
def respace (keep opened gap : Bool) : List Char → List Char
  | [] => space (keep && gap)
  | c :: cs =>
    if isLayout c then respace keep opened (!opened) cs
    else space (gap && !snugBefore c) ++ c :: respace keep (snugBehind c) false cs

variable {keep opened gap : Bool} {c : Char} {as bs cs : List Char}

@[simp] theorem space_true : space true = [' '] := rfl

@[simp] theorem space_false : space false = [] := rfl

theorem eq_of_mem_space {b : Bool} (h : c ∈ space b) : c = ' ' := by
  cases b <;> simp_all

@[simp]
theorem respace_nil : respace keep opened gap [] = space (keep && gap) := rfl

theorem respace_layout (hc : isLayout c = true) :
    respace keep opened gap (c :: cs) = respace keep opened (!opened) cs := by
  simp [respace, hc]

theorem respace_other (hc : isLayout c = false) :
    respace keep opened gap (c :: cs) =
      space (gap && !snugBefore c) ++ c :: respace keep (snugBehind c) false cs := by
  simp [respace, hc]

/-- Texts that are respaced alike are so behind any text. -/
theorem respace_append_congr
    (h : ∀ opened gap, respace keep opened gap as = respace keep opened gap bs) (cs : List Char) :
    respace keep opened gap (cs ++ as) = respace keep opened gap (cs ++ bs) := by
  induction cs generalizing opened gap with
  | nil => exact h opened gap
  | cons c cs ih => simp only [List.cons_append, respace, ih]

/-- A text is respaced piece by piece, cut at a character that is not layout. -/
theorem respace_append_cons (hc : isLayout c = false) (as bs : List Char) :
    respace keep opened gap (as ++ c :: bs) =
      respace (!snugBefore c) opened gap as ++ c :: respace keep (snugBehind c) false bs := by
  induction as generalizing opened gap with
  | nil => rw [List.nil_append, respace_other hc, respace_nil, Bool.and_comm]
  | cons a as ih =>
    simp only [List.cons_append, respace, ih]
    split
    · rfl
    · rw [List.append_assoc, List.cons_append]

/-! ## What the pass keeps -/

/-- Nothing but layout is added, lost or moved. -/
theorem filter_respace {p : Char → Bool} (hp : ∀ c, isLayout c = true → p c = false) :
    (respace keep opened gap cs).filter p = cs.filter p := by
  have hspace (b : Bool) : (space b).filter p = [] := by
    cases b <;> simp [hp ' ' rfl]
  induction cs generalizing opened gap with
  | nil => rw [respace_nil, hspace, List.filter_nil]
  | cons c cs ih =>
    by_cases hc : isLayout c = true
    · rw [respace_layout hc, ih, List.filter_cons_of_neg (by simp [hp c hc])]
    · rw [Bool.not_eq_true] at hc
      rw [respace_other hc, List.filter_append, hspace, List.nil_append, List.filter_cons,
        List.filter_cons, ih]

/-- The layout that is left is spaces. -/
theorem mem_of_mem_respace (h : c ∈ respace keep opened gap cs) :
    c = ' ' ∨ c ∈ cs ∧ isLayout c = false := by
  induction cs generalizing opened gap with
  | nil => exact Or.inl (eq_of_mem_space h)
  | cons d cs ih =>
    have hrest {opened gap} (h : c ∈ respace keep opened gap cs) :
        c = ' ' ∨ c ∈ d :: cs ∧ isLayout c = false := by
      rcases ih h with hc | ⟨hc, hlayout⟩
      · exact Or.inl hc
      · exact Or.inr ⟨List.mem_cons_of_mem d hc, hlayout⟩
    by_cases hd : isLayout d = true
    · rw [respace_layout hd] at h
      exact hrest h
    · rw [Bool.not_eq_true] at hd
      rw [respace_other hd, List.mem_append, List.mem_cons] at h
      rcases h with h | rfl | h
      · exact Or.inl (eq_of_mem_space h)
      · exact Or.inr ⟨List.mem_cons_self, hd⟩
      · exact hrest h

/-- A text without layout stays as it is. -/
theorem respace_eq_self (h : ∀ c ∈ cs, isLayout c = false) : respace keep opened false cs = cs := by
  induction cs generalizing opened with
  | nil => simp
  | cons c cs ih =>
    rw [List.forall_mem_cons] at h
    rw [respace_other h.1, ih h.2]
    simp

/-- A text that was respaced stays as it is. -/
theorem respace_respace (hgap : gap = true → opened = false) :
    respace keep opened false (respace keep opened gap cs) = respace keep opened gap cs := by
  have hspace : isLayout ' ' = true := rfl
  induction cs generalizing opened gap with
  | nil =>
    -- a gap at the end is read as one space and written as one
    rw [respace_nil]
    cases hb : (keep && gap) with
    | false => simp
    | true =>
      rw [Bool.and_eq_true] at hb
      simp [respace_layout hspace, hb.1, hgap hb.2]
  | cons c cs ih =>
    by_cases hc : isLayout c = true
    · rw [respace_layout hc]
      exact ih (by simp)
    · rw [Bool.not_eq_true] at hc
      have hrest : respace keep (snugBehind c) false (respace keep (snugBehind c) false cs)
          = respace keep (snugBehind c) false cs := ih (by simp)
      rw [respace_other hc]
      cases hb : (gap && !snugBefore c) with
      | false => rw [space_false, List.nil_append, respace_other hc, hrest]; simp
      | true =>
        -- the space in front of the character is read as a gap and written again
        rw [Bool.and_eq_true] at hb
        rw [space_true, List.singleton_append, respace_layout hspace, hgap hb.1,
          respace_other hc, hrest]
        simp [hb.2]

/-! ## The pass and the rules -/

theorem respace_spaceLayout (cs : List Char) :
    respace keep opened gap (spaceLayout cs) = respace keep opened gap cs := by
  induction cs generalizing opened gap with
  | nil => rfl
  | cons c cs ih =>
    by_cases hc : isLayout c = true
    · have hcons : spaceLayout (c :: cs) = ' ' :: spaceLayout cs := by simp [spaceLayout, hc]
      rw [hcons, respace_layout rfl, respace_layout hc, ih]
    · rw [Bool.not_eq_true] at hc
      have hcons : spaceLayout (c :: cs) = c :: spaceLayout cs := by simp [spaceLayout, hc]
      rw [hcons, respace_other hc, respace_other hc, ih]

/-- Two spaces are respaced like one. -/
theorem respace_of_step_collapse (h : Step [doubleSpace] as bs) :
    respace keep opened gap bs = respace keep opened gap as := by
  obtain ⟨before, after, rfl, rfl⟩ := step_singleton_inv h
  apply respace_append_congr
  intro opened gap
  simp [doubleSpace, respace, isLayout]

/-- Each of the rules drops one space, for what stands in front of it or for what stands behind it. -/
theorem step_tighten_inv (h : Step tightenRules as bs) :
    (∃ before c after, snugBehind c = true ∧
      as = before ++ c :: ' ' :: after ∧ bs = before ++ c :: after) ∨
    ∃ before c after, snugBefore c = true ∧
      as = before ++ ' ' :: c :: after ∧ bs = before ++ c :: after := by
  cases h with
  | replace hr before after =>
    simp only [tightenRules, List.mem_cons, List.not_mem_nil, or_false] at hr
    rcases hr with rfl | rfl | rfl | rfl | rfl | rfl | rfl | rfl
    · exact .inl ⟨before, '(', after, rfl, rfl, rfl⟩
    · exact .inr ⟨before, ')', after, rfl, rfl, rfl⟩
    · exact .inr ⟨before, ',', after, rfl, rfl, rfl⟩
    · exact .inr ⟨before ++ [')'], ',', after, rfl, by simp, by simp⟩
    · exact .inr ⟨before ++ [')'], ')', after, rfl, by simp, by simp⟩
    · exact .inl ⟨before, '[', after, rfl, rfl, rfl⟩
    · exact .inr ⟨before, ']', after, rfl, rfl, rfl⟩
    · exact .inr ⟨before, '[', after, rfl, rfl, rfl⟩

theorem not_isLayout_of_snugBehind (hc : snugBehind c = true) : isLayout c = false := by
  simp only [snugBehind, Bool.or_eq_true, beq_iff_eq] at hc
  rcases hc with rfl | rfl <;> rfl

theorem not_isLayout_of_snugBefore (hc : snugBefore c = true) : isLayout c = false := by
  simp only [snugBefore, Bool.or_eq_true, beq_iff_eq] at hc
  rcases hc with ((rfl | rfl) | rfl) | rfl <;> rfl

/-- A space that a rule drops is dropped in the pass. -/
theorem respace_of_step_tighten (h : Step tightenRules as bs) :
    respace keep opened gap bs = respace keep opened gap as := by
  have hspace : isLayout ' ' = true := rfl
  obtain ⟨before, c, after, hc, rfl, rfl⟩ | ⟨before, c, after, hc, rfl, rfl⟩ := step_tighten_inv h
  · have hlayout := not_isLayout_of_snugBehind hc
    apply respace_append_congr
    intro opened gap
    rw [respace_other hlayout, respace_other hlayout, respace_layout hspace, hc, Bool.not_true]
  · have hlayout := not_isLayout_of_snugBefore hc
    apply respace_append_congr
    intro opened gap
    rw [respace_layout hspace, respace_other hlayout, respace_other hlayout, hc, Bool.not_true,
      Bool.and_false, Bool.and_false]

/-- Every character that drops the space in front of it has a rule for that. -/
theorem exists_rule_before (hc : snugBefore c = true) :
    ∃ r ∈ tightenRules, r.pattern = [' ', c] := by
  simp only [snugBefore, Bool.or_eq_true, beq_iff_eq] at hc
  rcases hc with ((rfl | rfl) | rfl) | rfl <;> decide

/-- Every character that drops the space behind it has a rule for that. -/
theorem exists_rule_behind (hc : snugBehind c = true) :
    ∃ r ∈ tightenRules, r.pattern = [c, ' '] := by
  simp only [snugBehind, Bool.or_eq_true, beq_iff_eq] at hc
  rcases hc with rfl | rfl <;> decide

/-! ## Texts in their one spacing -/

/-- No rule matches, no space is doubled, and there is no other layout. -/
structure Tidy (cs : List Char) : Prop where
  /-- No space stands where a delimiter drops it. -/
  snug : ∀ r ∈ tightenRules, ¬ r.pattern <:+: cs
  /-- Spaces stand alone. -/
  single : ¬ [' ', ' '] <:+: cs
  /-- Tabs and line ends are gone. -/
  spaces : ∀ c ∈ cs, isLayout c = true → c = ' '

theorem Tidy.of_infix (h : Tidy cs) (has : as <:+: cs) : Tidy as where
  snug r hr hpattern := h.snug r hr (hpattern.trans has)
  single hdouble := h.single (hdouble.trans has)
  spaces c hc := h.spaces c (has.subset hc)

theorem Tidy.not_infix_before (h : Tidy cs) (hc : snugBefore c = true) : ¬ [' ', c] <:+: cs := by
  obtain ⟨r, hr, hpattern⟩ := exists_rule_before hc
  exact hpattern ▸ h.snug r hr

theorem Tidy.not_infix_behind (h : Tidy cs) (hc : snugBehind c = true) : ¬ [c, ' '] <:+: cs := by
  obtain ⟨r, hr, hpattern⟩ := exists_rule_behind hc
  exact hpattern ▸ h.snug r hr

theorem Tidy.not_space_before (h : Tidy (' ' :: c :: cs)) : snugBefore c = false := by
  rw [← Bool.not_eq_true]
  intro hc
  exact h.not_infix_before hc (List.prefix_append [' ', c] cs).isInfix

theorem Tidy.not_space_behind (h : Tidy (c :: cs)) (hc : snugBehind c = true) :
    cs.head? ≠ some ' ' := by
  intro hhead
  rcases List.head?_eq_some_iff.1 hhead with ⟨cs, rfl⟩
  exact h.not_infix_behind hc (List.prefix_append [c, ' '] cs).isInfix

/-- The pass leaves a tidy text alone, also behind a gap that was read before it. -/
theorem Tidy.respace_eq (h : Tidy (space gap ++ cs))
    (hopened : opened = true → (space gap ++ cs).head? ≠ some ' ') :
    respace true opened gap cs = space gap ++ cs := by
  induction cs generalizing opened gap with
  | nil => simp
  | cons c cs ih =>
    by_cases hc : isLayout c = true
    · -- the character is a space, and nothing that swallows it stands before it
      have hspace : c = ' ' := h.spaces c (by simp) hc
      subst hspace
      have hgap : gap = false := by
        cases gap with
        | false => rfl
        | true => exact absurd (List.prefix_append [' ', ' '] cs).isInfix h.single
      subst hgap
      have hclosed : opened = false := by
        cases opened with
        | false => rfl
        | true => exact absurd rfl (hopened rfl)
      rw [respace_layout hc, hclosed]
      exact @ih false true h (by simp)
    · rw [Bool.not_eq_true] at hc
      have htail : Tidy (c :: cs) := h.of_infix (List.suffix_append (space gap) (c :: cs)).isInfix
      have hgap : (gap && !snugBefore c) = gap := by
        cases gap with
        | false => rfl
        | true => simp [h.not_space_before]
      have hrest : respace true (snugBehind c) false cs = cs :=
        @ih (snugBehind c) false (htail.of_infix (List.suffix_cons c cs).isInfix)
          fun hbehind => htail.not_space_behind hbehind
      rw [respace_other hc, hgap, hrest]

/-- Two spaces next to each other do not span a text without spaces. -/
theorem double_space_infix (hbs : bs ≠ []) (hspace : ' ' ∉ bs)
    (h : [' ', ' '] <:+: as ++ (bs ++ cs)) : [' ', ' '] <:+: as ∨ [' ', ' '] <:+: cs := by
  have hmem {x : Char} {l₁ l₂ : List Char} (heq : [' ', ' '] = l₁ ++ l₂) (hx : x ∈ l₁ ++ l₂) :
      x = ' ' := by
    rw [← heq] at hx
    simpa using hx
  rcases List.infix_append_iff_ne_nil.1 h with h | h | ⟨l₁, l₂, -, hl₂, heq, -, hfront⟩
  · exact Or.inl h
  · rcases List.infix_append_iff_ne_nil.1 h with h | h | ⟨l₁, l₂, hl₁, -, heq, hsuffix, -⟩
    · exact absurd (h.subset (by simp)) hspace
    · exact Or.inr h
    · -- the first space would be the last character of the text in the middle
      rcases List.exists_mem_of_ne_nil l₁ hl₁ with ⟨x, hx⟩
      have hx' : x = ' ' := hmem heq (List.mem_append_left l₂ hx)
      exact absurd (hx' ▸ hsuffix.subset hx) hspace
  · -- the second space would be the first character of the text in the middle
    rcases List.exists_cons_of_ne_nil hbs with ⟨b, bs, rfl⟩
    rcases List.exists_cons_of_ne_nil hl₂ with ⟨x, l₂, rfl⟩
    have hx : x = ' ' := hmem heq (List.mem_append_right l₁ List.mem_cons_self)
    have hb : x = b := (List.cons_prefix_cons.1 hfront).1
    exact absurd (by rw [← hx, hb]; exact List.mem_cons_self) hspace

/-- Dropping a space next to a delimiter brings no two spaces together. -/
theorem single_of_step_tighten (h : Step tightenRules as bs) (has : ¬ [' ', ' '] <:+: as) :
    ¬ [' ', ' '] <:+: bs := by
  cases h with
  | @replace r hr before after =>
    have hall : ∀ r ∈ tightenRules, r.replacement ≠ [] ∧ ' ' ∉ r.replacement := by decide
    have hreplacement := hall r hr
    intro hdouble
    rcases double_space_infix hreplacement.1 hreplacement.2 hdouble with h | h
    · exact has (h.trans List.infix_append_left)
    · exact has (h.trans ((List.suffix_append _ after).trans (List.suffix_append before _)).isInfix)

/-- A text without doubled spaces is tightened to one without them. -/
theorem single_tighten (h : ¬ [' ', ' '] <:+: cs) : ¬ [' ', ' '] <:+: tighten cs :=
  (rewrites_normalForm tightenRules cs).keeps (fun _ _ hstep has => single_of_step_tighten hstep has) h

/-- `tidy` brings every text into its one spacing. -/
theorem tidy_tidy (cs : List Char) : Tidy (tidy cs) where
  snug r hr := not_infix_normalForm hr (collapse cs)
  single :=
    single_tighten (not_infix_normalForm (List.mem_singleton_self doubleSpace) (spaceLayout cs))
  spaces c hc hlayout := by
    have hcollapse : c ∈ collapse cs := mem_of_mem_normalForm (by decide) hc
    have hspaced : c ∈ spaceLayout cs := mem_of_mem_normalForm (by decide) hcollapse
    rcases List.mem_map.1 hspaced with ⟨d, -, rfl⟩
    split at hlayout
    · next hd => exact if_pos hd
    · next hd => exact absurd hlayout hd

/-- The rules and the pass write the same text. -/
theorem tidy_eq_respace (cs : List Char) : tidy cs = respace true false false cs := by
  have htighten : respace true false false (tidy cs) = respace true false false (collapse cs) :=
    (rewrites_normalForm tightenRules (collapse cs)).map_eq fun _ _ => respace_of_step_tighten
  have hcollapse : respace true false false (collapse cs) =
      respace true false false (spaceLayout cs) :=
    (rewrites_normalForm [doubleSpace] (spaceLayout cs)).map_eq fun _ _ => respace_of_step_collapse
  -- the rules do not change what the pass writes, and it writes their normal form as it is
  have hself : respace true false false (tidy cs) = tidy cs :=
    Tidy.respace_eq (tidy_tidy cs) (by simp)
  calc tidy cs
      = respace true false false (tidy cs) := hself.symm
    _ = respace true false false (collapse cs) := htighten
    _ = respace true false false (spaceLayout cs) := hcollapse
    _ = respace true false false cs := respace_spaceLayout cs

end AbiSig.Declaration
