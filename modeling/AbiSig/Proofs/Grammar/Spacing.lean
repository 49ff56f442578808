import AbiSig.Proofs.Declaration.Normalized
import AbiSig.Proofs.Grammar.Syntax

/-!
# The normal form of a written text

`respace` takes a text that is written with any layout to one that is written tidily, and writes the
same tree.

* `Written.exists_tidy`, `WrittenWords.exists_tidy`, `WrittenParameters.exists_tidy`: what becomes of
  a part of the text in the middle of a pass.
* `WrittenList.exists_tidy`: what becomes of a whole parameter list.
-/

namespace AbiSig.Grammar

open Text Declaration

variable {keep opened gap : Bool} {part : Part} {t : Tree part} {l text words rest : List Char}
  {ws : List Word} {ps : List Parameter}

/-! ## Runs and words in the pass -/

theorem isLayout_of_isWordChar {c : Char} (h : isWordChar c = true) : isLayout c = false :=
  not_isLayout_of_not_isBlank (not_isBlank_of_isWordChar h)

theorem snug_of_isWordChar {c : Char} (h : isWordChar c = true) :
    snugBefore c = false ∧ snugBehind c = false := by
  constructor
  · rw [← Bool.not_eq_true]
    intro hc
    simp only [snugBefore, Bool.or_eq_true, beq_iff_eq] at hc
    rcases hc with ((rfl | rfl) | rfl) | rfl <;> exact absurd h (by decide)
  · rw [← Bool.not_eq_true]
    intro hc
    simp only [snugBehind, Bool.or_eq_true, beq_iff_eq] at hc
    rcases hc with rfl | rfl <;> exact absurd h (by decide)

/-- A run of layout behind a delimiter that swallows it is forgotten. -/
theorem respace_run_opened (hl : IsRun l) (rest : List Char) :
    respace keep true false (l ++ rest) = respace keep true false rest := by
  induction l with
  | nil => rfl
  | cons c l ih =>
    rw [IsRun, List.forall_mem_cons] at hl
    rw [List.cons_append, respace_layout hl.1]
    exact ih hl.2

/-- Any other run is remembered as a gap. -/
theorem respace_run (hl : IsRun l) (rest : List Char) :
    respace keep false gap (l ++ rest) = respace keep false (gap || !l.isEmpty) rest := by
  induction l generalizing gap with
  | nil => simp
  | cons c l ih =>
    rw [IsRun, List.forall_mem_cons] at hl
    rw [List.cons_append, respace_layout hl.1, ih hl.2]
    simp

/-- A delimiter in front of which layout is dropped. -/
theorem respace_snug {c : Char} (hc : snugBefore c = true) (hlayout : isLayout c = false) :
    respace keep opened gap (c :: rest) = c :: respace keep (snugBehind c) false rest := by
  rw [respace_other hlayout, hc, Bool.not_true, Bool.and_false]
  rfl

/-- Characters of words are written as they stand, and swallow nothing behind them. -/
theorem respace_plain (hplain : ∀ c ∈ text, isWordChar c = true) (rest : List Char) :
    respace keep false false (text ++ rest) = text ++ respace keep false false rest := by
  induction text with
  | nil => rfl
  | cons c text ih =>
    rw [List.forall_mem_cons] at hplain
    rw [List.cons_append, respace_other (isLayout_of_isWordChar hplain.1),
      (snug_of_isWordChar hplain.1).2, ih hplain.2]
    rfl

/-- A gap in front of a word is a space. -/
theorem respace_word (hne : text ≠ []) (hplain : ∀ c ∈ text, isWordChar c = true)
    (rest : List Char) :
    respace keep opened gap (text ++ rest) =
      space gap ++ (text ++ respace keep false false rest) := by
  rcases List.exists_cons_of_ne_nil hne with ⟨c, cs, rfl⟩
  rw [List.forall_mem_cons] at hplain
  rcases snug_of_isWordChar hplain.1 with ⟨hbefore, hbehind⟩
  show respace keep opened gap (c :: (cs ++ rest)) = _
  rw [respace_other (isLayout_of_isWordChar hplain.1), hbefore, hbehind, respace_plain hplain.2,
    Bool.not_false, Bool.and_true]
  rfl

/-! ## Trees -/

/-- In the pass a tree is written tidily, behind one space if there is a gap in front of it. -/
theorem Written.exists_tidy (h : Written .free t text) :
    ∃ text', Written .tidy t text' ∧ ∀ keep opened gap rest,
      respace keep opened gap (text ++ rest) =
        space gap ++ (text' ++ respace keep false false rest) := by
  induction h with
  | base w hw =>
    refine ⟨w.chars, Written.base w hw, ?_⟩
    intro keep opened gap rest
    exact respace_word w.ne_nil w.plain rest
  | @tuple ms l₁ text l₂ h₁ hms h₂ ih =>
    rcases ih with ⟨text', htext', htidy⟩
    refine ⟨_, Written.tuple rfl htext' rfl, ?_⟩
    intro keep opened gap rest
    -- the parenthesis swallows the layout behind it, and the other one the layout before it
    have hopen : respace keep opened gap ('(' :: (l₁ ++ (text ++ (l₂ ++ ')' :: rest)))) =
        space gap ++ '(' :: respace keep true false (l₁ ++ (text ++ (l₂ ++ ')' :: rest))) := by
      rw [respace_other rfl]
      simp [snugBefore, snugBehind]
    have hclose : respace keep false false (l₂ ++ ')' :: rest) =
        ')' :: respace keep false false rest := by
      rw [respace_run h₂, respace_snug rfl rfl]
      rfl
    simp only [List.cons_append, List.append_assoc, List.nil_append]
    rw [hopen, respace_run_opened h₁, htidy, hclose]
    simp
  | @array t text l₁ l₂ digits l₃ ht h₁ h₂ hdigits h₃ ih =>
    rcases ih with ⟨text', htext', htidy⟩
    refine ⟨_, Written.array htext' rfl rfl hdigits rfl, ?_⟩
    intro keep opened gap rest
    have hplain : ∀ d ∈ digits, isWordChar d = true :=
      fun d hd => isWordChar_of_isDigit (hdigits d hd)
    have hclose : respace keep true false (digits ++ (l₃ ++ ']' :: rest)) =
        digits ++ ']' :: respace keep false false rest := by
      by_cases hnil : digits = []
      · -- the bracket that opens swallows the layout in front of the one that closes
        rw [hnil, List.nil_append, respace_run_opened h₃, respace_snug rfl rfl]
        rfl
      · rw [respace_word hnil hplain, respace_run h₃, respace_snug rfl rfl]
        rfl
    simp only [List.cons_append, List.append_assoc, List.nil_append]
    rw [htidy, respace_run h₁, respace_snug rfl rfl]
    show space gap ++ (text' ++ '[' ::
      respace keep true false (l₂ ++ (digits ++ (l₃ ++ ']' :: rest)))) = _
    rw [respace_run_opened h₂, hclose]
  | last ht ih =>
    rcases ih with ⟨text', htext', htidy⟩
    exact ⟨text', Written.last htext', htidy⟩
  | @more t ms text l₁ l₂ others ht h₁ h₂ hms ih₁ ih₂ =>
    rcases ih₁ with ⟨text', htext', htidy⟩
    rcases ih₂ with ⟨others', hothers', hothers⟩
    refine ⟨_, Written.more htext' rfl ⟨!l₂.isEmpty, rfl⟩ hothers', ?_⟩
    intro keep opened gap rest
    simp only [List.cons_append, List.append_assoc, List.nil_append]
    rw [htidy, respace_run h₁, respace_snug rfl rfl]
    show space gap ++ (text' ++ ',' :: respace keep false false (l₂ ++ (others ++ rest))) = _
    rw [respace_run h₂, hothers]
    simp

/-! ## Parameters -/

theorem WrittenWords.exists_tidy (h : WrittenWords .free ws text) :
    ∃ text', WrittenWords .tidy ws text' ∧ ∀ keep rest,
      respace keep false false (text ++ rest) = text' ++ respace keep false false rest := by
  induction h with
  | nil => exact ⟨[], WrittenWords.nil, fun _ _ => rfl⟩
  | @cons w ws l others hl hws ih =>
    rcases ih with ⟨others', hothers', htidy⟩
    refine ⟨_, WrittenWords.cons rfl hothers', ?_⟩
    intro keep rest
    have hgap : (false || !l.isEmpty) = true := by simpa using hl.1
    rw [List.append_assoc, respace_run hl.2, hgap, List.append_assoc,
      respace_word w.ne_nil w.plain, htidy]
    simp

theorem WrittenParameters.exists_tidy (h : WrittenParameters .free ps text) :
    ∃ text', WrittenParameters .tidy ps text' ∧ ∀ keep opened gap rest,
      respace keep opened gap (text ++ rest) =
        space gap ++ (text' ++ respace keep false false rest) := by
  induction h with
  | @last p text words ht hws =>
    rcases ht.exists_tidy with ⟨text', htext', htidy⟩
    rcases hws.exists_tidy with ⟨words', hwords', hwords⟩
    refine ⟨_, WrittenParameters.last htext' hwords', ?_⟩
    intro keep opened gap rest
    rw [List.append_assoc, htidy, hwords, List.append_assoc]
  | @more p ps text words l₁ l₂ others ht hws h₁ h₂ hps ih =>
    rcases ht.exists_tidy with ⟨text', htext', htidy⟩
    rcases hws.exists_tidy with ⟨words', hwords', hwords⟩
    rcases ih with ⟨others', hothers', hothers⟩
    refine ⟨_, WrittenParameters.more htext' hwords' rfl ⟨!l₂.isEmpty, rfl⟩ hothers', ?_⟩
    intro keep opened gap rest
    simp only [List.cons_append, List.append_assoc, List.nil_append]
    rw [htidy, hwords, respace_run h₁, respace_snug rfl rfl]
    show space gap ++ (text' ++ (words' ++ ',' ::
      respace keep false false (l₂ ++ (others ++ rest)))) = _
    rw [respace_run h₂, hothers]
    simp

/-- A parameter list is empty in normal form, or begins with its first type and ends with its last
word. -/
theorem WrittenList.exists_tidy (h : WrittenList .free ps text) :
    (ps = [] ∧ argumentText text = []) ∨ WrittenParameters .tidy ps (argumentText text) := by
  cases h with
  | @empty l₁ l₂ h₁ h₂ =>
    left
    refine ⟨rfl, ?_⟩
    have hend : respace false true false l₂ = [] := by
      simpa using @respace_run_opened false l₂ h₂ []
    rw [argumentText, respace_run_opened h₁, hend]
  | @parameters _ l₁ text l₂ h₁ hps h₂ =>
    right
    rcases hps.exists_tidy with ⟨text', htext', htidy⟩
    have hend : respace false false false l₂ = [] := by
      simpa using @respace_run false false l₂ h₂ []
    rw [argumentText, respace_run_opened h₁, htidy, hend]
    simpa using htext'

end AbiSig.Grammar
