import AbiSig.Proofs.Declaration.Types
import AbiSig.Proofs.Grammar.Syntax
import Mathlib.Data.List.Forall2

/-!
# The types of a written parameter list

A tidily written type is read without meeting a comma or a space at top level (`Written.solid`), so
the scan finds it as it stands (`WrittenParameters.exists_types`). Without its blanks it is the
compact form of the type (`Written.removeBlanks_eq`).
-/

namespace AbiSig.Grammar

open Text Declaration

variable {n k m : Nesting} {part : Part} {t : Tree part} {as bs cs text words : List Char}
  {ws : List Word} {ps : List Parameter} {types : List (List Char)}

/-! ## Texts without separators -/

/-- Reading the text takes the counters from `n` to `m` and meets no comma and no space at top
level. -/
def Solid (n m : Nesting) : List Char → Prop
  | [] => n = m
  | c :: cs =>
    n.step c = .ok (n.next c) ∧ ¬((n.next c).isTopLevel ∧ (c = ',' ∨ c = ' ')) ∧
      Solid (n.next c) m cs

theorem Solid.append (has : Solid n k as) (hbs : Solid k m bs) : Solid n m (as ++ bs) := by
  induction as generalizing n with
  | nil =>
    have hn : n = k := has
    exact hn ▸ hbs
  | cons c as ih =>
    rcases has with ⟨hstep, hc, has⟩
    exact ⟨hstep, hc, ih has⟩

theorem Solid.run_eq (h : Solid n m cs) : n.run cs = some m := by
  induction cs generalizing n with
  | nil => exact congrArg some h
  | cons c cs ih =>
    rcases h with ⟨hstep, -, h⟩
    exact Nesting.run_cons_iff.2 ⟨hstep, ih h⟩

/-- A text without separators joins the first piece behind it. -/
theorem Solid.pieces_append (h : Solid n m cs) (rest : List Char) :
    pieces n (cs ++ rest) = (pieces m rest).modifyHead (cs ++ ·) := by
  rcases exists_pieces_eq_cons m rest with ⟨p, ps, hps⟩
  induction cs generalizing n with
  | nil =>
    have hn : n = m := h
    rw [List.nil_append, hn, hps]
    rfl
  | cons c cs ih =>
    rcases h with ⟨-, hc, h⟩
    rw [List.cons_append, pieces_cons fun hcomma => hc ⟨hcomma.1, Or.inl hcomma.2⟩, ih h, hps]
    rfl

theorem Solid.upToSpace_append (h : Solid n m cs) (rest : List Char) :
    upToSpace n (cs ++ rest) = cs ++ upToSpace m rest := by
  induction cs generalizing n with
  | nil =>
    have hn : n = m := h
    rw [hn]
    rfl
  | cons c cs ih =>
    rcases h with ⟨-, hc, h⟩
    rw [List.cons_append, upToSpace_cons fun hspace => hc ⟨hspace.1, Or.inr hspace.2⟩, ih h]
    rfl

theorem Solid.head_ne_space (h : Solid {} m cs) : cs.head? ≠ some ' ' := by
  intro hhead
  rcases List.head?_eq_some_iff.1 hhead with ⟨cs, rfl⟩
  exact h.2.1 ⟨rfl, Or.inr rfl⟩

/-! ## Types -/

theorem solid_word (h : ∀ c ∈ cs, isWordChar c = true) : Solid n n cs := by
  induction cs with
  | nil => rfl
  | cons c cs ih =>
    rw [List.forall_mem_cons] at h
    have hdelimiter : isDelimiter c = false := not_isDelimiter_of_isWordChar h.1
    have hnext : n.next c = n := Nesting.next_of_not_isDelimiter hdelimiter n
    unfold Solid
    rw [hnext]
    refine ⟨Nesting.step_of_not_isDelimiter hdelimiter, ?_, ih h.2⟩
    rintro ⟨-, hcomma | hspace⟩
    · exact ne_comma_of_isWordChar h.1 hcomma
    · rw [hspace] at h
      exact absurd h.1 (by decide)

/-- Below top level every character may stand. -/
theorem solid_of_not_isTopLevel {c : Char} (hn : n.isTopLevel = false)
    (hc : isDelimiter c = false) : Solid n n [c] := by
  have hnext : n.next c = n := Nesting.next_of_not_isDelimiter hc n
  unfold Solid
  rw [hnext, hn]
  exact ⟨Nesting.step_of_not_isDelimiter hc, by simp, rfl⟩

/-- A pair of parentheses around a text that is read one level deeper. -/
theorem Solid.parens
    (h : Solid { n with parens := n.parens + 1 } { n with parens := n.parens + 1 } cs) :
    Solid n n ('(' :: (cs ++ [')'])) := by
  have hopen : Solid n { n with parens := n.parens + 1 } ['('] := ⟨rfl, by simp, rfl⟩
  have hclose : Solid { n with parens := n.parens + 1 } n [')'] := ⟨rfl, by simp, rfl⟩
  exact hopen.append (h.append hclose)

theorem Solid.brackets
    (h : Solid { n with brackets := n.brackets + 1 } { n with brackets := n.brackets + 1 } cs) :
    Solid n n ('[' :: (cs ++ [']'])) := by
  have hopen : Solid n { n with brackets := n.brackets + 1 } ['['] := ⟨rfl, by simp, rfl⟩
  have hclose : Solid { n with brackets := n.brackets + 1 } n [']'] := ⟨rfl, by simp, rfl⟩
  exact hopen.append (h.append hclose)

/-- A tidily written type has no separators; the members of a tuple have some, but not at top
level. -/
theorem Written.solid (h : Written .tidy t text) (hn : part = .members → n.isTopLevel = false) :
    Solid n n text := by
  induction h generalizing n with
  | base w => exact solid_word w.plain
  | @tuple ms l₁ text l₂ h₁ hms h₂ ih =>
    rw [show l₁ = [] from h₁, show l₂ = [] from h₂]
    exact Solid.parens (ih fun _ => by simp [Nesting.isTopLevel])
  | @array t text l₁ l₂ digits l₃ ht h₁ h₂ hdigits h₃ ih =>
    rw [show l₁ = [] from h₁, show l₂ = [] from h₂, show l₃ = [] from h₃]
    exact (ih (by simp)).append
      (Solid.brackets (solid_word fun d hd => isWordChar_of_isDigit (hdigits d hd)))
  | last ht ih => exact ih (by simp)
  | @more t ms text l₁ l₂ others ht h₁ h₂ hms ih₁ ih₂ =>
    rcases h₂ with ⟨b, rfl⟩
    rw [show l₁ = [] from h₁]
    have hcomma : Solid n n [','] := solid_of_not_isTopLevel (hn rfl) (by decide)
    have hspace : Solid n n (space b) := by
      cases b with
      | false => rfl
      | true => exact solid_of_not_isTopLevel (hn rfl) (by decide)
    exact (ih₁ (by simp)).append (hcomma.append (hspace.append (ih₂ fun _ => hn rfl)))

/-- Layout is all that a tidily written type has beyond its compact form. -/
theorem Written.removeBlanks_eq (h : Written .tidy t text) : removeBlanks text = t.compact := by
  have hplain {cs : List Char} (hcs : ∀ c ∈ cs, isWordChar c = true) : removeBlanks cs = cs :=
    removeBlanks_eq_self fun c hc => not_isBlank_of_isWordChar (hcs c hc)
  induction h with
  | base w => exact hplain w.plain
  | @tuple ms l₁ text l₂ h₁ hms h₂ ih =>
    rw [show l₁ = [] from h₁, show l₂ = [] from h₂, List.nil_append, List.nil_append,
      removeBlanks_cons (by decide), removeBlanks_append, ih]
    rfl
  | @array t text l₁ l₂ digits l₃ ht h₁ h₂ hdigits h₃ ih =>
    rw [show l₁ = [] from h₁, show l₂ = [] from h₂, show l₃ = [] from h₃, removeBlanks_append, ih,
      List.nil_append, List.nil_append, List.nil_append, removeBlanks_cons (by decide),
      removeBlanks_append, hplain fun d hd => isWordChar_of_isDigit (hdigits d hd)]
    rfl
  | last ht ih => exact ih
  | @more t ms text l₁ l₂ others ht h₁ h₂ hms ih₁ ih₂ =>
    rcases h₂ with ⟨b, rfl⟩
    have hspace : removeBlanks (space b) = [] := by cases b <;> rfl
    rw [show l₁ = [] from h₁, removeBlanks_append, ih₁, List.nil_append,
      removeBlanks_cons (by decide), removeBlanks_append, hspace, ih₂]
    rfl

/-! ## Parameters -/

/-- The words behind a type are set off by a space and have no separators but spaces. -/
theorem WrittenWords.plain (h : WrittenWords .tidy ws words) :
    (words = [] ∨ ∃ rest, words = ' ' :: rest) ∧
      ∀ c ∈ words, isDelimiter c = false ∧ c ≠ ',' := by
  induction h with
  | nil => simp
  | @cons w ws l others hl hws ih =>
    rw [show l = [' '] from hl]
    refine ⟨Or.inr ⟨_, rfl⟩, ?_⟩
    intro c hc
    simp only [List.singleton_append, List.mem_cons, List.mem_append] at hc
    rcases hc with rfl | hc | hc
    · decide
    · exact ⟨not_isDelimiter_of_isWordChar (w.plain c hc), ne_comma_of_isWordChar (w.plain c hc)⟩
    · exact ih.2 c hc

/-- A parameter is one piece, and the scan finds its type. -/
theorem isPiece_parameter {t : Tree .type} (ht : Written .tidy t text)
    (hws : WrittenWords .tidy ws words) :
    IsPiece {} (text ++ words) ∧ typeOf (text ++ words) = text := by
  have hsolid : Solid {} {} text := ht.solid (by simp)
  rcases hws.plain with ⟨hhead, hplain⟩
  have hpiece : pieces {} words = [words] := by
    simpa [pieces] using @pieces_append_plain {} words [] hplain
  have htype : upToSpace {} words = [] := by
    rcases hhead with rfl | ⟨rest, rfl⟩ <;> rfl
  have hne : (text ++ words).head? ≠ some ' ' := by
    rcases List.exists_cons_of_ne_nil ht.ne_nil with ⟨c, cs, rfl⟩
    exact hsolid.head_ne_space
  refine ⟨⟨?_, ?_⟩, ?_⟩
  · rw [Nesting.run_append, hsolid.run_eq]
    exact Nesting.run_of_not_isDelimiter fun c hc => (hplain c hc).1
  · rw [hsolid.pieces_append, hpiece]
    rfl
  · rw [typeOf_eq_upToSpace hne, hsolid.upToSpace_append, htype, List.append_nil]

/-- A space in front of the list makes no difference to the types. -/
theorem map_typeOf_pieces_space (b : Bool) (cs : List Char) :
    (pieces {} (space b ++ cs)).map typeOf = (pieces {} cs).map typeOf := by
  cases b with
  | false => rfl
  | true =>
    rcases exists_pieces_eq_cons {} cs with ⟨p, ps, hps⟩
    rw [space_true, pieces_append_plain (by decide), hps]
    rfl

/-- The types of a tidily written list are written tidily. -/
theorem WrittenParameters.exists_types (h : WrittenParameters .tidy ps text) :
    Nesting.run {} text = some {} ∧ ∃ types, (pieces {} text).map typeOf = types ∧
      List.Forall₂ (fun p type => Written .tidy p.type type) ps types := by
  induction h with
  | @last p text words ht hws =>
    rcases isPiece_parameter ht hws with ⟨hpiece, htype⟩
    refine ⟨hpiece.balanced, [text], ?_, List.Forall₂.cons ht List.Forall₂.nil⟩
    rw [hpiece.single, List.map_singleton, htype]
  | @more p ps text words l₁ l₂ others ht hws h₁ h₂ hps ih =>
    rcases h₂ with ⟨b, rfl⟩
    rcases ih with ⟨hrun, types, htypes, hall⟩
    rcases isPiece_parameter ht hws with ⟨hpiece, htype⟩
    rw [show l₁ = [] from h₁, List.nil_append, ← List.append_assoc]
    refine ⟨?_, text :: types, ?_, List.Forall₂.cons ht hall⟩
    · have hspace : Nesting.run {} (space b) = some {} := by cases b <;> rfl
      have hbehind : Nesting.run {} (',' :: (space b ++ others)) = some {} := by
        show Nesting.run {} (space b ++ others) = some {}
        rw [Nesting.run_append, hspace]
        exact hrun
      rw [Nesting.run_append, hpiece.balanced]
      exact hbehind
    · rw [pieces_append_comma hpiece.balanced, hpiece.single, List.map_append, List.map_singleton,
        htype, map_typeOf_pieces_space, htypes]
      rfl

theorem nil_not_mem_of_forall₂
    (h : List.Forall₂ (fun p type => Written .tidy (Parameter.type p) type) ps types) :
    [] ∉ types := by
  induction h with
  | nil => exact List.not_mem_nil
  | cons ht _ ih =>
    rw [List.mem_cons, not_or]
    exact ⟨ht.ne_nil.symm, ih⟩

theorem map_removeBlanks_of_forall₂
    (h : List.Forall₂ (fun p type => Written .tidy (Parameter.type p) type) ps types) :
    types.map removeBlanks = ps.map (·.type.compact) := by
  induction h with
  | nil => rfl
  | cons ht _ ih => rw [List.map_cons, List.map_cons, ht.removeBlanks_eq, ih]

end AbiSig.Grammar
