import AbiSig.Declaration.Parameters
import AbiSig.Proofs.Declaration.Pieces
import AbiSig.Proofs.Declaration.Spacing
import AbiSig.Proofs.Text.Trimming
import Mathlib.Data.List.Chain

/-!
# The word `indexed` in an argument list

`removeIndexed` replaces ` indexed ` by a space until it no longer occurs. What one replacement
keeps, `removeIndexed` keeps (`removeIndexed_keeps`):

* `filter_isDelimiter_removeIndexed`: the delimiters;
* `Spaced.removeIndexed`: a spacing in which every space stands between two other characters;
* `Spaced.blankPieces_removeIndexed`: in such a spacing, which pieces are blank.

A text that was respaced has this spacing (`isChain_respace`), so no blank is left at its ends
(`Spaced.trim_eq`).
-/

namespace AbiSig.Declaration

open Text

variable {n : Nesting} {a b c : Char} {as bs cs : List Char}

/-! ## One replacement -/

/-- The word itself. -/
def indexedWord : List Char := ['i', 'n', 'd', 'e', 'x', 'e', 'd']

/-- One replacement takes the word and the space behind it out of the text. -/
theorem step_indexed_inv (h : Step [indexedRule] as bs) :
    ∃ before after, as = before ++ ' ' :: (indexedWord ++ ' ' :: after) ∧
      bs = before ++ ' ' :: after :=
  step_singleton_inv h

/-- What one replacement keeps, `removeIndexed` keeps. -/
theorem removeIndexed_keeps {P : List Char → Prop}
    (hstep : ∀ before after, P (before ++ ' ' :: (indexedWord ++ ' ' :: after)) →
      P (before ++ ' ' :: after))
    (h : P cs) : P (removeIndexed cs) := by
  refine (rewrites_normalForm [indexedRule] cs).keeps ?_ h
  intro as bs hrule has
  rcases step_indexed_inv hrule with ⟨before, after, rfl, rfl⟩
  exact hstep before after has

/-- A text without spaces stays as it is. -/
theorem removeIndexed_eq_self (h : ' ' ∉ cs) : removeIndexed cs = cs := by
  apply normalForm_eq_self
  intro r hr hpattern
  rw [List.mem_singleton] at hr
  subst hr
  exact h (hpattern.subset List.mem_cons_self)

theorem mem_of_mem_removeIndexed (h : c ∈ removeIndexed cs) : c ∈ cs :=
  mem_of_mem_normalForm (by decide) h

/-- The word and the spaces around it are no delimiters. -/
theorem filter_isDelimiter_removeIndexed (cs : List Char) :
    (removeIndexed cs).filter isDelimiter = cs.filter isDelimiter := by
  refine removeIndexed_keeps
    (P := fun text => text.filter isDelimiter = cs.filter isDelimiter) ?_ rfl
  intro before after h
  rw [← h]
  simp [indexedWord, isDelimiter]

theorem run_removeIndexed (n : Nesting) (cs : List Char) :
    n.run (removeIndexed cs) = n.run cs :=
  Nesting.run_of_filter_eq (filter_isDelimiter_removeIndexed cs)

/-! ## Spaces between two characters -/

/-- Whether `a` may stand right before `b`: a space stands neither next to a blank nor where a
delimiter drops it. -/
def Fits (a b : Char) : Prop :=
  (a = ' ' → snugBefore b = false ∧ isBlank b = false) ∧
    (b = ' ' → snugBehind a = false ∧ isBlank a = false)

/-- Each character of the text fits to the next, also with the text between parentheses. -/
def Spaced (cs : List Char) : Prop :=
  List.IsChain Fits ('(' :: (cs ++ [')']))

theorem fits_of_ne_space (ha : a ≠ ' ') (hb : b ≠ ' ') : Fits a b :=
  ⟨fun h => absurd h ha, fun h => absurd h hb⟩

/-- If all blanks are layout, the respaced text fits, also to the character in front of it. -/
theorem isChain_respace {gap : Bool} (hcs : ∀ c ∈ cs, isBlank c = true → isLayout c = true)
    (ha : isBlank a = false) (hgap : gap = true → snugBehind a = false) :
    List.IsChain Fits (a :: (respace false (snugBehind a) gap cs ++ [')'])) := by
  have hne {c : Char} (hc : isBlank c = false) : c ≠ ' ' := by
    rintro rfl
    exact absurd hc (by decide)
  induction cs generalizing a gap with
  | nil =>
    rw [respace_nil, Bool.false_and, space_false, List.nil_append, List.isChain_pair]
    exact fits_of_ne_space (hne ha) (by decide)
  | cons c cs ih =>
    rw [List.forall_mem_cons] at hcs
    by_cases hc : isLayout c = true
    · rw [respace_layout hc]
      exact ih hcs.2 ha (by simp)
    · rw [Bool.not_eq_true] at hc
      have hblank : isBlank c = false := by
        rw [← Bool.not_eq_true]
        intro h
        exact absurd (hcs.1 h) (by simp [hc])
      have hrest := @ih c false hcs.2 hblank (by simp)
      rw [respace_other hc]
      cases hb : (gap && !snugBefore c) with
      | false =>
        rw [space_false, List.nil_append, List.cons_append, List.isChain_cons_cons]
        exact ⟨fits_of_ne_space (hne ha) (hne hblank), hrest⟩
      | true =>
        -- the gap is written as a space between two characters that are not blank
        rw [Bool.and_eq_true, Bool.not_eq_true'] at hb
        rw [space_true, List.append_assoc, List.singleton_append, List.isChain_cons_cons,
          List.cons_append, List.isChain_cons_cons]
        refine ⟨⟨fun h => absurd h (hne ha), fun _ => ⟨hgap hb.1, ha⟩⟩, ?_, hrest⟩
        exact ⟨fun _ => ⟨hb.2, hblank⟩, fun h => absurd h (hne hblank)⟩

/-- The character behind a space. -/
theorem Spaced.exists_behind_space (h : Spaced (as ++ ' ' :: bs)) :
    ∃ d ds, bs = d :: ds ∧ snugBefore d = false ∧ isBlank d = false := by
  have hsuffix : ' ' :: (bs ++ [')']) <:+ '(' :: (as ++ ' ' :: bs ++ [')']) :=
    ⟨'(' :: as, by simp⟩
  have hchain := h.suffix hsuffix
  cases bs with
  | nil =>
    -- the closing parenthesis would drop the space
    have hclose := (List.isChain_pair.1 hchain).1 rfl
    exact absurd hclose.1 (by decide)
  | cons d ds =>
    rw [List.cons_append, List.isChain_cons_cons] at hchain
    exact ⟨d, ds, rfl, hchain.1.1 rfl⟩

/-- One replacement leaves the characters around the space as they are. -/
theorem Spaced.of_indexed {before after : List Char}
    (h : Spaced (before ++ ' ' :: (indexedWord ++ ' ' :: after))) :
    Spaced (before ++ ' ' :: after) := by
  have hfront : '(' :: (before ++ [' ']) <+:
      '(' :: (before ++ ' ' :: (indexedWord ++ ' ' :: after) ++ [')']) :=
    ⟨indexedWord ++ ' ' :: after ++ [')'], by simp⟩
  have hbehind : ' ' :: (after ++ [')']) <:+
      '(' :: (before ++ ' ' :: (indexedWord ++ ' ' :: after) ++ [')']) :=
    ⟨'(' :: (before ++ ' ' :: indexedWord), by simp⟩
  have hleft := h.prefix hfront
  have hright := h.suffix hbehind
  have hsplit : List.IsChain Fits (('(' :: before) ++ ' ' :: (after ++ [')'])) :=
    List.isChain_split.2 ⟨hleft, hright⟩
  simpa [Spaced] using hsplit

theorem Spaced.removeIndexed (h : Spaced cs) : Spaced (removeIndexed cs) :=
  removeIndexed_keeps (fun _ _ => Spaced.of_indexed) h

/-- The text neither begins nor ends with a space. -/
theorem Spaced.trim_eq (h : Spaced cs) (hspaces : ∀ c ∈ cs, isBlank c = true → c = ' ') :
    trim cs = cs := by
  have hblank {c : Char} (hc : c ∈ cs) (hne : c ≠ ' ') : isBlank c = false := by
    rw [← Bool.not_eq_true]
    exact fun hblank => hne (hspaces c hc hblank)
  apply trim_eq_self
  · intro c hc
    rcases List.head?_eq_some_iff.1 hc with ⟨ds, rfl⟩
    apply hblank List.mem_cons_self
    intro hspace
    have hopen := (List.isChain_cons_cons.1 h).1.2 hspace
    exact absurd hopen.1 (by decide)
  · intro c hc
    rcases List.getLast?_eq_some_iff.1 hc with ⟨ds, rfl⟩
    apply hblank (by simp)
    intro hspace
    subst hspace
    rcases h.exists_behind_space with ⟨d, ds', heq, -⟩
    exact absurd heq (by simp)

/-- Behind the space stands a character that is not blank, so the word makes no difference to which
pieces are blank. -/
theorem Spaced.blankPieces_indexed {before after : List Char}
    (h : Spaced (before ++ ' ' :: (indexedWord ++ ' ' :: after))) :
    blankPieces n (before ++ ' ' :: after) =
      blankPieces n (before ++ ' ' :: (indexedWord ++ ' ' :: after)) := by
  have hafter : Spaced ((before ++ ' ' :: indexedWord) ++ ' ' :: after) := by simpa using h
  rcases hafter.exists_behind_space with ⟨d, ds, rfl, hsnug, hblank⟩
  have hcomma : d ≠ ',' := by
    rintro rfl
    exact absurd hsnug (by decide)
  apply blankPieces_append_congr
  intro n
  -- with the word or without it, what is replaced joins the piece of `d`
  have hspace : blankPieces n ([' '] ++ d :: ds) =
      (blankPieces n (d :: ds)).modifyHead ([' '].all isBlank && ·) :=
    blankPieces_append_plain (by decide)
  have hword : blankPieces n (' ' :: (indexedWord ++ [' ']) ++ d :: ds) =
      (blankPieces n (d :: ds)).modifyHead ((' ' :: (indexedWord ++ [' '])).all isBlank && ·) :=
    blankPieces_append_plain (by decide)
  rcases exists_pieces_eq_cons (n.next d) ds with ⟨p, ps, hps⟩
  have htail : blankPieces n (d :: ds) = false :: ps.map (·.all isBlank) := by
    rw [blankPieces_cons, if_neg fun h => hcomma h.2, hblank, blankPieces, hps]
    rfl
  rw [htail] at hspace hword
  exact hspace.trans hword.symm

theorem Spaced.blankPieces_removeIndexed (h : Spaced cs) :
    blankPieces n (Declaration.removeIndexed cs) = blankPieces n cs := by
  have hboth : Spaced (Declaration.removeIndexed cs) ∧
      blankPieces n (Declaration.removeIndexed cs) = blankPieces n cs := by
    refine removeIndexed_keeps
      (P := fun text => Spaced text ∧ blankPieces n text = blankPieces n cs) ?_ ⟨h, rfl⟩
    intro before after hP
    exact ⟨hP.1.of_indexed, hP.1.blankPieces_indexed.trans hP.2⟩
  exact hboth.2

end AbiSig.Declaration
