import AbiSig.Proofs.Nesting.Balance
import AbiSig.Text.Blank

/-!
# The pieces of an argument list

The arguments are the pieces of the text between the commas at top level, outside all parentheses
and brackets.

* `isPiece_of_mem_pieces`: the pieces of a balanced text are balanced and have no comma at top level.
* `pieces_append_comma`: behind a balanced text a comma separates.
* `pieces_removeBlanks`: blanks do not separate.

Which pieces are blank is all that acceptance asks about them: `blankPieces`.
-/

namespace AbiSig

open Text

/-! ## Counters without refusal -/

/-- The counters after one character; a closing delimiter that nothing opened is passed over. -/
def Nesting.next (n : Nesting) (c : Char) : Nesting :=
  match n.step c with
  | .ok n' => n'
  | .error _ => n

theorem Nesting.next_of_not_isDelimiter {c : Char} (hc : isDelimiter c = false) (n : Nesting) :
    n.next c = n := by
  rw [Nesting.next, step_of_not_isDelimiter hc]

theorem Nesting.next_of_step {n n' : Nesting} {c : Char} (h : n.step c = .ok n') :
    n.next c = n' := by
  rw [Nesting.next, h]

theorem Nesting.isTopLevel_iff {n : Nesting} : n.isTopLevel = true ↔ n = {} := by
  rcases n with ⟨parens, brackets⟩
  simp [Nesting.isTopLevel]

/-- The first character of a text that is read through is read. -/
theorem Nesting.run_cons_iff {n m : Nesting} {c : Char} {cs : List Char} :
    n.run (c :: cs) = some m ↔ n.step c = .ok (n.next c) ∧ (n.next c).run cs = some m := by
  constructor
  · intro h
    cases hstep : n.step c with
    | error e =>
      rw [Nesting.run, hstep] at h
      exact absurd h (by simp)
    | ok n' =>
      rw [Nesting.run_cons_of_step hstep] at h
      rw [Nesting.next_of_step hstep]
      exact ⟨rfl, h⟩
  · rintro ⟨hstep, h⟩
    rw [Nesting.run_cons_of_step hstep]
    exact h

namespace Declaration

variable {n m : Nesting} {c : Char} {as bs cs p : List Char}

/-! ## Pieces -/

/-- The pieces of the text between the commas at top level; the text is read with `n` open
around it. -/
def pieces (n : Nesting) : List Char → List (List Char)
  | [] => [[]]
  | c :: cs =>
    if (n.next c).isTopLevel ∧ c = ',' then [] :: pieces (n.next c) cs
    else (pieces (n.next c) cs).modifyHead (c :: ·)

theorem pieces_cons (h : ¬((n.next c).isTopLevel ∧ c = ',')) :
    pieces n (c :: cs) = (pieces (n.next c) cs).modifyHead (c :: ·) :=
  if_neg h

/-- Every text has a first piece. -/
theorem exists_pieces_eq_cons (n : Nesting) (cs : List Char) : ∃ p ps, pieces n cs = p :: ps := by
  induction cs generalizing n with
  | nil => exact ⟨[], [], rfl⟩
  | cons c cs ih =>
    rcases ih (n.next c) with ⟨p, ps, hps⟩
    by_cases hc : (n.next c).isTopLevel ∧ c = ','
    · exact ⟨[], p :: ps, by rw [pieces, if_pos hc, hps]⟩
    · exact ⟨c :: p, ps, by rw [pieces_cons hc, hps, List.modifyHead_cons]⟩

theorem mem_of_mem_pieces (hp : p ∈ pieces n cs) (hc : c ∈ p) : c ∈ cs := by
  induction cs generalizing n p with
  | nil =>
    rw [pieces, List.mem_singleton] at hp
    exact hp ▸ hc
  | cons d cs ih =>
    rcases exists_pieces_eq_cons (n.next d) cs with ⟨q, qs, hqs⟩
    have htail {q : List Char} (hq : q ∈ pieces (n.next d) cs) (hc : c ∈ q) : c ∈ d :: cs :=
      List.mem_cons_of_mem d (ih hq hc)
    rw [hqs] at htail
    rw [pieces, hqs] at hp
    split at hp
    · rcases List.mem_cons.1 hp with rfl | hp
      · exact absurd hc List.not_mem_nil
      · exact htail hp hc
    · rw [List.modifyHead_cons] at hp
      rcases List.mem_cons.1 hp with rfl | hp
      · -- the first piece begins with the first character
        rcases List.mem_cons.1 hc with rfl | hc
        · exact List.mem_cons_self
        · exact htail List.mem_cons_self hc
      · exact htail (List.mem_cons_of_mem q hp) hc

/-- A text without delimiters and commas joins the first piece. -/
theorem pieces_append_plain (has : ∀ c ∈ as, isDelimiter c = false ∧ c ≠ ',') :
    pieces n (as ++ cs) = (pieces n cs).modifyHead (as ++ ·) := by
  rcases exists_pieces_eq_cons n cs with ⟨p, ps, hps⟩
  induction as with
  | nil => rw [List.nil_append, hps]; rfl
  | cons a as ih =>
    rw [List.forall_mem_cons] at has
    rw [List.cons_append, pieces_cons fun h => has.1.2 h.2, Nesting.next_of_not_isDelimiter has.1.1,
      ih has.2, hps]
    rfl

/-- Behind a text that closes what was open, a comma separates. -/
theorem pieces_append_comma (has : n.run as = some {}) :
    pieces n (as ++ ',' :: bs) = pieces n as ++ pieces {} bs := by
  induction as generalizing n with
  | nil =>
    have hn : n = {} := Option.some.inj has
    rw [hn]
    rfl
  | cons a as ih =>
    rcases Nesting.run_cons_iff.1 has with ⟨-, has⟩
    rw [List.cons_append, pieces, pieces, ih has]
    split
    · rfl
    · rcases exists_pieces_eq_cons (n.next a) as with ⟨p, ps, hps⟩
      rw [hps]
      rfl

/-- Blanks neither separate pieces nor keep them together. -/
theorem pieces_removeBlanks (n : Nesting) (cs : List Char) :
    pieces n (removeBlanks cs) = (pieces n cs).map removeBlanks := by
  induction cs generalizing n with
  | nil => rfl
  | cons c cs ih =>
    rcases exists_pieces_eq_cons (n.next c) cs with ⟨p, ps, hps⟩
    by_cases hc : isBlank c = true
    · have hcomma : c ≠ ',' := by
        rintro rfl
        exact absurd hc (by decide)
      -- the counters do not see a blank
      have hnext : n.next c = n := Nesting.next_of_not_isDelimiter (not_isDelimiter_of_isBlank hc) n
      rw [hnext] at hps
      rw [removeBlanks_cons_blank hc, pieces_cons fun h => hcomma h.2, hnext, ih, hps,
        List.modifyHead_cons, List.map_cons, List.map_cons, removeBlanks_cons_blank hc]
    · rw [Bool.not_eq_true] at hc
      rw [removeBlanks_cons hc, pieces, pieces, ih, hps]
      split
      · rfl
      · simp only [List.map_cons, List.modifyHead_cons, removeBlanks_cons hc]

/-- A balanced text, read with `n` open around it, that has no comma at top level. -/
structure IsPiece (n : Nesting) (cs : List Char) : Prop where
  balanced : n.run cs = some {}
  single : pieces n cs = [cs]

theorem isPiece_nil : IsPiece {} [] := ⟨rfl, rfl⟩

theorem IsPiece.cons (h : IsPiece (n.next c) cs) (hstep : n.step c = .ok (n.next c))
    (hc : ¬((n.next c).isTopLevel ∧ c = ',')) : IsPiece n (c :: cs) where
  balanced := Nesting.run_cons_iff.2 ⟨hstep, h.balanced⟩
  single := by rw [pieces_cons hc, h.single]; rfl

theorem IsPiece.of_cons (h : IsPiece n (c :: cs)) :
    n.step c = .ok (n.next c) ∧ ¬((n.next c).isTopLevel ∧ c = ',') ∧ IsPiece (n.next c) cs := by
  rcases Nesting.run_cons_iff.1 h.balanced with ⟨hstep, hbalanced⟩
  rcases exists_pieces_eq_cons (n.next c) cs with ⟨p, ps, hps⟩
  have hsingle := h.single
  by_cases hc : (n.next c).isTopLevel ∧ c = ','
  · -- the text would have an empty piece first
    rw [pieces, if_pos hc] at hsingle
    exact absurd (List.cons.inj hsingle).1 (by simp)
  · rw [pieces_cons hc, hps] at hsingle
    simp only [List.modifyHead_cons, List.cons.injEq, true_and] at hsingle
    rcases hsingle with ⟨rfl, rfl⟩
    exact ⟨hstep, hc, hbalanced, hps⟩

/-- The pieces of a balanced text are pieces, the first one with what is open around the text. -/
theorem isPiece_of_pieces_eq_cons {ps : List (List Char)} (hrun : n.run cs = some {})
    (hps : pieces n cs = p :: ps) : IsPiece n p ∧ ∀ q ∈ ps, IsPiece {} q := by
  induction cs generalizing n p ps with
  | nil =>
    rcases List.cons.inj hps with ⟨rfl, rfl⟩
    have hn : n = {} := Option.some.inj hrun
    exact ⟨hn ▸ isPiece_nil, by simp⟩
  | cons c cs ih =>
    rcases Nesting.run_cons_iff.1 hrun with ⟨hstep, hrun⟩
    rcases exists_pieces_eq_cons (n.next c) cs with ⟨q, qs, hqs⟩
    rcases ih hrun hqs with ⟨hfirst, hothers⟩
    by_cases hc : (n.next c).isTopLevel ∧ c = ','
    · -- a comma at top level: the first piece ends, empty, and the next one begins
      have hnext : n.next c = {} := Nesting.isTopLevel_iff.1 hc.1
      have hn : n = {} := by
        rw [← hnext, hc.2]
        exact (Nesting.next_of_not_isDelimiter rfl n).symm
      rw [pieces, if_pos hc, hqs] at hps
      rcases List.cons.inj hps with ⟨rfl, rfl⟩
      refine ⟨hn ▸ isPiece_nil, ?_⟩
      intro r hr
      rcases List.mem_cons.1 hr with rfl | hr
      · exact hnext ▸ hfirst
      · exact hothers r hr
    · rw [pieces_cons hc, hqs, List.modifyHead_cons] at hps
      rcases List.cons.inj hps with ⟨rfl, rfl⟩
      exact ⟨hfirst.cons hstep hc, hothers⟩

theorem isPiece_of_mem_pieces (hrun : Nesting.run {} cs = some {}) (hp : p ∈ pieces {} cs) :
    IsPiece {} p := by
  rcases exists_pieces_eq_cons {} cs with ⟨q, qs, hqs⟩
  rcases isPiece_of_pieces_eq_cons hrun hqs with ⟨hfirst, hothers⟩
  rw [hqs] at hp
  rcases List.mem_cons.1 hp with rfl | hp
  · exact hfirst
  · exact hothers p hp

/-- Pieces that are joined by commas are found again. -/
theorem pieces_intercalate {ps : List (List Char)} (hne : ps ≠ []) (hps : ∀ p ∈ ps, IsPiece {} p) :
    pieces {} ([','].intercalate ps) = ps := by
  induction ps with
  | nil => exact absurd rfl hne
  | cons p ps ih =>
    rw [List.forall_mem_cons] at hps
    cases ps with
    | nil => simpa using hps.1.single
    | cons q qs =>
      rw [List.intercalate_cons_cons, List.append_assoc, List.singleton_append,
        pieces_append_comma hps.1.balanced, hps.1.single, ih (by simp) hps.2]
      rfl

theorem run_intercalate {ps : List (List Char)} (hps : ∀ p ∈ ps, IsPiece {} p) :
    Nesting.run {} ([','].intercalate ps) = some {} := by
  induction ps with
  | nil => rfl
  | cons p ps ih =>
    rw [List.forall_mem_cons] at hps
    cases ps with
    | nil => simpa using hps.1.balanced
    | cons q qs =>
      rw [List.intercalate_cons_cons, List.append_assoc, Nesting.run_append, hps.1.balanced]
      exact ih hps.2

/-! ## Blank pieces -/

/-- For each piece, whether it is blank. -/
def blankPieces (n : Nesting) (cs : List Char) : List Bool :=
  (pieces n cs).map (·.all isBlank)

theorem blankPieces_cons :
    blankPieces n (c :: cs) =
      if (n.next c).isTopLevel ∧ c = ',' then true :: blankPieces (n.next c) cs
      else (blankPieces (n.next c) cs).modifyHead (isBlank c && ·) := by
  rcases exists_pieces_eq_cons (n.next c) cs with ⟨p, ps, hps⟩
  simp only [blankPieces, pieces, hps]
  split
  · rfl
  · rfl

/-- Texts with the same blank pieces have them behind any text. -/
theorem blankPieces_append_congr (h : ∀ n, blankPieces n as = blankPieces n bs) (cs : List Char) :
    blankPieces n (cs ++ as) = blankPieces n (cs ++ bs) := by
  induction cs generalizing n with
  | nil => exact h n
  | cons c cs ih => rw [List.cons_append, List.cons_append, blankPieces_cons, blankPieces_cons, ih]

/-- A text without delimiters and commas joins the first piece. -/
theorem blankPieces_append_plain (has : ∀ c ∈ as, isDelimiter c = false ∧ c ≠ ',') :
    blankPieces n (as ++ cs) = (blankPieces n cs).modifyHead (as.all isBlank && ·) := by
  rcases exists_pieces_eq_cons n cs with ⟨p, ps, hps⟩
  rw [blankPieces, pieces_append_plain has, blankPieces, hps]
  simp

/-- Blanks make no piece blank. -/
theorem blankPieces_removeBlanks (n : Nesting) (cs : List Char) :
    blankPieces n (removeBlanks cs) = blankPieces n cs := by
  have hall (p : List Char) : (removeBlanks p).all isBlank = p.all isBlank := by
    rw [Bool.eq_iff_iff]
    simp [removeBlanks]
  rw [blankPieces, pieces_removeBlanks, List.map_map, blankPieces]
  exact List.map_congr_left fun p _ => hall p

/-- A text is blank if it is a single piece and this piece is blank. -/
theorem blankPieces_eq_singleton_iff : blankPieces n cs = [true] ↔ ∀ c ∈ cs, isBlank c = true := by
  induction cs generalizing n with
  | nil => simp [blankPieces, pieces]
  | cons c cs ih =>
    rcases exists_pieces_eq_cons (n.next c) cs with ⟨p, ps, hps⟩
    have htail := @ih (n.next c)
    rw [blankPieces_cons, List.forall_mem_cons]
    rw [blankPieces, hps] at htail ⊢
    split
    · next hc =>
      -- the comma is not blank
      rw [hc.2]
      simp [show isBlank ',' = false by decide]
    · rw [← htail]
      simp [and_assoc]

end Declaration

end AbiSig
