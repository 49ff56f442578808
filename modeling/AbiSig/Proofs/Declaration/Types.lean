import AbiSig.Proofs.Declaration.Verdict

/-!
# The types of the arguments

* `typeTokens_eq_ok_iff`: the scan accepts the balanced texts of whose pieces each has a type, and
  returns these types.
* `isType_of_mem_typeTokens`: the types that the scan returns are balanced, have no comma and no
  space at top level, and do not begin with a space.
* `typeTokens_intercalate`: such types without any space, joined by commas, are found again.
-/

namespace AbiSig.Declaration

open Text

variable {n : Nesting} {c : Char} {cs p t : List Char} {types : List (List Char)}

/-! ## What is accepted -/

/-- The scan accepts the balanced texts of whose pieces each has a type. -/
theorem typeTokens_eq_ok_iff :
    typeTokens cs = .ok types ↔
      Nesting.run {} cs = some {} ∧ types = (pieces {} cs).map typeOf ∧ [] ∉ types := by
  rw [typeTokens_eq_verdict, verdict_eq_ok_iff, checkBalanced_eq_ok_iff 0]
  constructor
  · rintro ⟨hbalanced, rfl, hne⟩
    rw [Nesting.readable_of_run hbalanced] at hne ⊢
    exact ⟨hbalanced, rfl, hne⟩
  · rintro ⟨hbalanced, rfl, hne⟩
    rw [Nesting.readable_of_run hbalanced]
    exact ⟨hbalanced, rfl, hne⟩

/-- The scan finds a type in every text that it accepts. -/
theorem ne_nil_of_typeTokens (h : typeTokens cs = .ok types) : cs ≠ [] := by
  rintro rfl
  rcases typeTokens_eq_ok_iff.1 h with ⟨-, heq, hne⟩
  exact hne (heq ▸ List.mem_singleton_self [])

/-! ## What the types look like -/

/-- A piece without a space at top level and in front. -/
structure IsType (t : List Char) : Prop extends IsPiece {} t where
  no_space : upToSpace {} t = t

theorem IsType.head_ne_space (h : IsType t) : t.head? ≠ some ' ' := by
  intro hhead
  rcases List.head?_eq_some_iff.1 hhead with ⟨cs, rfl⟩
  exact absurd h.no_space (by simp [upToSpace_space])

theorem IsType.typeOf_eq (h : IsType t) : typeOf t = t := by
  rw [typeOf_eq_upToSpace h.head_ne_space, h.no_space]

/-- What stands before the first space at top level of a piece is a piece. -/
theorem isPiece_upToSpace (h : IsPiece n cs) :
    IsPiece n (upToSpace n cs) ∧ upToSpace n (upToSpace n cs) = upToSpace n cs := by
  induction cs generalizing n with
  | nil => exact ⟨h, rfl⟩
  | cons c cs ih =>
    rcases h.of_cons with ⟨hstep, hcomma, htail⟩
    by_cases hspace : (n.next c).isTopLevel ∧ c = ' '
    · -- the text is cut here, where nothing is open
      have hn : n = {} := by
        rw [← Nesting.isTopLevel_iff.1 hspace.1, hspace.2]
        exact (isTopLevel_next_space n).symm
      rw [upToSpace, if_pos hspace]
      exact ⟨hn ▸ isPiece_nil, rfl⟩
    · rcases ih htail with ⟨hpiece, hself⟩
      rw [upToSpace_cons hspace, upToSpace_cons hspace, hself]
      exact ⟨hpiece.cons hstep hcomma, rfl⟩

theorem isType_typeOf (h : IsPiece {} p) : IsType (typeOf p) := by
  have hdrop : IsPiece {} (p.dropWhile (· == ' ')) := by
    induction p with
    | nil => exact h
    | cons c p ih =>
      by_cases hc : c = ' '
      · subst hc
        rcases h.of_cons with ⟨-, -, htail⟩
        exact ih htail
      · rw [List.dropWhile_cons_of_neg (by simpa using hc)]
        exact h
  rcases isPiece_upToSpace hdrop with ⟨hpiece, hself⟩
  exact ⟨hpiece, hself⟩

theorem isType_of_mem_typeTokens (h : typeTokens cs = .ok types) (ht : t ∈ types) :
    IsType t ∧ t ≠ [] := by
  rcases typeTokens_eq_ok_iff.1 h with ⟨hrun, rfl, hne⟩
  rcases List.mem_map.1 ht with ⟨p, hp, rfl⟩
  exact ⟨isType_typeOf (isPiece_of_mem_pieces hrun hp), fun heq => hne (heq ▸ ht)⟩

theorem mem_of_mem_typeTokens (h : typeTokens cs = .ok types) (ht : t ∈ types) (hc : c ∈ t) :
    c ∈ cs := by
  rcases typeTokens_eq_ok_iff.1 h with ⟨-, rfl, -⟩
  rcases List.mem_map.1 ht with ⟨p, hp, rfl⟩
  exact mem_of_mem_pieces hp (mem_of_mem_typeOf hc)

/-- Types that are joined by commas are found again. -/
theorem typeTokens_intercalate (hne : types ≠ []) (htypes : ∀ t ∈ types, IsType t ∧ t ≠ []) :
    typeTokens ([','].intercalate types) = .ok types := by
  have hpieces : ∀ t ∈ types, IsPiece {} t := fun t ht => (htypes t ht).1.toIsPiece
  refine typeTokens_eq_ok_iff.2 ⟨run_intercalate hpieces, ?_, fun hnil => (htypes [] hnil).2 rfl⟩
  have hself : types.map typeOf = types.map id :=
    List.map_congr_left fun t ht => (htypes t ht).1.typeOf_eq
  rw [pieces_intercalate hne hpieces, hself, List.map_id]

/-- A type stays one when its blanks are removed. -/
theorem IsType.removeBlanks (h : IsType t) : IsType (removeBlanks t) where
  balanced := by
    rw [Nesting.run_removeBlanks]
    exact h.balanced
  single := by rw [pieces_removeBlanks, h.single]; rfl
  no_space := upToSpace_eq_self fun hspace =>
    absurd (not_isBlank_of_mem_removeBlanks hspace) (by decide)

end AbiSig.Declaration
