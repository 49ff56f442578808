import AbiSig.Proofs.Interface.Language

/-!
# What follows the argument list

A declaration `p` that ends with its argument list may be followed by any text `s`. The two do not see
each other:

1. If `s` is balanced, it is dropped. What becomes of `p` becomes of the whole text; only an error that
   quotes its input tells the two apart (`canonicalize_append_of_balanced`).
2. If `s` is not, the whole text is refused for it, whatever `p` is. The error names the delimiter for
   which `s` loses its balance, and counts its offset from the beginning of `p`
   (`canonicalize_append_of_unbalanced`).

`canonicalize_append` puts both together.
-/

namespace AbiSig

open Text Declaration

/-! ## Errors -/

/-- The same error, quoting another input where it quotes one. -/
def SignatureError.requote (input : String) : SignatureError → SignatureError
  | invalidFormat _ fault => invalidFormat input fault
  | e => e

/-- The error comes from the scan of the arguments. -/
inductive ScanError : SignatureError → Prop where
  | unbalanced (imbalance : Imbalance) : ScanError (.unbalanced imbalance)
  | emptyArgument (index : Nat) : ScanError (.emptyArgument index)

variable {before inside : List Char} {e : SignatureError} {p s : String}

theorem ScanError.requote_eq (h : ScanError e) (input : String) : e.requote input = e := by
  cases h with
  | unbalanced imbalance => rfl
  | emptyArgument index => rfl

theorem scanError_of_typeList {n : Normalized} (h : n.typeList = .error e) : ScanError e := by
  rcases typeTokens_eq_error_inv (n.typeTokens_of_typeList h) with ⟨k, rfl⟩ | ⟨imbalance, -, rfl⟩
  · exact ScanError.emptyArgument k
  · exact ScanError.unbalanced imbalance

/-! ## The two stages that see the text -/

/-- The text before what follows the argument list is cut off as a whole. -/
theorem splitArguments_append (hp : Parts p before inside []) (s : String) :
    splitArguments (p ++ s).toList = some (p.toList, s.toList) := by
  rw [splitArguments_eq_some_iff]
  refine ⟨before, inside, hp.first, hp.text, ?_, hp.depth⟩
  rw [String.toList_append, hp.text]
  simp

theorem throughArguments_append_of_balanced (hp : Parts p before inside [])
    (hs : Nesting.run {} s.toList = some {}) : throughArguments (p ++ s) = .ok p.toList := by
  apply throughArguments_of_checked (splitArguments_append hp s)
  rw [checkBalanced_eq_ok_iff]
  exact hs

theorem throughArguments_self (hp : Parts p before inside []) :
    throughArguments p = .ok p.toList := by
  have hempty := throughArguments_append_of_balanced (s := "") hp rfl
  rwa [String.append_empty] at hempty

theorem normalize_append_of_balanced (hp : Parts p before inside [])
    (hs : Nesting.run {} s.toList = some {}) :
    normalize (p ++ s) = (normalize p).mapError (·.requote (p ++ s)) := by
  unfold normalize
  rw [throughArguments_append_of_balanced hp hs, throughArguments_self hp]
  simp only [bind, Except.bind]
  cases Normalized.ofTidy (trimStart (dropKeywords (tidy (trimStart p.toList)))) with
  | ok n => rfl
  | error fault => rfl

/-! ## The whole -/

/-- Balanced text behind the argument list is dropped. -/
theorem canonicalize_append_of_balanced (hp : Parts p before inside [])
    (hs : Nesting.run {} s.toList = some {}) :
    canonicalize (p ++ s) = (canonicalize p).mapError (·.requote (p ++ s)) := by
  unfold canonicalize
  rw [normalize_append_of_balanced hp hs]
  cases normalize p with
  | error e => rfl
  | ok n =>
    show (do
        let types ← n.typeList
        return Interface.ofSignature n (.assemble n.name types)) =
      (do
        let types ← n.typeList
        return Interface.ofSignature n (.assemble n.name types)).mapError _
    -- the errors that are left quote no input
    cases htypes : n.typeList with
    | ok types => rfl
    | error e =>
      show Except.error e = Except.error (e.requote (p ++ s))
      rw [(scanError_of_typeList htypes).requote_eq]

/-- Text behind the argument list that is not balanced is refused, whatever comes before. -/
theorem canonicalize_append_of_unbalanced (hp : Parts p before inside []) {imbalance : Imbalance}
    (hs : LosesBalance (utf8Size p.toList) s.toList imbalance) :
    canonicalize (p ++ s) = .error (.unbalanced imbalance) := by
  have hcheck := checkBalanced_eq_error_iff.2 hs
  have hcut := throughArguments_of_refused (splitArguments_append hp s) hcheck
  unfold canonicalize
  rw [normalize_of_cut_error hcut]
  rfl

/-- Text behind the argument list is dropped as a whole, or the whole is refused for it. -/
theorem canonicalize_append (hp : Parts p before inside []) (s : String) :
    (Balanced '(' ')' s.toList ∧ Balanced '[' ']' s.toList →
      canonicalize (p ++ s) = (canonicalize p).mapError (·.requote (p ++ s))) ∧
    (¬(Balanced '(' ')' s.toList ∧ Balanced '[' ']' s.toList) →
      ∃ imbalance, canonicalize (p ++ s) = .error (.unbalanced imbalance) ∧
        LosesBalance (utf8Size p.toList) s.toList imbalance ∧
        (imbalance.delimiter = .closeParen ∨ imbalance.delimiter = .closeBracket →
          (utf8Bytes (p ++ s).toList)[imbalance.offset]? =
            some imbalance.delimiter.toChar.toUInt8)) := by
  rw [← Nesting.run_eq_zero_iff]
  constructor
  · intro hs
    exact canonicalize_append_of_balanced hp hs
  · intro hs
    rw [← checkBalanced_eq_ok_iff (utf8Size p.toList)] at hs
    cases hcheck : checkBalanced (utf8Size p.toList) s.toList with
    | ok => exact absurd hcheck hs
    | error imbalance =>
      have hlost := checkBalanced_eq_error_iff.1 hcheck
      refine ⟨imbalance, canonicalize_append_of_unbalanced hp hlost, hlost, ?_⟩
      intro hclose
      rw [String.toList_append]
      exact hlost.byte_at hclose

/-- A declaration whose text is not ASCII, followed by a clause that is dropped, and by one in which a
bracket closes that nothing opened. -/
theorem canonicalize_append_returns :
    Parts "f(\u00e9 x)" "f".toList "\u00e9 x".toList [] ∧
      canonicalize ("f(\u00e9 x)" ++ " returns (bool) \x7b") = canonicalize "f(\u00e9 x)" ∧
      canonicalize ("f(\u00e9 x)" ++ " (\u00e9])") =
        .error (.unbalanced { delimiter := .closeBracket, offset := 11 }) := by
  have hp : Parts "f(\u00e9 x)" "f".toList "\u00e9 x".toList [] := by
    rw [parts_iff]
    decide
  have haccepted : ∃ r, canonicalize "f(\u00e9 x)" = .ok r :=
    ⟨_, canonicalize_eq_ok_iff.2 ⟨⟨"f", "\u00e9 x"⟩, ["\u00e9".toList],
      by decide +kernel, by decide +kernel, rfl⟩⟩
  refine ⟨hp, ?_, ?_⟩
  · have hs : Nesting.run {} " returns (bool) \x7b".toList = some {} := by decide
    rw [(canonicalize_append hp _).1 (Nesting.run_eq_zero_iff.1 hs)]
    rcases haccepted with ⟨r, hr⟩
    rw [hr]
    rfl
  · have hs : Nesting.run {} " (\u00e9])".toList ≠ some {} := by decide
    have hcheck : checkBalanced (utf8Size "f(\u00e9 x)".toList) " (\u00e9])".toList =
        .error { delimiter := .closeBracket, offset := 11 } := by rfl
    rcases (canonicalize_append hp _).2 fun h => hs (Nesting.run_eq_zero_iff.2 h) with
      ⟨imbalance, hresult, hlost, -⟩
    have hsame := checkBalanced_eq_error_iff.2 hlost
    rw [hcheck, Except.error.injEq] at hsame
    rw [hresult, hsame]

end AbiSig
