import AbiSig.Proofs.Interface.FixedPoints
import AbiSig.Proofs.Signature.Assembled

/-!
# What a signature says of its declaration

A signature is one text, and this text is hashed. Its name and its types can be read back:
`Signature.types` cuts what stands between its parentheses at the commas at top level.

1. The name of a signature is that of the declaration, and its types are those that the scan found,
   without their blanks (`name_signatureOf`, `types_signatureOf`).
2. So two signatures are the same only if name and types are (`signature_eq_iff`).
3. A type is empty in the signature exactly if the scan found it and it is blank
   (`empty_types_of_signature`). No such type is found when all blanks are layout. Other blanks stay
   in the text that is scanned, and an argument that consists of them is taken for a type.

The argument list is trimmed, so its first type is never blank (`Normalized.head_types_not_blank`).
Otherwise a list with one blank type could not be told from a list without types.
-/

namespace AbiSig

open Text Declaration

/-! ## Reading a signature -/

/-- The types in a signature: the pieces between the commas at top level, or none if nothing stands
between the parentheses. -/
def Signature.types (s : Signature) : List (List Char) :=
  if s.args = "" then [] else pieces {} s.args.toList

variable {raw raw' : String} {n : Normalized} {r r' : Interface} {name cs t : List Char}
  {types types' : List (List Char)}

theorem name_signatureOf (hname : isIdentifier name = true) (types : List (List Char)) :
    (signatureOf name types).name = String.ofList name :=
  Signature.name_of_text (not_mem_identifier hname (by decide))
    (toList_signatureOf fun _ => not_isBlank_of_mem_identifier hname)

theorem args_signatureOf (hname : isIdentifier name = true) (types : List (List Char)) :
    (signatureOf name types).args = String.ofList (removeBlanks ([','].intercalate types)) :=
  Signature.args_of_text (not_mem_identifier hname (by decide))
    (toList_signatureOf fun _ => not_isBlank_of_mem_identifier hname)

/-! ## The first type -/

/-- The first type of a text that does not begin with a blank has its first character. -/
theorem removeBlanks_head_ne_nil (hcs : ∀ c ∈ cs.head?, isBlank c = false)
    (h : typeTokens cs = .ok (t :: types)) : removeBlanks t ≠ [] := by
  rcases List.exists_cons_of_ne_nil (ne_nil_of_typeTokens h) with ⟨c, cs, rfl⟩
  have hc : isBlank c = false := hcs c rfl
  have hspace : c ≠ ' ' := by
    rintro rfl
    exact absurd hc (by decide)
  rcases typeTokens_eq_ok_iff.1 h with ⟨-, heq, hne⟩
  rw [List.mem_cons, not_or] at hne
  by_cases hcomma : (Nesting.next {} c).isTopLevel ∧ c = ','
  · -- a comma in front would leave the first argument empty
    rw [pieces, if_pos hcomma, List.map_cons] at heq
    have ht : t = [] := (List.cons.inj heq).1
    exact absurd ht.symm hne.1
  · rcases exists_pieces_eq_cons (Nesting.next {} c) cs with ⟨p, ps, hps⟩
    rw [pieces_cons hcomma, hps, List.modifyHead_cons, List.map_cons] at heq
    have ht : t = typeOf (c :: p) := (List.cons.inj heq).1
    rw [ht, typeOf_cons hspace, removeBlanks_cons hc]
    exact List.cons_ne_nil _ _

/-- The first type of a declaration is not blank. -/
theorem Normalized.head_types_not_blank (h : n.types = .ok (t :: types)) : removeBlanks t ≠ [] := by
  rcases Normalized.types_eq_ok_iff.1 h with ⟨-, hnil⟩ | ⟨-, htokens⟩
  · exact absurd hnil (List.cons_ne_nil t types)
  · exact removeBlanks_head_ne_nil (fun _ hc => not_isBlank_of_mem_head?_trim hc) htokens

/-! ## The types of a signature -/

/-- The types come back out of the signature as they went in, without their blanks. -/
theorem types_signatureOf (hname : isIdentifier name = true) (htypes : n.types = .ok types) :
    (signatureOf name types).types = types.map removeBlanks := by
  have hargs := args_signatureOf hname types
  unfold Signature.types
  cases types with
  | nil => rw [hargs]; rfl
  | cons t types =>
    have hpiece : ∀ u ∈ (t :: types).map removeBlanks, IsPiece {} u := by
      intro u hu
      rcases List.mem_map.1 hu with ⟨v, hv, rfl⟩
      exact (Normalized.isType_of_mem_types htypes hv).1.removeBlanks.toIsPiece
    have hjoined : pieces {} (removeBlanks ([','].intercalate (t :: types))) =
        (t :: types).map removeBlanks := by
      rw [removeBlanks_intercalate]
      exact pieces_intercalate (List.cons_ne_nil _ _) hpiece
    -- if the joined types were empty, the first one would be blank
    have hne : (signatureOf name (t :: types)).args ≠ "" := by
      intro hempty
      have hnil : removeBlanks ([','].intercalate (t :: types)) = [] := by
        rw [hargs] at hempty
        simpa using congrArg String.toList hempty
      rw [hnil] at hjoined
      have hfirst : [] = removeBlanks t := (List.cons.inj hjoined).1
      exact Normalized.head_types_not_blank htypes hfirst.symm
    rw [if_neg hne, hargs, String.toList_ofList]
    exact hjoined

/-! ## Declarations -/

/-- What the signature of an accepted declaration says of it. -/
theorem signature_of_canonicalize (h : canonicalize raw = .ok r) :
    ∃ before inside rest types, Parts raw before inside rest ∧
      normalize raw = .ok r.normalized ∧ r.normalized.types = .ok types ∧
      r.signature = signatureOf r.normalized.name.toList types ∧
      r.signature.types = types.map removeBlanks ∧
      r.signature.name = r.normalized.name ∧ r.signature.name.toList = declaredName before := by
  rcases canonicalize_parts_iff.1 h with
    ⟨before, inside, rest, types, hparts, hident, -, htypes, hr⟩
  rcases canonicalize_eq_ok_iff.1 h with ⟨n, found, hn, -, hr'⟩
  have hnormalized : r.normalized = normalOf before inside := by rw [hr]; rfl
  have hname : r.normalized.name = String.ofList (declaredName before) := by rw [hnormalized]; rfl
  have hsignature : r.signature = signatureOf (declaredName before) types := by rw [hr]; rfl
  have hn' : n = r.normalized := by rw [hr']; rfl
  refine ⟨before, inside, rest, types, hparts, hn' ▸ hn, hnormalized ▸ htypes, ?_, ?_, ?_, ?_⟩
  · rw [hname, String.toList_ofList, hsignature]
  · rw [hsignature, types_signatureOf hident htypes]
  · rw [hsignature, name_signatureOf hident, hname]
  · rw [hsignature, name_signatureOf hident, String.toList_ofList]

/-- The signatures of two declarations are the same exactly if their names are, and their types
without blanks. -/
theorem signature_eq_iff (h : canonicalize raw = .ok r) (h' : canonicalize raw' = .ok r')
    (htypes : r.normalized.types = .ok types) (htypes' : r'.normalized.types = .ok types') :
    r.signature = r'.signature ↔
      r.normalized.name = r'.normalized.name ∧ types.map removeBlanks = types'.map removeBlanks := by
  rcases signature_of_canonicalize h with ⟨-, -, -, found, -, -, hfound, hsig, hread, hname, -⟩
  rcases signature_of_canonicalize h' with
    ⟨-, -, -, found', -, -, hfound', hsig', hread', hname', -⟩
  have hsame : found = types := Except.ok.inj (hfound.symm.trans htypes)
  have hsame' : found' = types' := Except.ok.inj (hfound'.symm.trans htypes')
  rw [hsame] at hsig hread
  rw [hsame'] at hsig' hread'
  constructor
  · intro heq
    rw [← hname, ← hname', ← hread, ← hread', heq]
    exact ⟨rfl, rfl⟩
  · rintro ⟨heq, hmap⟩
    rw [hsig, hsig', heq, ← signatureOf_map_removeBlanks, hmap, signatureOf_map_removeBlanks]

/-- A signature determines the name and the types of its declaration, in their order. -/
theorem signature_determines_declaration :
    (∀ (raw : String) (r : Interface), canonicalize raw = .ok r →
      ∃ before inside rest types, Parts raw before inside rest ∧
        normalize raw = .ok r.normalized ∧ r.normalized.types = .ok types ∧
        r.signature.types = types.map removeBlanks ∧
        r.signature.name = r.normalized.name ∧ r.signature.name.toList = declaredName before) ∧
    ∀ (raw raw' : String) (r r' : Interface) (types types' : List (List Char)),
      canonicalize raw = .ok r → canonicalize raw' = .ok r' →
      r.normalized.types = .ok types → r'.normalized.types = .ok types' →
      (r.signature = r'.signature ↔
        r.normalized.name = r'.normalized.name ∧
          types.map removeBlanks = types'.map removeBlanks) ∧
      (types'.Perm types → types.map removeBlanks ≠ types'.map removeBlanks →
        r.signature ≠ r'.signature) := by
  constructor
  · intro raw r h
    rcases signature_of_canonicalize h with
      ⟨before, inside, rest, types, hparts, hn, htypes, -, hread, hname, hdeclared⟩
    exact ⟨before, inside, rest, types, hparts, hn, htypes, hread, hname, hdeclared⟩
  · intro raw raw' r r' types types' h h' htypes htypes'
    have hiff := signature_eq_iff h h' htypes htypes'
    refine ⟨hiff, ?_⟩
    intro _ hne heq
    exact hne (hiff.1 heq).2

/-- Two arguments change places, and with them the types: the signature is another one. -/
theorem signature_of_transfer_reordered :
    ∃ r r', canonicalize "transfer(address to, uint256 amount)" = .ok r ∧
      canonicalize "transfer(uint256 amount, address to)" = .ok r' ∧
      r.signature.types = ["address".toList, "uint256".toList] ∧
      r'.signature.types = ["uint256".toList, "address".toList] ∧
      r.signature ≠ r'.signature := by
  have hn : normalize "transfer(address to, uint256 amount)" =
      .ok ⟨"transfer", "address to, uint256 amount"⟩ := by decide +kernel
  have hn' : normalize "transfer(uint256 amount, address to)" =
      .ok ⟨"transfer", "uint256 amount, address to"⟩ := by decide +kernel
  have htypes : Normalized.types ⟨"transfer", "address to, uint256 amount"⟩ =
      .ok ["address".toList, "uint256".toList] := by decide +kernel
  have htypes' : Normalized.types ⟨"transfer", "uint256 amount, address to"⟩ =
      .ok ["uint256".toList, "address".toList] := by decide +kernel
  have haccepted := canonicalize_eq_ok_iff.2 ⟨_, _, hn, htypes, rfl⟩
  have haccepted' := canonicalize_eq_ok_iff.2 ⟨_, _, hn', htypes', rfl⟩
  rcases signature_determines_declaration with ⟨hread, hdetermined⟩
  refine ⟨_, _, haccepted, haccepted', ?_, ?_, ?_⟩
  · rcases hread _ _ haccepted with ⟨-, -, -, types, -, -, hfound, htaken, -⟩
    rw [htaken, ← Except.ok.inj (htypes.symm.trans hfound)]
    decide
  · rcases hread _ _ haccepted' with ⟨-, -, -, types, -, -, hfound, htaken, -⟩
    rw [htaken, ← Except.ok.inj (htypes'.symm.trans hfound)]
    decide
  · exact (hdetermined _ _ _ _ _ _ haccepted haccepted' htypes htypes').2
      (List.Perm.swap _ _ []) (by decide)

/-! ## Empty types -/

theorem removeBlanks_eq_nil_iff : removeBlanks cs = [] ↔ ∀ c ∈ cs, isBlank c = true := by
  unfold removeBlanks
  rw [List.filter_eq_nil_iff]
  simp

/-- The types of a declaration whose blanks are all layout are not blank. -/
theorem types_not_blank_of_layout (hlayout : ∀ c ∈ raw.toList, isBlank c = true → isLayout c = true)
    (h : canonicalize raw = .ok r) (htypes : r.normalized.types = .ok types) (ht : t ∈ types) :
    removeBlanks t ≠ [] := by
  rcases canonicalize_parts_iff.1 h with ⟨before, inside, rest, found, hparts, -, -, hfound, hr⟩
  have hsame : found = types := by
    rw [hr] at htypes
    exact Except.ok.inj (hfound.symm.trans htypes)
  have hinside : ∀ c ∈ inside, isBlank c = true → isLayout c = true :=
    fun c hc => hlayout c (hparts.mem_inside hc)
  exact removeBlanks_ne_nil_of_mem_types hinside hfound (hsame ▸ ht)

theorem accepted_no_break_space :
    ∃ r, canonicalize "f(a,\u00a0,b)" = .ok r ∧
      r.normalized.types = .ok ["a".toList, "\u00a0".toList, "b".toList] ∧
      r.signature = signatureOf "f".toList ["a".toList, "\u00a0".toList, "b".toList] ∧
      r.digest = r.signature.digest := by
  have hn : normalize "f(a,\u00a0,b)" = .ok ⟨"f", "a,\u00a0,b"⟩ := by decide +kernel
  have htypes : Normalized.types ⟨"f", "a,\u00a0,b"⟩ =
      .ok ["a".toList, "\u00a0".toList, "b".toList] := by decide +kernel
  exact ⟨_, canonicalize_eq_ok_iff.2 ⟨_, _, hn, htypes, rfl⟩, htypes, rfl, rfl⟩

/-- Which types are empty in the signature of a declaration: those that the scan found and that
consist of blanks. The first type is not among them, and if all blanks are layout none is. -/
theorem empty_types_of_signature (h : canonicalize raw = .ok r) :
    ∃ types, r.normalized.types = .ok types ∧
      ([] ∈ r.signature.types ↔ ∃ t ∈ types, ∀ c ∈ t, isBlank c = true) ∧
      r.signature.types.head? ≠ some [] ∧
      ((∀ c ∈ raw.toList, isBlank c = true → isLayout c = true) → [] ∉ r.signature.types) := by
  rcases signature_of_canonicalize h with ⟨-, -, -, types, -, -, htypes, -, hread, -, -⟩
  refine ⟨types, htypes, ?_, ?_, ?_⟩
  · rw [hread, List.mem_map]
    simp only [removeBlanks_eq_nil_iff]
  · rw [hread]
    cases types with
    | nil => simp
    | cons t types =>
      have hfirst : removeBlanks t ≠ [] := Normalized.head_types_not_blank htypes
      simpa using hfirst
  · intro hlayout hmem
    rw [hread, List.mem_map] at hmem
    rcases hmem with ⟨t, ht, hnil⟩
    exact types_not_blank_of_layout hlayout h htypes ht hnil

/-- A no-break space is no layout, and it is kept. Between two commas it is taken for a type, and
nothing is left of it in the signature. -/
theorem empty_types_of_no_break_space :
    ∃ r, canonicalize "f(a,\u00a0,b)" = .ok r ∧ [] ∈ r.signature.types := by
  rcases accepted_no_break_space with ⟨r, haccepted, htypes, -⟩
  refine ⟨r, haccepted, ?_⟩
  rcases empty_types_of_signature haccepted with ⟨types, hfound, hempty, -, -⟩
  refine hempty.2 ⟨"\u00a0".toList, ?_, by decide⟩
  rw [← Except.ok.inj (htypes.symm.trans hfound)]
  decide

/-- So an accepted declaration may have a signature whose types are not all there, and this text is
hashed. -/
theorem hashed_signature_with_empty_type :
    ∃ r, canonicalize "f(a,\u00a0,b)" = .ok r ∧ r.signature.text = "f(a,,b)" ∧
      r.digest = keccak256 (utf8Bytes "f(a,,b)".toList) ∧
      ¬(r.signature.args = "" ∨ ∀ p ∈ pieces {} r.signature.args.toList, p ≠ []) := by
  rcases accepted_no_break_space with ⟨r, haccepted, -, hsignature, hdigest⟩
  have htext : r.signature.text = "f(a,,b)" := by
    rw [hsignature]
    decide +kernel
  have hargs : r.signature.args = "a,,b" := by
    rw [hsignature]
    decide +kernel
  refine ⟨r, haccepted, htext, ?_, ?_⟩
  · rw [hdigest, Signature.digest, htext]
  · rw [hargs]
    decide

end AbiSig
