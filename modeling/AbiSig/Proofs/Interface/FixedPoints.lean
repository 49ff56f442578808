import AbiSig.Proofs.Interface.Language

/-!
# Results that are read again

`canonicalize` writes two texts that are declarations themselves, the normal form and the signature.

* `canonicalize_text_of_normalize`: the normal form stands for the declaration, in success and in
  failure.
* `canonicalize_signature`: the signature is its own normal form and its own signature, if all blanks
  of the declaration are layout.
-/

namespace AbiSig

open Text Declaration

variable {raw : String} {n : Normalized} {r : Interface} {name inside cs : List Char}
  {types : List (List Char)}

/-! ## The normal form -/

/-- A normal form is normalized to itself, and nothing that comes after it can tell it from the
declaration. -/
theorem canonicalize_text_of_normalize (h : normalize raw = .ok n) :
    normalize n.text = .ok n ∧ canonicalize n.text = canonicalize raw := by
  have hself : normalize n.text = .ok n := normalize_text_of_ok h
  refine ⟨hself, ?_⟩
  rw [canonicalize, canonicalize, h, hself]

/-- A name that is a keyword, text that is not ASCII, and a `(` that nothing closes. -/
theorem canonicalize_text_of_function :
    normalize "\u00a0function\tfunction (\u03b1x , ( \u00e9) \x7b" =
        .ok ⟨"function", "\u03b1x, (\u00e9"⟩ ∧
      normalize "function(\u03b1x, (\u00e9)" = .ok ⟨"function", "\u03b1x, (\u00e9"⟩ ∧
      canonicalize "function(\u03b1x, (\u00e9)" =
        canonicalize "\u00a0function\tfunction (\u03b1x , ( \u00e9) \x7b" := by
  have hn : normalize "\u00a0function\tfunction (\u03b1x , ( \u00e9) \x7b" =
      .ok ⟨"function", "\u03b1x, (\u00e9"⟩ := by decide +kernel
  exact ⟨hn, canonicalize_text_of_normalize hn⟩

/-! ## The signature -/

/-- The types without their blanks have the same signature. -/
theorem signatureOf_map_removeBlanks (name : List Char) (types : List (List Char)) :
    signatureOf name (types.map removeBlanks) = signatureOf name types := by
  rw [signatureOf, signatureOf, ← removeBlanks_intercalate, removeBlanks_removeBlanks]

/-- Types that are joined without their blanks are found again. -/
theorem types_removeBlanks {name : String}
    (htypes : ∀ t ∈ types, IsType t ∧ removeBlanks t ≠ []) :
    Normalized.types ⟨name, String.ofList (removeBlanks ([','].intercalate types))⟩ =
      .ok (types.map removeBlanks) := by
  have hblank : ∀ c ∈ removeBlanks ([','].intercalate types), isBlank c = false :=
    fun c hc => not_isBlank_of_mem_removeBlanks hc
  have hmap : ∀ t ∈ types.map removeBlanks, IsType t ∧ t ≠ [] := by
    intro t ht
    rcases List.mem_map.1 ht with ⟨u, hu, rfl⟩
    exact ⟨(htypes u hu).1.removeBlanks, (htypes u hu).2⟩
  by_cases hne : types = []
  · rw [Normalized.types_eq_ok_iff, String.toList_ofList, parameterText_eq_self hblank, hne]
    exact Or.inl ⟨rfl, rfl⟩
  · apply Normalized.types_of_typeTokens
    rw [String.toList_ofList, parameterText_eq_self hblank, removeBlanks_intercalate]
    exact typeTokens_intercalate (by simpa using hne) hmap

/-- The types of a declaration do not consist of blanks. -/
theorem removeBlanks_ne_nil_of_mem_types {name : String} {t : List Char}
    (hinside : ∀ c ∈ inside, isBlank c = true → isLayout c = true)
    (htypes : Normalized.types ⟨name, String.ofList (argumentText inside)⟩ = .ok types)
    (ht : t ∈ types) : removeBlanks t ≠ [] := by
  rcases Normalized.isType_of_mem_types htypes ht with ⟨htype, hne⟩
  rcases List.exists_cons_of_ne_nil hne with ⟨c, cs, rfl⟩
  have hmem : c ∈ argumentText inside := by
    simpa using Normalized.mem_of_mem_types htypes ht List.mem_cons_self
  have hc : isBlank c = false := by
    rw [← Bool.not_eq_true]
    intro hblank
    -- the only blanks in the list are spaces, and no type begins with one
    have hspace : c = ' ' := eq_space_of_mem_argumentText hinside hmem hblank
    exact htype.head_ne_space (by rw [hspace, List.head?_cons])
  simp [removeBlanks_cons hc]

/-- The parts of a signature. -/
theorem parts_signatureOf (hname : isIdentifier name = true) (htypes : ∀ t ∈ types, IsType t) :
    Parts (signatureOf name types).text name (removeBlanks ([','].intercalate types)) [] := by
  have hrun : Nesting.run {} (removeBlanks ([','].intercalate types)) = some {} := by
    rw [Nesting.run_removeBlanks]
    exact run_intercalate fun t ht => (htypes t ht).toIsPiece
  refine parts_iff.2 ⟨?_, not_mem_identifier hname (by decide), (Nesting.run_eq_some_iff.1 hrun).1⟩
  exact toList_signatureOf fun c => not_isBlank_of_mem_identifier hname

/-- The signature is a fixed point. -/
theorem canonicalize_signature (hlayout : ∀ c ∈ raw.toList, isBlank c = true → isLayout c = true)
    (h : canonicalize raw = .ok r) :
    ∃ r', canonicalize r.signature.text = .ok r' ∧ r'.signature = r.signature ∧
      r'.normalized.text = r.signature.text ∧ r'.kind = r.kind ∧ r'.digest = r.digest ∧
      r'.selector = r.selector := by
  rcases canonicalize_parts_iff.1 h with
    ⟨before, inside, rest, types, hparts, hident, -, htypes, rfl⟩
  have hinside : ∀ c ∈ inside, isBlank c = true → isLayout c = true :=
    fun c hc => hlayout c (hparts.mem_inside hc)
  have htype : ∀ t ∈ types, IsType t ∧ removeBlanks t ≠ [] := by
    intro t ht
    exact ⟨(Normalized.isType_of_mem_types htypes ht).1,
      removeBlanks_ne_nil_of_mem_types hinside htypes ht⟩
  have hblank : ∀ c ∈ declaredName before, isBlank c = false :=
    fun c => not_isBlank_of_mem_identifier hident
  -- the two parts of the signature are left alone by all stages
  have hname : declaredName (declaredName before) = declaredName before :=
    declaredName_of_isIdentifier hident
  have hlist : argumentText (removeBlanks ([','].intercalate types)) =
      removeBlanks ([','].intercalate types) :=
    argumentText_eq_self fun c hc => not_isBlank_of_mem_removeBlanks hc
  have hnormal : normalOf (declaredName before) (removeBlanks ([','].intercalate types)) =
      ⟨String.ofList (declaredName before),
        String.ofList (removeBlanks ([','].intercalate types))⟩ := by
    rw [normalOf, hname, hlist]
  have hresult : canonicalize (signatureOf (declaredName before) types).text =
      .ok (.ofSignature ⟨String.ofList (declaredName before),
        String.ofList (removeBlanks ([','].intercalate types))⟩
        (signatureOf (declaredName before) types)) := by
    refine canonicalize_parts_iff.2 ⟨declaredName before,
      removeBlanks ([','].intercalate types), [], types.map removeBlanks,
      parts_signatureOf hident fun t ht => (htype t ht).1, ?_, rfl, ?_, ?_⟩
    · rwa [hname]
    · rw [hnormal]
      exact types_removeBlanks htype
    · rw [hnormal, hname, signatureOf_map_removeBlanks]
  have htext : Normalized.text ⟨String.ofList (declaredName before),
      String.ofList (removeBlanks ([','].intercalate types))⟩ =
        (signatureOf (declaredName before) types).text := by
    apply String.toList_injective
    rw [Normalized.toList_text, toList_signatureOf hblank, String.toList_ofList,
      String.toList_ofList]
  exact ⟨_, hresult, rfl, htext, rfl, rfl, rfl⟩

/-- An event with a tuple whose members have names. -/
def swap : String :=
  "event Swap( address indexed by, (uint256 paid, uint8)[ ] fees );"

/-- In a tuple the names of the members stay; the signature is a fixed point all the same. -/
theorem canonicalize_signature_swap :
    ∃ r, canonicalize swap = .ok r ∧ r.signature.text = "Swap(address,(uint256paid,uint8)[])" ∧
      ∃ r', canonicalize r.signature.text = .ok r' ∧ r'.signature = r.signature ∧
        r'.normalized.text = r.signature.text ∧ r'.kind = r.kind ∧ r'.digest = r.digest ∧
        r'.selector = r.selector := by
  have hn : normalize swap = .ok ⟨"Swap", "address indexed by, (uint256 paid, uint8)[] fees"⟩ := by
    decide +kernel
  have htypes : Normalized.types ⟨"Swap", "address indexed by, (uint256 paid, uint8)[] fees"⟩ =
      .ok ["address".toList, "(uint256 paid, uint8)[]".toList] := by decide +kernel
  have haccepted := canonicalize_eq_ok_iff.2 ⟨_, _, hn, htypes, rfl⟩
  have hlayout : ∀ c ∈ swap.toList, isBlank c = true → isLayout c = true := by decide
  refine ⟨_, haccepted, ?_, canonicalize_signature hlayout haccepted⟩
  show (signatureOf "Swap".toList ["address".toList, "(uint256 paid, uint8)[]".toList]).text = _
  decide +kernel

end AbiSig
