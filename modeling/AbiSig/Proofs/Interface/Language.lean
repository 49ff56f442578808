import AbiSig.Interface
import AbiSig.Proofs.Declaration.Parameters

/-!
# The language of declarations

Which texts `canonicalize` accepts, said without any of its stages:

* `Parts`: a text falls into the part before its first `(`, the part up to the matching `)`, and the
  rest.
* `WellFormed`: what the three parts must be like.
* `canonicalize_language`: every accepted text has well-formed parts. If all its blanks are layout, a
  text is accepted exactly if it has well-formed parts and its argument list is blank or has no
  blank piece.

`canonicalize_eq_ok_iff` says which result an accepted text has.
-/

namespace AbiSig

open Text Declaration

/-! ## Three parts of a text -/

/-- The text is cut at its first `(` and at the first `)` with which, counted from there, as many
parentheses have closed as have opened. -/
structure Parts (raw : String) (before inside rest : List Char) : Prop where
  text : raw.toList = before ++ '(' :: (inside ++ ')' :: rest)
  first : '(' ∉ before
  closed : inside.count ')' = inside.count '('
  earliest : ∀ p, p <+: inside → p.count ')' ≠ p.count '(' + 1

/-- What the parts of an accepted text are like. -/
structure WellFormed (before inside rest : List Char) : Prop where
  name : isIdentifier (declaredName before) = true
  brackets : Balanced '[' ']' inside
  rest_parens : Balanced '(' ')' rest
  rest_brackets : Balanced '[' ']' rest

variable {raw : String} {n : Normalized} {r : Interface} {name before inside rest cs : List Char}
  {types : List (List Char)}

/-- The first time that more parentheses have closed than have opened, they differ by one. -/
theorem balanced_parens_iff :
    Balanced '(' ')' cs ↔
      cs.count ')' = cs.count '(' ∧ ∀ p, p <+: cs → p.count ')' ≠ p.count '(' + 1 := by
  constructor
  · intro h
    refine ⟨h.ends_at_zero.symm, ?_⟩
    intro p hp
    have hle := h.never_negative p hp
    omega
  · rintro ⟨hclosed, hearliest⟩
    refine ⟨?_, hclosed.symm⟩
    intro p hp
    -- the prefix grows at its end; it would go below zero by one first
    induction p using List.reverseRecOn with
    | nil => simp
    | append_singleton p c ih =>
      have hle := ih ((List.prefix_append p [c]).trans hp)
      have hne := hearliest (p ++ [c]) hp
      simp only [List.count_append, List.count_singleton] at hne ⊢
      by_cases hopen : c = '('
      · subst hopen
        simp at hne ⊢
        omega
      by_cases hclose : c = ')'
      · subst hclose
        simp at hne ⊢
        omega
      · simpa [hopen, hclose] using hle

/-- The two counters are those of the scan. -/
theorem parts_iff :
    Parts raw before inside rest ↔
      raw.toList = before ++ '(' :: (inside ++ ')' :: rest) ∧ '(' ∉ before ∧
        depthAfter '(' ')' 0 inside = some 0 := by
  rw [depthAfter_eq_zero_iff (by decide), balanced_parens_iff]
  constructor
  · intro h
    exact ⟨h.text, h.first, h.closed, h.earliest⟩
  · rintro ⟨htext, hfirst, hclosed, hearliest⟩
    exact ⟨htext, hfirst, hclosed, hearliest⟩

theorem Parts.depth (h : Parts raw before inside rest) : depthAfter '(' ')' 0 inside = some 0 :=
  (parts_iff.1 h).2.2

theorem Parts.mem_inside (h : Parts raw before inside rest) {c : Char} (hc : c ∈ inside) :
    c ∈ raw.toList := by
  rw [h.text]
  simp [hc]

/-- A text has its parts in one way. -/
theorem Parts.inj {before' inside' rest' : List Char} (h : Parts raw before inside rest)
    (h' : Parts raw before' inside' rest') :
    before = before' ∧ inside = inside' ∧ rest = rest' := by
  have hsplit := splitArguments_eq_some_iff.2 ⟨before, inside, h.first, rfl, h.text, h.depth⟩
  have hsplit' := splitArguments_eq_some_iff.2 ⟨before', inside', h'.first, rfl, h'.text, h'.depth⟩
  obtain ⟨hkept, hrest⟩ := Prod.mk.inj (Option.some.inj (hsplit.symm.trans hsplit'))
  obtain ⟨hbefore, hinside⟩ := append_cons_inj h.first h'.first hkept
  exact ⟨hbefore, List.append_cancel_right hinside, hrest⟩

/-! ## Results -/

/-- The signature of a name and its types. -/
def signatureOf (name : List Char) (types : List (List Char)) : Signature :=
  .assemble (String.ofList name) (String.ofList (removeBlanks ([','].intercalate types)))

theorem removeBlanks_intercalate (types : List (List Char)) :
    removeBlanks ([','].intercalate types) = [','].intercalate (types.map removeBlanks) := by
  induction types with
  | nil => rfl
  | cons t types ih =>
    cases types with
    | nil => simp
    | cons u types =>
      rw [List.map_cons] at ih
      rw [List.intercalate_cons_cons, removeBlanks_append, removeBlanks_append, ih,
        List.map_cons, List.map_cons, List.intercalate_cons_cons]
      rfl

/-- The text of a signature: a name and types without blanks. -/
theorem toList_signatureOf (hname : ∀ c ∈ name, isBlank c = false) :
    (signatureOf name types).text.toList =
      name ++ '(' :: (removeBlanks ([','].intercalate types) ++ [')']) := by
  have hclose : removeBlanks [')'] = [')'] := rfl
  rw [signatureOf, Signature.assemble, String.toList_ofList, String.toList_ofList,
    String.toList_ofList, removeBlanks_append, removeBlanks_append, removeBlanks_eq_self hname,
    removeBlanks_cons (by decide), hclose, removeBlanks_removeBlanks, List.append_assoc,
    List.cons_append]

theorem canonicalize_eq_ok_iff :
    canonicalize raw = .ok r ↔
      ∃ n types, normalize raw = .ok n ∧ n.types = .ok types ∧
        r = .ofSignature n (signatureOf n.name.toList types) := by
  simp only [canonicalize, bind_eq_ok_iff, Normalized.typeList_eq_ok_iff, signatureOf,
    String.ofList_toList]
  constructor
  · rintro ⟨n, hn, list, ⟨types, htypes, rfl⟩, hr⟩
    exact ⟨n, types, hn, htypes, (Except.ok.inj hr).symm⟩
  · rintro ⟨n, types, hn, htypes, rfl⟩
    exact ⟨n, hn, _, ⟨types, htypes, rfl⟩, rfl⟩

/-- The signature has the digest, and the digest the selector. -/
theorem keys_of_canonicalize (h : canonicalize raw = .ok r) :
    r.digest = r.signature.digest ∧ r.selector = r.digest.selector := by
  rcases canonicalize_eq_ok_iff.1 h with ⟨n, types, -, -, rfl⟩
  exact ⟨rfl, rfl⟩

/-- The normal form that the parts of a text give. -/
def normalOf (before inside : List Char) : Normalized :=
  ⟨String.ofList (declaredName before), String.ofList (argumentText inside)⟩

/-- The parts of a text decide its result. A text that is cut at its last `)` for want of a matching
one has no types, so only the cut at the matching `)` counts. -/
theorem canonicalize_parts_iff :
    canonicalize raw = .ok r ↔
      ∃ before inside rest types, Parts raw before inside rest ∧
        isIdentifier (declaredName before) = true ∧ Nesting.run {} rest = some {} ∧
        (normalOf before inside).types = .ok types ∧
        r = .ofSignature (normalOf before inside) (signatureOf (declaredName before) types) := by
  rw [canonicalize_eq_ok_iff]
  constructor
  · rintro ⟨n, types, hn, htypes, rfl⟩
    rcases normalize_eq_ok_iff.1 hn with ⟨before, inside, hbefore, hcut, hident, rfl⟩
    have hname : nameBefore before = declaredName before :=
      nameBefore_eq_declaredName hbefore (Or.inl hident)
    rw [hname] at hident htypes ⊢
    -- the types exist, so the parentheses of the argument list match
    have hrun : Nesting.run {} inside = some {} := by
      rw [← run_argumentText]
      simpa using Normalized.run_of_types htypes
    have hdepth : depthAfter '(' ')' 0 inside = some 0 := (Nesting.run_eq_some_iff.1 hrun).1
    rcases throughArguments_open_inv hcut with ⟨rest, hraw, -⟩
    have hrest := ((throughArguments_of_matched hbefore hdepth hraw).1 hcut).2
    have hparts : Parts raw before inside rest := parts_iff.2 ⟨hraw, hbefore, hdepth⟩
    refine ⟨before, inside, rest, types, hparts, hident, hrest, htypes, ?_⟩
    rw [String.toList_ofList, normalOf]
  · rintro ⟨before, inside, rest, types, hparts, hident, hrest, htypes, rfl⟩
    have hname : nameBefore before = declaredName before :=
      nameBefore_eq_declaredName hparts.first (Or.inr hident)
    have hcut := (throughArguments_of_matched hparts.first hparts.depth hparts.text).2 ⟨rfl, hrest⟩
    have hn := (normalize_of_throughArguments hparts.first hcut).2 ⟨by rwa [hname], rfl⟩
    rw [hname] at hn
    refine ⟨_, types, hn, htypes, ?_⟩
    rw [String.toList_ofList, normalOf]

/-- So they are decided by the parts that are known. -/
theorem canonicalize_of_parts (hparts : Parts raw before inside rest) :
    canonicalize raw = .ok r ↔
      isIdentifier (declaredName before) = true ∧ Nesting.run {} rest = some {} ∧
        ∃ types, (normalOf before inside).types = .ok types ∧
          r = .ofSignature (normalOf before inside) (signatureOf (declaredName before) types) := by
  rw [canonicalize_parts_iff]
  constructor
  · rintro ⟨before', inside', rest', types, hparts', hident, hrest, htypes, rfl⟩
    obtain ⟨rfl, rfl, rfl⟩ := hparts.inj hparts'
    exact ⟨hident, hrest, types, htypes, rfl⟩
  · rintro ⟨hident, hrest, types, htypes, rfl⟩
    exact ⟨before, inside, rest, types, hparts, hident, hrest, htypes, rfl⟩

/-! ## Acceptance -/

theorem wellFormed_iff (hparts : Parts raw before inside rest) :
    WellFormed before inside rest ↔
      isIdentifier (declaredName before) = true ∧ Nesting.run {} rest = some {} ∧
        Nesting.run {} inside = some {} := by
  have hparens : Balanced '(' ')' inside := (depthAfter_eq_zero_iff (by decide)).1 hparts.depth
  simp only [Nesting.run_eq_zero_iff]
  constructor
  · intro h
    exact ⟨h.name, ⟨h.rest_parens, h.rest_brackets⟩, hparens, h.brackets⟩
  · rintro ⟨hname, ⟨hrest_parens, hrest_brackets⟩, -, hbrackets⟩
    exact ⟨hname, hbrackets, hrest_parens, hrest_brackets⟩

theorem accepted_iff :
    (∃ r, canonicalize raw = .ok r) ↔
      ∃ before inside rest, Parts raw before inside rest ∧
        isIdentifier (declaredName before) = true ∧ Nesting.run {} rest = some {} ∧
        ∃ types, (normalOf before inside).types = .ok types := by
  simp only [canonicalize_parts_iff]
  constructor
  · rintro ⟨r, before, inside, rest, types, hparts, hident, hrest, htypes, -⟩
    exact ⟨before, inside, rest, hparts, hident, hrest, types, htypes⟩
  · rintro ⟨before, inside, rest, hparts, hident, hrest, types, htypes⟩
    exact ⟨_, before, inside, rest, types, hparts, hident, hrest, htypes, rfl⟩

/-- The texts that `canonicalize` accepts. -/
theorem canonicalize_language (raw : String) :
    ((∃ r, canonicalize raw = .ok r) →
        ∃ before inside rest, Parts raw before inside rest ∧ WellFormed before inside rest) ∧
      ((∀ c ∈ raw.toList, isBlank c = true → isLayout c = true) →
        ((∃ r, canonicalize raw = .ok r) ↔
          ∃ before inside rest, Parts raw before inside rest ∧ WellFormed before inside rest ∧
            Filled inside)) := by
  rw [accepted_iff]
  constructor
  · rintro ⟨before, inside, rest, hparts, hident, hrest, types, htypes⟩
    have hrun := Normalized.run_of_types htypes
    rw [normalOf, String.toList_ofList, run_argumentText] at hrun
    exact ⟨before, inside, rest, hparts, (wellFormed_iff hparts).2 ⟨hident, hrest, hrun⟩⟩
  · intro hlayout
    have hinside {before inside rest : List Char} (hparts : Parts raw before inside rest) :
        ∀ c ∈ inside, isBlank c = true → isLayout c = true :=
      fun c hc => hlayout c (hparts.mem_inside hc)
    constructor
    · rintro ⟨before, inside, rest, hparts, hident, hrest, htypes⟩
      rcases (exists_types_iff (hinside hparts)).1 htypes with ⟨hrun, hfilled⟩
      exact ⟨before, inside, rest, hparts, (wellFormed_iff hparts).2 ⟨hident, hrest, hrun⟩, hfilled⟩
    · rintro ⟨before, inside, rest, hparts, hshape, hfilled⟩
      rcases (wellFormed_iff hparts).1 hshape with ⟨hident, hrest, hrun⟩
      exact ⟨before, inside, rest, hparts, hident, hrest,
        (exists_types_iff (hinside hparts)).2 ⟨hrun, hfilled⟩⟩

/-- A declaration with layout, an indexed array and the beginning of a body. -/
def burnFrom : String :=
  "  function burnFrom( address , uint256[ ] indexed amounts )\tpublic \x7b"

/-- Both directions at one declaration. -/
theorem canonicalize_language_burnFrom :
    (∃ before inside rest, Parts burnFrom before inside rest ∧ WellFormed before inside rest) ∧
      ∃ r, canonicalize burnFrom = .ok r := by
  have haccepted : ∃ r, canonicalize burnFrom = .ok r :=
    ⟨_, canonicalize_eq_ok_iff.2 ⟨⟨"burnFrom", "address, uint256[] indexed amounts"⟩,
      ["address".toList, "uint256[]".toList], by decide +kernel, by decide +kernel, rfl⟩⟩
  rcases canonicalize_language burnFrom with ⟨hparts, hlanguage⟩
  have hlayout : ∀ c ∈ burnFrom.toList, isBlank c = true → isLayout c = true := by decide
  exact ⟨hparts haccepted, (hlanguage hlayout).2 ((hlanguage hlayout).1 haccepted)⟩

end AbiSig
