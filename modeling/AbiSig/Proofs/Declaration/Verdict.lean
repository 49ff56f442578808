import AbiSig.Proofs.Declaration.TypeOf
import AbiSig.Proofs.Nesting.Imbalance

/-!
# The verdict of the scan, in two phases

`scanTypes` splits, trims, cuts and counts in one pass, and stops at the first thing that is wrong. Its
result comes out of two phases as well: first the text is read up to where its nesting is violated and
falls into pieces, then each piece has a type or is refused for having none.

1. **What is read**: `Nesting.readable` is the text before the first closing delimiter that nothing
   opened, or the whole text. It ends where the violation is reported
   (`offset_of_check_eq_error`).
2. **Which error comes first**: an argument without a type is reported where its piece ends. If the
   nesting is violated, the piece in which this shows does not end any more, so only the pieces before
   it can be reported instead (`verdict`).
3. **The scan** gives this verdict, from the middle of a text as well (`scanTypes_eq_verdict`). So an
   error of the scan is that of an argument without a type, or says where the text loses its balance
   (`typeTokens_eq_error_inv`).
4. **The two phases** for a whole text: `typeTokens_two_phases`.
-/

namespace AbiSig

open Text

variable {n n' : Nesting} {c : Char} {d : Delimiter} {e : Imbalance} {offset : Nat} {cs : List Char}

namespace Nesting

/-! ## What is read -/

/-- The text before the first closing delimiter that nothing opened. -/
def readable (n : Nesting) : List Char → List Char
  | [] => []
  | c :: cs =>
    match n.step c with
    | .ok n' => c :: n'.readable cs
    | .error _ => []

/-- Refuses a text in which a delimiter lacks its partner. The text is read with `n` open around it
and starts at the given byte offset. -/
def check (n : Nesting) (offset : Nat) (cs : List Char) : Except Imbalance Unit := do
  let m ← n.scan offset cs
  m.finish (offset + utf8Size cs)

theorem readable_cons_of_step (h : n.step c = .ok n') : n.readable (c :: cs) = c :: n'.readable cs := by
  rw [readable, h]

theorem readable_cons_of_refused (h : n.step c = .error d) : n.readable (c :: cs) = [] := by
  rw [readable, h]

theorem check_nil (n : Nesting) (offset : Nat) : n.check offset [] = n.finish offset := rfl

theorem check_cons_of_step (h : n.step c = .ok n') :
    n.check offset (c :: cs) = n'.check (offset + c.utf8Size) cs := by
  unfold check
  rw [scan, h, utf8Size_cons, Nat.add_assoc]

theorem check_cons_of_refused (h : n.step c = .error d) :
    n.check offset (c :: cs) = .error { delimiter := d, offset } := by
  unfold check
  rw [scan, h]
  rfl

theorem readable_prefix (n : Nesting) (cs : List Char) : n.readable cs <+: cs := by
  induction cs generalizing n with
  | nil => exact List.prefix_refl []
  | cons c cs ih =>
    cases hstep : n.step c with
    | error d =>
      rw [readable_cons_of_refused hstep]
      exact List.nil_prefix
    | ok n' =>
      rw [readable_cons_of_step hstep, List.cons_prefix_cons]
      exact ⟨rfl, ih n'⟩

/-- A text of which no delimiter is refused is read to its end. -/
theorem readable_of_run (h : n.run cs = some n') : n.readable cs = cs := by
  induction cs generalizing n with
  | nil => rfl
  | cons c cs ih =>
    obtain ⟨hstep, hrun⟩ := run_cons_iff.1 h
    rw [readable_cons_of_step hstep, ih hrun]

/-- What is read ends where the violation is reported. -/
theorem offset_of_check_eq_error (h : n.check offset cs = .error e) :
    offset + utf8Size (n.readable cs) = e.offset := by
  induction cs generalizing n offset with
  | nil =>
    rw [check_nil] at h
    exact ((finish_eq_error_iff offset).1 h).2.symm
  | cons c cs ih =>
    cases hstep : n.step c with
    | error d =>
      rw [check_cons_of_refused hstep] at h
      rw [readable_cons_of_refused hstep, ← Except.error.inj h]
      rfl
    | ok n' =>
      rw [check_cons_of_step hstep] at h
      rw [readable_cons_of_step hstep, utf8Size_cons, ← Nat.add_assoc, ih h]

end Nesting

namespace Declaration

open Nesting

variable {index : Nat} {check : Except Imbalance Unit} {t : List Char} {reversed : List Char}
  {complete : Bool} {types : List (List Char)} {e' : SignatureError}

/-! ## Which error comes first -/

/-- Refuses the first argument that has no type; the arguments are numbered from `index`. -/
def refuseUntyped (index : Nat) (types : List (List Char)) : Except SignatureError Unit :=
  match types.findIdx? (·.isEmpty) with
  | some k => .error (.emptyArgument (index + k))
  | none => .ok ()

/-- The verdict on the arguments of which the types are given. If the nesting is violated, this shows
in the last of them, which then is not looked at. -/
def verdict (index : Nat) (types : List (List Char)) (check : Except Imbalance Unit) :
    Except SignatureError (List (List Char)) :=
  match check with
  | .ok () => do
    refuseUntyped index types
    return types
  | .error imbalance => do
    refuseUntyped index types.dropLast
    throw (.unbalanced imbalance)

theorem refuseUntyped_nil (index : Nat) (types : List (List Char)) :
    refuseUntyped index ([] :: types) = .error (.emptyArgument index) := by
  simp [refuseUntyped, List.findIdx?_cons]

theorem refuseUntyped_cons (ht : t ≠ []) (index : Nat) (types : List (List Char)) :
    refuseUntyped index (t :: types) = refuseUntyped (index + 1) types := by
  have hempty : t.isEmpty = false := List.isEmpty_eq_false_iff.2 ht
  unfold refuseUntyped
  rw [List.findIdx?_cons, hempty]
  cases types.findIdx? (·.isEmpty) with
  | none => rfl
  | some k => simp [Nat.add_comm, Nat.add_left_comm]

/-- An argument without a type that is not the last one is refused at once. -/
theorem verdict_nil_cons (hne : types ≠ []) :
    verdict index ([] :: types) check = .error (.emptyArgument index) := by
  cases check with
  | ok => rw [verdict, refuseUntyped_nil]; rfl
  | error imbalance =>
    rw [verdict, List.dropLast_cons_of_ne_nil hne, refuseUntyped_nil]
    rfl

/-- An argument with a type that is not the last one leaves the verdict to the others. -/
theorem verdict_cons (hne : types ≠ []) (ht : t ≠ []) :
    verdict index (t :: types) check = (verdict (index + 1) types check).map (t :: ·) := by
  cases check with
  | ok =>
    rw [verdict, verdict, refuseUntyped_cons ht]
    cases refuseUntyped (index + 1) types with
    | ok => rfl
    | error e => rfl
  | error imbalance =>
    rw [verdict, verdict, List.dropLast_cons_of_ne_nil hne, refuseUntyped_cons ht]
    cases refuseUntyped (index + 1) types.dropLast with
    | ok => rfl
    | error e => rfl

theorem refuseUntyped_eq_ok_iff (index : Nat) : refuseUntyped index types = .ok () ↔ [] ∉ types := by
  have hnone : types.findIdx? (·.isEmpty) = none ↔ [] ∉ types := by
    rw [List.findIdx?_eq_none_iff]
    constructor
    · intro h hmem
      exact absurd (h [] hmem) (by simp)
    · intro h t ht
      rw [List.isEmpty_eq_false_iff]
      rintro rfl
      exact h ht
  rw [← hnone]
  unfold refuseUntyped
  cases types.findIdx? (·.isEmpty) with
  | none => simp
  | some k => simp

theorem refuseUntyped_eq_error_inv (h : refuseUntyped index types = .error e') :
    ∃ k, e' = .emptyArgument k := by
  unfold refuseUntyped at h
  split at h
  · next k _ => exact ⟨index + k, (Except.error.inj h).symm⟩
  · contradiction

/-- The types are returned if the nesting is kept and none is missing. -/
theorem verdict_eq_ok_iff {found : List (List Char)} :
    verdict index types check = .ok found ↔ check = .ok () ∧ found = types ∧ [] ∉ types := by
  rw [← refuseUntyped_eq_ok_iff index]
  cases check with
  | error imbalance =>
    rw [verdict]
    cases refuseUntyped index types.dropLast with
    | error e => simp [bind, Except.bind]
    | ok => simp [bind, Except.bind, throw, throwThe, MonadExceptOf.throw]
  | ok =>
    rw [verdict]
    cases refuseUntyped index types with
    | error e => simp [bind, Except.bind]
    | ok => simp [bind, Except.bind, pure, Except.pure, eq_comm]

/-- An error is that of an argument without a type, or that of the nesting. -/
theorem verdict_eq_error_inv (h : verdict index types check = .error e') :
    (∃ k, e' = .emptyArgument k) ∨
      ∃ imbalance, check = .error imbalance ∧ e' = .unbalanced imbalance := by
  cases check with
  | ok =>
    rw [verdict] at h
    rcases bind_eq_error_iff.1 h with hrefused | ⟨-, -, hreturn⟩
    · exact Or.inl (refuseUntyped_eq_error_inv hrefused)
    · exact absurd hreturn (by simp [pure, Except.pure])
  | error imbalance =>
    rw [verdict] at h
    rcases bind_eq_error_iff.1 h with hrefused | ⟨-, -, hthrow⟩
    · exact Or.inl (refuseUntyped_eq_error_inv hrefused)
    · exact Or.inr ⟨imbalance, rfl, (Except.error.inj hthrow).symm⟩

/-! ## The scan -/

theorem typesFrom_ne_nil (n : Nesting) (reversed : List Char) (complete : Bool) (cs : List Char) :
    typesFrom n reversed complete cs ≠ [] := by
  obtain ⟨p, ps, hps⟩ := exists_pieces_eq_cons n cs
  rw [typesFrom, hps]
  exact List.cons_ne_nil _ _

/-- From the middle of a text the scan gives the verdict on what is left. -/
theorem scanTypes_eq_verdict (offset index : Nat)
    (hstart : reversed = [] → n = {} ∧ complete = false) :
    scanTypes n offset index reversed complete cs =
      verdict index (typesFrom n reversed complete (n.readable cs)) (n.check offset cs) := by
  induction cs generalizing n offset index reversed complete with
  | nil =>
    rw [readable, check_nil, typesFrom_nil, scanTypes]
    cases n.finish offset with
    | error imbalance => rfl
    | ok =>
      -- the last argument is looked at when everything is closed
      cases reversed with
      | nil => rfl
      | cons a reversed =>
        rw [verdict, refuseUntyped_cons (by simp)]
        rfl
  | cons c cs ih =>
    cases hstep : n.step c with
    | error d =>
      rw [scanTypes, hstep, readable_cons_of_refused hstep, check_cons_of_refused hstep,
        typesFrom_nil]
      rfl
    | ok n' =>
      have hnext : n.next c = n' := Nesting.next_of_step hstep
      subst hnext
      rw [readable_cons_of_step hstep, check_cons_of_step hstep, scanTypes, hstep]
      dsimp only
      by_cases hcomma : (n.next c).isTopLevel ∧ c = ','
      · -- the piece ends here: it is refused, or the verdict is that on the others
        have hempty : n.next c = {} := Nesting.isTopLevel_iff.1 hcomma.1
        have hrest := @ih (n.next c) [] false (offset + c.utf8Size) (index + 1)
          fun _ => ⟨hempty, rfl⟩
        have hne := typesFrom_ne_nil (n.next c) [] false ((n.next c).readable cs)
        rw [if_pos hcomma, typesFrom_comma hcomma, hrest]
        cases reversed with
        | nil =>
          rw [List.reverse_nil, verdict_nil_cons hne]
          rfl
        | cons a reversed =>
          rw [verdict_cons hne (by simp)]
          rfl
      · rw [if_neg hcomma]
        by_cases hspace : (n.next c).isTopLevel ∧ c = ' '
        · -- the type is complete, unless it has not begun
          rw [if_pos hspace, typesFrom_space hspace]
          apply ih
          intro hnil
          exact ⟨Nesting.isTopLevel_iff.1 hspace.1, by simp [hnil, (hstart hnil).2]⟩
        · rw [if_neg hspace]
          cases complete with
          | true =>
            rw [typesFrom_complete hcomma]
            exact ih _ _ fun hnil => absurd (hstart hnil).2 (by simp)
          | false =>
            rw [typesFrom_cons (fun hnil => (hstart hnil).1) hcomma hspace]
            exact ih _ _ (by simp)

/-- The verdict on a whole text. -/
theorem typeTokens_eq_verdict (cs : List Char) :
    typeTokens cs =
      verdict 0 ((pieces {} (Nesting.readable {} cs)).map typeOf) (checkBalanced 0 cs) := by
  rw [← typesFrom_start]
  exact scanTypes_eq_verdict 0 0 fun _ => ⟨rfl, rfl⟩

/-- An error of the scan is that of an argument without a type, or says where the text loses its
balance. -/
theorem typeTokens_eq_error_inv (h : typeTokens cs = .error e') :
    (∃ k, e' = .emptyArgument k) ∨
      ∃ imbalance, LosesBalance 0 cs imbalance ∧ e' = .unbalanced imbalance := by
  rw [typeTokens_eq_verdict] at h
  rcases verdict_eq_error_inv h with hempty | ⟨imbalance, hcheck, heq⟩
  · exact Or.inl hempty
  · exact Or.inr ⟨imbalance, checkBalanced_eq_error_iff.1 hcheck, heq⟩

/-! ## The two phases -/

/-- The place of the first piece that consists of spaces only. -/
def firstUntyped? (ps : List (List Char)) : Option Nat :=
  ps.findIdx? (·.all (· == ' '))

/-- These are the pieces that have no type. -/
theorem refuseUntyped_map_typeOf (ps : List (List Char)) :
    refuseUntyped 0 (ps.map typeOf) =
      match firstUntyped? ps with
      | some k => .error (.emptyArgument k)
      | none => .ok () := by
  have hpiece : (fun t : List Char => t.isEmpty) ∘ typeOf = fun p => p.all (· == ' ') := by
    funext p
    rw [Bool.eq_iff_iff, Function.comp_apply, List.isEmpty_iff, typeOf_eq_nil_iff]
    simp
  unfold refuseUntyped firstUntyped?
  rw [List.findIdx?_map, hpiece]
  simp only [Nat.zero_add]

/-- The types of a text, by its pieces. If the text is balanced, the first piece of spaces is refused,
or each piece has its type. If it is not, `front` is what comes before the violation, and the first
piece of spaces is refused that a comma ends there, or else the violation itself. -/
theorem typeTokens_two_phases (cs : List Char) :
    (Balanced '(' ')' cs ∧ Balanced '[' ']' cs →
      typeTokens cs =
        match firstUntyped? (pieces {} cs) with
        | some k => .error (.emptyArgument k)
        | none => .ok ((pieces {} cs).map typeOf)) ∧
    (¬(Balanced '(' ')' cs ∧ Balanced '[' ']' cs) →
      ∃ front imbalance, LosesBalance 0 cs imbalance ∧ front <+: cs ∧
        utf8Size front = imbalance.offset ∧
        typeTokens cs =
          match firstUntyped? (pieces {} front).dropLast with
          | some k => .error (.emptyArgument k)
          | none => .error (.unbalanced imbalance)) := by
  rw [← Nesting.run_eq_zero_iff, ← checkBalanced_eq_ok_iff 0, typeTokens_eq_verdict]
  constructor
  · intro hcheck
    have hrun := (checkBalanced_eq_ok_iff 0 cs).1 hcheck
    rw [hcheck, readable_of_run hrun, verdict, refuseUntyped_map_typeOf]
    cases firstUntyped? (pieces {} cs) with
    | none => rfl
    | some k => rfl
  · intro hcheck
    cases himbalance : checkBalanced 0 cs with
    | ok => exact absurd himbalance hcheck
    | error imbalance =>
      have hoffset := offset_of_check_eq_error (n := {}) himbalance
      rw [Nat.zero_add] at hoffset
      refine ⟨Nesting.readable {} cs, imbalance, checkBalanced_eq_error_iff.1 himbalance,
        readable_prefix {} cs, hoffset, ?_⟩
      rw [verdict, ← List.map_dropLast, refuseUntyped_map_typeOf]
      cases firstUntyped? (pieces {} (Nesting.readable {} cs)).dropLast with
      | none => rfl
      | some k => rfl

/-- A tuple with names, and a text in which a comma ends an argument of spaces before a bracket closes
that nothing opened: the argument is what is reported. -/
theorem typeTokens_two_phases_tuple :
    Balanced '(' ')' "(a b)[] c, d".toList ∧ Balanced '[' ']' "(a b)[] c, d".toList ∧
      typeTokens "(a b)[] c, d".toList = .ok ["(a b)[]".toList, "d".toList] ∧
      ¬(Balanced '(' ')' "a, ,b]".toList ∧ Balanced '[' ']' "a, ,b]".toList) ∧
      LosesBalance 0 "a, ,b]".toList { delimiter := .closeBracket, offset := 5 } ∧
      typeTokens "a, ,b]".toList = .error (.emptyArgument 1) := by
  have hbalanced : Nesting.run {} "(a b)[] c, d".toList = some {} := by decide
  have hstray : Nesting.run {} "a, ,b]".toList ≠ some {} := by decide
  rw [Nesting.run_eq_zero_iff] at hbalanced
  rw [ne_eq, Nesting.run_eq_zero_iff] at hstray
  have hloses : LosesBalance 0 "a, ,b]".toList { delimiter := .closeBracket, offset := 5 } :=
    checkBalanced_eq_error_iff.1 (by decide)
  have htuple := (typeTokens_two_phases _).1 hbalanced
  obtain ⟨front, imbalance, himbalance, hfront, hsize, htokens⟩ :=
    (typeTokens_two_phases _).2 hstray
  -- only one prefix of the text ends where the bracket stands
  obtain rfl := himbalance.unique hloses
  have hprefixes : ∀ front ∈ "a, ,b]".toList.inits, utf8Size front = 5 → front = "a, ,b".toList := by
    decide
  obtain rfl := hprefixes front ((List.mem_inits _ _).2 hfront) hsize
  exact ⟨hbalanced.1, hbalanced.2, htuple, hstray, hloses, htokens⟩

end Declaration

end AbiSig
