import AbiSig.Declaration.ArgumentList
import AbiSig.Proofs.Nesting.Balance
import AbiSig.Proofs.Text.Trimming

/-!
# Which text the cut keeps

`splitArguments` looks for the `)` of the first `(`. It finds the one behind the first stretch over
which the parentheses are balanced, and it finds none exactly when no `)` ever brings the counter
below where it stood at the `(`.

* `splitAtClose_eq_some_iff`, `splitAtClose_eq_none_iff`: the search by the counter `depthAfter`.
* `splitArguments_eq_some_iff`: the kept text is a head without `(`, and a balanced text between `(`
  and `)`.
* `throughArguments_of_matched`, `throughArguments_of_unmatched`: the two ways of the cut.
* `throughArguments_inv`, `throughArguments_open_inv`: every cut went one of these ways.
-/

namespace AbiSig.Declaration

open Text

variable {depth : Nat} {before inside cs kept rest : List Char} {raw : String}

/-! ## The search for the closing parenthesis -/

theorem map_cons_eq_some_iff {c : Char} {found : Option (List Char × List Char)} :
    (found.map fun (kept, rest) => (c :: kept, rest)) = some (kept, rest) ↔
      ∃ tail, found = some (tail, rest) ∧ kept = c :: tail := by
  rw [Option.map_eq_some_iff]
  constructor
  · rintro ⟨⟨tail, rest'⟩, hfound, heq⟩
    rcases Prod.mk.inj heq with ⟨rfl, rfl⟩
    exact ⟨tail, hfound, rfl⟩
  · rintro ⟨tail, hfound, rfl⟩
    exact ⟨(tail, rest), hfound, rfl⟩

/-- The search ends behind a text that closes the extra levels and no more. -/
theorem splitAtClose_eq_some_iff :
    splitAtClose depth cs = some (kept, rest) ↔
      ∃ inside, kept = inside ++ [')'] ∧ cs = inside ++ ')' :: rest ∧
        depthAfter '(' ')' depth inside = some 0 := by
  constructor
  · intro h
    fun_induction splitAtClose depth cs generalizing kept with
    | case1 => exact absurd h (by simp)
    | case3 cs =>
      -- the `)` in front closes the outermost level
      rcases Prod.mk.inj (Option.some.inj h) with ⟨rfl, rfl⟩
      exact ⟨[], rfl, rfl, rfl⟩
    | case2 depth cs ih =>
      rcases map_cons_eq_some_iff.1 h with ⟨tail, hsplit, rfl⟩
      rcases ih hsplit with ⟨inside, rfl, rfl, hdepth⟩
      exact ⟨'(' :: inside, rfl, rfl, by simpa [depthAfter] using hdepth⟩
    | case4 cs hne depth ih =>
      rcases map_cons_eq_some_iff.1 h with ⟨tail, hsplit, rfl⟩
      rcases ih hsplit with ⟨inside, rfl, rfl, hdepth⟩
      exact ⟨')' :: inside, rfl, rfl, by simpa [depthAfter] using hdepth⟩
    | case5 depth c cs hopen hclose ih =>
      rcases map_cons_eq_some_iff.1 h with ⟨tail, hsplit, rfl⟩
      rcases ih hsplit with ⟨inside, rfl, rfl, hdepth⟩
      exact ⟨c :: inside, rfl, rfl, by simpa [depthAfter, hopen, hclose] using hdepth⟩
  · rintro ⟨inside, rfl, rfl, hdepth⟩
    induction inside generalizing depth with
    | nil =>
      have hzero : depth = 0 := by simpa [depthAfter] using hdepth
      simp [hzero, splitAtClose]
    | cons c inside ih =>
      by_cases hopen : c = '('
      · subst hopen
        have hrest := @ih (depth + 1) (by simpa [depthAfter] using hdepth)
        simp [splitAtClose, hrest]
      by_cases hclose : c = ')'
      · subst hclose
        cases depth with
        | zero => exact absurd hdepth (by simp [depthAfter])
        | succ depth =>
          have hrest := @ih depth (by simpa [depthAfter] using hdepth)
          simp [splitAtClose, hrest]
      · have hrest := @ih depth (by simpa [depthAfter, hopen, hclose] using hdepth)
        simp [splitAtClose, hopen, hclose, hrest]

/-- The search fails when the counter never goes below zero. -/
theorem splitAtClose_eq_none_iff :
    splitAtClose depth cs = none ↔ ∃ d, depthAfter '(' ')' depth cs = some d := by
  fun_induction splitAtClose depth cs with
  | case1 depth => simp [depthAfter]
  | case2 depth cs ih => simpa [depthAfter] using ih
  | case3 cs => simp [depthAfter]
  | case4 cs hne depth ih => simpa [depthAfter] using ih
  | case5 depth c cs hopen hclose ih => simpa [depthAfter, hopen, hclose] using ih

/-! ## The first parenthesis -/

/-- The kept text is a head without `(`, and a text between `(` and `)` that is balanced. -/
theorem splitArguments_eq_some_iff :
    splitArguments cs = some (kept, rest) ↔
      ∃ before inside, '(' ∉ before ∧ kept = before ++ '(' :: (inside ++ [')']) ∧
        cs = before ++ '(' :: (inside ++ ')' :: rest) ∧ depthAfter '(' ')' 0 inside = some 0 := by
  constructor
  · intro h
    rw [splitArguments] at h
    split at h
    · exact absurd h (by simp)
    · next opening tail hdrop =>
      rw [Option.map_eq_some_iff] at h
      rcases h with ⟨⟨tail', rest'⟩, hsplit, heq⟩
      rcases Prod.mk.inj heq with ⟨rfl, rfl⟩
      rcases splitAtClose_eq_some_iff.1 hsplit with ⟨inside, rfl, rfl, hdepth⟩
      have hopening : opening = '(' := by
        have hhead := List.head?_dropWhile_not (· != '(') cs
        simpa [hdrop] using hhead
      subst hopening
      refine ⟨cs.takeWhile (· != '('), inside, ?_, rfl, ?_, hdepth⟩
      · intro hmem
        simpa using List.mem_takeWhile_imp hmem
      · rw [← hdrop, List.takeWhile_append_dropWhile]
  · rintro ⟨before, inside, hbefore, rfl, rfl, hdepth⟩
    have hsplit : splitAtClose 0 (inside ++ ')' :: rest) = some (inside ++ [')'], rest) :=
      splitAtClose_eq_some_iff.2 ⟨inside, rfl, rfl, hdepth⟩
    rw [splitArguments, dropWhile_before hbefore]
    simp [hsplit, takeWhile_before hbefore]

/-- The first `(` has no `)` when the counter behind it never goes below zero. -/
theorem splitArguments_eq_none_iff (hbefore : '(' ∉ before) :
    splitArguments (before ++ '(' :: cs) = none ↔ ∃ d, depthAfter '(' ')' 0 cs = some d := by
  rw [splitArguments, dropWhile_before hbefore]
  simp [splitAtClose_eq_none_iff]

/-! ## The last parenthesis -/

theorem throughLastClose_eq (h : ')' ∉ rest) (cs : List Char) :
    throughLastClose (cs ++ ')' :: rest) = cs ++ [')'] := by
  have hall : ∀ c ∈ rest.reverse, (c != ')') = true :=
    fun c hc => bne_of_mem h (List.mem_reverse.1 hc)
  rw [throughLastClose, List.reverse_append, List.reverse_cons, List.append_assoc,
    List.dropWhile_append_of_pos hall]
  simp

theorem throughLastClose_eq_nil_iff : throughLastClose cs = [] ↔ ')' ∉ cs := by
  rw [throughLastClose, List.reverse_eq_nil_iff, List.dropWhile_eq_nil_iff]
  constructor
  · intro h hmem
    have hclose := h ')' (List.mem_reverse.2 hmem)
    exact absurd hclose (by simp)
  · intro h c hc
    exact bne_of_mem h (List.mem_reverse.1 hc)

/-- What is kept through the last `)` ends with it, and none stands behind it. -/
theorem exists_of_throughLastClose (h : throughLastClose cs ≠ []) :
    ∃ before rest, ')' ∉ rest ∧ cs = before ++ ')' :: rest := by
  have hmem : ')' ∈ cs.reverse := by
    rw [ne_eq, throughLastClose_eq_nil_iff, not_not] at h
    exact List.mem_reverse.2 h
  rcases List.eq_append_cons_of_mem hmem with ⟨rest, before, heq, hrest⟩
  refine ⟨before.reverse, rest.reverse, by simpa using hrest, ?_⟩
  rw [← List.reverse_reverse cs, heq]
  simp

/-! ## The cut -/

theorem throughArguments_of_checked (hsplit : splitArguments raw.toList = some (kept, rest))
    (hcheck : checkBalanced (utf8Size kept) rest = .ok ()) : throughArguments raw = .ok kept := by
  rw [throughArguments, hsplit]
  simp only [hcheck]

theorem throughArguments_of_refused {imbalance : Imbalance}
    (hsplit : splitArguments raw.toList = some (kept, rest))
    (hcheck : checkBalanced (utf8Size kept) rest = .error imbalance) :
    throughArguments raw = .error (.unbalanced imbalance) := by
  rw [throughArguments, hsplit]
  simp only [hcheck]

theorem throughArguments_of_unclosed (hsplit : splitArguments raw.toList = none)
    (hlast : throughLastClose raw.toList ≠ []) :
    throughArguments raw = .ok (throughLastClose raw.toList) := by
  rcases List.exists_cons_of_ne_nil hlast with ⟨c, cs, hcs⟩
  rw [throughArguments, hsplit, hcs]

theorem throughArguments_of_no_close (hsplit : splitArguments raw.toList = none)
    (hlast : throughLastClose raw.toList = []) :
    throughArguments raw = .error (.invalidFormat raw .noClose) := by
  rw [throughArguments, hsplit, hlast]

/-- The first `(` has its `)`: the rest of the text decides. -/
theorem throughArguments_of_matched (hbefore : '(' ∉ before)
    (hdepth : depthAfter '(' ')' 0 inside = some 0)
    (hraw : raw.toList = before ++ '(' :: (inside ++ ')' :: rest)) :
    throughArguments raw = .ok kept ↔
      kept = before ++ '(' :: (inside ++ [')']) ∧ Nesting.run {} rest = some {} := by
  have hsplit := splitArguments_eq_some_iff.2 ⟨before, inside, hbefore, rfl, hraw, hdepth⟩
  have hcheck := checkBalanced_eq_ok_iff (utf8Size (before ++ '(' :: (inside ++ [')']))) rest
  rw [throughArguments, hsplit, ← hcheck]
  simp only
  cases checkBalanced (utf8Size (before ++ '(' :: (inside ++ [')']))) rest with
  | ok => simp [eq_comm]
  | error => simp

/-- The first `(` has no `)`: the text is kept through its last `)`. -/
theorem throughArguments_of_unmatched (hnone : splitArguments raw.toList = none)
    (hrest : ')' ∉ rest) (hraw : raw.toList = cs ++ ')' :: rest) :
    throughArguments raw = .ok (cs ++ [')']) := by
  rw [throughArguments, hnone, hraw, throughLastClose_eq hrest]
  simp

/-- Every cut went one of these ways. -/
theorem throughArguments_inv (h : throughArguments raw = .ok kept) :
    ∃ cs rest, kept = cs ++ [')'] ∧ raw.toList = cs ++ ')' :: rest ∧
      (splitArguments raw.toList = some (kept, rest) ∧ Nesting.run {} rest = some {} ∨
        splitArguments raw.toList = none ∧ ')' ∉ rest) := by
  cases hsplit : splitArguments raw.toList with
  | some parts =>
    rcases parts with ⟨kept', rest⟩
    rcases splitArguments_eq_some_iff.1 hsplit with ⟨before, inside, hbefore, rfl, hraw, hdepth⟩
    rcases (throughArguments_of_matched hbefore hdepth hraw).1 h with ⟨rfl, hrest⟩
    refine ⟨before ++ '(' :: inside, rest, by simp, by simp [hraw], Or.inl ⟨rfl, hrest⟩⟩
  | none =>
    rw [throughArguments, hsplit] at h
    simp only at h
    split at h
    · exact absurd h (by simp)
    · next hne =>
      rcases exists_of_throughLastClose hne with ⟨cs, rest, hrest, hraw⟩
      rw [hraw, throughLastClose_eq hrest] at h
      exact ⟨cs, rest, (Except.ok.inj h).symm, hraw, Or.inr ⟨rfl, hrest⟩⟩

/-- The text whose cut has a `(` goes on behind the cut. -/
theorem throughArguments_open_inv
    (h : throughArguments raw = .ok (before ++ '(' :: (inside ++ [')']))) :
    ∃ rest, raw.toList = before ++ '(' :: (inside ++ ')' :: rest) ∧
      (splitArguments raw.toList = some (before ++ '(' :: (inside ++ [')']), rest) ∧
          Nesting.run {} rest = some {} ∨
        splitArguments raw.toList = none ∧ ')' ∉ rest) := by
  rcases throughArguments_inv h with ⟨cs, rest, hcs, hraw, hway⟩
  have hclosed : (before ++ '(' :: inside) ++ [')'] = cs ++ [')'] := by
    rw [← hcs, List.append_assoc, List.cons_append]
  have hopen : before ++ '(' :: inside = cs := List.append_cancel_right hclosed
  refine ⟨rest, ?_, hway⟩
  rw [hraw, ← hopen, List.append_assoc, List.cons_append]

end AbiSig.Declaration
