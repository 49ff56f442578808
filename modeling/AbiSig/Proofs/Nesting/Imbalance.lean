import AbiSig.Proofs.Nesting.Balance

/-!
# Where a text loses its balance

A text is refused for the first closing delimiter that nothing opened, or at its end for a delimiter
that is still open. `LosesBalance` says which of these it is and where, in terms of the numbers of the
delimiters in the text.

* `run_zero_eq_some_iff`: the counters after a text, by the numbers of its delimiters.
* `scan_eq_error_iff`: where a scan stops.
* `checkBalanced_eq_error_iff`: what the check reports is where the text loses its balance.
* `LosesBalance.byte_at`: at the reported offset stands the reported closing delimiter.
-/

namespace AbiSig

open Text

/-- Neither counter goes below zero over the text. -/
structure NeverNegative (cs : List Char) : Prop where
  parens : ∀ p, p <+: cs → p.count ')' ≤ p.count '('
  brackets : ∀ p, p <+: cs → p.count ']' ≤ p.count '['

/-- The delimiter for which a text is refused, and where it is. The text begins at the byte `offset`;
before a closing delimiter that is refused, its counter stood at zero and none had gone below. -/
inductive LosesBalance (offset : Nat) (cs : List Char) : Imbalance → Prop where
  | closeParen (front back : List Char) (hcs : cs = front ++ ')' :: back)
      (hfront : NeverNegative front) (hzero : front.count '(' = front.count ')') :
      LosesBalance offset cs { delimiter := .closeParen, offset := offset + utf8Size front }
  | closeBracket (front back : List Char) (hcs : cs = front ++ ']' :: back)
      (hfront : NeverNegative front) (hzero : front.count '[' = front.count ']') :
      LosesBalance offset cs { delimiter := .closeBracket, offset := offset + utf8Size front }
  | openParen (hcs : NeverNegative cs) (hopen : cs.count ')' < cs.count '(') :
      LosesBalance offset cs { delimiter := .openParen, offset := offset + utf8Size cs }
  | openBracket (hcs : NeverNegative cs) (hclosed : cs.count '(' = cs.count ')')
      (hopen : cs.count ']' < cs.count '[') :
      LosesBalance offset cs { delimiter := .openBracket, offset := offset + utf8Size cs }

variable {n : Nesting} {c : Char} {d : Delimiter} {e : Imbalance} {as cs : List Char} {offset : Nat}

namespace Nesting

/-! ## The counters by the numbers of the delimiters -/

theorem run_zero_eq_some_iff :
    run {} cs = some n ↔
      NeverNegative cs ∧ cs.count '(' = n.parens + cs.count ')' ∧
        cs.count '[' = n.brackets + cs.count ']' := by
  rw [run_eq_some_iff, depthAfter_eq_some_iff (by decide), depthAfter_eq_some_iff (by decide)]
  simp only [Nat.zero_add]
  constructor
  · rintro ⟨⟨hparens, hopen⟩, hbrackets, hopen'⟩
    exact ⟨⟨hparens, hbrackets⟩, hopen, hopen'⟩
  · rintro ⟨⟨hparens, hbrackets⟩, hopen, hopen'⟩
    exact ⟨⟨hparens, hopen⟩, hbrackets, hopen'⟩

/-- A text over which no counter goes below zero leaves open what it does not close. -/
theorem exists_run_of_neverNegative (h : NeverNegative cs) :
    ∃ n, run {} cs = some n ∧ cs.count '(' = n.parens + cs.count ')' ∧
      cs.count '[' = n.brackets + cs.count ']' := by
  have hparens := h.parens cs (List.prefix_refl cs)
  have hbrackets := h.brackets cs (List.prefix_refl cs)
  have hopen : cs.count '(' = (cs.count '(' - cs.count ')') + cs.count ')' := by omega
  have hopen' : cs.count '[' = (cs.count '[' - cs.count ']') + cs.count ']' := by omega
  refine ⟨⟨cs.count '(' - cs.count ')', cs.count '[' - cs.count ']'⟩, ?_, hopen, hopen'⟩
  rw [run_zero_eq_some_iff]
  exact ⟨h, hopen, hopen'⟩

/-- Texts with the same delimiters go below zero alike. -/
theorem neverNegative_of_filter_eq {bs : List Char}
    (h : cs.filter isDelimiter = bs.filter isDelimiter) (hcs : NeverNegative cs) :
    NeverNegative bs := by
  obtain ⟨n, hrun, -⟩ := exists_run_of_neverNegative hcs
  rw [run_of_filter_eq h] at hrun
  exact (run_zero_eq_some_iff.1 hrun).1

/-! ## Where a scan stops -/

/-- A closing delimiter is refused if its counter stands at zero. -/
theorem step_eq_error_iff :
    n.step c = .error d ↔
      (c = ')' ∧ n.parens = 0 ∧ d = .closeParen) ∨
        (c = ']' ∧ n.brackets = 0 ∧ d = .closeBracket) := by
  rcases n with ⟨parens, brackets⟩
  by_cases h₁ : c = '('
  · subst h₁
    simp [step]
  by_cases h₂ : c = '['
  · subst h₂
    simp [step]
  by_cases h₃ : c = ')'
  · subst h₃
    cases parens with
    | zero => simp [step, eq_comm]
    | succ parens => simp [step]
  by_cases h₄ : c = ']'
  · subst h₄
    cases brackets with
    | zero => simp [step, eq_comm]
    | succ brackets => simp [step]
  rw [step_eq_ok_self h₁ h₂ h₃ h₄]
  simp [h₃, h₄]

/-- A scan stops at the first character that is refused. -/
theorem scan_eq_error_iff (offset : Nat) :
    n.scan offset cs = .error e ↔
      ∃ front c back m, cs = front ++ c :: back ∧ n.run front = some m ∧
        m.step c = .error e.delimiter ∧ e.offset = offset + utf8Size front := by
  induction cs generalizing n offset with
  | nil => simp [scan]
  | cons c cs ih =>
    unfold scan
    cases hstep : n.step c with
    | error d =>
      constructor
      · intro h
        have he : e = { delimiter := d, offset } := (Except.error.inj h).symm
        subst he
        exact ⟨[], c, cs, n, rfl, rfl, hstep, rfl⟩
      · rintro ⟨front, c', back, m, hcs, hrun, hrefused, hoffset⟩
        -- nothing comes before a character that is refused at once
        cases front with
        | nil =>
          rcases List.cons.inj hcs with ⟨rfl, rfl⟩
          rw [run_nil, Option.some.injEq] at hrun
          subst hrun
          rw [hstep, Except.error.injEq] at hrefused
          rcases e with ⟨delimiter, position⟩
          rw [utf8Size_nil, Nat.add_zero] at hoffset
          rw [hrefused, ← hoffset]
        | cons a front =>
          rcases List.cons.inj hcs with ⟨rfl, -⟩
          rw [run, hstep] at hrun
          exact absurd hrun (by simp)
    | ok n' =>
      show n'.scan (offset + c.utf8Size) cs = .error e ↔ _
      rw [ih]
      constructor
      · rintro ⟨front, c', back, m, rfl, hrun, hrefused, hoffset⟩
        refine ⟨c :: front, c', back, m, rfl, ?_, hrefused, ?_⟩
        · rw [run_cons_of_step hstep]
          exact hrun
        · rw [utf8Size_cons, hoffset]
          omega
      · rintro ⟨front, c', back, m, hcs, hrun, hrefused, hoffset⟩
        cases front with
        | nil =>
          rcases List.cons.inj hcs with ⟨rfl, rfl⟩
          rw [run_nil, Option.some.injEq] at hrun
          subst hrun
          rw [hstep] at hrefused
          exact absurd hrefused (by simp)
        | cons a front =>
          rcases List.cons.inj hcs with ⟨rfl, rfl⟩
          rw [run_cons_of_step hstep] at hrun
          refine ⟨front, c', back, m, rfl, hrun, hrefused, ?_⟩
          rw [hoffset, utf8Size_cons]
          omega

theorem finish_eq_error_iff (offset : Nat) :
    n.finish offset = .error e ↔ n.unclosed? = some e.delimiter ∧ e.offset = offset := by
  rcases e with ⟨delimiter, position⟩
  unfold finish
  cases n.unclosed? with
  | none => simp
  | some d => simp [eq_comm]

theorem unclosed?_eq_some_iff :
    n.unclosed? = some d ↔
      (0 < n.parens ∧ d = .openParen) ∨ (n.parens = 0 ∧ 0 < n.brackets ∧ d = .openBracket) := by
  unfold unclosed?
  by_cases hparens : 0 < n.parens
  · rw [if_pos hparens]
    have hne : n.parens ≠ 0 := by omega
    simp [hparens, hne, eq_comm]
  · rw [if_neg hparens]
    have hzero : n.parens = 0 := by omega
    by_cases hbrackets : 0 < n.brackets
    · simp [hzero, hbrackets, eq_comm]
    · simp [hzero, hbrackets]

end Nesting

/-! ## The check -/

/-- Two stages fail when the first one does, or the second one with its result. -/
theorem bind_eq_error_iff {ε α β : Type} {x : Except ε α} {f : α → Except ε β} {e : ε} :
    (x >>= f) = .error e ↔ x = .error e ∨ ∃ a, x = .ok a ∧ f a = .error e := by
  cases x with
  | error e' => simp [bind, Except.bind]
  | ok a => simp [bind, Except.bind]

open Nesting in
/-- What the check reports is where the text loses its balance. -/
theorem checkBalanced_eq_error_iff :
    checkBalanced offset cs = .error e ↔ LosesBalance offset cs e := by
  unfold checkBalanced
  rw [bind_eq_error_iff, scan_eq_error_iff]
  constructor
  · rintro (⟨front, c, back, m, hcs, hrun, hrefused, hoffset⟩ | ⟨n, hscan, hfinish⟩)
    · -- a closing delimiter is refused
      rcases e with ⟨delimiter, position⟩
      subst hoffset
      rcases run_zero_eq_some_iff.1 hrun with ⟨hfront, hparens, hbrackets⟩
      rcases step_eq_error_iff.1 hrefused with ⟨rfl, hzero, rfl⟩ | ⟨rfl, hzero, rfl⟩
      · exact LosesBalance.closeParen front back hcs hfront (by omega)
      · exact LosesBalance.closeBracket front back hcs hfront (by omega)
    · -- a delimiter is open at the end
      rcases e with ⟨delimiter, position⟩
      rcases run_zero_eq_some_iff.1 ((scan_eq_ok_iff offset).1 hscan) with ⟨hcs, hparens, hbrackets⟩
      rcases (finish_eq_error_iff _).1 hfinish with ⟨hopen, hoffset⟩
      subst hoffset
      rcases unclosed?_eq_some_iff.1 hopen with ⟨hpos, rfl⟩ | ⟨hzero, hpos, rfl⟩
      · exact LosesBalance.openParen hcs (by omega)
      · exact LosesBalance.openBracket hcs (by omega) (by omega)
  · intro h
    cases h with
    | closeParen front back hcs hfront hzero =>
      left
      obtain ⟨n, hrun, hparens, -⟩ := exists_run_of_neverNegative hfront
      refine ⟨front, ')', back, n, hcs, hrun, ?_, rfl⟩
      rw [step_eq_error_iff]
      exact Or.inl ⟨rfl, by omega, rfl⟩
    | closeBracket front back hcs hfront hzero =>
      left
      obtain ⟨n, hrun, -, hbrackets⟩ := exists_run_of_neverNegative hfront
      refine ⟨front, ']', back, n, hcs, hrun, ?_, rfl⟩
      rw [step_eq_error_iff]
      exact Or.inr ⟨rfl, by omega, rfl⟩
    | openParen hcs hopen =>
      right
      obtain ⟨n, hrun, hparens, -⟩ := exists_run_of_neverNegative hcs
      refine ⟨n, (scan_eq_ok_iff offset).2 hrun, ?_⟩
      rw [finish_eq_error_iff, unclosed?_eq_some_iff]
      exact ⟨Or.inl ⟨by omega, rfl⟩, rfl⟩
    | openBracket hcs hclosed hopen =>
      right
      obtain ⟨n, hrun, hparens, hbrackets⟩ := exists_run_of_neverNegative hcs
      refine ⟨n, (scan_eq_ok_iff offset).2 hrun, ?_⟩
      rw [finish_eq_error_iff, unclosed?_eq_some_iff]
      exact ⟨Or.inr ⟨by omega, by omega, rfl⟩, rfl⟩

/-- A text loses its balance in one place. -/
theorem LosesBalance.unique {e' : Imbalance} (h : LosesBalance offset cs e)
    (h' : LosesBalance offset cs e') : e = e' := by
  rw [← checkBalanced_eq_error_iff] at h h'
  exact Except.error.inj (h.symm.trans h')

/-- A text that is not balanced loses its balance somewhere. -/
theorem exists_losesBalance (offset : Nat) (h : Nesting.run {} cs ≠ some {}) :
    ∃ e, LosesBalance offset cs e := by
  rw [ne_eq, ← checkBalanced_eq_ok_iff offset] at h
  cases hcheck : checkBalanced offset cs with
  | ok => exact absurd hcheck h
  | error e => exact ⟨e, checkBalanced_eq_error_iff.1 hcheck⟩

theorem LosesBalance.not_run (h : LosesBalance offset cs e) : Nesting.run {} cs ≠ some {} := by
  rw [ne_eq, ← checkBalanced_eq_ok_iff offset, checkBalanced_eq_error_iff.2 h]
  simp

/-! ## The offset -/

/-- Behind a text the bytes of the next character come. -/
theorem getElem?_utf8Bytes_append (as cs : List Char) (c : Char) :
    (utf8Bytes (as ++ c :: cs))[utf8Size as]? = (String.utf8EncodeChar c)[0]? := by
  have hpos : 0 < (String.utf8EncodeChar c).length := by
    rw [String.length_utf8EncodeChar]
    exact Char.utf8Size_pos c
  rw [utf8Bytes_append, utf8Bytes_cons, ← length_utf8Bytes as,
    List.getElem?_append_right (Nat.le_refl _), Nat.sub_self, List.getElem?_append_left hpos]

theorem LosesBalance.offset_le (h : LosesBalance offset cs e) : offset ≤ e.offset := by
  cases h with
  | closeParen | closeBracket | openParen | openBracket => exact Nat.le_add_right _ _

/-- A closing delimiter that is refused stands at the offset that is reported. -/
theorem LosesBalance.byte_at (h : LosesBalance (utf8Size as) cs e)
    (hclose : e.delimiter = .closeParen ∨ e.delimiter = .closeBracket) :
    (utf8Bytes (as ++ cs))[e.offset]? = some e.delimiter.toChar.toUInt8 := by
  cases h with
  | closeParen front back hcs =>
    subst hcs
    rw [← List.append_assoc, ← utf8Size_append, getElem?_utf8Bytes_append]
    rfl
  | closeBracket front back hcs =>
    subst hcs
    rw [← List.append_assoc, ← utf8Size_append, getElem?_utf8Bytes_append]
    rfl
  | openParen => exact absurd hclose (by simp)
  | openBracket => exact absurd hclose (by simp)

end AbiSig
