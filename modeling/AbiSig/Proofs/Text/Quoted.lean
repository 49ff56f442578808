import AbiSig.Text.Quoted
import Mathlib.Data.Nat.Notation

/-!
# What a quoted character looks like

`quoted` shows a character below 256 in a message. `Quotation` says how, without it: a character that
leaves a mark stands between apostrophes as it is, six characters are written by a backslash and a
sign, and any other by its code point. `quotation_quoted` is that `quoted` writes this form, and
`Quotation.inj` that the form tells which character is meant.
-/

namespace AbiSig.Text

/-- The characters that are written by a backslash and a sign, each behind its sign. -/
def shortForms : List (Char × Char) :=
  [('0', Char.ofNat 0), ('t', '\t'), ('n', '\n'), ('r', '\r'), ('\\', '\\'),
   (Char.ofNat 0x27, Char.ofNat 0x27)]

/-- The text shows the character between apostrophes. -/
inductive Quotation (c : Char) : List Char → Prop where
  | plain (hvisible : 0x20 ≤ c.toNat ∧ c.toNat < 0x7F ∨ 0xA0 < c.toNat ∧ c.toNat ≠ 0xAD)
      (hlong : ∀ form ∈ shortForms, form.2 ≠ c) : Quotation c [Char.ofNat 0x27, c, Char.ofNat 0x27]
  | short {sign : Char} (hshort : (sign, c) ∈ shortForms) :
      Quotation c [Char.ofNat 0x27, '\\', sign, Char.ofNat 0x27]
  | code (hinvisible : c.toNat < 0x20 ∨ 0x7F ≤ c.toNat ∧ c.toNat ≤ 0xA0 ∨ c.toNat = 0xAD)
      (hlong : ∀ form ∈ shortForms, form.2 ≠ c) :
      Quotation c (Char.ofNat 0x27 :: '\\' :: 'u' :: '\x7b' ::
        (Nat.toDigits 16 c.toNat ++ ['\x7d', Char.ofNat 0x27]))

variable {c c' : Char} {text : List Char}

theorem quotation_quoted (c : Char) : Quotation c (quoted c) := by
  unfold quoted escaped
  iterate 6
    split
    · next hc => exact .short (by simp [shortForms, hc, apostrophe])
  next h0 ht hn hr hbackslash hquote =>
  have hlong : ∀ form ∈ shortForms, form.2 ≠ c := by
    simp only [shortForms, List.forall_mem_cons]
    exact ⟨Ne.symm h0, Ne.symm ht, Ne.symm hn, Ne.symm hr, Ne.symm hbackslash, Ne.symm hquote, by simp⟩
  split
  · next hinvisible =>
    simp only [isInvisible, Bool.or_eq_true, Bool.and_eq_true, decide_eq_true_eq, beq_iff_eq] at hinvisible
    have hform := Quotation.code (c := c) (by omega) hlong
    simpa [apostrophe] using hform
  · next hvisible =>
    simp only [isInvisible, Bool.or_eq_true, Bool.and_eq_true, decide_eq_true_eq, beq_iff_eq] at hvisible
    exact .plain (by omega) hlong

/-- Code points below 256 are read back from their digits. -/
theorem toDigits_inj {j k : Nat} (hj : j < 256) (hk : k < 256)
    (h : Nat.toDigits 16 j = Nat.toDigits 16 k) : j = k := by
  have hread : ∀ k < 256, (Nat.toDigits 16 k).foldl
      (fun value digit => 16 * value + "0123456789abcdef".toList.idxOf digit) 0 = k := by
    decide +kernel
  rw [← hread j hj, h, hread k hk]

/-- A quotation tells which character it shows. -/
theorem Quotation.inj (hc : c.toNat < 256) (hc' : c'.toNat < 256) (h : Quotation c text)
    (h' : Quotation c' text) : c = c' := by
  have hfunctional : ∀ form ∈ shortForms, ∀ form' ∈ shortForms, form.1 = form'.1 → form.2 = form'.2 := by
    decide
  cases h with
  | plain =>
    generalize htext : [Char.ofNat 0x27, c, Char.ofNat 0x27] = text at h'
    cases h' with
    | plain => simpa using htext
    | short => simp at htext
    | code => simp at htext
  | @short sign hshort =>
    generalize htext : [Char.ofNat 0x27, '\\', sign, Char.ofNat 0x27] = text at h'
    cases h' with
    | plain => simp at htext
    | @short sign' hshort' =>
      have hsign : sign = sign' := by simpa using htext
      exact hfunctional _ hshort _ hshort' hsign
    | code => simp at htext
  | code =>
    generalize htext : Char.ofNat 0x27 :: '\\' :: 'u' :: '\x7b' ::
      (Nat.toDigits 16 c.toNat ++ ['\x7d', Char.ofNat 0x27]) = text at h'
    cases h' with
    | plain => simp at htext
    | short => simp at htext
    | code =>
      have hdigits : Nat.toDigits 16 c.toNat = Nat.toDigits 16 c'.toNat := by simpa using htext
      exact Char.toNat_inj.1 (toDigits_inj hc hc' hdigits)

end AbiSig.Text
