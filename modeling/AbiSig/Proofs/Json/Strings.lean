import AbiSig.Json
import AbiSig.Proofs.Hex.Retyped

/-!
# What a JSON string says

A text in a JSON string stands between quotes, and some of its characters are escaped. `StringBody` has
one constructor for each way in which JSON allows a character to be written.

* `isString_quote`: `quote` writes a string for every text;
* `IsString.inj`: a string says one text and no other;
* `IsString.le_toNat_of_mem`: a string has no controls in it, so it stands on one line.
-/

namespace AbiSig.Json

open Hex

/-- The characters that are written by a backslash and one more character, each behind this one. -/
def shortEscapes : List (Char × Char) :=
  [('"', '"'), ('\\', '\\'), ('/', '/'), ('b', Char.ofNat 0x08), ('f', Char.ofNat 0x0C), ('n', '\n'),
   ('r', '\r'), ('t', '\t')]

/-- The text is written as `body` between the quotes of a string: each character as it is, or by a short
escape, or by the four digits of its code point. -/
inductive StringBody : List Char → List Char → Prop where
  | nil : StringBody [] []
  | plain {c : Char} {text body : List Char} (hc : 0x20 ≤ c.toNat) (hquote : c ≠ '"')
      (hbackslash : c ≠ '\\') (rest : StringBody text body) : StringBody (c :: text) (c :: body)
  | short {sign c : Char} {text body : List Char} (hc : (sign, c) ∈ shortEscapes)
      (rest : StringBody text body) : StringBody (c :: text) ('\\' :: sign :: body)
  | code {c d₃ d₂ d₁ d₀ : Char} {text body : List Char} (hc : c.toNat < 0x10000)
      (h₃ : IsDigit (c.toNat / 0x1000) d₃) (h₂ : IsDigit (c.toNat / 0x100 % 16) d₂)
      (h₁ : IsDigit (c.toNat / 0x10 % 16) d₁) (h₀ : IsDigit (c.toNat % 16) d₀)
      (rest : StringBody text body) : StringBody (c :: text) ('\\' :: 'u' :: d₃ :: d₂ :: d₁ :: d₀ :: body)

/-- The string says the text. -/
def IsString (s : String) (text : List Char) : Prop :=
  ∃ body, StringBody text body ∧ s.toList = '"' :: (body ++ ['"'])

variable {c d : Char} {s : String} {text text' body : List Char}

/-! ## Reading -/

/-- A text between quotes says one text. -/
theorem StringBody.inj (h : StringBody text body) (h' : StringBody text' body) : text = text' := by
  have hfunctional : ∀ e ∈ shortEscapes, ∀ e' ∈ shortEscapes, e.1 = e'.1 → e.2 = e'.2 := by decide
  have hcode : ∀ e ∈ shortEscapes, e.1 ≠ 'u' := by decide
  induction h generalizing text' with
  | nil =>
    cases h'
    rfl
  | plain _ _ hbackslash _ ih =>
    cases h' with
    | plain _ _ _ rest => rw [ih rest]
    | short => exact absurd rfl hbackslash
    | code => exact absurd rfl hbackslash
  | @short _ c _ _ hc _ ih =>
    cases h' with
    | plain _ _ hbackslash => exact absurd rfl hbackslash
    | @short _ c' _ _ hc' rest =>
      have hsame : c = c' := hfunctional _ hc _ hc' rfl
      rw [ih rest, hsame]
    | code => exact absurd rfl (hcode _ hc)
  | @code c _ _ _ _ _ _ hc h₃ h₂ h₁ h₀ _ ih =>
    cases h' with
    | plain _ _ hbackslash => exact absurd rfl hbackslash
    | short hc' => exact absurd rfl (hcode _ hc')
    | @code c' _ _ _ _ _ _ hc' h₃' h₂' h₁' h₀' rest =>
      -- the four digits make up the code point
      have hthird := h₃.inj (by omega) h₃' (by omega)
      have hsecond := h₂.inj (by omega) h₂' (by omega)
      have hfirst := h₁.inj (by omega) h₁' (by omega)
      have hlast := h₀.inj (by omega) h₀' (by omega)
      have hsame : c = c' := Char.toNat_inj.1 (by omega)
      rw [ih rest, hsame]

/-- A string says one text. -/
theorem IsString.inj (h : IsString s text) (h' : IsString s text') : text = text' := by
  obtain ⟨body, hbody, hs⟩ := h
  obtain ⟨body', hbody', hs'⟩ := h'
  rw [hs, List.cons.injEq, List.append_cancel_right_eq] at hs'
  obtain ⟨-, rfl⟩ := hs'
  exact hbody.inj hbody'

theorem StringBody.le_toNat_of_mem (h : StringBody text body) (hd : d ∈ body) : 0x20 ≤ d.toNat := by
  have hsign : ∀ e ∈ shortEscapes, 0x20 ≤ e.1.toNat := by decide
  have hdigit : ∀ k < 16, ∀ d ∈ [Nat.digitChar k, (Nat.digitChar k).toUpper], 0x20 ≤ d.toNat := by
    decide
  induction h with
  | nil => contradiction
  | plain hc _ _ _ ih =>
    rcases List.mem_cons.1 hd with rfl | hd
    · exact hc
    · exact ih hd
  | short hc _ ih =>
    simp only [List.mem_cons] at hd
    rcases hd with rfl | rfl | hd
    · decide
    · exact hsign _ hc
    · exact ih hd
  | code hc h₃ h₂ h₁ h₀ _ ih =>
    simp only [List.mem_cons] at hd
    rcases hd with rfl | rfl | rfl | rfl | rfl | rfl | hd
    · decide
    · decide
    · exact hdigit _ (by omega) _ h₃.mem_table
    · exact hdigit _ (by omega) _ h₂.mem_table
    · exact hdigit _ (by omega) _ h₁.mem_table
    · exact hdigit _ (by omega) _ h₀.mem_table
    · exact ih hd

theorem IsString.le_toNat_of_mem (h : IsString s text) (hd : d ∈ s.toList) : 0x20 ≤ d.toNat := by
  obtain ⟨body, hbody, hs⟩ := h
  simp only [hs, List.mem_cons, List.mem_append, List.not_mem_nil, or_false] at hd
  rcases hd with rfl | hd | rfl
  · decide
  · exact hbody.le_toNat_of_mem hd
  · decide

/-! ## Writing -/

theorem StringBody.escaped_append (rest : StringBody text body) (c : Char) :
    StringBody (c :: text) (escaped c ++ body) := by
  unfold escaped
  -- the escapes come one after the other
  iterate 7
    split
    · next hc => exact .short (by simp [shortEscapes, hc]) rest
  next hquote hbackslash _ _ _ _ _ =>
  split
  · next hcontrol =>
    -- a control has two digits at most
    have hbyte : (UInt8.ofNat c.toNat).toNat = c.toNat := by
      rw [UInt8.toNat_ofNat', Nat.mod_eq_of_lt (by omega)]
    have hzero (m : Nat) (hm : m = 0) : IsDigit m '0' := by
      rw [hm]
      exact Or.inl rfl
    refine .code (by omega) (hzero _ (by omega)) (hzero _ (by omega)) ?_ ?_ rest
    · rw [Nat.mod_eq_of_lt (show c.toNat / 0x10 < 16 by omega), hbyte]
      exact Or.inl rfl
    · rw [hbyte]
      exact Or.inl rfl
  · next hcontrol => exact .plain (by omega) hquote hbackslash rest

theorem isString_quote (text : String) : IsString (quote text) text.toList := by
  have hbody (cs : List Char) : StringBody cs (cs.flatMap escaped) := by
    induction cs with
    | nil => exact .nil
    | cons c cs ih => exact ih.escaped_append c
  refine ⟨text.toList.flatMap escaped, hbody _, ?_⟩
  rw [quote, String.toList_ofList]
  rfl

end AbiSig.Json
