import AbiSig.Digest
import AbiSig.Proofs.Text.Trimming
import Mathlib.Data.List.Forall2

/-!
# Retyped digits

Whoever types the printed form of bytes again may leave the mark out or write it `0X`, and may type
each letter among the digits small or capital (`Retypes`). All of these texts are read back as the
bytes that were printed.

1. **One digit**: the digit of a half byte is a single byte of text with that half as its value, in
   both cases (`IsDigit.read`).
2. **All digits**: by induction over the bytes, two digits for each of them (`Digits.read`). They are
   digits for no other bytes (`Digits.inj`).
3. **The whole text**: nothing is trimmed from it, and digits do not look like a mark
   (`dropMark_of_retypes`). So the bytes are read back if there are as many as are asked for
   (`parse_of_retypes`), and otherwise the text is rejected (`parse_of_retypes_of_ne`).
-/

namespace AbiSig.Hex

open Text

/-- The second text has the characters of the first one, each in its own case or as a capital. -/
def LetterCase (printed typed : List Char) : Prop :=
  List.Forall₂ (fun c d => d = c ∨ d = c.toUpper) printed typed

/-- The marks that can stand before the digits. -/
def marks : List (List Char) :=
  [[], ['0', 'x'], ['0', 'X']]

/-- The text that was typed is a mark, and the printed digits in any letter case. -/
def Retypes (printed typed : List Char) : Prop :=
  ∃ digits, printed = '0' :: 'x' :: digits ∧
    ∃ mark ∈ marks, ∃ retyped, LetterCase digits retyped ∧ typed = mark ++ retyped

/-! ## One digit -/

/-- The character is the digit of the half byte `k`, small or capital. -/
def IsDigit (k : Nat) (d : Char) : Prop :=
  d = Nat.digitChar k ∨ d = (Nat.digitChar k).toUpper

/-- What is to be known of the sixteen digits. -/
theorem digit_table : ∀ k < 16, ∀ d ∈ [Nat.digitChar k, (Nat.digitChar k).toUpper],
    (String.utf8EncodeChar d).map digitValue? = [some (UInt8.ofNat k)] ∧
      isBlank d = false ∧ d ≠ 'x' ∧ d ≠ 'X' := by
  decide

variable {k : Nat} {d : Char} {bytes : List UInt8} {text digits : List Char}

theorem IsDigit.mem_table (h : IsDigit k d) :
    d ∈ [Nat.digitChar k, (Nat.digitChar k).toUpper] := by
  rcases h with rfl | rfl
  · exact List.mem_cons_self
  · exact List.mem_cons_of_mem _ List.mem_cons_self

/-- A digit is one byte of text, and has the value that it stands for. -/
theorem IsDigit.read (h : IsDigit k d) (hk : k < 16) :
    ∃ b, String.utf8EncodeChar d = [b] ∧ digitValue? b = some (UInt8.ofNat k) := by
  have htable := (digit_table k hk d h.mem_table).1
  rcases List.map_eq_singleton_iff.1 htable with ⟨b, hb, hvalue⟩
  exact ⟨b, hb, hvalue⟩

/-- A digit is neither a blank nor the letter of a mark. -/
theorem IsDigit.plain (h : IsDigit k d) (hk : k < 16) : isBlank d = false ∧ d ≠ 'x' ∧ d ≠ 'X' :=
  (digit_table k hk d h.mem_table).2

/-- A digit has one value. -/
theorem IsDigit.inj {j : Nat} (h : IsDigit j d) (hj : j < 16) (h' : IsDigit k d) (hk : k < 16) :
    j = k := by
  have htable : ∀ j < 16, ∀ k < 16, ∀ d ∈ [Nat.digitChar j, (Nat.digitChar j).toUpper],
      d ∈ [Nat.digitChar k, (Nat.digitChar k).toUpper] → j = k := by
    decide +kernel
  exact htable j hj k hk d h.mem_table h'.mem_table

/-! ## All digits -/

/-- Texts of digits for bytes, the high half of a byte first. -/
inductive Digits : List UInt8 → List Char → Prop where
  | nil : Digits [] []
  | cons {b : UInt8} {high low : Char} {bytes : List UInt8} {digits : List Char}
      (hhigh : IsDigit (b.toNat / 16) high) (hlow : IsDigit (b.toNat % 16) low)
      (rest : Digits bytes digits) : Digits (b :: bytes) (high :: low :: digits)

/-- What is printed for bytes, in any letter case, are digits for these bytes. -/
theorem Digits.of_letterCase (h : LetterCase (encode bytes) digits) : Digits bytes digits := by
  induction bytes generalizing digits with
  | nil =>
    cases h
    exact .nil
  | cons b bytes ih =>
    -- the two digits of the first byte come first
    rcases h with _ | ⟨hhigh, _ | ⟨hlow, hrest⟩⟩
    exact .cons hhigh hlow (ih hrest)

/-- Digits are digits for one list of bytes. -/
theorem Digits.inj {bytes' : List UInt8} (h : Digits bytes digits) (h' : Digits bytes' digits) :
    bytes = bytes' := by
  induction h generalizing bytes' with
  | nil =>
    cases h'
    rfl
  | @cons b _ _ _ _ hhigh hlow _ ih =>
    cases h' with
    | @cons b' _ _ _ _ hhigh' hlow' rest =>
      have hb : b.toNat < 256 := b.toNat_lt
      have hb' : b'.toNat < 256 := b'.toNat_lt
      have hdiv := hhigh.inj (by omega) hhigh' (by omega)
      have hmod := hlow.inj (by omega) hlow' (by omega)
      have hsame : b = b' := UInt8.toNat_inj.1 (by omega)
      rw [hsame, ih rest]

/-- The two halves of a byte make up the byte. -/
theorem byte_of_halves (b : UInt8) :
    16 * UInt8.ofNat (b.toNat / 16) + UInt8.ofNat (b.toNat % 16) = b := by
  have hb : b.toNat < 256 := b.toNat_lt
  apply UInt8.toNat_inj.1
  rw [UInt8.toNat_add, UInt8.toNat_mul, UInt8.toNat_ofNat', UInt8.toNat_ofNat']
  simp only [UInt8.reduceToNat]
  omega

/-- Digits for bytes are read as these bytes: there are two for each, none is bad, and joined they
give the bytes. -/
theorem Digits.read (h : Digits bytes digits) (position : Nat) :
    (utf8Bytes digits).length = 2 * bytes.length ∧
      firstBadDigit? position (utf8Bytes digits) = none ∧
      joinDigits (utf8Bytes digits) = bytes := by
  induction h generalizing position with
  | nil => exact ⟨rfl, rfl, rfl⟩
  | @cons b high low bytes digits hhigh hlow _ ih =>
    have hb : b.toNat < 256 := b.toNat_lt
    obtain ⟨x, hx, hxvalue⟩ := hhigh.read (by omega)
    obtain ⟨y, hy, hyvalue⟩ := hlow.read (by omega)
    obtain ⟨hlength, hgood, hjoin⟩ := ih (position + 2)
    have htext : utf8Bytes (high :: low :: digits) = x :: y :: utf8Bytes digits := by
      rw [utf8Bytes_cons, utf8Bytes_cons, hx, hy]
      rfl
    rw [htext]
    refine ⟨?_, ?_, ?_⟩
    · simp only [List.length_cons, hlength]
      omega
    · simp only [firstBadDigit?, hxvalue, hyvalue]
      exact hgood
    · simp only [joinDigits, hxvalue, hyvalue, Option.getD_some, hjoin]
      rw [byte_of_halves]

/-- If there are as many as are asked for, the bytes are decoded. -/
theorem Digits.decode {n : Nat} {v : Vector UInt8 n} (h : Digits v.toList digits) :
    decode n (utf8Bytes digits) = .ok v := by
  obtain ⟨hlength, hgood, hjoin⟩ := h.read 0
  rw [Vector.length_toList] at hlength
  unfold Hex.decode
  rw [dif_pos hlength]
  split
  · rename_i hbad
    rw [hgood] at hbad
    contradiction
  · congr 1
    apply Vector.toList_inj.1
    exact hjoin

theorem Digits.plain (h : Digits bytes digits) :
    ∀ c ∈ digits, isBlank c = false ∧ c ≠ 'x' ∧ c ≠ 'X' := by
  induction h with
  | nil => exact fun c hc => absurd hc List.not_mem_nil
  | @cons b high low bytes digits hhigh hlow _ ih =>
    have hb : b.toNat < 256 := b.toNat_lt
    intro c hc
    rcases List.mem_cons.1 hc with rfl | hc
    · exact hhigh.plain (by omega)
    · rcases List.mem_cons.1 hc with rfl | hc
      · exact hlow.plain (by omega)
      · exact ih c hc

/-! ## The whole text -/

/-- A text in which no letter of a mark stands has no mark. -/
theorem dropMark_eq_self (h : ∀ c ∈ text, c ≠ 'x' ∧ c ≠ 'X') : dropMark text = text := by
  unfold dropMark
  split
  · exact absurd rfl (h 'x' (by simp)).1
  · exact absurd rfl (h 'X' (by simp)).2
  · rfl

/-- What is left of a retyped text before decoding are digits for the bytes that were printed. -/
theorem dropMark_of_retypes (h : Retypes (hexText bytes).toList text) :
    Digits bytes (dropMark (trim text)) := by
  obtain ⟨printed, hprinted, mark, hmark, digits, hcase, rfl⟩ := h
  have hencode : printed = encode bytes := by
    rw [hexText, String.toList_ofList] at hprinted
    simpa using hprinted.symm
  rw [hencode] at hcase
  have hdigits := Digits.of_letterCase hcase
  have hblank : ∀ m ∈ marks, ∀ c ∈ m, isBlank c = false := by decide
  have htrim : trim (mark ++ digits) = mark ++ digits := by
    apply trim_of_not_isBlank
    intro c hc
    rcases List.mem_append.1 hc with hc | hc
    · exact hblank mark hmark c hc
    · exact (hdigits.plain c hc).1
  have hdrop : dropMark (mark ++ digits) = digits := by
    simp only [marks, List.mem_cons, List.not_mem_nil, or_false] at hmark
    rcases hmark with rfl | rfl | rfl
    · -- without a mark, no digit may be taken for one
      exact dropMark_eq_self fun c hc => (hdigits.plain c hc).2
    · rfl
    · rfl
  rw [htrim, hdrop]
  exact hdigits

/-- If as many bytes are asked for as were printed, these bytes are read. -/
theorem parse_of_retypes {n : Nat} {v : Vector UInt8 n}
    (h : Retypes (hexText v.toList).toList text) : parse n text = .ok v :=
  (dropMark_of_retypes h).decode

/-- If more or fewer bytes are asked for, the text is rejected. -/
theorem parse_of_retypes_of_ne {n : Nat} (h : Retypes (hexText bytes).toList text)
    (hn : bytes.length ≠ n) : ∃ fault, parse n text = .error fault := by
  obtain ⟨hlength, -, -⟩ := (dropMark_of_retypes h).read 0
  unfold parse decode
  rw [dif_neg (by omega)]
  exact ⟨_, rfl⟩

end AbiSig.Hex
